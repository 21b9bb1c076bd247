import BlackBull.Qos2Exchanges

/-!
# Exactly once

The messages that do not belong to an exchange leave it open or end the session, and
so an exchange is open exactly while the session holds its packet identifier. Every
run counts each message once.
-/

namespace BlackBull.Mqtt

def Retains (clientId : Text) (s t : Broker) : Prop :=
  t.sessions.get? clientId=none ∨
    ∀ packetId,t.holds clientId packetId=s.holds clientId packetId

variable {s t : Broker} {pid : ℕ} {c : Conn} {xs : Exchanges} {n : Text}
  {cn : MQTTConnect} (lim : Limits)

theorem unexpired_get? (hs : Sound s) (now : ℚ) (id : Text) : (s.unexpired now).get? id=none ∨
      (s.unexpired now).get? id=s.sessions.get? id := by
  cases hg : (s.unexpired now).get? id with
  | none => exact .inl rfl
  | some ss =>
    right
    exact (Dict.get?_of_mem hs.keys (List.mem_of_mem_filter (Dict.mem_of_get? hg))).symm

theorem holds_of_sessions {id : Text} (h : t.sessions.get? id=s.sessions.get? id) (pid : ℕ) :
    t.holds id pid=s.holds id pid := by
  rw [Broker.holds,Broker.holds,get?_pendingQos2In,get?_pendingQos2In,h]

theorem retains_of_unexpired (hs : Sound s) {now : ℚ} (id : Text)
    (h : t.sessions=s.unexpired now) : Retains id s t := by
  rcases unexpired_get? hs now id with hg | hsa
  · exact .inl (by rw [h,hg])
  · exact .inr (holds_of_sessions (by rw [h,hsa]))

theorem Harmless.retains {now : ℚ} (h : Harmless now s t) (hs : Sound s) (id : Text) :
    Retains id s t := by
  rcases h.sessions with hsa | hsw
  · exact .inr (holds_of_sessions (by rw [hsa]))
  · exact retains_of_unexpired hs id hsw

/-- Retained and routed messages do not matter. -/
def Untouched (s t : Broker) : Prop := t.standing.pendingQos2In=s.standing.pendingQos2In

instance : IsPreorder Broker Untouched where
  refl _ := rfl
  trans _ _ _ hab hbc := hbc.trans hab

theorem publishWill_untouched (w : MQTTPublish) : Sustains Sound Untouched (publishWill lim w) := by
  have hr : Sustains Sound Untouched (route lim w none) := by
    intro s hs
    refine (route_ensures lim w none hs).imp fun _ t ht => ⟨ht.1,?_⟩
    rw [Untouched,ht.2.standing]
    rfl
  have hst : Sustains Sound Untouched (storeRetained lim w) := by
    intro s hs
    refine (storeRetained_ensures lim w s).imp fun _ t ht => ?_
    obtain ⟨⟨r,rfl⟩,-⟩ := ht
    exact ⟨hs.of_sessions rfl,rfl⟩
  exact Sustains.ite (hst.bind fun _ => hr) hr

theorem takeWill_untouched (id : Text) (g : Bool) :
    Sustains Sound Untouched (takeWill lim id g) := by
  refine Sustains.get_bind fun s hs => ?_
  dsimp only
  refine Sustains.after ?_ fun _ => ?_
  · exact ⟨hs.of_sessions rfl,rfl⟩
  · cases s.wills.get? id with
    | none => exact Sustains.pure
    | some w => exact Sustains.ite (publishWill_untouched lim w) Sustains.pure

theorem leaveSession_retains (now : ℚ) (l : Text) (sei : Option ℕ) (id : Text) (s : Broker) :
    Succeeds (leaveSession now l sei) s fun _ => Retains id s := by
  rw [Succeeds,leaveSession,ensures_bind,ensures_get]
  cases hs : s.sessions.get? l with
  | none => exact .inr fun _ => rfl
  | some ss =>
    dsimp only
    rw [ensures_ite]
    refine ⟨fun _ => ?_,fun _ => ?_⟩
    · rw [ensures_bind,ensures_modify,ensures_bind,pruneShareRotation,ensures_modify,
        armExpiryTimer,ensures_modify]
      by_cases hc : l=id
      · refine .inl ?_
        change (s.sessions.pop l).get? id=none
        rw [Dict.get?_pop,if_pos hc]
      · refine .inr (holds_of_sessions ?_)
        change (s.sessions.pop l).get? id=_
        rw [Dict.get?_pop,if_neg hc]
    · have hh : ∀ lt : Session,lt.pendingQos2In=ss.pendingQos2In →
          Broker.standing {s with sessions:=s.sessions.set l lt}=s.standing :=
        fun lt hl => standing_setSession s hs hl
      have hr : ∀ t : Broker,t.standing=s.standing → Retains id s t :=
        fun t ht => .inr (holds_of_pending (congrArg Standing.pendingQos2In ht) id)
      rw [ensures_bind,setSession,ensures_modify,ensures_ite]
      exact ⟨fun _ => hr _ (hh _ rfl),fun _ => hr _ (hh _ rfl)⟩

theorem onDetach_retains (c : Conn) (now : ℚ) (g : Bool)
    (sei : Option ℕ) (cid : Text) (hs : Sound s) : Succeeds (onDetach lim c now g sei) s
      fun _ => Retains cid s := by
  rw [Succeeds,onDetach,ensures_bind,ensures_get]
  cases s.clientByConn.get? c with
  | none => exact .inr fun _ => rfl
  | some l =>
    have hf : ∀ t : Broker,t.sessions=s.sessions → Succeeds (takeWill lim l g >>= fun _ =>
            leaveSession now l sei) t fun _ => Retains cid s := by
      intro t hse
      rw [Succeeds,ensures_bind]
      refine (takeWill_untouched lim l g t (hs.of_sessions hse)).imp fun _ u hu => ?_
      refine (leaveSession_retains now l sei cid u).imp fun _ v hv => hv.imp_right fun hh pid => ?_
      rw [hh pid,holds_of_pending hu.2]
      exact holds_of_sessions (by rw [hse]) pid
    dsimp only
    rw [ensures_bind,forgetConn,ensures_bind,ensures_modify,ensures_bind,ensures_get,ensures_ite]
    exact ⟨fun _ => hf _ rfl,fun _ => hf _ rfl⟩

theorem sweepExpired_retains (now : ℚ) (cid : Text) (hs : Sound s) :
    Succeeds (sweepExpired now) s fun _ => Retains cid s := by
  refine (sweepExpired_ensures hs now).imp fun _ t ht => ?_
  obtain ⟨r,tm,rfl⟩ := ht
  exact retains_of_unexpired hs cid rfl

theorem tracked_retains {id : Text} (h : Tracked id pid s xs) (hr : Retains id s t) :
    Tracked id pid t (if t.sessions.get? id=none then xs.close else xs) := by
  split
  · next hg => exact h.close (holds_of_eq_none pid hg)
  · next ht => exact h.of_holds ((hr.resolve_left ht) pid)

theorem findSome?_connack {m : MQTTConnack} {a l : List (Conn × Outgoing)}
    (hf : ∀ i∈a,i.1≠c) (hs : m.reasonCode=ReasonCode.success) :
    (a++(c,.send (.connack m))::l).findSome? (connackPresent c) =
      some m.sessionPresent := by
  have hn : a.findSome? (connackPresent c)=none := by
    refine List.findSome?_eq_none_iff.mpr fun i hm => ?_
    have hne := hf i hm
    unfold connackPresent
    split
    · exact if_neg fun h => hne h.1
    · rfl
  rw [List.findSome?_append,hn,Option.none_or,List.findSome?_cons]
  simp [connackPresent,hs]

theorem renews_of_attaches {lim : Limits} {id : Text} {ss : Dict Text Session}
    (h : Attaches lim c n cn {s with sessions:=ss} t) :
    renews id s c t=(n=id &&
      !(Broker.resume {s with sessions:=ss} n cn).2) := by
  obtain ⟨a,later,hs,hf,-⟩ := h.sent
  have hr : replies s t=_ := replies_of_append hs
  rw [renews,h.clientByConn,hr,findSome?_connack hf rfl]
  simp [acceptedConnack]

theorem renews_of_refuses {now : ℚ} (h : Refuses c now s t) {id : Text} :
    renews id s c t=false := by
  obtain ⟨rc,hc,hs⟩ := h.sent
  rw [renews,replies_of_append hs]
  simp [connackPresent,hc]

theorem get?_of_attaches {lim : Limits} (h : Attaches lim c n cn s t) (id : Text) :
    (t.sessions.get? id).map Session.pendingQos2In =
      if n=id then some (s.resume n cn).1.pendingQos2In
      else (s.sessions.get? id).map Session.pendingQos2In := by
  rw [← get?_pendingQos2In,h.pendingQos2In,Dict.get?_set,get?_pendingQos2In]

theorem tracked_attaches {lim : Limits} {now : ℚ} {id : Text} (hs : Sound s)
    (h : Tracked id pid s xs) (ha : Attaches lim c n cn {s with sessions:=s.unexpired now} t) :
    Tracked id pid t (if t.sessions.get? id=none ∨ renews id s c t=true then xs.close
      else xs) := by
  have hg := get?_of_attaches ha id
  rw [renews_of_attaches ha]
  have hsw := unexpired_get? hs now id
  by_cases hn : n=id
  · subst hn
    rw [if_pos rfl] at hg
    obtain ⟨ss,hse,hp⟩ := Option.map_eq_some_iff.mp hg
    have hh := holds_of_get?_eq_some hse pid
    rw [hp] at hh
    unfold Broker.resume at hh ⊢
    cases hr : (s.unexpired now).get? n with
    | none =>
      simp only [hr] at hh ⊢
      rw [if_pos (.inr (by simp))]
      exact h.close hh
    | some e =>
      rw [hr] at hsw
      have hb := holds_of_get?_eq_some (hsw.resolve_left (Option.some_ne_none _)).symm pid
      cases hc : cn.cleanStart with
      | true =>
        simp only [hr,hc,if_true] at hh ⊢
        rw [if_pos (.inr (by simp))]
        exact h.close hh
      | false =>
        simp only [hr,hc,Bool.false_eq_true,if_false] at hh ⊢
        rw [if_neg (by simp [hse])]
        exact h.of_holds (hh.trans hb.symm)
  · rw [if_neg hn] at hg
    have hre : Retains id s t := by
      rcases hsw with hgo | hsa
      · change _=((s.unexpired now).get? id).map Session.pendingQos2In at hg
        rw [hgo] at hg
        exact .inl (Option.map_eq_none_iff.mp hg)
      · change _=((s.unexpired now).get? id).map Session.pendingQos2In at hg
        refine .inr fun o => ?_
        rw [Broker.holds,Broker.holds,get?_pendingQos2In,get?_pendingQos2In,hg,hsa]
    simpa [hn] using tracked_retains h hre

theorem ensures_tracked_of_serves {x : Handler Unit} {id : Text} (hs : Sound s)
    (h : Tracked id pid s xs) (hx : Sustains Sound Serves x)
    {r : Failure → Broker → Prop} : Ensures x s (fun _ t => Tracked id pid t
      (if t.sessions.get? id=none then xs.close else xs)) r :=
  (hx s hs).total fun _ _ ht => tracked_retains h (.inr (ht.2.holds id))

theorem receive_tracked (a : Arrival × ℚ) {id : Text} {w : Observed Exchanges} (hs : Sound w.broker)
    (h : Tracked id pid w.broker w.notes) (ho : orderly lim id pid w a=true) :
    Ensures (receive lim a) w.broker (fun _ t => Tracked id pid t
        (noteExchange id pid w.broker a.1 t w.notes))
      (fun _ t => ∀ ta∈(noteExchange id pid w.broker a.1 t w.notes).all,
        ta.ExactlyOnce) := by
  unfold receive noteExchange
  unfold orderly at ho
  cases hm : a.1.message with
  | none => exact h
  | some f =>
    obtain ⟨c,m⟩ := f
    rw [hm] at ho
    dsimp only at ho ⊢
    cases m with
    | attach cn =>
      refine (onAttach_ensures lim c a.2 (windowFits_of_message hm) hs).mono
        (fun _ t ht => ?_) fun _ t _ => ?_
      · rcases ht.2 with ⟨-,hr⟩ | ⟨-,-,ha⟩
        · dsimp only
          rw [renews_of_refuses hr]
          simpa using tracked_retains h (hr.harmless.retains hs id)
        · exact tracked_attaches hs h ha
      · dsimp only
        split <;> exact h.all
    | clientPublish pub =>
      dsimp only at ho ⊢
      split at ho
      · next hc =>
        simp only [hc,if_true]
        exact (onPublish_concludes lim c pub hs hc).total
          fun _ t ht => tracked_publish h ho ht
      · next hot =>
        simp only [hot,if_false,Bool.false_eq_true]
        exact (onPublish_holds lim c pub hs (Bool.not_eq_true _ ▸ hot)).total
          fun _ t ht => h.of_holds ht
    | clientPubrel r =>
      refine (onPubrel_holds w.broker c r id pid).total fun _ t ht => ?_
      dsimp only
      split
      · next hou => exact h.close (ht.trans (by simp [hou.1,hou.2]))
      · next hot =>
        have hf : (decide (r=pid) && w.broker.speaksFor c id)=false := by simpa using hot
        exact h.of_holds (ht.trans (by rw [hf,Bool.not_false,Bool.and_true]))
    | detach g i =>
      exact (onDetach_retains lim c a.2 g i id hs).total
        fun _ t ht => tracked_retains h ht
    | sweepExpired =>
      exact (sweepExpired_retains a.2 id hs).total
        fun _ t ht => tracked_retains h ht
    | clientSubscribe su => exact ensures_tracked_of_serves hs h (onSubscribe_sustains lim c su)
    | clientUnsubscribe u => exact ensures_tracked_of_serves hs h (onUnsubscribe_sustains c u)
    | clientPuback ac => exact ensures_tracked_of_serves hs h (onPuback_sustains c ac)
    | clientPubrec ac => exact ensures_tracked_of_serves hs h (onPubrec_sustains c ac)
    | clientPubcomp ac => exact ensures_tracked_of_serves hs h (onPubcomp_sustains c ac)

/-- The exchanges of a live broker are tracked, and all are routed and stored as they should. -/
structure Followed (clientId : Text) (packetId : ℕ) (w : Observed Exchanges) : Prop where
  sound : Sound w.broker
  tracked : w.ended=false → Tracked clientId packetId w.broker w.notes
  all : ∀ tally∈w.notes.all,tally.ExactlyOnce

theorem followed_initial (id : Text) (pid : ℕ) : Followed id pid {notes:={}} where
  sound := sound_initial
  tracked _ := ⟨rfl,by simp,by simp⟩
  all := by simp [Exchanges.all]

/-- The observer of the exchanges of one packet identifier in the session of one client. -/
abbrev follow (limits : Limits) (clientId : Text) (packetId : ℕ) :=
  observe limits (noteExchange clientId packetId)

theorem followed_follow {lim : Limits} {id : Text} {w : Observed Exchanges}
    {a : Arrival × ℚ} (h : Followed id pid w) (ho : orderly lim id pid w a=true) :
    Followed id pid (follow lim id pid w a) := by
  have hso : Sound (follow lim id pid w a).broker := sound_observe a h.sound
  cases he : w.ended with
  | true => rwa [follow,observe_of_ended a he]
  | false =>
    refine observe_of_ensures (fun w' => Sound w'.broker → Followed id pid w') he ?_ hso
    exact (receive_tracked lim a h.sound (h.tracked he) ho).mono
      (fun _ _ ht hs => ⟨hs,fun _ => ht,ht.all⟩)
      fun _ _ ht hs => ⟨hs,Bool.noConfusion,ht⟩

/-- In every run, each exchange of a packet identifier is routed at most once, once if it was
acknowledged with success, and changes the retained messages at most once, as long as a first
PUBLISH that is to be retained finds room and a repeated one has a valid topic name and is not to
be retained. -/
theorem exchanges_exactlyOnce (limits : Limits) (clientId : Text) (packetId : ℕ)
    (arrivals : List (Arrival × ℚ))
    (h : Along (follow limits clientId packetId)
      (fun w arrival => orderly limits clientId packetId w arrival=true) {notes:={}}
      arrivals) :
    ∀ tally∈(run (follow limits clientId packetId) {notes:={}} arrivals).notes.all,
      tally.ExactlyOnce :=
  (h.invariant (fun _ _ hw horderly => followed_follow hw horderly)
    (followed_initial clientId packetId)).all

def qos2Publish (firstByte : UInt8) : Bytes :=
  [firstByte,0x07,0x00,0x01,0x74,0x00,0x01,0x00,0x78]

def twoExchanges : List (Arrival × ℚ) :=
  [(.octets 1 (connectAs [0x61]),0),(.octets 1 (qos2Publish 0x34),0),
    (.octets 1 (qos2Publish 0x3C),0),(.octets 1 [0x62,0x02,0x00,0x01],0),
    (.octets 1 (qos2Publish 0x34),0)]

theorem exchanges_exactlyOnce_two :
    (run (follow {} ['a'] 1) {notes:={}} twoExchanges).notes.all.length=2 ∧
      ∀ tally∈(run (follow {} ['a'] 1) {notes:={}} twoExchanges).notes.all,
        tally.ExactlyOnce :=
  ⟨by decide +kernel,exchanges_exactlyOnce {} ['a'] 1 _ (by decide +kernel)⟩

/-- A repeated PUBLISH restores the retained message that another client has deleted. After a
PUBREC that refuses to retain, the PUBLISH of the next exchange is acknowledged and not routed; so
it is after a PUBREC that refuses the topic name of a repeated PUBLISH. -/
theorem exchanges_not_exactlyOnce :
    (¬ ∀ tally∈(run (follow {} ['a'] 1) {notes:={}}
      [(.octets 1 (connectAs [0x61]),0),(.octets 1 (qos2Publish 0x35),0),
        (.octets 2 (connectAs [0x62]),0),(.octets 2 [0x31,0x04,0x00,0x01,0x74,0x00],0),
        (.octets 1 (qos2Publish 0x3D),0)]).notes.all,tally.ExactlyOnce) ∧
    (¬ ∀ tally∈(run (follow {maxRetained:=1} ['a'] 1) {notes:={}}
      [(.octets 1 (connectAs [0x61]),0),(.octets 1 [0x31,0x05,0x00,0x01,0x75,0x00,0x78],0),
        (.octets 1 (qos2Publish 0x35),0),(.octets 1 (qos2Publish 0x34),0)]).notes.all,
      tally.ExactlyOnce) ∧
    ¬ ∀ tally∈(run (follow {} ['a'] 1) {notes:={}}
      [(.octets 1 (connectAs [0x61]),0),(.octets 1 (qos2Publish 0x34),0),
        (.octets 1 [0x3C,0x07,0x00,0x01,0x23,0x00,0x01,0x00,0x78],0),
        (.octets 1 (qos2Publish 0x34),0)]).notes.all,tally.ExactlyOnce := by
  decide +kernel

end BlackBull.Mqtt
