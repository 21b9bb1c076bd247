import BlackBull.BrokerDelivery

/-!
# What the broker's handlers keep

A handler that does not attach or detach a client returns on every sound state.
Most of them serve; the others leave the connections as they are.
-/

namespace BlackBull.Mqtt

variable {s : Broker} (lim : Limits) (c : Conn) (pid : ℕ)

theorem deliverRetained_sustains (id f : Text) (qos : ℕ) (r : Dict Text MQTTPublish) :
    Sustains Sound Serves (deliverRetained lim c id f qos r) := by
  induction r with
  | nil => exact Sustains.pure
  | cons i rest ih =>
    rw [deliverRetained]
    split
    · exact (deliver_sustains lim c id i.2 qos true).bind fun _ => ih
    · exact ih

theorem subscribeEach_sustains (id : Text) (su : List (Text × ℕ))
    (o : List SubscriptionOptions) (rc : List ℕ) : Sustains Sound Serves
      (subscribeEach lim c id su o rc) := by
  induction su generalizing o rc with
  | nil => exact Sustains.pure
  | cons sub su ih =>
    rw [subscribeEach]
    refine Sustains.ite (ih _ _) (Sustains.ite ?_ (Sustains.get_bind fun s hs => ?_))
    · exact (send_sustains c _ rfl).bind fun _ => (send_sustains c _ rfl).bind fun _ =>
        Sustains.pure
    · cases hse : s.sessions.get? id with
      | none => exact ⟨hs,refl_of Serves s⟩
      | some ss =>
        dsimp only
        rw [Succeeds,ensures_ite]
        refine ⟨fun _ => ih _ _ s hs,fun _ => ?_⟩
        refine Sustains.after (setSession_ensures hs _ hse rfl rfl) fun _ => ?_
        refine Sustains.ite (Sustains.get_bind fun t ht => ?_) (ih _ _)
        exact Sustains.after (deliverRetained_sustains lim c id _ _ _ t ht) fun _ => ih _ _

theorem onSubscribe_sustains (su : MQTTSubscribe) :
    Sustains Sound Serves (onSubscribe lim c su) := by
  refine Sustains.get_bind fun s hs => ?_
  cases s.sessionFor c with
  | none => exact ⟨hs,refl_of Serves s⟩
  | some f =>
    refine Sustains.after (subscribeEach_sustains lim c f.1 _ _ _ s hs) fun an => ?_
    cases an with
    | none => exact Sustains.pure
    | some rc => exact send_sustains c _ rfl

theorem sessionFor_eq_some {c : Conn} {id : Text} {ss : Session} (h : s.sessionFor c=some (id,ss)) :
    s.clientByConn.get? c=some id ∧ s.sessions.get? id=some ss := by
  obtain ⟨a,ha,h⟩ := Option.bind_eq_some_iff.mp h
  obtain ⟨f,hf,h⟩ := Option.map_eq_some_iff.mp h
  obtain ⟨rfl,rfl⟩ := Prod.mk.inj h
  exact ⟨ha,hf⟩

theorem pruneShareRotation_sustains (r : List Text) :
    Sustains Sound Serves (pruneShareRotation r) :=
  modify_sustains (fun _ => rfl) (fun _ => rfl) fun _ => rfl

theorem onUnsubscribe_sustains (u : MQTTUnsubscribe) :
    Sustains Sound Serves (onUnsubscribe c u) := by
  refine Sustains.get_bind fun s hs => ?_
  cases hf : s.sessionFor c with
  | none => exact ⟨hs,refl_of Serves s⟩
  | some f =>
    have hse := (sessionFor_eq_some hf).2
    exact Sustains.after (setSession_ensures hs _ hse rfl rfl) fun _ =>
      (pruneShareRotation_sustains _).bind fun _ => send_sustains c _ rfl

theorem updateSessionFor_sustains {f : Session → Session} (hw : ∀ ss,(f ss).receiveMaximum =
    ss.receiveMaximum) (hp : ∀ ss,(f ss).pendingQos2In=ss.pendingQos2In) :
    Sustains Sound Serves (updateSessionFor c f) := by
  refine Sustains.get_bind fun s hs => ?_
  cases hf : s.sessionFor c with
  | none => exact ⟨hs,refl_of Serves s⟩
  | some fo =>
    have hse := (sessionFor_eq_some hf).2
    exact setSession_ensures hs _ hse (hw fo.2) (hp fo.2)

theorem onPuback_sustains : Sustains Sound Serves (onPuback c pid) := by
  refine Sustains.bind ?_ fun _ => drainOutbound_sustains c
  exact updateSessionFor_sustains c (fun _ => rfl) fun _ => rfl

theorem onPubcomp_sustains : Sustains Sound Serves (onPubcomp c pid) := by
  refine Sustains.bind ?_ fun _ => drainOutbound_sustains c
  exact updateSessionFor_sustains c (fun _ => rfl) fun _ => rfl

theorem onPubrec_sustains : Sustains Sound Serves (onPubrec c pid) :=
  (send_sustains c _ rfl).bind fun _ => updateSessionFor_sustains c (fun _ => rfl) fun _ => rfl

/-- The connections are as they were, and no session is new. -/
structure Stays (s t : Broker) : Prop where
  clientByConn : t.clientByConn=s.clientByConn
  clients : t.clients=s.clients
  answers : Answers s t
  autoSeq : s.autoSeq≤t.autoSeq
  names : ∀ name,s.sessions.get? name=none → t.sessions.get? name=none

instance : IsPreorder Broker Stays where
  refl _ := ⟨rfl,rfl,.of_eq rfl,le_rfl,fun _ => id⟩
  trans _ _ _ hab hbc := ⟨hbc.clientByConn.trans hab.clientByConn,
    hbc.clients.trans hab.clients,hab.answers.trans hbc.answers,hab.autoSeq.trans hbc.autoSeq,
    fun name h => hbc.names name (hab.names name h)⟩

theorem Serves.stays {t : Broker} (h : Serves s t) : Stays s t := by
  refine ⟨congrArg Standing.clientByConn h.standing,congrArg Standing.clients h.standing,h.answers,
    (congrArg Standing.autoSeq h.standing).ge,fun name hn => ?_⟩
  have hp : t.standing.pendingQos2In.get? name=s.standing.pendingQos2In.get? name := by
    rw [h.standing]
  rwa [Broker.standing,Dict.get?_map,Broker.standing,Dict.get?_map,hn,Option.map_none,
    Option.map_eq_none_iff] at hp

theorem setSession_stays {id : Text} {old ss : Session} (hs : Sound s)
    (h : s.sessions.get? id=some old) (hw : ss.receiveMaximum=old.receiveMaximum) :
    Sound {s with sessions:=s.sessions.set id ss} ∧
      Stays s {s with sessions:=s.sessions.set id ss} := by
  refine ⟨hs.setSession id (hw ▸ hs.window h),rfl,rfl,.of_eq rfl,le_rfl,fun name hn => ?_⟩
  rw [Dict.get?_set,if_neg]
  · exact hn
  · rintro rfl
    cases hn.symm.trans h

theorem stays_of_serves {α : Type} {x : Handler α} (hx : Sustains Sound Serves x) :
    Sustains Sound Stays x :=
  hx.mono fun _ _ => Serves.stays

variable (pb : MQTTPublish)

theorem storeRetained_stays : Sustains Sound Stays (storeRetained lim pb) := by
  refine Sustains.get_bind fun s hs => ?_
  rw [Succeeds,ensures_ite]
  refine ⟨fun _ => ⟨hs.of_sessions rfl,rfl,rfl,.of_eq rfl,le_rfl,fun _ => id⟩,fun _ => ?_⟩
  rw [ensures_ite]
  exact ⟨fun _ => ⟨hs,refl_of Stays s⟩,
    fun _ => ⟨hs.of_sessions rfl,rfl,rfl,.of_eq rfl,le_rfl,fun _ => id⟩⟩

theorem route_stays (so : Option Conn) : Sustains Sound Stays (route lim pb so) :=
  fun _ hs => (route_ensures lim pb so hs).imp fun _ _ ht => ⟨ht.1,{ht.2.stays with}⟩

theorem qos2AcceptInbound_stays : Sustains Sound Stays (qos2AcceptInbound c pid) := by
  refine Sustains.get_bind fun s hs => ?_
  cases hf : s.sessionFor c with
  | none => exact ⟨hs,refl_of Stays s⟩
  | some f =>
    dsimp only
    rw [Succeeds,ensures_ite]
    exact ⟨fun _ => ⟨hs,refl_of Stays s⟩,fun _ => setSession_stays hs (sessionFor_eq_some hf).2 rfl⟩

theorem rejectPublish_sustains {rc : ℕ} (h : rc≠ReasonCode.sessionTakenOver) :
    Sustains Sound Serves (rejectPublish c pb rc) := by
  refine Sustains.ite (send_sustains c _ rfl) (Sustains.ite (send_sustains c _ rfl) ?_)
  refine (send_sustains c _ ?_).bind fun _ => send_sustains c _ rfl
  simpa [Outgoing.takesOver] using h

theorem acknowledgeAndRoute_stays (rc : ℕ) :
    Sustains Sound Stays (acknowledgeAndRoute lim c pb rc) := by
  have hr := route_stays lim pb (some c)
  refine Sustains.ite ((stays_of_serves (send_sustains c _ rfl)).bind fun _ => hr)
    (Sustains.ite ?_ hr)
  refine (stays_of_serves (send_sustains c _ rfl)).bind fun _ =>
    (qos2AcceptInbound_stays c _).bind fun a => ?_
  exact Sustains.ite hr Sustains.pure

theorem onPublish_stays : Sustains Sound Stays (onPublish lim c pb) := by
  refine Sustains.ite ?_ (stays_of_serves (rejectPublish_sustains c pb (by decide)))
  have ha (st : Bool) := acknowledgeAndRoute_stays lim c pb
    (if st then ReasonCode.success else ReasonCode.quotaExceeded)
  exact Sustains.ite ((storeRetained_stays lim pb).bind ha) (Sustains.pure.bind ha)

theorem onPubrel_stays : Sustains Sound Stays (onPubrel c pid) := by
  refine (stays_of_serves (send_sustains c _ rfl)).bind fun _ => Sustains.get_bind fun s hs => ?_
  cases hf : s.sessionFor c with
  | none => exact ⟨hs,refl_of Stays s⟩
  | some f =>
    exact setSession_stays hs (sessionFor_eq_some hf).2 rfl

theorem armExpiryTimer_sustains (now : ℚ) : Sustains Sound Serves (armExpiryTimer now) :=
  modify_sustains (fun _ => rfl) (fun _ => rfl) fun _ => rfl

theorem leaveSession_stays (now : ℚ) (id : Text) (sei : Option ℕ) :
    Sustains Sound Stays (leaveSession now id sei) := by
  have ha := stays_of_serves (armExpiryTimer_sustains now)
  refine Sustains.get_bind fun s hs => ?_
  cases hse : s.sessions.get? id with
  | none => exact ⟨hs,refl_of Stays s⟩
  | some ss =>
    dsimp only
    rw [Succeeds,ensures_ite]
    refine ⟨fun _ => ?_,fun _ => ?_⟩
    · refine Sustains.after ?_ fun _ => (stays_of_serves
        (pruneShareRotation_sustains _)).bind fun _ => ha
      refine ⟨hs.popSession id,rfl,rfl,.of_eq rfl,le_rfl,fun name hn => ?_⟩
      rw [Dict.get?_pop,hn,ite_self]
    · refine Sustains.after ?_ fun _ => Sustains.ite ha Sustains.pure
      exact setSession_stays hs hse rfl

theorem publishWill_stays (w : MQTTPublish) : Sustains Sound Stays (publishWill lim w) := by
  have hr := route_stays lim w none
  exact Sustains.ite ((storeRetained_stays lim w).bind fun _ => hr) hr

theorem takeWill_stays (id : Text) (g : Bool) : Sustains Sound Stays (takeWill lim id g) := by
  refine Sustains.get_bind fun s hs => ?_
  dsimp only
  refine Sustains.after ?_ fun _ => ?_
  · exact ⟨hs.of_sessions rfl,rfl,rfl,.of_eq rfl,le_rfl,fun _ h => h⟩
  · cases s.wills.get? id with
    | none => exact Sustains.pure
    | some w => exact Sustains.ite (publishWill_stays lim w) Sustains.pure

def Broker.unexpired (s : Broker) (now : ℚ) : Dict Text Session :=
  s.sessions.filter fun item => !item.2.expiresAt.any (· ≤ now)

theorem dropSessions_ensures {ci : List Text} (hn : ci.Nodup)
    (hp : ∀ cid∈ci,s.sessions.get? cid≠none) : Succeeds (dropSessions ci) s fun _ t => ∃ r,t =
        {s with sessions:=ci.foldl Dict.pop s.sessions,shareRotation:=r} := by
  induction ci generalizing s with
  | nil => exact ⟨s.shareRotation,rfl⟩
  | cons cid ci ih =>
    rw [List.nodup_cons] at hn
    obtain ⟨ss,hs⟩ := Option.ne_none_iff_exists'.mp (hp cid List.mem_cons_self)
    rw [Succeeds,dropSessions,ensures_bind,ensures_get,hs]
    dsimp only
    rw [ensures_bind,ensures_modify,ensures_bind,pruneShareRotation,ensures_modify]
    refine (ih hn.2 ?_).imp fun _ t ht => ?_
    · intro o ho
      have hne : cid≠o := fun heq => hn.1 (heq ▸ ho)
      change (s.sessions.pop cid).get? o≠none
      rw [Dict.get?_pop,if_neg hne]
      exact hp o (List.mem_cons_of_mem cid ho)
    · obtain ⟨r,rfl⟩ := ht
      exact ⟨r,rfl⟩

theorem foldl_pop_expired (hs : Sound s) (now : ℚ) :
    (s.expired now).foldl Dict.pop s.sessions=s.unexpired now := by
  rw [Dict.foldl_pop,Broker.unexpired]
  refine List.filter_congr fun i hi => ?_
  have hif : i.1∈s.expired now ↔ i.2.expiresAt.any (· ≤ now)=true := by
    constructor
    · intro hm
      obtain ⟨o,ho,hk⟩ := List.mem_map.mp hm
      rw [List.mem_filter] at ho
      have hsa := Dict.get?_of_mem hs.keys ho.1
      rw [hk,Dict.get?_of_mem hs.keys hi] at hsa
      rw [Option.some.inj hsa]
      exact ho.2
    · intro hd
      exact List.mem_map_of_mem (List.mem_filter.mpr ⟨hi,hd⟩)
  cases hd : i.2.expiresAt.any (· ≤ now) <;> simp_all

theorem sweepExpired_ensures (hs : Sound s) (now : ℚ) :
    Succeeds (sweepExpired now) s fun _ t => ∃ r ti,t =
        {s with sessions:=s.unexpired now,shareRotation:=r,expiryTimer:=ti} := by
  rw [Succeeds,sweepExpired,ensures_bind,ensures_get,ensures_bind]
  have hn : (s.expired now).Nodup := hs.keys.sublist (List.filter_sublist.map Prod.fst)
  refine (dropSessions_ensures hn ?_).imp fun _ t ht => ?_
  · intro cid hm
    obtain ⟨i,hi,rfl⟩ := List.mem_map.mp hm
    rw [Dict.get?_of_mem hs.keys (List.mem_of_mem_filter hi)]
    exact Option.some_ne_none _
  · obtain ⟨r,rfl⟩ := ht
    rw [foldl_pop_expired hs]
    exact ⟨r,_,rfl⟩

theorem unexpired_none {now : ℚ} {name : Text} (h : s.sessions.get? name=none) :
    (s.unexpired now).get? name=none := by
  rw [Dict.get?_eq_none_iff] at h ⊢
  exact fun hm => h ((List.filter_sublist.map Prod.fst).subset hm)

theorem Sound.unexpired (hs : Sound s) (now : ℚ) : Sound {s with sessions:=s.unexpired now} where
  keys := hs.keys.sublist (List.filter_sublist.map Prod.fst)
  windows item hm := hs.windows item (List.mem_of_mem_filter hm)

theorem sweepExpired_stays (now : ℚ) : Sustains Sound Stays (sweepExpired now) := by
  intro s hs
  refine (sweepExpired_ensures hs now).imp fun _ t ht => ?_
  obtain ⟨r,tm,rfl⟩ := ht
  exact ⟨(hs.unexpired now).of_sessions rfl,rfl,rfl,.of_eq rfl,le_rfl,fun _ => unexpired_none⟩

end BlackBull.Mqtt
