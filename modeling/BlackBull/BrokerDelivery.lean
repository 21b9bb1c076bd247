import BlackBull.MqttBroker

/-!
# What the broker's services keep

Sending, delivering and routing return on every sound state, and leave alone what the connections
and the QoS 2 exchanges rest on (`Broker.standing`). A message that the broker forwards was checked
when it was built; a packet identifier is free as long as the client's window has room.
-/

namespace BlackBull.Mqtt

theorem mem_inUse_of_findPid {iu : List ℕ} {r pid : ℕ}
    (h : findPid iu r pid = none) : ∀ k < r,(pid + k) % 65535 + 1 ∈ iu := by
  induction r generalizing pid with
  | zero => intro k hk; omega
  | succ r ih =>
    rw [findPid] at h
    split at h
    · next hu =>
      intro k hk
      cases k with
      | zero => simpa using hu
      | succ k =>
        have hn := ih h k (by omega)
        have hs : (pid % 65535 + 1 + k) % 65535 = (pid + (k + 1)) % 65535 := by omega
        rwa [hs] at hn
    · cases h

theorem findPid_ne_none {iu : List ℕ} (h : iu.length<65535) (pid : ℕ) :
    findPid iu 65535 pid≠none := by
  intro hn
  have hm := mem_inUse_of_findPid hn
  let cn := (List.range 65535).map fun k => (pid + k) % 65535 + 1
  have hno : cn.Nodup := by
    refine List.Nodup.map_on ?_ List.nodup_range
    intro j hj k hk heq
    rw [List.mem_range] at hj hk
    omega
  have hs : cn ⊆ iu := by
    intro c hc
    obtain ⟨k,hk,rfl⟩ := List.mem_map.mp hc
    exact hm k (List.mem_range.mp hk)
  have hl := (List.Nodup.subperm hno hs).length_le
  simp only [cn,List.length_map,List.length_range] at hl
  omega

theorem Session.allocPid_isSome (ss : Session) (h : ss.inFlight<65535) :
    ∃ pi,ss.allocPid=some pi := by
  refine Option.ne_none_iff_exists'.mp (findPid_ne_none ?_ _)
  rw [inUse,List.length_append,List.length_map,List.length_map]
  exact h

/-- The checks of a PUBLISH that do not look at the packet identifier. -/
def PublishFields.Sendable (m : PublishFields) : Prop :=
  m.properties.get? .topicAlias≠some (.number 0) ∧
    (m.properties.get? .payloadFormatIndicator=some (.number 1) → (utf8? m.payload).isSome)

instance (m : PublishFields) : Decidable m.Sendable :=
  inferInstanceAs (Decidable (_ ∧ (_ → _)))

theorem PublishFields.refusal_eq_none_iff (m : PublishFields) :
    m.refusal=none ↔ ¬ (m.qos > 0 ∧ m.packetId=none) ∧ m.Sendable := by
  rw [refusal,Sendable]
  split
  · next h => simp [h]
  · split
    · next h => simp [h]
    · split
      · next h => simp [h]
      · next hid ha hp =>
        simp only [true_iff]
        refine ⟨hid,ha,fun hf => ?_⟩
        rw [Option.isSome_iff_ne_none]
        exact fun hn => hp ⟨hf,hn⟩

theorem MQTTPublish.sendable (m : MQTTPublish) : m.Sendable :=
  (m.refusal_eq_none_iff.mp m.checked).2

theorem MQTTPublish.make_ok {m : PublishFields} (h : m.refusal=none) :
    ∃ out,MQTTPublish.make m=.ok out := by
  unfold make
  split
  · exact ⟨_,rfl⟩
  · next hs => rw [h] at hs; cases hs

theorem MQTTPublish.make_error {m : PublishFields} (h : m.refusal≠none) :
    ∃ f,MQTTPublish.make m=.error f := by
  unfold make
  split
  · next hn => exact absurd hn h
  · exact ⟨_,rfl⟩

theorem MQTTPublish.forwarded_ok (m : MQTTPublish) (qos : ℕ) (packetId : Option ℕ)
    (dup retain : Bool) (hid : ¬ (qos > 0 ∧ packetId=none)) : ∃ out,MQTTPublish.make
      { topic:=m.topic,payload:=m.payload,qos,packetId,retain,dup
        properties:=m.properties}=.ok out :=
  make_ok ((PublishFields.refusal_eq_none_iff _).mpr ⟨hid,m.sendable⟩)

/-- A client has one session, and no window exceeds the packet identifiers there are. -/
structure Sound (s : Broker) : Prop where
  keys : (s.sessions.map Prod.fst).Nodup
  windows : ∀ item∈s.sessions,item.2.receiveMaximum≤65535

namespace Sound

variable {s : Broker}

theorem window (hs : Sound s) {ci : Text} {ss : Session}
    (h : s.sessions.get? ci=some ss) : ss.receiveMaximum≤65535 :=
  hs.windows _ (Dict.mem_of_get? h)

theorem setSession (hs : Sound s) (ci : Text) {ss : Session} (h : ss.receiveMaximum≤65535) :
    Sound {s with sessions:=s.sessions.set ci ss} where
  keys := Dict.nodup_set ci ss hs.keys
  windows item hm := by
    rcases Dict.mem_set hm with rfl | hm
    · exact h
    · exact hs.windows item hm

theorem popSession (hs : Sound s) (ci : Text) : Sound {s with sessions:=s.sessions.pop ci} where
  keys := Dict.nodup_pop ci hs.keys
  windows item hm := hs.windows item (Dict.mem_pop hm)

theorem of_sessions {t : Broker} (hs : Sound s) (h : t.sessions=s.sessions) : Sound t := by
  constructor
  · rw [h]
    exact hs.keys
  · rw [h]
    exact hs.windows

end Sound

/-- The DISCONNECT of a client that has connected elsewhere. -/
def Outgoing.takesOver : Outgoing → Bool
  | .send (.disconnect m) => m.reasonCode=some ReasonCode.sessionTakenOver
  | _ => false

/-- What is sent disconnects nobody for another connection. -/
def Answers (s t : Broker) : Prop :=
  ∃ new,t.sent=s.sent++new ∧ ∀ item∈new,item.2.takesOver=false

variable {s : Broker} {cid : Text} {old : Session} (lim : Limits)

theorem Answers.of_eq {t : Broker} (h : t.sent=s.sent) : Answers s t :=
  ⟨[],by rw [h,List.append_nil],fun _ hm => absurd hm List.not_mem_nil⟩

theorem Answers.send (s : Broker) (c : Conn) {o : Outgoing} (h : o.takesOver=false) :
    Answers s {s with sent:=s.sent++[(c,o)]} := by
  refine ⟨[(c,o)],rfl,fun i hm => ?_⟩
  rw [List.mem_singleton.mp hm]
  exact h

theorem Answers.trans {t u : Broker} (hst : Answers s t) (htu : Answers t u) : Answers s u := by
  obtain ⟨a,hf,hf'⟩ := hst
  obtain ⟨l,hl,hl'⟩ := htu
  refine ⟨a++l,by rw [hl,hf,List.append_assoc],fun i hm => ?_⟩
  rcases List.mem_append.mp hm with hm | hm
  · exact hf' i hm
  · exact hl' i hm

/-- Who is attached, what is retained and routed, the exchanges that are open and how many
identifiers have been given. -/
structure Standing where
  autoSeq : ℕ
  clientByConn : Dict Conn Text
  clients : Dict Text Conn
  retained : Dict Text MQTTPublish
  routed : List (MQTTPublish × Option Conn)
  pendingQos2In : Dict Text (Dict ℕ Qos2In)

def Broker.standing (s : Broker) : Standing where
  autoSeq := s.autoSeq
  clientByConn := s.clientByConn
  clients := s.clients
  retained := s.retained
  routed := s.routed
  pendingQos2In := s.sessions.map fun item => (item.1,item.2.pendingQos2In)

structure Serves (s t : Broker) : Prop where
  standing : t.standing=s.standing
  answers : Answers s t

instance : IsPreorder Broker Serves where
  refl _ := ⟨rfl,.of_eq rfl⟩
  trans _ _ _ hab hbc := ⟨hbc.standing.trans hab.standing,hab.answers.trans hbc.answers⟩

theorem standing_setSession (s : Broker) {ss : Session}
    (hold : s.sessions.get? cid=some old) (h : ss.pendingQos2In=old.pendingQos2In) :
    Broker.standing {s with sessions:=s.sessions.set cid ss}=s.standing := by
  simp only [Broker.standing,Dict.map_set (f := Session.pendingQos2In)]
  rw [Dict.set_self]
  rw [Dict.get?_map,hold,h]
  rfl

theorem send_sustains (c : Conn) (o : Outgoing) (h : o.takesOver=false) :
    Sustains Sound Serves (send c o) :=
  Sustains.modify fun s hs => ⟨hs.of_sessions rfl,rfl,.send s c h⟩

theorem modify_sustains {f : Broker → Broker} (hse : ∀ s,(f s).sessions=s.sessions)
    (hst : ∀ s,(f s).standing=s.standing) (hsen : ∀ s,(f s).sent=s.sent) :
    Sustains Sound Serves (modify f : Handler PUnit) :=
  Sustains.modify fun s hs => ⟨hs.of_sessions (hse s),hst s,.of_eq (hsen s)⟩

theorem setSession_ensures (hs : Sound s) (ss : Session) (hold : s.sessions.get? cid=some
    old) (hw : ss.receiveMaximum=old.receiveMaximum) (hp : ss.pendingQos2In=old.pendingQos2In) :
    Succeeds (setSession cid ss) s fun _ t => Sound t ∧ Serves s t :=
  ⟨hs.setSession cid (hw ▸ hs.window hold),standing_setSession s hold hp,.of_eq rfl⟩

theorem sendQos_ensures (hs : Sound s) (c : Conn) {ss : Session}
    (hold : s.sessions.get? cid=some old) (hw : ss.receiveMaximum=old.receiveMaximum)
    (hp : ss.pendingQos2In=old.pendingQos2In)
    (hr : ss.inFlight<ss.receiveMaximum) (m : MQTTPublish) (qos : ℕ) (r : Bool) :
    Succeeds (sendQos c cid ss m qos r) s fun _ t => Sound t ∧ Serves s t := by
  have hle := hs.window hold
  obtain ⟨pi,hpi⟩ := ss.allocPid_isSome (by omega)
  obtain ⟨out,ho⟩ := m.forwarded_ok qos (some pi) false r (by simp)
  rw [sendQos,hpi]
  simp only [ho,ensures_bind]
  let n := {ss with nextPid:=pi}
  have hn := setSession_ensures hs n hold hw hp
  refine Ensures.of_ok rfl ?_
  rw [ensures_ofExcept]
  dsimp only
  have hth := Dict.get?_set s.sessions cid cid n
  rw [if_pos rfl] at hth
  have hse := send_sustains c (.send (.publish out)) rfl
  rw [ensures_ite]
  have hst : ∀ l : Session,l.receiveMaximum=ss.receiveMaximum → l.pendingQos2In=ss.pendingQos2In →
      Succeeds (setSession cid l >>= fun _ => send c (.send (.publish out)))
        {s with sessions:=s.sessions.set cid n} fun _ t => Sound t ∧ Serves s t := by
    intro l hm hq
    have hl := setSession_ensures hn.1 l hth hm hq
    exact (Sustains.after hl fun _ => hse).imp fun _ t ht => ⟨ht.1,trans_of Serves hn.2 ht.2⟩
  exact ⟨fun _ => hst _ rfl rfl,fun _ => hst _ rfl rfl⟩

theorem deliver_sustains (c : Conn) (cid : Text) (m : MQTTPublish) (gq : ℕ) (r : Bool) :
    Sustains Sound Serves (deliver lim c cid m gq r) := by
  refine Sustains.ite ?_ (Sustains.get_bind fun s hs => ?_)
  · exact (Sustains.ofExcept (m.forwarded_ok 0 none false r (by simp))).bind
      fun out => send_sustains c _ rfl
  · cases hse : s.sessions.get? cid with
    | none => exact ⟨hs,refl_of Serves s⟩
    | some ss =>
      dsimp only
      rw [Succeeds,ensures_ite]
      refine ⟨fun _ => ?_,fun hr => ?_⟩
      · rw [enqueueOutbound,ensures_ite]
        exact ⟨fun _ => ⟨hs,refl_of Serves s⟩,fun _ => setSession_ensures hs _ hse rfl rfl⟩
      · exact sendQos_ensures hs c hse rfl rfl (by omega) m _ r

theorem drainHeld_sustains (c : Conn) (cid : Text) (l : List Held) :
    Sustains Sound Serves (drainHeld c cid l) := by
  induction l with
  | nil => exact Sustains.pure
  | cons l rest ih =>
    refine Sustains.get_bind fun s hs => ?_
    cases hse : s.sessions.get? cid with
    | none => exact ⟨hs,refl_of Serves s⟩
    | some ss =>
      dsimp only
      rw [Succeeds,ensures_ite]
      refine ⟨fun hr => ?_,fun _ => ⟨hs,refl_of Serves s⟩⟩
      let sh := {ss with outboundQueue:=rest}
      have hsh := setSession_ensures hs sh hse rfl rfl
      rw [ensures_bind]
      refine Ensures.of_ok rfl ?_
      have hth := Dict.get?_set s.sessions cid cid sh
      rw [if_pos rfl] at hth
      have hsen := sendQos_ensures hsh.1 c hth rfl rfl hr l.publish l.qos l.retain
      exact (Sustains.after hsen fun _ => ih).imp fun _ t ht => ⟨ht.1,trans_of Serves hsh.2 ht.2⟩

theorem drainOutbound_sustains (c : Conn) : Sustains Sound Serves (drainOutbound c) := by
  refine Sustains.get_bind fun s hs => ?_
  cases s.sessionFor c with
  | none => exact ⟨hs,refl_of Serves s⟩
  | some f => exact drainHeld_sustains c f.1 _ s hs

def Peopled (groups : ShareGroups) : Prop := ∀ group∈groups,group.2≠[]

theorem peopled_add {t : Text} {so : Option Conn} {c : Conn} {g : Grant}
    (h : Peopled g.groups) (su : Subscription) : Peopled (g.add t so c cid su).groups := by
  unfold Grant.add
  split
  · split
    · intro gr hm
      rcases Dict.mem_set hm with rfl | hm
      · simp
      · exact h gr hm
    · split <;> exact h
  · exact h

theorem peopled_foldl (t : Text) (so : Option Conn) (c : Conn) (cid : Text)
    (su : List Subscription) (g : Grant) (h : Peopled g.groups) :
    Peopled (su.foldl (Grant.add t so c cid) g).groups := by
  induction su generalizing g with
  | nil => exact h
  | cons sub su ih => exact ih _ (peopled_add h sub)

theorem routeClients_ensures (m : MQTTPublish) (so : Option Conn)
    (c : Dict Text Conn) {groups : ShareGroups} (hg : Peopled groups) (hs : Sound s) :
    Succeeds (routeClients lim m so c groups) s
      fun groups t => Peopled groups ∧ Sound t ∧ Serves s t := by
  induction c generalizing groups s with
  | nil => exact ⟨hg,hs,refl_of Serves s⟩
  | cons cl c ih =>
    rw [Succeeds,routeClients,ensures_bind,ensures_get]
    cases hse : s.sessions.get? cl.1 with
    | none => exact ih hg hs
    | some ss =>
      dsimp only
      have hp := peopled_foldl m.topic so cl.2 cl.1 ss.subscriptions {groups} hg
      split
      · exact ih hp hs
      · rw [ensures_bind]
        refine (deliver_sustains lim _ _ m _ _ s hs).imp fun _ t ht => ?_
        exact (ih hp ht.1).imp fun _ u hu => ⟨hu.1,hu.2.1,trans_of Serves ht.2 hu.2.2⟩

theorem routeGroups_sustains (m : MQTTPublish) {gr : ShareGroups}
    (hg : Peopled gr) : Sustains Sound Serves (routeGroups lim m gr) := by
  induction gr with
  | nil => exact Sustains.pure
  | cons gro gr ih =>
    have hm : gro.2≠[] := hg gro List.mem_cons_self
    have hr := ih fun g hme => hg g (List.mem_cons_of_mem gro hme)
    refine Sustains.get_bind fun s hs => ?_
    have hc : (s.shareRotation.get? gro.1).getD 0 % gro.2.length < gro.2.length :=
      Nat.mod_lt _ (List.length_pos_iff.mpr hm)
    dsimp only
    rw [List.getElem?_eq_getElem hc]
    refine Sustains.after ?_ fun _ => (deliver_sustains lim _ _ m _ _).bind fun _ => hr
    exact ⟨hs.of_sessions rfl,rfl,.of_eq rfl⟩

theorem route_ensures (m : MQTTPublish) (so : Option Conn) (hs : Sound s) :
    Succeeds (route lim m so) s fun _ t =>
      Sound t ∧ Serves {s with routed:=s.routed++[(m,so)]} t := by
  rw [Succeeds,route,ensures_bind,ensures_modify,ensures_bind,ensures_get,ensures_bind]
  have hn : Peopled [] := by simp [Peopled]
  have hl : Sound {s with routed:=s.routed++[(m,so)]} := hs.of_sessions rfl
  refine (routeClients_ensures lim m so s.clients hn hl).imp fun g t ht => ?_
  exact (routeGroups_sustains lim m ht.1 t ht.2.1).imp fun _ u hu =>
    ⟨hu.1,trans_of Serves ht.2.2 hu.2⟩

end BlackBull.Mqtt
