import BlackBull.BrokerObservation

/-!
# QoS 2 exchanges of one packet identifier

An exchange begins with the first PUBLISH of a packet identifier and ends with its PUBREL, with a
PUBREC that carries an error, or with the session. An observer counts how often its message was
routed and changed the retained messages. The count is right as long as an exchange is open exactly
while the session holds the identifier.
-/

namespace BlackBull.Mqtt

structure Tally where
  routes : ℕ := 0
  changes : ℕ := 0
  acknowledged : Bool := false
  deriving DecidableEq

/-- Routed at most once, once if it was acknowledged, and stored at most once. -/
def Tally.ExactlyOnce (tally : Tally) : Prop :=
  tally.routes≤1 ∧ (tally.acknowledged=true → tally.routes=1) ∧ tally.changes≤1

instance (tally : Tally) : Decidable tally.ExactlyOnce :=
  inferInstanceAs (Decidable (_ ∧ (_ → _) ∧ _))

def pubrecReason (conn : Conn) (packetId : ℕ) : Conn × Outgoing → Option ℕ
  | (recipient,.send (.pubrec m)) =>
    if recipient=conn ∧ m.packetId=packetId then some m.reasonCode else none
  | _ => none

def answer (s t : Broker) (conn : Conn) (packetId : ℕ) : Option ℕ :=
  (replies s t).findSome? (pubrecReason conn packetId)

def Tally.add (tally : Tally) (s t : Broker) (conn : Conn) (packetId : ℕ) : Tally where
  routes := tally.routes + (t.routed.length - s.routed.length)
  changes := tally.changes+if t.retained=s.retained then 0 else 1
  acknowledged := tally.acknowledged || answer s t conn packetId=some ReasonCode.success

/-- The exchange that is open, and those that have ended. -/
structure Exchanges where
  current : Option Tally := none
  finished : List Tally := []
  deriving DecidableEq

def Exchanges.all (exchanges : Exchanges) : List Tally :=
  exchanges.current.toList++exchanges.finished

def Exchanges.close (exchanges : Exchanges) : Exchanges where
  current := none
  finished := exchanges.all

/-- The observer after the PUBLISH of an exchange. -/
def Exchanges.published (exchanges : Exchanges) (s t : Broker) (conn : Conn) (packetId : ℕ) :
    Exchanges :=
  let tally := (exchanges.current.getD {}).add s t conn packetId
  if (answer s t conn packetId).any (0x80 ≤ ·) then
    {current:=none,finished:=tally::exchanges.finished}
  else {exchanges with current:=some tally}

def Broker.speaksFor (s : Broker) (conn : Conn) (clientId : Text) : Bool :=
  (s.sessionFor conn).any fun found => found.1=clientId

def connackPresent (conn : Conn) : Conn × Outgoing → Option Bool
  | (recipient,.send (.connack m)) =>
    if recipient=conn ∧ m.reasonCode=ReasonCode.success then some m.sessionPresent else none
  | _ => none

/-- The connection was given a new session of the client. -/
def renews (clientId : Text) (s : Broker) (conn : Conn) (t : Broker) : Bool :=
  t.clientByConn.get? conn=some clientId &&
    (replies s t).findSome? (connackPresent conn)=some false

def Broker.concerns (s : Broker) (clientId : Text) (packetId : ℕ) (conn : Conn)
    (publish : MQTTPublish) : Bool :=
  publish.qos=2 && publish.packetId=some packetId && s.speaksFor conn clientId

def noteExchange (clientId : Text) (packetId : ℕ) : Note Exchanges := fun s arrival t exchanges =>
  match arrival.message with
  | some (conn,.clientPublish publish) =>
    if s.concerns clientId packetId conn publish then
      exchanges.published s t conn packetId
    else exchanges
  | some (conn,.clientPubrel released) =>
    if released=packetId ∧ s.speaksFor conn clientId then exchanges.close else exchanges
  | some (conn,.attach _) =>
    if t.sessions.get? clientId=none ∨ renews clientId s conn t then exchanges.close
    else exchanges
  | some _ => if t.sessions.get? clientId=none then exchanges.close else exchanges
  | none => exchanges

def Broker.hasRoomFor (s : Broker) (limits : Limits) (publish : MQTTPublish) : Bool :=
  publish.payload=[] || limits.maxRetained=0 || (s.retained.get? publish.topic).isSome ||
    s.retained.length<limits.maxRetained

/-- A first PUBLISH that is to be retained finds room, and a repeated one has a valid topic name
and is not to be retained. -/
def orderly (limits : Limits) (clientId : Text) (packetId : ℕ) (w : Observed Exchanges)
    (arrival : Arrival × ℚ) : Bool :=
  match arrival.1.message with
  | some (conn,.clientPublish publish) =>
    if w.broker.concerns clientId packetId conn publish then
      if w.notes.current.isSome then validateTopicName publish.topic && !publish.retain
      else !validateTopicName publish.topic || !publish.retain ||
        w.broker.hasRoomFor limits publish
    else true
  | _ => true

def Broker.holds (s : Broker) (clientId : Text) (packetId : ℕ) : Bool :=
  ((s.standing.pendingQos2In.get? clientId).bind fun pending => pending.get? packetId).isSome

theorem get?_pendingQos2In (s : Broker) (clientId : Text) :
    s.standing.pendingQos2In.get? clientId=(s.sessions.get? clientId).map Session.pendingQos2In :=
  Dict.get?_map s.sessions Session.pendingQos2In clientId

variable {s : Broker} {clientId : Text} {t : Broker} {xs : Exchanges} (lim : Limits)

theorem holds_of_get?_eq_some {ss : Session} (h : s.sessions.get? clientId=some ss)
    (p : ℕ) : s.holds clientId p=(ss.pendingQos2In.get? p).isSome := by
  rw [Broker.holds,get?_pendingQos2In,h]
  rfl

theorem holds_of_eq_none (p : ℕ) (h : s.sessions.get? clientId=none) :
    s.holds clientId p=false := by
  rw [Broker.holds,get?_pendingQos2In,h]
  rfl

theorem holds_of_pending (h : t.standing.pendingQos2In=s.standing.pendingQos2In) (clientId : Text)
    (p : ℕ) : t.holds clientId p=s.holds clientId p := by
  rw [Broker.holds,h,Broker.holds]

theorem Serves.holds (h : Serves s t) (clientId : Text) (p : ℕ) :
    t.holds clientId p=s.holds clientId p :=
  holds_of_pending (congrArg Standing.pendingQos2In h.standing) clientId p

theorem holds_setSession (s : Broker) (clientId : Text) (se : Session) (o : Text) (p : ℕ) :
    Broker.holds {s with sessions:=s.sessions.set clientId se} o p =
      if clientId=o then (se.pendingQos2In.get? p).isSome
      else s.holds o p := by
  split
  · next heq => exact holds_of_get?_eq_some (by rw [← heq,Dict.get?_set,if_pos rfl]) p
  · next hne =>
    simp only [Broker.holds,get?_pendingQos2In,Dict.get?_set,if_neg hne]

theorem onPubrel_holds (s : Broker) (c : Conn) (r : ℕ) (clientId : Text) (p : ℕ) :
    Succeeds (onPubrel c r) s fun _ t => t.holds clientId p=(s.holds clientId p &&
        !(r=p && s.speaksFor c clientId)) := by
  rw [Succeeds,onPubrel,ensures_bind,send,ensures_modify,updateSessionFor,ensures_bind,ensures_get]
  have hs (sent : List (Conn × Outgoing)) : {s with sent:=sent}.sessionFor c=s.sessionFor c := rfl
  simp only [hs]
  cases hf : s.sessionFor c with
  | none =>
    change s.holds clientId p=_
    simp [Broker.speaksFor,hf]
  | some f =>
    obtain ⟨name,ss⟩ := f
    have hh := holds_of_get?_eq_some (sessionFor_eq_some hf).2 p
    refine (holds_setSession _ name _ clientId p).trans ?_
    by_cases hn : name=clientId
    · subst hn
      rw [if_pos rfl,hh,Dict.get?_pop]
      by_cases hr : r=p <;> simp [hr,Broker.speaksFor,hf]
    · rw [if_neg hn]
      simp [Broker.speaksFor,hf,hn]
      rfl

theorem storeRetained_ensures (m : MQTTPublish) (s : Broker) :
    Succeeds (storeRetained lim m) s fun st t => (∃ r,t={s with retained:=r}) ∧
        (s.hasRoomFor lim m=true → st=true) := by
  rw [Succeeds,storeRetained,ensures_bind,ensures_get,ensures_ite]
  refine ⟨fun _ => ⟨⟨_,rfl⟩,fun _ => rfl⟩,fun hp => ?_⟩
  rw [ensures_ite]
  refine ⟨fun hf => ⟨⟨s.retained,rfl⟩,fun hr => ?_⟩,fun _ => ⟨⟨_,rfl⟩,fun _ => rfl⟩⟩
  obtain ⟨hl,hn,hle⟩ := hf
  simp only [Broker.hasRoomFor,hp,hl,hn,decide_false,Option.isSome_none,
    Bool.or_false,Bool.false_or,decide_eq_true_eq] at hr
  omega

/-- The identifier is recorded unless it was there. -/
structure Records (conn : Conn) (accepted : ℕ) (s : Broker) (fresh : Bool) (t : Broker) :
    Prop where
  sound : Sound t
  routed : t.routed=s.routed
  retained : t.retained=s.retained
  sent : t.sent=s.sent
  fresh : ∀ clientId,s.speaksFor conn clientId=true → fresh = !s.holds clientId accepted
  holds : ∀ clientId packetId,t.holds clientId packetId =
    (s.holds clientId packetId || (accepted=packetId && s.speaksFor conn clientId))

theorem qos2AcceptInbound_ensures (c : Conn) (a : ℕ) (hs : Sound s) :
    Succeeds (qos2AcceptInbound c a) s (Records c a s) := by
  rw [Succeeds,qos2AcceptInbound,ensures_bind,ensures_get]
  cases hf : s.sessionFor c with
  | none =>
    refine ⟨hs,rfl,rfl,rfl,fun clientId h => ?_,fun clientId p => ?_⟩
    · simp [Broker.speaksFor,hf] at h
    · simp [Broker.speaksFor,hf]
  | some f =>
    obtain ⟨name,ss⟩ := f
    have hse := (sessionFor_eq_some hf).2
    have hsp : ∀ clientId,s.speaksFor c clientId=decide (name=clientId) := by
      intro clientId
      simp [Broker.speaksFor,hf]
    have hh := holds_of_get?_eq_some hse
    have hw := hs.window hse
    dsimp only
    rw [ensures_ite]
    refine ⟨fun hp => ⟨hs,rfl,rfl,rfl,?_,?_⟩,fun hn => ⟨hs.setSession name hw,rfl,rfl,rfl,?_,?_⟩⟩
    · intro clientId h
      obtain rfl := of_decide_eq_true ((hsp clientId).symm.trans h)
      rw [hh,hp]
      rfl
    · simp_all
    · intro clientId h
      obtain rfl := of_decide_eq_true ((hsp clientId).symm.trans h)
      rw [hh]
      simpa using hn
    · intro clientId p
      refine (holds_setSession _ name _ clientId p).trans ?_
      rw [hsp]
      by_cases hna : name=clientId
      · subst hna
        rw [if_pos rfl,hh,Dict.get?_set]
        by_cases hid : a=p <;> simp [hid]
      · simp [hna]

/-- A PUBLISH of QoS 2 is answered, recorded and, unless its identifier is repeated, routed. -/
structure Acknowledges (conn : Conn) (publish : MQTTPublish) (reasonCode : ℕ) (s t : Broker) :
    Prop where
  retained : t.retained=s.retained
  routed : publish.qos=2 → ∀ clientId,s.speaksFor conn clientId=true →
    t.routed=if s.holds clientId (publish.packetId.getD 0) then s.routed
      else s.routed++[(publish,some conn)]
  sent : publish.qos=2 → ∃ later,t.sent=s.sent ++
    (conn,.send (.pubrec {packetId:=publish.packetId.getD 0,reasonCode}))::later
  holds : ∀ clientId packetId,t.holds clientId packetId=(s.holds clientId packetId ||
    (publish.qos=2 && publish.packetId.getD 0=packetId && s.speaksFor conn clientId))

theorem Acknowledges.of_routed {c : Conn} {m : MQTTPublish} {rc : ℕ}
    (hq : m.qos≠2) (hr : t.retained=s.retained)
    (hh : ∀ clientId p,t.holds clientId p=s.holds clientId p) : Acknowledges c m rc s t where
  retained := hr
  routed h := absurd h hq
  sent h := absurd h hq
  holds clientId p := by rw [hh,decide_eq_false hq,Bool.false_and,Bool.false_and,Bool.or_false]

theorem acknowledgeAndRoute_ensures (c : Conn) (m : MQTTPublish) (rc : ℕ) (hs : Sound s) :
    Succeeds (acknowledgeAndRoute lim c m rc) s fun _ => Acknowledges c m rc s := by
  unfold acknowledgeAndRoute
  dsimp only
  rw [Succeeds,ensures_ite,ensures_ite]
  refine ⟨fun ho => ?_,fun ho => ⟨fun htw => ?_,fun htw => ?_⟩⟩
  · rw [ensures_bind,send,ensures_modify]
    refine (route_ensures lim m (some c) ?_).imp fun _ t ht => ?_
    · exact hs.of_sessions rfl
    · refine .of_routed (by omega) (congrArg Standing.retained ht.2.standing) ?_
      exact fun clientId p => ht.2.holds clientId p
  · rw [ensures_bind,send,ensures_modify,ensures_bind]
    refine (qos2AcceptInbound_ensures c _ ?_).imp fun f t ht => ?_
    · exact hs.of_sessions rfl
    · have hh : ∀ clientId p,t.holds clientId p =
          (s.holds clientId p || (m.qos=2 && m.packetId.getD 0=p && s.speaksFor c clientId)) := by
        intro clientId p
        rw [ht.holds,decide_eq_true htw,Bool.true_and]
        rfl
      rw [ensures_ite]
      refine ⟨fun hf => ?_,fun hr => ?_⟩
      · refine (route_ensures lim m (some c) ht.sound).imp fun _ u hu => ?_
        obtain ⟨l,hl,-⟩ := hu.2.answers
        refine ⟨?_,fun _ clientId hsp => ?_,fun _ => ⟨l,?_⟩,fun clientId p => ?_⟩
        · exact (congrArg Standing.retained hu.2.standing).trans ht.retained
        · have hn : f = !s.holds clientId _ := ht.fresh clientId hsp
          rw [hf,eq_comm,Bool.not_eq_true'] at hn
          have hro : u.routed=t.routed++[(m,some c)] := congrArg Standing.routed hu.2.standing
          rw [hro,ht.routed,hn,if_neg Bool.false_ne_true]
        · rw [hl]
          change t.sent++l=_
          rw [ht.sent,List.append_assoc]
          rfl
        · exact (hu.2.holds clientId p).trans (hh clientId p)
      · refine ⟨ht.retained,fun _ clientId hsp => ?_,fun _ => ⟨[],ht.sent⟩,hh⟩
        have hold : f = !s.holds clientId _ := ht.fresh clientId hsp
        rw [Bool.not_eq_true] at hr
        rw [hr,eq_comm,Bool.not_eq_false'] at hold
        rw [ht.routed,hold,if_pos rfl]
  · refine (route_ensures lim m (some c) hs).imp fun _ t ht => ?_
    refine .of_routed htw (congrArg Standing.retained ht.2.standing) ?_
    exact fun clientId p => ht.2.holds clientId p

theorem onPublish_acknowledges (c : Conn) (m : MQTTPublish) (hs : Sound s)
    (hv : validateTopicName m.topic=true) :
    Succeeds (onPublish lim c m) s fun _ t => ∃ (r : Dict Text MQTTPublish) (stored : Bool),
        Acknowledges c m (if stored then ReasonCode.success else ReasonCode.quotaExceeded)
          {s with retained:=r} t ∧ (m.retain=false → r=s.retained) ∧
        (m.retain=false ∨ s.hasRoomFor lim m=true → stored=true) := by
  rw [onPublish,if_pos hv]
  dsimp only
  rw [Succeeds,ensures_ite]
  refine ⟨fun hr => ?_,fun hr => ?_⟩
  · rw [ensures_bind]
    refine (storeRetained_ensures lim m s).imp fun stored t ht => ?_
    obtain ⟨⟨r,rfl⟩,hst⟩ := ht
    refine (acknowledgeAndRoute_ensures lim c m _ ?_).imp fun _ u hu => ?_
    · exact hs.of_sessions rfl
    · exact ⟨r,stored,hu,fun h => absurd (h.symm.trans hr) Bool.false_ne_true,
        fun h => hst (h.resolve_left fun hf => Bool.false_ne_true (hf.symm.trans hr))⟩
  · rw [ensures_bind,ensures_pure]
    refine (acknowledgeAndRoute_ensures lim c m _ hs).imp fun _ t ht => ?_
    exact ⟨s.retained,true,ht,fun _ => rfl,fun _ => rfl⟩

theorem packetId_isSome (m : MQTTPublish) (h : m.qos=2) : m.packetId=some (m.packetId.getD 0) := by
  cases hid : m.packetId with
  | none =>
    have hq : m.qos > 0 := by omega
    exact absurd ⟨hq,hid⟩ (m.refusal_eq_none_iff.mp m.checked).1
  | some p => rfl

theorem onPublish_holds (c : Conn) (m : MQTTPublish) (hs : Sound s) {p : ℕ}
    (h : s.concerns clientId p c m=false) :
    Succeeds (onPublish lim c m) s fun _ t => t.holds clientId p=s.holds clientId p := by
  by_cases hv : validateTopicName m.topic=true
  · refine (onPublish_acknowledges lim c m hs hv).imp fun _ t ht => ?_
    obtain ⟨r,stored,ha,-,-⟩ := ht
    rw [ha.holds]
    change (s.holds clientId p || _)=s.holds clientId p
    have ho : (decide (m.qos=2) && decide (m.packetId.getD 0=p) &&
        s.speaksFor c clientId)=false := by
      by_cases hq : m.qos=2
      · rw [Broker.concerns,packetId_isSome m hq] at h
        simpa [hq] using h
      · simp [hq]
    exact (congrArg (s.holds clientId p || ·) ho).trans (Bool.or_false _)
  · rw [onPublish,if_neg hv]
    exact (rejectPublish_sustains c m (by decide) s hs).imp fun _ t ht => ht.2.holds clientId p

/-- The PUBLISH of an exchange is rejected, or answered and recorded. -/
inductive Concludes (limits : Limits) (clientId : Text) (packetId : ℕ) (conn : Conn)
    (publish : MQTTPublish) (s t : Broker) : Prop
  | rejected (hinvalid : validateTopicName publish.topic=false) (hserves : Serves s t)
      (hanswer : answer s t conn packetId=some ReasonCode.topicNameInvalid)
  | recorded (hvalid : validateTopicName publish.topic=true) (reasonCode : ℕ)
      (hanswer : answer s t conn packetId=some reasonCode)
      (hreason : publish.retain=false ∨ s.hasRoomFor limits publish=true →
        reasonCode=ReasonCode.success)
      (hretained : publish.retain=false → t.retained=s.retained)
      (hrouted : t.routed=if s.holds clientId packetId then s.routed
        else s.routed++[(publish,some conn)])
      (hholds : t.holds clientId packetId=true)

theorem answer_of_sent {c : Conn} {packetId reasonCode : ℕ} {l : List (Conn × Outgoing)}
    (h : t.sent=s.sent++(c,.send (.pubrec {packetId,reasonCode}))::l) :
    answer s t c packetId=some reasonCode := by
  rw [answer,replies_of_append h,List.findSome?_cons]
  simp [pubrecReason]

theorem onPublish_concludes (c : Conn) (m : MQTTPublish) (hs : Sound s) {p : ℕ}
    (h : s.concerns clientId p c m=true) :
    Succeeds (onPublish lim c m) s fun _ => Concludes lim clientId p c m s := by
  simp only [Broker.concerns,Bool.and_eq_true,decide_eq_true_eq] at h
  obtain ⟨⟨hq,hid⟩,hsp⟩ := h
  have hg : m.packetId.getD 0=p := by rw [hid,Option.getD_some]
  by_cases hv : validateTopicName m.topic=true
  · refine (onPublish_acknowledges lim c m hs hv).imp fun _ t ht => ?_
    obtain ⟨r,stored,ha,hsa,hst⟩ := ht
    obtain ⟨l,hse⟩ := ha.sent hq
    have hr := ha.routed hq clientId hsp
    have hh := ha.holds clientId p
    rw [hg] at hse hr hh
    refine .recorded hv _ (answer_of_sent hse) (fun hro => ?_) (fun hre => ?_) hr ?_
    · rw [hst hro]
      rfl
    · exact ha.retained.trans (hsa hre)
    · rw [hh]
      change (s.holds clientId p || (_ && s.speaksFor c clientId))=true
      simp [hq,hsp]
  · rw [Succeeds,onPublish,if_neg hv,rejectPublish,if_neg (by omega),if_pos hq,send,
      ensures_modify,hg]
    exact .rejected (Bool.not_eq_true _ ▸ hv) ⟨rfl,.send s c rfl⟩ (answer_of_sent rfl)

/-- An exchange is open exactly while the session holds its identifier, and the message of an open
one was routed. -/
structure Tracked (clientId : Text) (packetId : ℕ) (s : Broker) (exchanges : Exchanges) :
    Prop where
  current : exchanges.current.isSome=s.holds clientId packetId
  routed : ∀ tally,exchanges.current=some tally → tally.routes=1 ∧ tally.changes≤1
  finished : ∀ tally∈exchanges.finished,tally.ExactlyOnce

namespace Tracked

variable {cid : Text} {pid : ℕ} {s t : Broker} {xs : Exchanges}

theorem all (h : Tracked cid pid s xs) :
    ∀ ta∈xs.all,ta.ExactlyOnce := by
  intro ta hm
  rcases List.mem_append.mp hm with hm | hm
  · obtain ⟨hr,hc⟩ := h.routed ta (Option.mem_toList.mp hm)
    exact ⟨hr.le,fun _ => hr,hc⟩
  · exact h.finished ta hm

theorem of_holds (h : Tracked cid pid s xs) (hh : t.holds cid pid=s.holds cid pid) :
    Tracked cid pid t xs :=
  ⟨h.current.trans hh.symm,h.routed,h.finished⟩

theorem close (h : Tracked cid pid s xs) (hh : t.holds cid pid=false) :
    Tracked cid pid t xs.close where
  current := hh.symm
  routed tally hn := by cases hn
  finished := h.all

end Tracked

theorem tracked_rejected {p : ℕ} {c : Conn} (h : Tracked clientId p s xs)
    (hf : xs.current=none) (hs : Serves s t)
    (ha : answer s t c p=some ReasonCode.topicNameInvalid) :
    Tracked clientId p t (xs.published s t c p) := by
  have hr : t.routed=s.routed := congrArg Standing.routed hs.standing
  have hre : t.retained=s.retained := congrArg Standing.retained hs.standing
  have ht : (xs.current.getD {}).add s t c p={} := by
    rw [hf,Tally.add,ha,hr,hre]
    simp [ReasonCode.topicNameInvalid,ReasonCode.success]
  rw [Exchanges.published,ht,ha]
  refine ⟨?_,fun ta hn => ?_,fun ta hm => ?_⟩
  · rw [hs.holds,← h.current,hf]
    rfl
  · cases hn
  · rcases List.mem_cons.mp hm with rfl | hm
    · decide
    · exact h.finished ta hm

theorem tracked_recorded {p : ℕ} {c : Conn} {m : MQTTPublish} (h : Tracked clientId p s xs)
    (ha : answer s t c p=some ReasonCode.success)
    (hr : xs.current.isSome=true → t.retained=s.retained)
    (hro : t.routed=if s.holds clientId p then s.routed
      else s.routed++[(m,some c)]) (hh : t.holds clientId p=true) :
    Tracked clientId p t (xs.published s t c p) := by
  rw [Exchanges.published,ha]
  refine ⟨hh.symm,fun ta hs => ?_,h.finished⟩
  obtain rfl := Option.some.inj hs
  rw [← h.current] at hro
  cases hc : xs.current with
  | none =>
    rw [hc,Option.isSome_none,if_neg Bool.false_ne_true] at hro
    refine ⟨?_,?_⟩
    · simp [Tally.add,hro]
    · simp only [Tally.add,Option.getD_none]
      split <;> omega
  | some ta =>
    obtain ⟨hrou,hch⟩ := h.routed ta hc
    rw [hc,Option.isSome_some,if_pos rfl] at hro
    simp [Tally.add,hro,hr (by rw [hc]; rfl),hrou,hch]

theorem tracked_publish {lim : Limits} {p : ℕ} {c : Conn} {m : MQTTPublish}
    (h : Tracked clientId p s xs)
    (ho : (if xs.current.isSome then validateTopicName m.topic && !m.retain
      else !validateTopicName m.topic || !m.retain || s.hasRoomFor lim m)=true)
    (hc : Concludes lim clientId p c m s t) : Tracked clientId p t (xs.published s t c p) := by
  cases hc with
  | rejected hi hs ha =>
    refine tracked_rejected h ?_ hs ha
    rw [hi] at ho
    cases hcu : xs.current with
    | none => rfl
    | some ta => simp [hcu] at ho
  | recorded hv rc ha hr hre hro hh =>
    cases hcu : xs.current with
    | none =>
      have hroo : m.retain=false ∨ s.hasRoomFor lim m=true := by simpa [hcu,hv] using ho
      refine tracked_recorded h (hr hroo ▸ ha) (fun hso => ?_) hro hh
      rw [hcu] at hso
      cases hso
    | some ta =>
      have hret : m.retain=false := by simpa [hcu,hv] using ho
      exact tracked_recorded h (hr (.inl hret) ▸ ha) (fun _ => hre hret) hro hh

end BlackBull.Mqtt
