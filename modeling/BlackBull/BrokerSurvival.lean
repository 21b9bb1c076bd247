import BlackBull.BrokerHandlers
import BlackBull.ReceiveMaximum
import BlackBull.TransitionRuns

/-!
# The MQTT broker survives its clients

Every handler returns on a sound state and leaves a sound state behind, except for a CONNECT that is
accepted with a Will the broker cannot build a message from: its fields are checked for the first
time then.
-/

namespace BlackBull.Mqtt

/-- The broker can build a message from the Will, if there is one. -/
def WillSound (connect : MQTTConnect) : Prop :=
  ∀ topic,connect.willTopic=some topic → (willFields connect topic).Sendable

theorem registerWill_ensures (id : Text) (connect : MQTTConnect) (s : Broker) :
    Ensures (registerWill id connect) s (fun _ t => WillSound connect ∧ ∃ w,t={s with wills:=w})
      (fun _ t => ¬ WillSound connect ∧ t=s) := by
  unfold registerWill
  cases ht : connect.willTopic with
  | none =>
    refine ⟨?_,_,rfl⟩
    intro top h
    rw [ht] at h
    cases h
  | some top =>
    have hid : ¬ ((willFields connect top).qos > 0 ∧ (willFields connect top).packetId=none) := by
      rintro ⟨hq,hn⟩
      exact Option.some_ne_none 1 ((if_pos hq).symm.trans hn)
    have hr := (willFields connect top).refusal_eq_none_iff
    dsimp only
    rw [ensures_bind,ensures_ofExcept]
    by_cases hs : (willFields connect top).Sendable
    · obtain ⟨wl,hw⟩ := MQTTPublish.make_ok (hr.mpr ⟨hid,hs⟩)
      rw [hw]
      refine ⟨?_,_,rfl⟩
      intro o ho
      obtain rfl := Option.some.inj (ht.symm.trans ho)
      exact hs
    · obtain ⟨f,hf⟩ :=
        MQTTPublish.make_error fun hn => hs (hr.mp hn).2
      rw [hf]
      exact ⟨fun ha => hs (ha top ht),rfl⟩

variable {s : Broker} {connect : MQTTConnect} (lim : Limits) (conn : Conn)

theorem replayQos1_sustains (p : Dict ℕ MQTTPublish) :
    Sustains Sound Serves (replayQos1 conn p) := by
  induction p with
  | nil => exact Sustains.pure
  | cons i p ih =>
    have hid := (i.2.refusal_eq_none_iff.mp i.2.checked).1
    have hm := i.2.forwarded_ok i.2.qos i.2.packetId true i.2.retain hid
    exact (Sustains.ofExcept hm).bind fun pa => (send_sustains conn _ rfl).bind fun _ => ih

theorem replayQos2_sustains (p : Dict ℕ Qos2Out) : Sustains Sound Serves (replayQos2 conn p) := by
  induction p with
  | nil => exact Sustains.pure
  | cons i p ih =>
    obtain ⟨pi,e⟩ := i
    cases e with
    | publishSent m =>
      have hid := (m.refusal_eq_none_iff.mp m.checked).1
      have hm := m.forwarded_ok m.qos m.packetId true m.retain hid
      exact (Sustains.ofExcept hm).bind fun pa => (send_sustains conn _ rfl).bind fun _ => ih
    | pubrelSent => exact (send_sustains conn _ rfl).bind fun _ => ih

theorem replayPending_sustains (ss : Session) : Sustains Sound Serves (replayPending conn ss) :=
  (replayQos1_sustains conn _).bind fun _ => replayQos2_sustains conn _

theorem receiveMaximum_startedSession (hs : Sound s) (id : Text)
    (h : connect.properties.WindowFits) : (s.startedSession id connect).receiveMaximum≤65535 := by
  have hr : (s.resume id connect).1.receiveMaximum≤65535 := by
    unfold Broker.resume
    split
    · next ss hse =>
      split
      · exact le_refl 65535
      · exact hs.window hse
    · exact le_refl 65535
  change declaredWindow connect _≤65535
  unfold declaredWindow
  split
  · next d hd =>
    split
    · exact h d hd
    · exact hr
  · exact hr

theorem startSession_ensures (now : ℚ) (cid : Text) (hf : connect.properties.WindowFits)
    (hs : Sound s) :
    Succeeds (startSession lim conn now cid connect) s fun _ t => Sound t ∧ Serves {s with
          sessions:=s.sessions.set cid (s.startedSession cid connect)
          sent:=s.sent++[(conn,.send (.connack
            (acceptedConnack lim (s.resume cid connect).2)))]} t := by
  have hw := receiveMaximum_startedSession hs cid hf
  rw [Succeeds,startSession,ensures_bind,ensures_get]
  dsimp only
  rw [ensures_bind,setSession,ensures_modify,ensures_bind,armExpiryTimer,ensures_modify,
    ensures_bind,send,ensures_modify]
  have hr : Sustains Sound Serves (if (s.resume cid connect).2=true then
      replayPending conn (s.startedSession cid connect) else pure ()) :=
    Sustains.ite (replayPending_sustains conn _) Sustains.pure
  refine (hr _ ?_).imp fun _ t ht => ⟨ht.1,ht.2.standing,ht.2.answers⟩
  exact (hs.setSession cid hw).of_sessions rfl

def Outgoing.publishes : Outgoing → Bool
  | .send (.publish _) => true
  | _ => false

/-- What disconnects a client elsewhere: nothing is published, and a connection that stays in the
table is sent nothing of it. -/
structure Displaces (conn : Conn) (s : Broker) (table : Dict Conn Text)
    (new : List (Conn × Outgoing)) : Prop where
  quiet : ∀ item∈new,item.2.publishes=false
  elsewhere : ∀ item∈new,item.1≠conn
  table : ∀ other name,table.get? other=some name → s.clientByConn.get? other=some name ∧
    ∀ item∈new,item.1=other → item.2.takesOver=false

/-- The table without a connection on which the client is connected elsewhere. -/
def Broker.displaced (s : Broker) (conn : Conn) (clientId : Text) : Dict Conn Text :=
  match s.clients.get? clientId with
  | none => s.clientByConn
  | some existing => if existing≠conn then s.clientByConn.pop existing else s.clientByConn

theorem takeOver_ensures (id : Text) (s : Broker) :
    Succeeds (takeOver conn id) s fun _ t => ∃ new,
        t={s with clientByConn:=s.displaced conn id,sent:=s.sent++new} ∧
          Displaces conn s (s.displaced conn id) new := by
  have hs : ∃ new,s={s with sent:=s.sent++new} ∧ Displaces conn s s.clientByConn new :=
    ⟨[],by rw [List.append_nil],by simp,by simp,fun _ _ h => ⟨h,by simp⟩⟩
  rw [Succeeds,takeOver,ensures_bind,ensures_get,Broker.displaced]
  cases s.clients.get? id with
  | none => exact hs
  | some e =>
    dsimp only
    rw [ensures_ite]
    refine ⟨fun hne => ?_,fun he => by rw [if_neg he]; exact hs⟩
    rw [if_pos hne]
    rw [ensures_bind,ensures_modify,ensures_bind,send,ensures_modify,send,ensures_modify]
    have hto : ∀ i∈[(e,Outgoing.send (.disconnect
        {reasonCode:=some ReasonCode.sessionTakenOver}))] ++
        [(e,.close ReasonCode.sessionTakenOver)],i.1=e := by simp
    refine ⟨_,by rw [List.append_assoc],?_,?_,?_⟩
    · simp [Outgoing.publishes]
    · intro i hm
      rw [hto i hm]
      exact hne
    · intro o name ho
      rw [Dict.get?_pop] at ho
      split at ho
      · cases ho
      · next ho' =>
        exact ⟨ho,fun i hm hi => absurd ((hto i hm).symm.trans hi) ho'⟩

/-- A step that publishes nothing and changes no session; those that are due may expire. -/
structure Harmless (now : ℚ) (s t : Broker) : Prop where
  retained : t.retained=s.retained
  routed : t.routed=s.routed
  sessions : t.sessions=s.sessions ∨ t.sessions=s.unexpired now
  sent : ∃ new,t.sent=s.sent++new ∧ ∀ item∈new,item.2.publishes=false

theorem Harmless.names {now : ℚ} {t : Broker} (h : Harmless now s t) (name : Text)
    (hn : s.sessions.get? name=none) : t.sessions.get? name=none := by
  rcases h.sessions with hs | hs <;> rw [hs]
  · exact hn
  · exact unexpired_none hn

structure Registers (conn : Conn) (clientId : Text) (s t : Broker) : Prop where
  clients : t.clients=s.clients.set clientId conn
  clientByConn : t.clientByConn=(s.displaced conn clientId).set conn clientId

/-- The connection is attached, and another that stays attached was not disconnected for it. -/
structure Attaches (limits : Limits) (conn : Conn) (clientId : Text) (connect : MQTTConnect)
    (s t : Broker) : Prop where
  retained : t.retained=s.retained
  routed : t.routed=s.routed
  pendingQos2In : t.standing.pendingQos2In=s.standing.pendingQos2In.set clientId
    (s.resume clientId connect).1.pendingQos2In
  clientByConn : t.clientByConn.get? conn=some clientId
  sent : ∃ first later,t.sent=s.sent++(first++(conn,.send (.connack
      (acceptedConnack limits (s.resume clientId connect).2)))::later) ∧
    (∀ item∈first,item.1≠conn) ∧
    ∀ other name,other≠conn → t.clientByConn.get? other=some name →
      s.clientByConn.get? other=some name ∧
        ∀ item∈first++later,item.1=other → item.2.takesOver=false
  registers : Registers conn clientId s t

theorem acceptConnect_ensures (now : ℚ) (id : Text) (hf : connect.properties.WindowFits)
    (hs : Sound s) :
    Ensures (acceptConnect lim conn now id connect) s
      (fun _ t => Sound t ∧ WillSound connect ∧ Attaches lim conn id connect s t)
      (fun _ t => Sound t ∧ ¬ WillSound connect ∧ Harmless now s t ∧ Registers conn id s t) := by
  rw [acceptConnect,ensures_bind]
  refine (takeOver_ensures conn id s).total fun _ t ht => ?_
  obtain ⟨a,rfl,hd⟩ := ht
  rw [ensures_bind,ensures_modify,ensures_bind]
  refine (registerWill_ensures id connect _).mono (fun _ u hu => ?_) fun _ u hu => ?_
  · obtain ⟨hw,w,rfl⟩ := hu
    refine (startSession_ensures lim conn now id hf ?_).total fun _ v hv => ?_
    · exact hs.of_sessions rfl
    · obtain ⟨hso,hse⟩ := hv
      obtain ⟨later,hl,ha⟩ := hse.answers
      have hat : v.clientByConn=(s.displaced conn id).set conn id :=
        congrArg Standing.clientByConn hse.standing
      refine ⟨hso,hw,?_,?_,?_,?_,⟨a,later,?_,hd.elsewhere,?_⟩,
        congrArg Standing.clients hse.standing,hat⟩
      · exact congrArg Standing.retained hse.standing
      · exact congrArg Standing.routed hse.standing
      · rw [hse.standing]
        exact Dict.map_set s.sessions Session.pendingQos2In id _
      · rw [hat,Dict.get?_set,if_pos rfl]
      · rw [hl]
        simp [Broker.resume]
      · intro o name hne ho
        rw [hat,Dict.get?_set,if_neg (Ne.symm hne)] at ho
        obtain ⟨hb,hfi⟩ := hd.table o name ho
        refine ⟨hb,fun i hm hi => ?_⟩
        rcases List.mem_append.mp hm with hm | hm
        · exact hfi i hm hi
        · exact ha i hm
  · obtain ⟨hw,rfl⟩ := hu
    exact ⟨hs.of_sessions rfl,hw,⟨rfl,rfl,.inl rfl,a,rfl,hd.quiet⟩,rfl,rfl⟩

def Broker.clientIdFor (s : Broker) (connect : MQTTConnect) : Text :=
  if connect.clientId=[] then "auto-".toList++(toString (s.autoSeq+1)).toList
  else connect.clientId

theorem assignClientId_ensures (connect : MQTTConnect) (s : Broker) :
    Succeeds (assignClientId connect) s
      fun id t => id=s.clientIdFor connect ∧ ∃ n,t={s with autoSeq:=n} ∧ s.autoSeq≤n ∧
        (connect.clientId=[] → s.autoSeq<n) := by
  unfold assignClientId Broker.clientIdFor
  rw [Succeeds,ensures_ite]
  exact ⟨fun he => ⟨(if_pos he).symm,_,rfl,Nat.le_succ _,fun _ => Nat.lt_succ_self _⟩,
    fun hn => ⟨(if_neg hn).symm,s.autoSeq,rfl,le_rfl,fun he => absurd he hn⟩⟩

/-- A CONNECT of the supported version that finds room once the expired sessions are gone. -/
def Accepts (limits : Limits) (now : ℚ) (connect : MQTTConnect) (s : Broker) : Prop :=
  connect.protoLevel=5 ∧
    Broker.full {s with sessions:=s.unexpired now} limits (s.clientIdFor connect)=false

theorem Harmless.of_swept {now : ℚ} {sw t : Broker} (h : Harmless now sw t)
    (hr : sw.retained=s.retained) (hro : sw.routed=s.routed)
    (hs : sw.sessions=s.unexpired now) (hse : sw.sent=s.sent) : Harmless now s t where
  retained := h.retained.trans hr
  routed := h.routed.trans hro
  sessions := by
    right
    rcases h.sessions with hsa | ha
    · exact hsa.trans hs
    · rw [ha,Broker.unexpired,hs,Broker.unexpired,List.filter_filter]
      simp
  sent := hse ▸ h.sent

structure Refuses (conn : Conn) (now : ℚ) (s t : Broker) : Prop where
  clientByConn : t.clientByConn=s.clientByConn
  clients : t.clients=s.clients
  autoSeq : s.autoSeq≤t.autoSeq
  harmless : Harmless now s t
  sent : ∃ reasonCode,reasonCode≠ReasonCode.success ∧ t.sent=s.sent ++
    [(conn,.send (.connack {sessionPresent:=false,reasonCode})),(conn,.close reasonCode)]

theorem Refuses.stays {conn : Conn} {now : ℚ} {t : Broker} (h : Refuses conn now s t) :
    Stays s t := by
  obtain ⟨rc,-,hs⟩ := h.sent
  exact ⟨h.clientByConn,h.clients,⟨_,hs,by simp [Outgoing.takesOver]⟩,h.autoSeq,h.harmless.names⟩

theorem refuseConnect_ensures {reasonCode : ℕ} (hc : reasonCode≠ReasonCode.success)
    (hs : Sound s) (now : ℚ) :
    Succeeds (refuseConnect conn reasonCode) s fun _ t => Sound t ∧ Refuses conn now s t := by
  rw [Succeeds,refuseConnect,ensures_bind,send,ensures_modify,send,ensures_modify]
  have hse := List.append_assoc s.sent [(conn,Outgoing.send (.connack
    {sessionPresent:=false,reasonCode}))] [(conn,.close reasonCode)]
  exact ⟨hs.of_sessions rfl,rfl,rfl,le_rfl,⟨rfl,rfl,.inl rfl,_,hse,by simp [Outgoing.publishes]⟩,
    reasonCode,hc,hse⟩

/-- What a CONNECT does: it is refused, or accepted on what the sweep leaves. -/
theorem onAttach_ensures (now : ℚ) (hf : connect.properties.WindowFits) (hs : Sound s) :
    Ensures (onAttach lim conn now connect) s (fun _ t => Sound t ∧
        ((¬ Accepts lim now connect s ∧ Refuses conn now s t) ∨
          (Accepts lim now connect s ∧ WillSound connect ∧
            Attaches lim conn (s.clientIdFor connect) connect
              {s with sessions:=s.unexpired now} t)))
      (fun _ t => Sound t ∧ Accepts lim now connect s ∧ ¬ WillSound connect ∧
        Harmless now s t ∧ Registers conn (s.clientIdFor connect) s t) := by
  unfold onAttach
  rw [ensures_ite]
  refine ⟨fun hl => ?_,fun hl => ?_⟩
  · exact (refuseConnect_ensures conn (by decide) hs now).total
      fun _ t ht => ⟨ht.1,.inl ⟨fun ha => hl ha.1,ht.2⟩⟩
  · rw [ensures_bind]
    refine (assignClientId_ensures connect s).total fun id t ht => ?_
    obtain ⟨rfl,n,rfl,hle,-⟩ := ht
    rw [ensures_bind]
    have has : Sound {s with autoSeq:=n} := hs.of_sessions rfl
    refine (sweepExpired_ensures has now).total fun _ u hu => ?_
    obtain ⟨r,tm,rfl⟩ := hu
    have hsw := hs.unexpired now
    rw [ensures_bind,ensures_get,ensures_ite]
    refine ⟨fun hfu => ?_,fun hr => ?_⟩
    · refine (refuseConnect_ensures conn (by decide) ?_ now).total
        fun _ v hv => ⟨hv.1,.inl ⟨?_,?_,hv.2.clients,hle.trans hv.2.autoSeq,?_,?_⟩⟩
      · exact hsw.of_sessions rfl
      · intro ha
        cases hfu.symm.trans ha.2
      · exact hv.2.clientByConn
      · exact hv.2.harmless.of_swept rfl rfl rfl rfl
      · exact hv.2.sent
    · have ha : Accepts lim now connect s :=
        ⟨not_not.mp hl,Bool.not_eq_true _ ▸ hr⟩
      refine (acceptConnect_ensures lim conn now _ hf ?_).mono (fun _ v hv => ?_) fun _ v hv => ?_
      · exact hsw.of_sessions rfl
      · obtain ⟨hre,hro,hp,hat,hse,hcl,hcc⟩ := hv.2.2
        exact ⟨hv.1,.inr ⟨ha,hv.2.1,hre,hro,hp,hat,hse,hcl,hcc⟩⟩
      · obtain ⟨hw,hh,hcl,hcc⟩ := hv.2
        exact ⟨hv.1,ha,hw,hh.of_swept rfl rfl rfl rfl,hcl,hcc⟩

/-- A CONNECT that is accepted carries no Will that the broker cannot build. -/
def WillsSound (limits : Limits) (s : Broker) (arrival : Arrival × ℚ) : Prop :=
  ∀ conn connect,arrival.1.message=some (conn,.attach connect) →
    Accepts limits arrival.2 connect s → WillSound connect

theorem windowFits_of_message {a : Arrival} {conn : Conn}
    (h : a.message=some (conn,.attach connect)) : connect.properties.WindowFits := by
  cases a with
  | octets se d =>
    rw [Arrival.message] at h
    split at h
    · next p _ hd =>
      obtain ⟨msg,hm,hp⟩ := Option.map_eq_some_iff.mp h
      obtain ⟨-,rfl⟩ := Prod.mk.inj hp
      cases p with
      | connect m =>
        obtain rfl := Message.attach.inj (Option.some.inj hm)
        exact decodePacket_windowFits hd
      | _ => cases hm
    · cases h
  | ended | timer => cases h

/-- Only the connection that detaches is forgotten, in the other table under its client. -/
structure Forgets (conn : Conn) (s t : Broker) : Prop where
  clientByConn : ∀ other,t.clientByConn.get? other =
    if conn=other then none else s.clientByConn.get? other
  clients : ∀ clientId,t.clients.get? clientId =
    if s.clientByConn.get? conn=some clientId ∧ s.clients.get? clientId=some conn then none
    else s.clients.get? clientId
  autoSeq : s.autoSeq≤t.autoSeq
  names : ∀ name,s.sessions.get? name=none → t.sessions.get? name=none

theorem onDetach_ensures (now : ℚ) (g : Bool) (sei : Option ℕ) (hs : Sound s) :
    Succeeds (onDetach lim conn now g sei) s
      fun _ t => Sound t ∧ Answers s t ∧ Forgets conn s t := by
  rw [Succeeds,onDetach,ensures_bind,ensures_get]
  cases ha : s.clientByConn.get? conn with
  | none =>
    refine ⟨hs,.of_eq rfl,fun o => ?_,fun id => ?_,le_rfl,fun _ => id⟩
    · split
      · next heq => rw [← heq,ha]
      · rfl
    · rw [ha,if_neg (by simp)]
  | some cid =>
    have hl := (takeWill_stays lim cid g).bind fun _ => leaveSession_stays now cid sei
    dsimp only
    rw [ensures_bind,forgetConn,ensures_bind,ensures_modify,ensures_bind,ensures_get,ensures_ite]
    have hf : ∀ t : Broker,t.sessions=s.sessions → t.sent=s.sent → t.autoSeq=s.autoSeq →
        t.clientByConn=s.clientByConn.pop conn → (∀ id,t.clients.get? id =
          if cid=id ∧ s.clients.get? id=some conn then none else s.clients.get? id) →
        Succeeds (takeWill lim cid g >>= fun _ =>
            leaveSession now cid sei) t fun _ u => Sound u ∧ Answers s u ∧ Forgets conn s u := by
      intro t hse hsen haut ht htc
      refine (hl t (hs.of_sessions hse)).imp fun _ u hu => ?_
      refine ⟨hu.1,(Answers.of_eq hsen).trans hu.2.answers,fun o => ?_,fun id => ?_,
        haut ▸ hu.2.autoSeq,hse ▸ hu.2.names⟩
      · rw [hu.2.clientByConn,ht,Dict.get?_pop]
      · simp only [hu.2.clients,htc,ha,Option.some.injEq]
    refine ⟨fun hc => hf _ rfl rfl rfl rfl fun id => ?_,
      fun hc => hf _ rfl rfl rfl rfl fun id => ?_⟩
    · have hc : s.clients.get? cid=some conn := hc
      rw [Dict.get?_pop]
      by_cases hi : cid=id
      · rw [if_pos hi,if_pos ⟨hi,hi ▸ hc⟩]
      · rw [if_neg hi,if_neg fun h => hi h.1]
    · rw [if_neg]
      rintro ⟨rfl,h⟩
      exact hc h

theorem handle_stays (now : ℚ) {m : Message} (ha : ∀ connect,m≠.attach connect)
    (hd : ∀ g i,m≠.detach g i) : Sustains Sound Stays (handle lim conn now m) := by
  cases m with
  | attach connect => exact absurd rfl (ha connect)
  | detach g i => exact absurd rfl (hd g i)
  | clientSubscribe su => exact stays_of_serves (onSubscribe_sustains lim conn _)
  | clientUnsubscribe u => exact stays_of_serves (onUnsubscribe_sustains conn _)
  | clientPublish pub => exact onPublish_stays lim conn pub
  | clientPuback pi => exact stays_of_serves (onPuback_sustains conn pi)
  | clientPubrec pi => exact stays_of_serves (onPubrec_sustains conn pi)
  | clientPubrel pi => exact onPubrel_stays conn pi
  | clientPubcomp pi => exact stays_of_serves (onPubcomp_sustains conn pi)
  | sweepExpired => exact sweepExpired_stays now

theorem handle_sound (now : ℚ) {m : Message} (h : ∀ connect,m≠.attach connect) (hs : Sound s) :
    Succeeds (handle lim conn now m) s fun _ t => Sound t := by
  by_cases hd : ∃ g i,m=.detach g i
  · obtain ⟨g,i,rfl⟩ := hd
    exact (onDetach_ensures lim conn now g i hs).imp fun _ _ ht => ht.1
  · refine (handle_stays lim conn now h ?_ s hs).imp fun _ _ ht => ht.1
    exact fun g i heq => hd ⟨g,i,heq⟩

theorem receive_ensures (a : Arrival × ℚ) (hs : Sound s) :
    Ensures (receive lim a) s (fun _ t => Sound t ∧ WillsSound lim s a)
      (fun _ t => Sound t ∧ ¬ WillsSound lim s a) := by
  unfold receive
  cases hm : a.1.message with
  | none =>
    refine ⟨hs,?_⟩
    intro conn connect h
    rw [hm] at h
    cases h
  | some f =>
    obtain ⟨conn,m⟩ := f
    dsimp only
    by_cases ha : ∃ connect,m=.attach connect
    · obtain ⟨connect,rfl⟩ := ha
      have hi : WillsSound lim s a ↔ (Accepts lim a.2 connect s → WillSound connect) := by
        constructor
        · exact fun hal => hal conn connect hm
        · intro ho c c' h
          obtain ⟨-,hc⟩ := Prod.mk.inj (Option.some.inj (hm.symm.trans h))
          obtain rfl := Message.attach.inj hc
          exact ho
      rw [hi]
      refine (onAttach_ensures lim conn a.2 (windowFits_of_message hm) hs).mono
        (fun _ t ht => ⟨ht.1,fun hac => ?_⟩) fun _ t ht => ⟨ht.1,fun him => ?_⟩
      · rcases ht.2 with hr | hacc
        · exact absurd hac hr.1
        · exact hacc.2.1
      · exact ht.2.2.1 (him ht.2.1)
    · refine (handle_sound lim conn a.2 (fun connect h => ha ⟨connect,h⟩)
        hs).total fun _ t ht => ⟨ht,?_⟩
      intro c connect h
      obtain ⟨-,hc⟩ := Prod.mk.inj (Option.some.inj (hm.symm.trans h))
      exact absurd ⟨connect,hc⟩ ha

def brokerStep (limits : Limits) (s : Broker) (arrival : Arrival × ℚ) : Broker :=
  leaving (receive limits arrival) s

theorem runActor_returns_iff (a : List (Arrival × ℚ)) (hs : Sound s) :
    (∃ t,runActor lim a s=.ok () t) ↔
      Along (brokerStep lim) (WillsSound lim) s a := by
  induction a generalizing s with
  | nil => simp [runActor,pure,EStateM.pure]
  | cons ar a ih =>
    have hst := receive_ensures lim ar hs
    rw [along_cons]
    cases hr : receive lim ar s with
    | ok _ t =>
      have ht := hst.ok hr
      have hru : runActor lim (ar::a) s=runActor lim a t := by simp [runActor,bind,EStateM.bind,hr]
      have hn : brokerStep lim s ar=t := by simp [brokerStep,leaving,hr]
      rw [hru,hn,ih ht.1]
      exact (and_iff_right ht.2).symm
    | error f t =>
      have hb := (hst.error hr).2
      have hru : runActor lim (ar::a) s=.error f t := by simp [runActor,bind,EStateM.bind,hr]
      rw [hru]
      refine iff_of_false ?_ fun h => hb h.1
      rintro ⟨u,hu⟩
      cases hu

theorem sound_initial : Sound {} where
  keys := List.nodup_nil
  windows _ hm := absurd hm List.not_mem_nil

/-- The task of the broker goes on exactly as long as no accepted CONNECT carries a Will from which
no message can be built. -/
theorem broker_survives_iff (limits : Limits) (arrivals : List (Arrival × ℚ)) :
    (∃ t,runActor limits arrivals {}=.ok () t) ↔
      Along (brokerStep limits) (WillsSound limits) {} arrivals :=
  runActor_returns_iff limits arrivals sound_initial

def zeroAliasConnect : Bytes :=
  [0x10,0x17,0x00,0x04,0x4D,0x51,0x54,0x54,0x05,0x06,0x00,0x3C,0x00,0x00,0x01,0x61,
    0x03,0x23,0x00,0x00,0x00,0x01,0x74,0x00,0x00]

theorem broker_ends_on_zeroAliasConnect :
    ¬ ∃ t,runActor {} [(.octets 1 zeroAliasConnect,0)] {}=.ok () t := by
  have he : (match runActor {} [(.octets 1 zeroAliasConnect,0)] {} with
      | .ok _ _ => false
      | .error _ _ => true)=true := by decide +kernel
  rintro ⟨t,ht⟩
  rw [ht] at he
  cases he

/-- A CONNECT packet with this identifier, which is a short one. -/
def connectAs (clientId : Bytes) : Bytes :=
  [0x10,13+UInt8.ofNat clientId.length,0,4,0x4D,0x51,0x54,0x54,5,2,0,60,0,0,
    UInt8.ofNat clientId.length]++clientId

end BlackBull.Mqtt
