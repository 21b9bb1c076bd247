import BlackBull.BrokerSurvival

/-!
# Clients without an identifier

The broker numbers the clients that give no identifier, without a look at its tables. As long as no
client has chosen a number that is yet to be given, as `auto-1` at the start, such a client is one
more, with a session of its own.
-/

namespace BlackBull.Mqtt

/-- A CONNECT without an identifier is served, and leaves `t`. -/
structure Joins (limits : Limits) (arrival : Arrival × ℚ) (conn : Conn) (connect : MQTTConnect)
    (s t : Broker) : Prop where
  message : arrival.1.message=some (conn,.attach connect)
  anonymous : connect.clientId=[]
  accepts : Accepts limits arrival.2 connect s
  returns : receive limits arrival s=.ok () t

/-- One session and one client more, and only a CONNACK of a new session is sent. -/
def OneMore (limits : Limits) (conn : Conn) (clientId : Text) (s t : Broker) : Prop :=
  ∃ session,t.sessions=s.sessions++[(clientId,session)] ∧
    t.clients=s.clients++[(clientId,conn)] ∧
    t.sent=s.sent++[(conn,.send (.connack (acceptedConnack limits false)))]

/-- The identifier is new; nobody's session is resumed or replaced, and nobody is disconnected. -/
def Separates (limits : Limits) (s : Broker) (arrival : Arrival × ℚ) : Prop :=
  ∀ conn connect t,Joins limits arrival conn connect s t →
    ∃ clientId,(s.unexpired arrival.2).get? clientId=none ∧ s.clients.get? clientId=none ∧
      OneMore limits conn clientId {s with sessions:=s.unexpired arrival.2} t

def assignedId (n : ℕ) : Text := "auto-".toList++(toString n).toList

/-- A CONNECT that is accepted does not bear an identifier that the broker has yet to give. -/
def Modest (limits : Limits) (s : Broker) (arrival : Arrival × ℚ) : Prop :=
  ∀ conn connect,arrival.1.message=some (conn,.attach connect) →
    Accepts limits arrival.2 connect s → ∀ n,s.autoSeq<n → connect.clientId≠assignedId n

/-- The identifiers that are yet to be given are nobody's. -/
structure Fresh (s : Broker) : Prop where
  sound : Sound s
  sessions : ∀ n,s.autoSeq<n → s.sessions.get? (assignedId n)=none
  clients : ∀ n,s.autoSeq<n → s.clients.get? (assignedId n)=none

variable {lim : Limits} {c : Conn} {cn : MQTTConnect} {s t : Broker} {now : ℚ}

theorem acceptConnect_new {id : Text} (hs : s.sessions.get? id=none) (hc : s.clients.get? id=none) :
    OnSuccess (acceptConnect lim c now id cn) s fun _ => OneMore lim c id s := by
  simp only [acceptConnect,takeOver,ensures_bind,ensures_get,hc,ensures_pure,ensures_modify]
  refine (registerWill_ensures id cn _).partly fun _ u hu => ?_
  obtain ⟨-,w,rfl⟩ := hu
  simp only [startSession,setSession,armExpiryTimer,send,ensures_bind,ensures_get,
    ensures_modify,Broker.resume,hs,Bool.false_eq_true,if_false,ensures_pure]
  exact ⟨_,Dict.set_of_get?_eq_none _ hs,Dict.set_of_get?_eq_none _ hc,rfl⟩

/-- A CONNECT that is accepted goes on with what the sweep leaves. Without an identifier it has used
up a number. -/
theorem onAttach_of_accepts (hs : Sound s) (ha : Accepts lim now cn s)
    {P : Unit → Broker → Prop} {Q : Failure → Broker → Prop}
    (h : ∀ n r tm,s.autoSeq≤n ∧ (cn.clientId=[] → s.autoSeq<n) →
      Ensures (acceptConnect lim c now (s.clientIdFor cn) cn) {s with
        autoSeq:=n,sessions:=s.unexpired now,shareRotation:=r,expiryTimer:=tm} P Q) :
    Ensures (onAttach lim c now cn) s P Q := by
  rw [onAttach,if_neg (not_not.mpr ha.1),ensures_bind]
  refine (assignClientId_ensures cn s).total fun id t ht => ?_
  obtain ⟨rfl,n,rfl,hn⟩ := ht
  rw [ensures_bind]
  have hsn : Sound {s with autoSeq:=n} := hs.of_sessions rfl
  refine (sweepExpired_ensures hsn now).total fun _ u hu => ?_
  obtain ⟨r,tm,rfl⟩ := hu
  rw [ensures_bind,ensures_get,ensures_ite]
  exact ⟨fun hf => absurd (ha.2.symm.trans hf) (by decide),fun _ => h n r tm hn⟩

theorem Fresh.separates (h : Fresh s) (a : Arrival × ℚ) : Separates lim s a := by
  intro c cn t hj
  have hr : onAttach lim c a.2 cn s=.ok () t := by
    have hr := hj.returns
    rwa [receive,hj.message] at hr
  have hid : s.clientIdFor cn=assignedId (s.autoSeq+1) := if_pos hj.anonymous
  have hse : (s.unexpired a.2).get? (s.clientIdFor cn)=none := by
    rw [hid]
    exact unexpired_none (h.sessions _ (Nat.lt_succ_self _))
  have hc : s.clients.get? (s.clientIdFor cn)=none := by
    rw [hid]
    exact h.clients _ (Nat.lt_succ_self _)
  have hn : OnSuccess (onAttach lim c a.2 cn) s fun _ => OneMore lim c (s.clientIdFor cn)
      {s with sessions:=s.unexpired a.2} :=
    onAttach_of_accepts h.sound hj.accepts fun _ _ _ _ => acceptConnect_new hse hc
  exact ⟨_,hse,hc,hn.ok hr⟩

/-- A CONNECT without an identifier that is accepted uses up a number. -/
theorem onAttach_autoSeq (c : Conn) (hf : cn.properties.WindowFits) (hs : Sound s)
    (ha : Accepts lim now cn s) :
    let counted := fun t : Broker => s.autoSeq≤t.autoSeq ∧ (cn.clientId=[] → s.autoSeq<t.autoSeq)
    Ensures (onAttach lim c now cn) s (fun _ => counted) (fun _ => counted) := by
  intro counted
  refine onAttach_of_accepts hs ha fun n r tm hn => ?_
  rw [acceptConnect,ensures_bind]
  refine (takeOver_ensures c _ _).total fun _ t ht => ?_
  obtain ⟨new,rfl,-⟩ := ht
  rw [ensures_bind,ensures_modify,ensures_bind]
  refine (registerWill_ensures _ cn _).mono (fun _ u hu => ?_) fun _ u hu => ?_
  · obtain ⟨-,w,rfl⟩ := hu
    refine (startSession_ensures lim c now _ hf ?_).total fun _ v hv => ?_
    · exact (hs.unexpired now).of_sessions rfl
    · obtain rfl : v.autoSeq=n := congrArg Standing.autoSeq hv.2.standing
      exact hn
  · obtain ⟨-,rfl⟩ := hu
    exact hn

theorem clientIdFor_ne (hm : ∀ n,s.autoSeq<n → cn.clientId≠assignedId n)
    (ht : s.autoSeq≤t.autoSeq ∧ (cn.clientId=[] → s.autoSeq<t.autoSeq)) {n : ℕ}
    (hn : t.autoSeq<n) : s.clientIdFor cn≠assignedId n := by
  by_cases hc : cn.clientId=[]
  · rw [show s.clientIdFor cn=assignedId (s.autoSeq+1) from if_pos hc]
    intro he
    have hr := Nat.repr_injective (String.toList_injective (List.append_cancel_left he))
    have := ht.2 hc
    omega
  · rw [show s.clientIdFor cn=cn.clientId from if_neg hc]
    exact hm n (ht.1.trans_lt hn)

theorem Fresh.narrow (h : Fresh s) (hs : Sound t) (ha : s.autoSeq≤t.autoSeq)
    (hn : ∀ name,s.sessions.get? name=none → t.sessions.get? name=none)
    (hc : ∀ name,s.clients.get? name=none → t.clients.get? name=none) : Fresh t :=
  ⟨hs,fun n hl => hn _ (h.sessions n (ha.trans_lt hl)),
    fun n hl => hc _ (h.clients n (ha.trans_lt hl))⟩

theorem Fresh.attach (h : Fresh s) (c : Conn) (hf : cn.properties.WindowFits)
    (hm : Accepts lim now cn s → ∀ n,s.autoSeq<n → cn.clientId≠assignedId n) :
    Fresh (leaving (onAttach lim c now cn) s) := by
  have he := onAttach_ensures lim c now hf h.sound
  unfold leaving
  cases hr : onAttach lim c now cn s with
  | ok u t =>
    obtain ⟨hs,⟨-,hre⟩ | ⟨ha,-,hat⟩⟩ := he.ok hr
    · have hst := hre.stays
      exact h.narrow hs hst.autoSeq hst.names fun name hn => by rw [hst.clients]; exact hn
    · have hq := (onAttach_autoSeq c hf h.sound ha).ok hr
      refine ⟨hs,fun n hn => ?_,fun n hn => ?_⟩
      · have hp := congrArg (·.get? (assignedId n)) hat.pendingQos2In
        simp only [Broker.standing,Dict.get?_map,Dict.get?_set,
          if_neg (clientIdFor_ne (hm ha) hq hn),
          unexpired_none (h.sessions n (hq.1.trans_lt hn)),Option.map_none] at hp
        simpa using hp
      · rw [hat.registers.clients,Dict.get?_set,if_neg (clientIdFor_ne (hm ha) hq hn)]
        exact h.clients n (hq.1.trans_lt hn)
  | error e t =>
    obtain ⟨hs,ha,-,hh,hre⟩ := he.error hr
    have hq := (onAttach_autoSeq c hf h.sound ha).error hr
    refine ⟨hs,fun n hn => hh.names _ (h.sessions n (hq.1.trans_lt hn)),fun n hn => ?_⟩
    rw [hre.clients,Dict.get?_set,if_neg (clientIdFor_ne (hm ha) hq hn)]
    exact h.clients n (hq.1.trans_lt hn)

theorem Fresh.step (h : Fresh s) {a : Arrival × ℚ} (hm : Modest lim s a) :
    Fresh (brokerStep lim s a) := by
  unfold brokerStep receive
  cases ha : a.1.message with
  | none => exact h
  | some f =>
    obtain ⟨c,m⟩ := f
    cases m with
    | attach cn => exact h.attach c (windowFits_of_message ha) (hm c cn ha)
    | detach g i =>
      refine Ensures.leaving ((onDetach_ensures lim c a.2 g i h.sound).total
        fun _ t ht => ?_)
      obtain ⟨hs,-,hf⟩ := ht
      refine h.narrow hs hf.autoSeq hf.names fun name hn => ?_
      rw [hf.clients,hn,ite_self]
    | _ =>
      refine Ensures.leaving ((handle_stays lim c a.2 (by simp) (by simp) s h.sound).total
        fun _ t ht => ?_)
      exact h.narrow ht.1 ht.2.autoSeq ht.2.names fun name hn => by rw [ht.2.clients]; exact hn

theorem Fresh.along (h : Fresh s) {as : List (Arrival × ℚ)}
    (ha : Along (brokerStep lim) (Modest lim) s as) :
    Along (brokerStep lim) (Separates lim) s as := by
  induction as generalizing s with
  | nil => trivial
  | cons a as ih => exact ⟨h.separates a,ih (h.step ha.1) ha.2⟩

/-- As long as no client that is accepted bears an identifier that is yet to be given, every client
without one is given a new identifier and a session of its own. -/
theorem assigned_identifiers_separate (limits : Limits) (arrivals : List (Arrival × ℚ))
    (h : Along (brokerStep limits) (Modest limits) {} arrivals) :
    Along (brokerStep limits) (Separates limits) {} arrivals :=
  Fresh.along ⟨sound_initial,fun _ _ => rfl,fun _ _ => rfl⟩ h

def anonymousConnect : MQTTConnect :=
  ⟨{clientId:=[],cleanStart:=true,keepAlive:=60},by decide⟩

theorem modest_of_length {a : Arrival × ℚ} {m : MQTTConnect}
    (hm : a.1.message=some (c,.attach m)) (hl : m.clientId.length<5) (s : Broker) :
    Modest lim s a := by
  intro c' m' hm' _ n _ he
  obtain ⟨-,rfl⟩ : c=c' ∧ m=m' := by simpa [hm] using hm'
  simp only [he,assignedId,List.length_append] at hl
  simp at hl

/-- One client with an identifier of its own and two without. -/
theorem assigned_identifiers_separate_three :
    let arrivals := [(.octets 1 (connectAs [0x61]),0),(.octets 2 (connectAs []),0),
      (.octets 3 (connectAs []),0)]
    Along (brokerStep {}) (Separates {}) {} arrivals ∧
      (run (brokerStep {}) {} arrivals).clients.length=3 := by
  intro arrivals
  have hn (c : Conn) (hm : (Arrival.octets c (connectAs [])).message =
      some (c,.attach anonymousConnect)) (s : Broker) :
      Modest {} s (.octets c (connectAs []),0) := modest_of_length hm (by decide) s
  have ha (s : Broker) : Modest {} s (.octets 1 (connectAs [0x61]),0) :=
    modest_of_length (c := 1) (m := ⟨{clientId:=['a'],cleanStart:=true,keepAlive:=60},by decide⟩)
      (by decide +kernel) (by decide) s
  exact ⟨assigned_identifiers_separate {} arrivals
    ⟨ha _,hn 2 (by decide +kernel) _,hn 3 (by decide +kernel) _,trivial⟩,by decide +kernel⟩

def chosenConnect : Bytes := connectAs (ByteString.ascii "auto-1")

/-- The second client is taken for the first, which is disconnected. -/
theorem chosen_identifier_taken_over :
    ¬ Along (brokerStep {}) (Separates {}) {}
      [(.octets 1 chosenConnect,0),(.octets 2 (connectAs []),0)] := by
  rintro ⟨-,h,-⟩
  have hl : (brokerStep {} (brokerStep {} {} (.octets 1 chosenConnect,0))
      (.octets 2 (connectAs []),0)).clients.length =
        (brokerStep {} {} (.octets 1 chosenConnect,0)).clients.length := by decide +kernel
  have hr : (match receive {} (.octets 2 (connectAs []),0)
      (brokerStep {} {} (.octets 1 chosenConnect,0)) with
      | .ok _ _ => true
      | .error _ _ => false)=true := by decide +kernel
  split at hr
  · next t hok =>
    obtain ⟨id,-,-,session,-,hc,-⟩ := h 2 anonymousConnect t
      ⟨by decide +kernel,rfl,⟨rfl,by decide +kernel⟩,hok⟩
    rw [brokerStep,leaving,hok] at hl
    simp [hc] at hl
  · cases hr

end BlackBull.Mqtt
