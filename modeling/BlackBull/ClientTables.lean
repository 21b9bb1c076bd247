import BlackBull.BrokerObservation

/-!
# The two client tables

The broker keeps the connection of every client and the client of every connection. A CONNECT writes
both tables, and does not look for another client that the connection had: that client keeps its
entry when the connection leaves.
-/

namespace BlackBull.Mqtt

/-- The connections that have ended, and sent nothing since. -/
def noteEnded (arrival : Arrival) (gone : List Conn) : List Conn :=
  match arrival with
  | .ended conn _ => conn::gone
  | .octets conn _ => gone.filter (· ≠ conn)
  | .timer => gone

/-- The broker, and the connections that have ended, whether or not its task still runs. -/
def followEnds (limits : Limits) (w : Observed (List Conn)) (arrival : Arrival × ℚ) :
    Observed (List Conn) :=
  { observe limits (fun _ _ _ gone => gone) w arrival with
    notes:=noteEnded arrival.1 w.notes}

def Inverse (s : Broker) : Prop :=
  ∀ conn clientId,s.clientByConn.get? conn=some clientId ↔ s.clients.get? clientId=some conn

structure Consistent (w : Observed (List Conn)) : Prop where
  inverse : Inverse w.broker
  gone : ∀ conn∈w.notes,w.broker.clientByConn.get? conn=none ∧
    ∀ clientId,w.broker.clients.get? clientId≠some conn
  single : ∀ conn other clientId,w.broker.clientByConn.get? conn=some clientId →
    w.broker.clientByConn.get? other=some clientId → conn=other

/-- A CONNECT that is accepted names the client that the connection has already. -/
def OneClient (limits : Limits) (s : Broker) (arrival : Arrival × ℚ) : Prop :=
  ∀ conn connect clientId,arrival.1.message=some (conn,.attach connect) →
    Accepts limits arrival.2 connect s → s.clientByConn.get? conn=some clientId →
    clientId=s.clientIdFor connect

/-- The broker's task runs when a connection in its tables ends. -/
def Orderly (limits : Limits) (w : Observed (List Conn)) (arrival : Arrival × ℚ) : Prop :=
  if w.ended then
    ∀ conn graceful,arrival.1=.ended conn graceful → w.broker.clientByConn.get? conn=none
  else OneClient limits w.broker arrival

variable {lim : Limits} {s t : Broker} {conn : Conn} {id : Text}

theorem displaced_get? {o : Conn} (ho : conn≠o) : (s.displaced conn id).get? o =
    if s.clients.get? id=some o then none else s.clientByConn.get? o := by
  unfold Broker.displaced
  cases s.clients.get? id with
  | none => simp
  | some e =>
    dsimp only
    by_cases he : e=conn
    · rw [if_neg (not_not.mpr he),if_neg (by simpa [he] using ho)]
    · simp [he,Dict.get?_pop]

/-- Both tables may take the client exactly when the connection has no other. -/
theorem inverse_registers (hi : Inverse s) (h : Registers conn id s t) :
    Inverse t ↔ ∀ i,s.clientByConn.get? conn=some i → i=id := by
  constructor
  · intro ht i hc
    by_contra hne
    have hl : t.clients.get? i=some conn := by
      rw [h.clients,Dict.get?_set,if_neg (Ne.symm hne)]
      exact (hi conn i).mp hc
    have hr := (ht conn i).mpr hl
    rw [h.clientByConn,Dict.get?_set,if_pos rfl] at hr
    exact hne (Option.some.inj hr).symm
  · intro ho c i
    rw [h.clients,h.clientByConn,Dict.get?_set,Dict.get?_set]
    by_cases hc : conn=c
    · subst hc
      by_cases hii : id=i
      · simp [hii]
      · have hn : s.clients.get? i≠some conn :=
          fun hs => hii (ho i ((hi conn i).mpr hs)).symm
        simp [hii,hn]
    · rw [if_neg hc,displaced_get? hc]
      by_cases hii : id=i
      · subst hii
        have := hi c id
        split <;> simp_all
      · have := hi c i
        have := hi c id
        split <;> simp_all

theorem inverse_forgets (hi : Inverse s) (h : Forgets conn s t) : Inverse t := by
  intro c i
  simp only [h.clientByConn,h.clients,← hi conn i,and_self]
  by_cases hc : conn=c
  · subst hc
    rw [if_pos rfl]
    split
    · simp
    · next hn => simpa [← hi conn i] using hn
  · rw [if_neg hc,hi c i]
    split
    · next hs =>
      have := (hi conn i).mp hs
      simp [this,hc]
    · rfl

/-- The tables after a message that the broker handles. -/
inductive Tables (limits : Limits) (s t : Broker) (arrival : Arrival × ℚ) : Prop
  | same (h : t.clientByConn=s.clientByConn ∧ t.clients=s.clients)
      (one : OneClient limits s arrival) (live : ∀ conn graceful,arrival.1≠.ended conn graceful)
  | registers (conn : Conn) (connect : MQTTConnect)
      (message : arrival.1.message=some (conn,.attach connect))
      (accepts : Accepts limits arrival.2 connect s)
      (h : Registers conn (s.clientIdFor connect) s t)
  | forgets (conn : Conn) (graceful : Bool) (interval : Option ℕ)
      (message : arrival.1.message=some (conn,.detach graceful interval))
      (h : Forgets conn s t)

theorem oneClient_of_message {a : Arrival × ℚ} {m : Option (Conn × Message)} (hm : a.1.message=m)
    (h : ∀ c cn,m=some (c,.attach cn) → ¬ Accepts lim a.2 cn s) : OneClient lim s a :=
  fun c cn _ ha hacc _ => absurd hacc (h c cn (hm.symm.trans ha))

theorem live_of_message {a : Arrival} (h : ∀ c g i,a.message≠some (c,.detach g i)) :
    ∀ conn gr,a≠.ended conn gr := by
  rintro c g rfl
  exact h c g none rfl

theorem receive_tables (a : Arrival × ℚ) (hs : Sound s) :
    Ensures (receive lim a) s (fun _ t => Tables lim s t a)
      (fun _ t => Tables lim s t a) := by
  unfold receive
  cases hm : a.1.message with
  | none =>
    exact .same ⟨rfl,rfl⟩ (oneClient_of_message hm (by simp)) (live_of_message (by simp [hm]))
  | some f =>
    obtain ⟨conn,m⟩ := f
    dsimp only
    cases m with
    | attach cn =>
      refine (onAttach_ensures lim conn a.2 (windowFits_of_message hm) hs).mono
        (fun _ t ht => ?_) fun _ t ht => .registers conn cn hm ht.2.1 ht.2.2.2.2
      rcases ht.2 with ⟨hn,hr⟩ | ⟨ha,-,hat⟩
      · refine .same ⟨hr.clientByConn,hr.clients⟩ (oneClient_of_message hm ?_)
          (live_of_message (by simp [hm]))
        intro c cn' heq
        obtain ⟨-,h⟩ := Prod.mk.inj (Option.some.inj heq)
        exact Message.attach.inj h ▸ hn
      · exact .registers conn cn hm ha ⟨hat.registers.clients,hat.registers.clientByConn⟩
    | detach g i =>
      exact (onDetach_ensures lim conn a.2 g i hs).total
        fun _ t ht => .forgets conn g i hm ht.2.2
    | _ =>
      refine (handle_stays lim conn a.2 (by simp) (by simp) s hs).total
        fun _ t ht => ?_
      exact .same ⟨ht.2.clientByConn,ht.2.clients⟩ (oneClient_of_message hm (by simp))
        (live_of_message (by simp [hm]))

theorem Tables.inverse_iff {a : Arrival × ℚ} (hi : Inverse s) (h : Tables lim s t a) :
    Inverse t ↔ OneClient lim s a := by
  cases h with
  | same h one _ =>
    refine iff_of_true ?_ one
    unfold Inverse
    rwa [h.1,h.2]
  | registers c cn hm ha h =>
    rw [inverse_registers hi h]
    constructor
    · intro ho c' cn' i hm' _ hc
      obtain ⟨rfl,heq⟩ := Prod.mk.inj (Option.some.inj (hm.symm.trans hm'))
      exact Message.attach.inj heq ▸ ho i hc
    · exact fun ho i hc => ho c cn i hm ha hc
  | forgets c g i hm h =>
    refine iff_of_true (inverse_forgets hi h) (oneClient_of_message hm ?_)
    simp

theorem octets_of_attach {a : Arrival} {cn : MQTTConnect}
    (h : a.message=some (conn,.attach cn)) : ∃ d,a=.octets conn d := by
  cases a with
  | octets o d =>
    rw [Arrival.message] at h
    split at h
    · obtain ⟨m,-,hp⟩ := Option.map_eq_some_iff.mp h
      exact ⟨d,(Prod.mk.inj hp).1 ▸ rfl⟩
    · cases h
  | ended | timer => cases h

theorem mem_noteEnded {a : Arrival} {gn : List Conn} (h : conn∈noteEnded a gn) :
    (∃ gr,a=.ended conn gr) ∨ (conn∈gn ∧ ∀ dt,a≠.octets conn dt) := by
  cases a with
  | octets o dt =>
    obtain ⟨hm,hne⟩ := List.mem_filter.mp h
    refine .inr ⟨hm,fun d heq => ?_⟩
    exact of_decide_eq_true hne (Arrival.octets.inj heq).1.symm
  | ended o g =>
    rcases List.mem_cons.mp h with rfl | hm
    · exact .inl ⟨g,rfl⟩
    · exact .inr ⟨hm,by simp⟩
  | timer => exact .inr ⟨h,by simp⟩

theorem Tables.gone {a : Arrival × ℚ} {gn : List Conn} (h : Tables lim s t a)
    (hg : ∀ c∈gn,s.clientByConn.get? c=none) :
    ∀ c∈noteEnded a.1 gn,t.clientByConn.get? c=none := by
  intro c hc
  rcases mem_noteEnded hc with ⟨g,ha⟩ | ⟨hm,ho⟩
  · cases h with
    | same _ _ live => exact absurd ha (live c g)
    | registers o cn hm _ _ => cases ha ▸ hm
    | forgets o _ i hm h =>
      rw [ha] at hm
      obtain ⟨rfl,-⟩ := Prod.mk.inj (Option.some.inj hm)
      rw [h.clientByConn,if_pos rfl]
  · cases h with
    | same h _ _ => rw [h.1,hg c hm]
    | registers o cn hme _ h =>
      obtain ⟨d,ha⟩ := octets_of_attach hme
      have hne : o≠c := fun heq => ho d (heq ▸ ha)
      rw [h.clientByConn,Dict.get?_set,if_neg hne,displaced_get? hne,hg c hm,ite_self]
    | forgets o g i _ h => rw [h.clientByConn,hg c hm,ite_self]

theorem consistent_iff {w : Observed (List Conn)} : Consistent w ↔
    Inverse w.broker ∧ ∀ c∈w.notes,w.broker.clientByConn.get? c=none := by
  constructor
  · exact fun h => ⟨h.inverse,fun c hc => (h.gone c hc).1⟩
  · rintro ⟨hi,hg⟩
    refine ⟨hi,fun c hc => ⟨hg c hc,fun i h => ?_⟩,fun c o i h h' => ?_⟩
    · cases (hg c hc).symm.trans ((hi c i).mpr h)
    · exact Option.some.inj (((hi c i).mp h).symm.trans ((hi o i).mp h'))

theorem orderly_iff {w : Observed (List Conn)} (a : Arrival × ℚ) (hs : Sound w.broker)
    (h : Consistent w) : Orderly lim w a ↔ Consistent (followEnds lim w a) := by
  rw [consistent_iff] at h
  obtain ⟨hi,hg⟩ := h
  rw [consistent_iff,Orderly]
  cases he : w.ended with
  | true =>
    simp only [if_true,followEnds,observe_of_ended a he,hi,true_and]
    cases ha : a.1 with
    | ended c g => simpa [noteEnded] using fun _ => hg
    | octets c d =>
      refine iff_of_true (fun _ _ h => by cases h) fun c' hc => ?_
      exact hg c' (List.mem_of_mem_filter hc)
    | timer => exact iff_of_true (fun _ _ h => by cases h) hg
  | false =>
    have ht : Tables lim w.broker (followEnds lim w a).broker a := by
      refine observe_of_ensures (fun w' => Tables lim w.broker w'.broker a) he ?_
      exact receive_tables a hs
    rw [ht.inverse_iff hi,if_neg Bool.false_ne_true]
    exact (and_iff_left (ht.gone hg)).symm

/-- The two tables are inverse at every moment, and hold no ended connection, exactly in the runs
whose steps are all orderly. -/
theorem client_tables_inverse_iff (limits : Limits) (arrivals : List (Arrival × ℚ)) :
    (∀ n,Consistent (run (followEnds limits) {notes:=[]} (arrivals.take n))) ↔
      Along (followEnds limits) (Orderly limits) {notes:=[]} arrivals := by
  refine always_iff_along (fun w a => sound_observe a) (fun w a => orderly_iff a)
    sound_initial (consistent_iff.mpr ⟨fun c i => ?_,by simp⟩)
  simp [Dict.get?]

/-- The connection 1 connects as "a" and as "b" and ends; the client "a" keeps it. -/
theorem ended_connection_kept :
    let w := run (followEnds {}) {notes:=[]} [(.octets 1 (connectAs [0x61]),0),
      (.octets 1 (connectAs [0x62]),0),(.ended 1 false,0)]
    1∈w.notes ∧ w.broker.clientByConn.get? 1=none ∧ w.broker.clients.get? "a".toList=some 1 := by
  decide +kernel

end BlackBull.Mqtt
