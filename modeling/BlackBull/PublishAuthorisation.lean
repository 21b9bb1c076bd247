import BlackBull.BrokerObservation

/-!
# What a connection may do before its CONNECT is accepted

An observer keeps the connections whose CONNECT was accepted and which have neither left nor been
disconnected since. The broker's own table names no other, so the handlers that ask for the session
find none. The handler of a PUBLISH does not ask.
-/

namespace BlackBull.Mqtt

def Arrival.conn? : Arrival → Option Conn
  | octets conn _ | ended conn _ => some conn
  | timer => none

def Arrival.detaches (arrival : Arrival) (conn : Conn) : Bool :=
  match arrival.message with
  | some (sender,.detach _ _) => sender=conn
  | _ => false

def acceptedBy : Conn × Outgoing → Option Conn
  | (conn,.send (.connack m)) => if m.reasonCode=ReasonCode.success then some conn else none
  | _ => none

def noteAccepted : Note (List Conn) := fun s arrival t accepted =>
  (replies s t).filterMap acceptedBy++accepted.filter fun conn =>
    !arrival.detaches conn && !(replies s t).any fun reply => reply.1=conn && reply.2.takesOver

def Arrival.stray (arrival : Arrival) (accepted : List Conn) : Bool :=
  match arrival.message with
  | some (conn,.clientPublish publish) => conn∉accepted && validateTopicName publish.topic
  | _ => false

def Known (s : Broker) (accepted : List Conn) : Prop :=
  ∀ conn clientId,s.clientByConn.get? conn=some clientId → conn∈accepted

variable {s : Broker} {cn : Conn} {ar : Arrival} {ac : List Conn} {t : Broker}
  {msg : Message} (lim : Limits)

theorem mem_noteAccepted_of_mem (hm : cn∈ac) (hs : ar.detaches cn=false)
    (h : ∀ r∈replies s t,r.1=cn → r.2.takesOver=false) : cn∈noteAccepted s ar t ac := by
  refine List.mem_append_right _ (List.mem_filter.mpr ⟨hm,?_⟩)
  rw [hs,Bool.not_false,Bool.true_and,Bool.not_eq_true',List.any_eq_false]
  intro r hr hb
  rw [Bool.and_eq_true,decide_eq_true_eq] at hb
  rw [h r hr hb.1] at hb
  cases hb.2

theorem mem_noteAccepted_of_reply {m : MQTTConnack} (hm : (cn,.send (.connack m))∈replies s t)
    (hs : m.reasonCode=ReasonCode.success) : cn∈noteAccepted s ar t ac :=
  List.mem_append_left _ (List.mem_filterMap.mpr ⟨_,hm,if_pos hs⟩)

theorem known_of_stays (hk : Known s ac) (hd : ∀ cn,ar.detaches cn=false)
    (h : Stays s t) : Known t (noteAccepted s ar t ac) := by
  intro cn id ha
  rw [h.clientByConn] at ha
  obtain ⟨new,hs,hn⟩ := h.answers
  refine mem_noteAccepted_of_mem (hk cn id ha) (hd cn) ?_
  rw [replies_of_append hs]
  exact fun r hr _ => hn r hr

theorem mem_noteAccepted_of_attaches {lim : Limits} {id : Text} {c : MQTTConnect}
    {ss : Dict Text Session} (h : Attaches lim cn id c {s with sessions:=ss} t) :
    cn∈noteAccepted s ar t ac := by
  obtain ⟨a,later,hs,-,-⟩ := h.sent
  have hr : replies s t=_ := replies_of_append hs
  have hm := hr ▸ List.mem_append_right a List.mem_cons_self
  exact mem_noteAccepted_of_reply hm rfl

theorem known_of_attaches {lim : Limits} {id : Text} {c : MQTTConnect}
    {ss : Dict Text Session} (hk : Known s ac) (hd : ∀ cn,ar.detaches cn=false)
    (h : Attaches lim cn id c {s with sessions:=ss} t) : Known t (noteAccepted s ar t ac) := by
  intro o name ha
  by_cases hc : o=cn
  · exact hc ▸ mem_noteAccepted_of_attaches h
  · obtain ⟨a,later,hs,-,ho⟩ := h.sent
    have hr : replies s t=_ := replies_of_append hs
    obtain ⟨hb,hn⟩ := ho o name hc ha
    refine mem_noteAccepted_of_mem (hk o name hb) (hd o) ?_
    rw [hr]
    intro r hre hto
    rcases List.mem_append.mp hre with hm | hm
    · exact hn r (List.mem_append_left later hm) hto
    · rcases List.mem_cons.mp hm with rfl | hm
      · rfl
      · exact hn r (List.mem_append_right a hm) hto

theorem known_of_detach (hk : Known s ac) (hd : ∀ o,cn≠o → ar.detaches o=false) (ha : Answers s t)
    (ht : ∀ o,t.clientByConn.get? o = if cn=o then none else s.clientByConn.get? o) :
    Known t (noteAccepted s ar t ac) := by
  intro o name hat
  rw [ht] at hat
  split at hat
  · cases hat
  · next hne =>
    obtain ⟨new,hs,hn⟩ := ha
    refine mem_noteAccepted_of_mem (hk o name hat) (hd o hne) ?_
    rw [replies_of_append hs]
    exact fun r hr _ => hn r hr

theorem detaches_eq_false (hm : ar.message=some (cn,msg)) (h : ∀ g i,msg≠.detach g i) (o : Conn) :
    ar.detaches o=false := by
  rw [Arrival.detaches,hm]
  cases msg with
  | detach g i => exact absurd rfl (h g i)
  | _ => rfl

theorem receive_known (ar : Arrival × ℚ) (hs : Sound s) (hk : Known s ac) :
    OnSuccess (receive lim ar) s fun _ t => Known t (noteAccepted s ar.1 t ac) := by
  unfold receive
  cases hm : ar.1.message with
  | none =>
    refine known_of_stays hk (fun cn => ?_) (refl_of Stays s)
    rw [Arrival.detaches,hm]
  | some f =>
    obtain ⟨cn,msg⟩ := f
    have ho := detaches_eq_false hm
    dsimp only
    cases msg with
    | attach c =>
      have hd := ho (by simp)
      refine (onAttach_ensures lim cn ar.2 (windowFits_of_message hm) hs).partly
        fun _ t ht => ?_
      rcases ht.2 with hr | ha
      · exact known_of_stays hk hd hr.2.stays
      · exact known_of_attaches hk hd ha.2.2
    | detach g i =>
      refine (onDetach_ensures lim cn ar.2 g i hs).total fun _ t ht => ?_
      refine known_of_detach hk (fun o hne => ?_) ht.2.1 ht.2.2.clientByConn
      rw [Arrival.detaches,hm]
      exact decide_eq_false hne
    | _ =>
      refine (handle_stays lim cn ar.2 (by simp) (by simp) s hs).total
        fun _ t ht => ?_
      exact known_of_stays hk (ho (by simp)) ht.2

namespace Harmless

variable {now : ℚ}

theorem refl (s : Broker) : Harmless now s s :=
  ⟨rfl,rfl,.inl rfl,[],by rw [List.append_nil],by simp⟩

theorem send (s : Broker) (cn : Conn) {o : Outgoing} (h : o.publishes=false) :
    Harmless now s {s with sent:=s.sent++[(cn,o)]} :=
  ⟨rfl,rfl,.inl rfl,[(cn,o)],rfl,by simpa using h⟩

end Harmless

theorem sessionFor_eq_none (h : s.clientByConn.get? cn=none) : s.sessionFor cn=none := by
  rw [Broker.sessionFor,h,Option.bind_none]

theorem updateSessionFor_of_none (h : s.clientByConn.get? cn=none) (f : Session → Session) :
    updateSessionFor cn f s=.ok () s := by
  simp [updateSessionFor,bind,EStateM.bind,get,getThe,MonadStateOf.get,EStateM.get,
    sessionFor_eq_none h,pure,EStateM.pure]

theorem rejectPublish_harmless (now : ℚ) (cn : Conn) (m : MQTTPublish) (rc : ℕ) (s : Broker) :
    Ensures (rejectPublish cn m rc) s (fun _ => Harmless now s)
      (fun _ => Harmless now s) := by
  unfold rejectPublish
  dsimp only
  rw [ensures_ite,ensures_ite]
  refine ⟨fun _ => .send s cn rfl,fun _ => ⟨fun _ => .send s cn rfl,fun _ => ?_⟩⟩
  rw [ensures_bind,Mqtt.send,ensures_modify,Mqtt.send,ensures_modify]
  exact ⟨rfl,rfl,.inl rfl,_,List.append_assoc _ _ _,by simp [Outgoing.publishes]⟩

/-- The messages of a connection that the table does not name; a PUBLISH is rejected. -/
theorem handle_harmless (now : ℚ) (hc : s.clientByConn.get? cn=none)
    (ha : ∀ c,msg≠.attach c) (hs : msg≠.sweepExpired)
    (hp : ∀ m,msg=.clientPublish m → validateTopicName m.topic=false) :
    Ensures (handle lim cn now msg) s (fun _ => Harmless now s)
      (fun _ => Harmless now s) := by
  have hn := sessionFor_eq_none hc
  cases msg with
  | attach c => exact absurd rfl (ha c)
  | sweepExpired => exact absurd rfl hs
  | clientSubscribe su =>
    rw [handle,onSubscribe,ensures_bind,ensures_get,hn]
    exact .refl s
  | clientUnsubscribe u =>
    rw [handle,onUnsubscribe,ensures_bind,ensures_get,hn]
    exact .refl s
  | clientPublish m =>
    rw [handle,onPublish,if_neg (by simp [hp m rfl])]
    exact rejectPublish_harmless now cn m _ s
  | clientPuback pi =>
    rw [handle,onPuback,ensures_bind]
    refine Ensures.of_ok (updateSessionFor_of_none hc _) ?_
    rw [drainOutbound,ensures_bind,ensures_get,hn]
    exact .refl s
  | clientPubcomp pi =>
    rw [handle,onPubcomp,ensures_bind]
    refine Ensures.of_ok (updateSessionFor_of_none hc _) ?_
    rw [drainOutbound,ensures_bind,ensures_get,hn]
    exact .refl s
  | clientPubrel pi =>
    rw [handle,onPubrel,ensures_bind,Mqtt.send,ensures_modify]
    refine Ensures.of_ok (updateSessionFor_of_none ?_ _) ?_
    · exact hc
    · exact .send s cn rfl
  | clientPubrec pi =>
    rw [handle,onPubrec,ensures_bind,Mqtt.send,ensures_modify]
    refine Ensures.of_ok (updateSessionFor_of_none ?_ _) ?_
    · exact hc
    · exact .send s cn rfl
  | detach g i =>
    rw [handle,onDetach,ensures_bind,ensures_get,hc]
    exact .refl s

theorem forward_ne_sweepExpired (p : Packet) : forward p≠some .sweepExpired := by
  cases p <;> simp [forward]

theorem conn_of_message (hc : ar.conn? = some cn) {se : Conn}
    (h : ar.message=some (se,msg)) : se=cn ∧ msg≠.sweepExpired := by
  cases ar with
  | octets f d =>
    obtain rfl := Option.some.inj hc
    rw [Arrival.message] at h
    split at h
    · next p _ _ =>
      obtain ⟨fo,hf,hp⟩ := Option.map_eq_some_iff.mp h
      obtain ⟨rfl,rfl⟩ := Prod.mk.inj hp
      refine ⟨rfl,?_⟩
      rintro rfl
      exact forward_ne_sweepExpired p hf
    · cases h
  | ended se g =>
    obtain rfl := Option.some.inj hc
    obtain ⟨rfl,rfl⟩ := Prod.mk.inj (Option.some.inj h)
    exact ⟨rfl,Message.noConfusion⟩
  | timer => cases hc

/-- A message of a connection without an accepted CONNECT is harmless, unless it is a PUBLISH that
is routed or a CONNECT that is accepted. -/
theorem receive_harmless (ar : Arrival × ℚ) (hs : Sound s) (hk : Known s ac)
    (hc : ar.1.conn? = some cn) (hb : cn∉ac) (hst : ar.1.stray ac=false) :
    Ensures (receive lim ar) s (fun _ t => cn∈noteAccepted s ar.1 t ac ∨ Harmless ar.2 s t)
      (fun _ t => Harmless ar.2 s t) := by
  have hn : s.clientByConn.get? cn=none := by
    refine Option.eq_none_iff_forall_ne_some.mpr fun cid h => ?_
    exact hb (hk cn cid h)
  unfold receive
  cases hm : ar.1.message with
  | none => exact .inr (.refl s)
  | some f =>
    obtain ⟨se,msg⟩ := f
    obtain ⟨rfl,hsw⟩ := conn_of_message hc hm
    dsimp only
    by_cases ha : ∃ c,msg=.attach c
    · obtain ⟨c,rfl⟩ := ha
      refine (onAttach_ensures lim se ar.2 (windowFits_of_message hm) hs).mono
        (fun _ t ht => ?_) fun _ _ ht => ht.2.2.2.1
      rcases ht.2 with hr | hac
      · exact .inr hr.2.harmless
      · exact .inl (mem_noteAccepted_of_attaches hac.2.2)
    · refine (handle_harmless lim ar.2 hn (fun c h => ha ⟨c,h⟩)
        hsw fun m hp => ?_).imp fun _ _ => .inr
      subst hp
      rw [Arrival.stray,hm] at hst
      simpa [hb] using hst

abbrev watch (limits : Limits) := observe limits noteAccepted

/-- No PUBLISH with a valid topic name comes from a connection without an accepted CONNECT. -/
def NoStrayPublish (w : Observed (List Conn)) (arrival : Arrival × ℚ) : Prop :=
  arrival.1.stray w.notes=false

instance (w : Observed (List Conn)) (arrival : Arrival × ℚ) :
    Decidable (NoStrayPublish w arrival) :=
  inferInstanceAs (Decidable (_=_))

/-- A live broker names only connections that the observer knows. -/
structure Watched (w : Observed (List Conn)) : Prop where
  sound : Sound w.broker
  known : w.ended=false → Known w.broker w.notes

theorem watched_initial : Watched {notes:=[]} where
  sound := sound_initial
  known _ cn clientId h := by cases h

theorem watched_watch {w : Observed (List Conn)} (ar : Arrival × ℚ) (h : Watched w) :
    Watched (watch lim w ar) where
  sound := sound_observe ar h.sound
  known := by
    cases he : w.ended with
    | true =>
      intro hl
      rw [watch,observe_of_ended ar he] at hl
      cases he.symm.trans hl
    | false =>
      refine observe_of_ensures (fun w => w.ended=false → Known w.broker w.notes) he ?_
      exact (receive_known lim ar h.sound (h.known he)).mono (fun _ _ ht _ => ht)
        fun _ _ _ => Bool.noConfusion

theorem watched_run (a : List (Arrival × ℚ)) : Watched (run (watch lim) {notes:=[]} a) := by
  have ha : Along (watch lim) (fun _ _ => True) {notes:=[]} a :=
    along_of_forall _ fun _ _ _ => trivial
  exact ha.invariant (fun _ ar h _ => watched_watch lim ar h) watched_initial

/-- In every run, a message of a connection whose CONNECT is not accepted publishes nothing and
changes no session and no retained message, as long as no such connection sends a PUBLISH with
a valid topic name. -/
theorem unaccepted_harmless (limits : Limits) (arrivals : List (Arrival × ℚ))
    (arrival : Arrival × ℚ) (conn : Conn) (hconn : arrival.1.conn? = some conn)
    (hrun : Along (watch limits) NoStrayPublish {notes:=[]} (arrivals++[arrival]))
    (hbefore : conn∉(run (watch limits) {notes:=[]} arrivals).notes)
    (hafter : conn∉(run (watch limits) {notes:=[]} (arrivals++[arrival])).notes) :
    Harmless arrival.2 (run (watch limits) {notes:=[]} arrivals).broker
      (run (watch limits) {notes:=[]} (arrivals++[arrival])).broker := by
  have hw := watched_run limits arrivals
  rw [along_append] at hrun
  rw [run_append] at hafter ⊢
  have hs := hrun.2.1
  rw [run_cons,run_nil] at hafter ⊢
  generalize run (watch limits) {notes:=[]} arrivals=w at *
  cases he : w.ended with
  | true =>
    rw [watch,observe_of_ended arrival he]
    exact .refl w.broker
  | false =>
    have hst := receive_harmless limits arrival hw.sound (hw.known he) hconn hbefore hs
    have ho : conn∈(watch limits w arrival).notes ∨
        Harmless arrival.2 w.broker (watch limits w arrival).broker :=
      observe_of_ensures (fun w' => conn∈w'.notes ∨ Harmless arrival.2 w.broker w'.broker) he
        (hst.mono (fun _ _ ht => ht) fun _ _ ht => .inr ht)
    exact ho.resolve_left hafter

def plainSubscribe : Bytes := [0x82,0x07,0x00,0x01,0x00,0x00,0x01,0x74,0x00]

def retainedPublish : Bytes := [0x31,0x05,0x00,0x01,0x74,0x00,0x78]

theorem unaccepted_harmless_subscribe :
    Harmless 0 (run (watch {}) {notes:=[]} [(.octets 1 (connectAs [0x61]),0)]).broker
      (run (watch {}) {notes:=[]}
        [(.octets 1 (connectAs [0x61]),0),(.octets 2 plainSubscribe,0)]).broker :=
  unaccepted_harmless {} [(.octets 1 (connectAs [0x61]),0)] (.octets 2 plainSubscribe,0) 2 rfl
    (by decide +kernel) (by decide +kernel) (by decide +kernel)

/-- The connection 2 has sent no CONNECT; its PUBLISH is retained and sent to the connection 1. -/
theorem unaccepted_publish_routed :
    let before := run (watch {}) {notes:=[]}
      [(.octets 1 (connectAs [0x61]),0),(.octets 1 plainSubscribe,0)]
    let after := watch {} before (.octets 2 retainedPublish,0)
    2∉before.notes ∧ 2∉after.notes ∧ after.broker.retained≠before.broker.retained ∧
      (replies before.broker after.broker).any fun reply => reply.1=1 && reply.2.publishes := by
  decide +kernel

end BlackBull.Mqtt
