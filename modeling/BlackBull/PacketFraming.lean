import BlackBull.PacketContainment
import BlackBull.TransitionRuns

/-!
# MQTT: the packet framer

`PacketFramer` gathers the octets of a connection and gives the packets in them. The size gate
judges a packet by its fixed header, but only at a position that is known to be a boundary; so what
is held is bounded if the positions it resumes at after a bad packet announce no more.
-/

namespace BlackBull.Mqtt

open ByteString

structure PacketFramer where
  maxPacketSize : ℕ := 0
  buffer : Bytes := []
  /-- The buffer is known to start at a packet boundary. -/
  synced : Bool := true
  deriving DecidableEq

/-- What ends an iteration: the end of the loop, `PacketTooLarge`, or what the decoder raised. -/
inductive Halt
  | exhausted
  | packetTooLarge (declared maximum : ℕ)
  | raised (failure : Failure)
  deriving DecidableEq

/-- The failures the framer catches with `ValueError`. -/
def Failure.isValueError : Failure → Bool
  | .decodeError _ | .valueError _ | .unicodeDecodeError => true
  | _ => false

/-- The octets a fixed header declares, `none` when it cannot be read. -/
def declaredSize (buffer : Bytes) : Option ℕ :=
  match decodeVariableByteInteger (slice buffer 1 5) with
  | .ok (remainingLength,consumed) => some (1+consumed+remainingLength)
  | .error _ => none

/-- The next octet that could start a packet; a packet type of 0 is reserved. -/
def resync (buffer : Bytes) : Bytes :=
  (buffer.drop 1).dropWhile fun byte => byte.toNat / 16 = 0

namespace PacketFramer

def feed (framer : PacketFramer) (data : Bytes) : PacketFramer :=
  {framer with buffer:=framer.buffer++data}

def checkDeclaredSize (framer : PacketFramer) : Option ℕ :=
  if framer.maxPacketSize=0 ∨ framer.synced=false then none
  else if (framer.buffer.getD 0 0).toNat / 16 = 0 then none
  else (declaredSize framer.buffer).filter fun declared => framer.maxPacketSize<declared

inductive Turn
  | stops (halt : Halt)
  | resyncs (next : PacketFramer)
  | yields (message : Packet) (next : PacketFramer)

def turn (framer : PacketFramer) : Turn :=
  match framer.checkDeclaredSize with
  | some declared => .stops (.packetTooLarge declared framer.maxPacketSize)
  | none =>
    match decodePacket framer.buffer with
    | .ok (message,consumed) =>
      .yields message {framer with buffer:=framer.buffer.drop consumed,synced:=true}
    | .error (.incompletePacket _) => .stops .exhausted
    | .error failure =>
      if failure.isValueError then
        .resyncs {framer with buffer:=resync framer.buffer,synced:=false}
      else .stops (.raised failure)

/-- The loop of `__iter__`; every turn but the last shortens the buffer. -/
def iterateFrom : ℕ → PacketFramer → List Packet × PacketFramer × Halt
  | 0,framer => ([],framer,.exhausted)
  | turns+1,framer =>
    if framer.buffer=[] then ([],framer,.exhausted)
    else
      match framer.turn with
      | .stops halt => ([],framer,halt)
      | .resyncs next => iterateFrom turns next
      | .yields message next =>
        (message::(iterateFrom turns next).1,(iterateFrom turns next).2)

def iterate (framer : PacketFramer) : List Packet × PacketFramer × Halt :=
  iterateFrom framer.buffer.length framer

end PacketFramer

/-- A position in the octets, and whether it is known to be a boundary. -/
structure Position where
  synced : Bool
  rest : Bytes

/-- The positions the decoder comes to, packet by packet and past what it cannot decode. -/
inductive Position.Reaches (start : Position) : Position → Prop
  | here : Reaches start start
  | packet {position : Position} {message : Packet} {consumed : ℕ} :
      Reaches start position → decodePacket position.rest=.ok (message,consumed) →
      Reaches start ⟨true,position.rest.drop consumed⟩
  | junk {position : Position} {failure : Failure} :
      Reaches start position → decodePacket position.rest=.error failure →
      failure.isValueError=true → Reaches start ⟨false,resync position.rest⟩

def PacketFramer.position (framer : PacketFramer) : Position := ⟨framer.synced,framer.buffer⟩

/-- No position that is a guess announces a packet over the limit. -/
def Position.Fits (maxPacketSize : ℕ) (start : Position) : Prop :=
  ∀ position,start.Reaches position → position.synced=false →
    ∀ declared,declaredSize position.rest=some declared → declared ≤ maxPacketSize

theorem Position.Reaches.trans {s m z : Position} (h : s.Reaches m)
    (h' : m.Reaches z) : s.Reaches z := by
  induction h' with
  | here => exact h
  | packet _ hd ih => exact .packet ih hd
  | junk _ hd hv ih => exact .junk ih hd hv

theorem length_resync {b : Bytes} (h : b≠[]) : (resync b).length<b.length := by
  have hd : (resync b).length≤(b.drop 1).length := (List.dropWhile_suffix _).length_le
  have hp : 0<b.length := List.length_pos_iff.mpr h
  rw [List.length_drop] at hd
  omega

theorem Failure.isValueError_ofBody {f : Failure} (h : f.structural ∨ f.isValueError=true) :
    f.ofBody.isValueError=true := by
  cases f <;> simp_all [Failure.structural,Failure.isValueError,Failure.ofBody]

variable {data : Bytes} {e : Failure} {α : Type} {con : ℕ}

theorem Decodes.failure {r : Reading α} {d : Except Failure α}
    (h : Decodes r d) (he : d=.error e) : e.structural ∨ e.isValueError=true := by
  rw [h.judged,Noted.judged] at he
  split_ifs at he
  · exact .inl (h.expected e he)
  · cases he
    exact .inr rfl

theorem failure_checked {β : Type} {r : Reading α} {m : α → Except Failure β}
    {d : Except Failure β} (h : TracesThen isUtf8 .unicodeDecodeError Failure.structural m r d)
    (hm : ∀ fs e,m fs=.error e → e.isValueError=true) (he : d=.error e) :
    e.structural ∨ e.isValueError=true := by
  rw [h.judged,Noted.judged] at he
  split_ifs at he
  · cases hr : r.result with
    | error e' =>
      rw [hr] at he
      cases he
      exact .inl (h.expected e hr)
    | ok fs =>
      rw [hr] at he
      exact .inr (hm fs e he)
  · cases he
    exact .inr rfl

theorem failure_map {β : Type} {f : α → β} {d : Except Failure α}
    (h : f <$> d=.error e) : d=.error e := by
  cases d with
  | error e' => exact congrArg _ (Except.error.inj h)
  | ok a => cases h

theorem makeConnect_failure (fs : ConnectFields) (e : Failure)
    (h : MQTTConnect.make fs=.error e) : e.isValueError=true := by
  unfold MQTTConnect.make at h
  split at h
  · cases h
  · cases h
    rfl

theorem makePublish_failure (fs : PublishFields) (e : Failure)
    (h : MQTTPublish.make fs=.error e) : e.isValueError=true := by
  unfold MQTTPublish.make at h
  split at h
  · cases h
  · cases h
    rfl

theorem decodeBody_failure {b : Bytes} {f : ℕ} {ty : PacketType}
    (h : decodeBody b f ty=.error e) : e.structural ∨ e.isValueError=true := by
  cases ty with
  | connect => exact failure_checked decodes_connect makeConnect_failure (failure_map h)
  | publish => exact failure_checked decodes_publish makePublish_failure (failure_map h)
  | connack => exact decodes_connack.failure (failure_map h)
  | puback | pubrec | pubrel | pubcomp => exact decodes_packetIdAck.failure (failure_map h)
  | subscribe => exact decodes_subscribe.failure (failure_map h)
  | suback | unsuback => exact decodes_reasonCodes.failure (failure_map h)
  | unsubscribe => exact decodes_unsubscribe.failure (failure_map h)
  | pingreq | pingresp => cases h
  | disconnect | auth => exact decodes_reasonAndProps.failure (failure_map h)

theorem decodePacket_error (h : decodePacket data=.error e) :
    (∃ text,e=.incompletePacket text ∧ CutShort data) ∨ e.isValueError=true := by
  rcases decodePacket_cases data with ⟨text,he,hc⟩ | ⟨text,he,-⟩ | ⟨type,flags,body,total,-,heq⟩
  · exact .inl ⟨text,Except.error.inj (h.symm.trans he),hc⟩
  · cases h.symm.trans he
    exact .inr rfl
  · cases hb : decodeBody body flags type with
    | ok p =>
      rw [hb,withTotal,h] at heq
      cases heq
    | error f =>
      rw [hb,withTotal,h] at heq
      obtain rfl := Except.error.inj heq
      exact .inr (Failure.isValueError_ofBody (decodeBody_failure hb))

theorem decodePacket_consumed {m : Packet} (h : decodePacket data=.ok (m,con)) : 0<con := by
  rcases decodePacket_cases data with ⟨text,he,-⟩ | ⟨text,he,-⟩ | ⟨type,flags,body,total,ha,heq⟩
  · cases h.symm.trans he
  · cases h.symm.trans he
  · obtain ⟨n,octets,-,rfl,-⟩ := ha.length
    rw [h] at heq
    cases hb : decodeBody body flags type with
    | ok p =>
      rw [hb,withTotal] at heq
      obtain ⟨-,rfl⟩ := Prod.mk.inj (Except.ok.inj heq)
      omega
    | error f =>
      rw [hb,withTotal] at heq
      cases heq

theorem decodePacket_reserved (hl : 2 ≤ data.length) (ht : (data.getD 0 0).toNat / 16 = 0)
    (t : String) : decodePacket data≠.error (.incompletePacket t) := by
  have hf : octetAt data 0=.ok (data.getD 0 0) := by
    cases data with
    | nil => simp at hl
    | cons a rest => rfl
  have hn : PacketType.ofCode 0=none := by decide
  rw [decodePacket,if_neg (Nat.not_lt.mpr hl),hf]
  dsimp only [bind,Except.bind]
  rw [ht,hn]
  simp [throw,throwThe,MonadExceptOf.throw]

namespace PacketFramer

/-- What a turn leaves for the next: the octets behind the position it stood at. -/
structure Advances (framer next : PacketFramer) : Prop where
  maximum : next.maxPacketSize=framer.maxPacketSize
  shorter : next.buffer.length<framer.buffer.length
  reaches : framer.position.Reaches next.position

theorem turn_cases {f : PacketFramer} (hb : f.buffer≠[]) :
    (∃ d,f.turn=.stops (.packetTooLarge d f.maxPacketSize)) ∨
    (f.turn=.stops .exhausted ∧ f.checkDeclaredSize=none ∧
      ∃ text,decodePacket f.buffer=.error (.incompletePacket text) ∧
        CutShort f.buffer) ∨ (∃ next,f.turn=.resyncs next ∧ f.Advances next) ∨
    ∃ m next,f.turn=.yields m next ∧ f.Advances next := by
  unfold turn
  cases hg : f.checkDeclaredSize with
  | some d => exact .inl ⟨d,rfl⟩
  | none =>
    right
    cases hd : decodePacket f.buffer with
    | ok r =>
      obtain ⟨m,con⟩ := r
      refine .inr (.inr ⟨m,_,rfl,rfl,?_,.packet .here hd⟩)
      have hp : 0<f.buffer.length := List.length_pos_iff.mpr hb
      have hc := decodePacket_consumed hd
      simp only [List.length_drop]
      omega
    | error fa =>
      rcases decodePacket_error hd with ⟨text,rfl,hcu⟩ | hv
      · exact .inl ⟨rfl,rfl,text,rfl,hcu⟩
      · refine .inr (.inl ?_)
        cases fa with
        | incompletePacket text => cases hv
        | _ =>
          exact ⟨{f with buffer:=resync f.buffer,synced:=false},
            if_pos hv,rfl,length_resync hb,.junk (.here : f.position.Reaches f.position) hd hv⟩

/-- What an iteration ends with, started at `framer`. -/
structure Settles (framer last : PacketFramer) (halt : Halt) : Prop where
  maximum : last.maxPacketSize=framer.maxPacketSize
  reaches : framer.position.Reaches last.position
  settled : (∃ declared,halt=.packetTooLarge declared framer.maxPacketSize) ∨
    halt=.exhausted ∧ (last.buffer=[] ∨ last.checkDeclaredSize=none ∧
      ∃ text,decodePacket last.buffer=.error (.incompletePacket text) ∧ CutShort last.buffer)

theorem Advances.settles {f next z : PacketFramer} {halt : Halt}
    (h : f.Advances next) (hn : next.Settles z halt) : f.Settles z halt where
  maximum := hn.maximum.trans h.maximum
  reaches := h.reaches.trans hn.reaches
  settled := by
    rw [← h.maximum]
    exact hn.settled

/-- An iteration ends with nothing left, at the gate, or at a packet that is cut short. -/
theorem settles_iterateFrom (t : ℕ) (f : PacketFramer) (he : f.buffer.length≤t) :
    f.Settles (iterateFrom t f).2.1 (iterateFrom t f).2.2 := by
  induction t generalizing f with
  | zero =>
    have hem : f.buffer=[] := List.length_eq_zero_iff.mp (Nat.le_zero.mp he)
    exact ⟨rfl,.here,.inr ⟨rfl,.inl hem⟩⟩
  | succ t ih =>
    rw [iterateFrom]
    by_cases hem : f.buffer=[]
    · rw [if_pos hem]
      exact ⟨rfl,.here,.inr ⟨rfl,.inl hem⟩⟩
    rw [if_neg hem]
    rcases turn_cases hem with ⟨d,ht⟩ | ⟨ht,hg,hw⟩ | ⟨next,ht,hn⟩ | ⟨m,next,ht,hn⟩
    · rw [ht]
      exact ⟨rfl,.here,.inl ⟨d,rfl⟩⟩
    · rw [ht]
      exact ⟨rfl,.here,.inr ⟨rfl,.inr ⟨hg,hw⟩⟩⟩
    · rw [ht]
      exact hn.settles (ih next (by have := hn.shorter; omega))
    · rw [ht]
      exact hn.settles (ih next (by have := hn.shorter; omega))

theorem settles_iterate (f : PacketFramer) : f.Settles f.iterate.2.1 f.iterate.2.2 :=
  settles_iterateFrom _ f le_rfl

end PacketFramer

theorem decodeVbiFrom_consumed {m v n t : ℕ} (h : decodeVbiFrom data m v con=.ok (n,t)) :
    con<t := by
  induction data generalizing m v con with
  | nil => cases h
  | cons b data ih =>
    rw [decodeVbiFrom] at h
    split_ifs at h
    · obtain ⟨-,rfl⟩ := Prod.mk.inj (Except.ok.inj h)
      exact Nat.lt_succ_self con
    · exact (Nat.lt_succ_self con).trans (ih h)

theorem decodeVbiFrom_take {mu v len t : ℕ}
    (h : decodeVbiFrom data mu v con=.ok (len,t)) (n : ℕ) (hn : t≤con+n) :
    decodeVbiFrom (data.take n) mu v con=.ok (len,t) := by
  induction data generalizing mu v con n with
  | nil => cases h
  | cons b data ih =>
    have hc := decodeVbiFrom_consumed h
    obtain ⟨m,rfl⟩ : ∃ m,n = m + 1 := ⟨n - 1,by omega⟩
    rw [decodeVbiFrom] at h
    rw [List.take_succ_cons,decodeVbiFrom]
    split_ifs at h ⊢ with hl hla
    · exact h
    · exact ih h m (by omega)

/-- The octets a packet that is cut short declares. -/
theorem declaredSize_of_cutShort (h : CutShort data) :
    data.length≤5 ∨ ∃ d,declaredSize data=some d ∧ data.length<d := by
  rcases h with ⟨hf,-⟩ | ⟨n,con,hl,hs⟩
  · exact .inl hf
  · right
    have hb := decodeVbiFrom_bound (k := 0) Nat.one_pos hl
    have ht : decodeVariableByteInteger (slice data 1 5)=.ok (n,con) :=
      decodeVbiFrom_take hl 4 (by omega)
    refine ⟨1+con+n,?_,hs⟩
    rw [declaredSize,ht]

/-- At a boundary the gate lets only packets within the limit be waited for. -/
theorem PacketFramer.declared_le_of_synced {f : PacketFramer} (hm : f.maxPacketSize≠0) (hs :
    f.synced=true) (hl : 2≤f.buffer.length) (hg : f.checkDeclaredSize=none) {t : String}
    (hw : decodePacket f.buffer=.error (.incompletePacket t)) {d : ℕ} (hd : declaredSize
    f.buffer=some d) : d≤f.maxPacketSize := by
  have ht : ¬ (f.buffer.getD 0 0).toNat / 16 = 0 := fun ht => decodePacket_reserved hl ht t hw
  have ho : ¬ (f.maxPacketSize=0 ∨ f.synced=false) := by simp [hm,hs]
  rw [checkDeclaredSize,if_neg ho,if_neg ht,hd] at hg
  simpa using hg

/-- The framer between two feeds, with what ended the last iteration. -/
structure Reception where
  framer : PacketFramer
  halt : Halt := .exhausted
  deriving DecidableEq

namespace Reception

/-- A feed, and a full iteration. -/
def receive (r : Reception) (data : Bytes) : Reception where
  framer := (r.framer.feed data).iterate.2.1
  halt := (r.framer.feed data).iterate.2.2

/-- The framer holds no more than a packet of the permitted size and a fixed header, or it has
reported the packet. -/
def Bounded (r : Reception) : Prop :=
  r.framer.buffer.length≤r.framer.maxPacketSize+5 ∨
    ∃ declared,r.halt=.packetTooLarge declared r.framer.maxPacketSize

def Fits (r : Reception) (data : Bytes) : Prop :=
  (r.framer.feed data).position.Fits r.framer.maxPacketSize

theorem receive_maximum (r : Reception) (data : Bytes) :
    (r.receive data).framer.maxPacketSize=r.framer.maxPacketSize :=
  (PacketFramer.settles_iterate _).maximum

theorem bounded_receive {r : Reception} (hm : r.framer.maxPacketSize≠0) {data : Bytes}
    (hf : r.Fits data) : (r.receive data).Bounded := by
  have hs := PacketFramer.settles_iterate (r.framer.feed data)
  have hma := r.receive_maximum data
  rcases hs.settled with ⟨d,hh⟩ | ⟨-,he | ⟨hg,text,hw,hc⟩⟩
  · exact .inr ⟨d,by rw [hma]; exact hh⟩
  · left
    rw [receive,he]
    exact Nat.zero_le _
  · left
    by_cases hl : 2≤(r.receive data).framer.buffer.length
    · rcases declaredSize_of_cutShort hc with hfe | ⟨d,hd,hsh⟩
      · exact hfe.trans (Nat.le_add_left 5 _)
      · have hle : d≤(r.receive data).framer.maxPacketSize := by
          cases hsy : (r.receive data).framer.synced with
          | true => exact PacketFramer.declared_le_of_synced (by rw [hma]; exact hm) hsy hl hg hw hd
          | false =>
            rw [hma]
            exact hf _ hs.reaches hsy d hd
        have hhe : (r.receive data).framer.buffer.length<d := hsh
        omega
    · omega

def start (maxPacketSize : ℕ) : Reception where
  framer := {maxPacketSize}

theorem bounded_along {r : Reception} (hm : r.framer.maxPacketSize≠0) {s : List Bytes}
    (hf : Along receive Fits r s) : Along receive (fun r data => (r.receive data).Bounded) r s := by
  induction s generalizing r with
  | nil => trivial
  | cons data s ih =>
    have hm' : (r.receive data).framer.maxPacketSize≠0 := by
      rw [r.receive_maximum data]
      exact hm
    exact ⟨bounded_receive hm hf.1,ih hm' hf.2⟩

/-- With a maximum packet size, after each feed and full iteration the framer holds no more than
that and a fixed header, or it has reported the packet, as long as no position it resumes at
after junk announces more. -/
theorem held_bounded {maxPacketSize : ℕ} (hmax : maxPacketSize≠0) (segments : List Bytes)
    (hfits : Along receive Fits (start maxPacketSize) segments) :
    Along receive (fun r data => (r.receive data).Bounded) (start maxPacketSize) segments :=
  bounded_along hmax hfits

def junkThenPublish : Bytes := [0x00,0x30,0x7F,0x61]

/-- With a limit of 200 octets the PUBLISH behind the junk is waited for. -/
theorem held_bounded_junk :
    ((start 200).receive junkThenPublish).framer=⟨200,[0x30,0x7F,0x61],false⟩ ∧
    Along receive (fun r data => (r.receive data).Bounded) (start 200) [junkThenPublish] := by
  have hj : decodePacket junkThenPublish=.error (.decodeError "Invalid packet type in 0x00") := by
    decide +kernel
  have hs : decodePacket [0x30,0x7F,0x61] = .error (.incompletePacket "Packet body truncated") := by
    decide +kernel
  have hr : ∀ position,Position.Reaches ⟨true,junkThenPublish⟩ position →
      position=⟨true,junkThenPublish⟩ ∨ position=⟨false,[0x30,0x7F,0x61]⟩ := by
    intro position h
    induction h with
    | here => exact .inl rfl
    | packet _ hd ih =>
      rcases ih with rfl | rfl
      · cases hd.symm.trans hj
      · cases hd.symm.trans hs
    | junk _ hd hv ih =>
      rcases ih with rfl | rfl
      · exact .inr rfl
      · cases hd.symm.trans hs
        cases hv
  refine ⟨by decide +kernel,held_bounded (by decide) _ ⟨?_,trivial⟩⟩
  intro position h hg declared hde
  rcases hr position h with rfl | rfl
  · cases hg
  · have hsi : declaredSize [0x30,0x7F,0x61]=some 129 := by decide
    obtain rfl := Option.some.inj (hsi.symm.trans hde)
    decide

def junkThenLong : Bytes := [0x00,0x30,0x7F]++List.replicate 13 0x61

/-- With a limit of 8 octets the framer goes on to gather the PUBLISH. -/
theorem held_past_limit :
    (start 8).receive junkThenLong=⟨⟨8,junkThenLong.drop 1,false⟩,.exhausted⟩ ∧
    ¬ Along receive (fun r data => (r.receive data).Bounded) (start 8) [junkThenLong] := by
  have hs : (start 8).receive junkThenLong=⟨⟨8,junkThenLong.drop 1,false⟩,.exhausted⟩ := by
    decide +kernel
  refine ⟨hs,fun h => ?_⟩
  have hb : ((start 8).receive junkThenLong).Bounded := h.1
  rw [hs] at hb
  simp [Bounded,junkThenLong] at hb

end Reception

end BlackBull.Mqtt
