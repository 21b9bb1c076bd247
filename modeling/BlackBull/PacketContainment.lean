import BlackBull.MqttPackets
import BlackBull.NotedReads

/-!
# MQTT: what `decode_packet` raises

The texts of a packet are read here as octets, with the layout the decoder follows, and the decoder
is that reading with every text decoded. Only a text that is not UTF-8, and a CONNECT or a PUBLISH
whose record refuses its fields, raise anything but the two exceptions of the codec.
-/

namespace BlackBull.Mqtt

open ByteString

/-- What the decoders of a body raise for its structure. -/
def Failure.structural : Failure → Prop
  | .incompletePacket _ | .decodeError _ | .indexError => True
  | _ => False

/-- A reading of a body that notes the octets of its texts. -/
abbrev Reading (α : Type) := Noted Bytes Failure α

def isUtf8 (octets : Bytes) : Bool := (utf8? octets).isSome

abbrev Decodes {α : Type} (reading : Reading α) (decoded : Except Failure α) : Prop :=
  Traces isUtf8 .unicodeDecodeError Failure.structural reading decoded

def readText (data : Bytes) (offset : ℕ) : Reading (Text × ℕ) := do
  let (octets,stop) ← Noted.lift (decodePrefixed "UTF-8" data offset)
  Noted.note octets ((utf8? octets).getD [],stop)

def readPropValue (wireType : WireType) (data : Bytes) (pos stop : ℕ) :
    Reading (PropertyValue × ℕ) :=
  if wireType=.utf8 then do
    let (text,pos) ← readText data pos
    return (.text text,pos)
  else Noted.lift (decodePropValue wireType data pos stop)

def readProperty (data : Bytes) (pos stop : ℕ) (properties : Properties) :
    Reading (Properties × ℕ) := do
  let identifier ← Noted.lift (octetAt data pos)
  match PropertyKey.ofIdentifier identifier with
  | none =>
    Noted.lift (.error (.decodeError ("Unknown property identifier 0x" ++ hexOctet identifier)))
  | some key =>
    if key.spec.2=.pair then
      let (pairKey,pos) ← readText data (pos+1)
      let (pairValue,pos) ← readText data pos
      return (properties.addPair key (pairKey,pairValue),pos)
    else
      let (value,pos) ← readPropValue key.spec.2 data (pos+1) stop
      return (properties.set key value,pos)

def readPropertiesFrom (data : Bytes) (stop : ℕ) : ℕ → ℕ → Properties → Reading Properties
  | 0,_,properties => pure properties
  | rounds+1,pos,properties =>
    if pos<stop then do
      let (properties,pos) ← readProperty data pos stop properties
      readPropertiesFrom data stop rounds pos properties
    else pure properties

def readProperties (data : Bytes) (offset : ℕ) : Reading (Properties × ℕ) := do
  let (length,consumed) ← Noted.lift (decodeVariableByteInteger (data.drop offset))
  if offset+consumed+length > data.length then
    Noted.lift (.error (.incompletePacket "Properties body truncated"))
  else do
    let properties ← readPropertiesFrom data (offset+consumed+length) length
      (offset+consumed) []
    return (properties,offset + consumed + length - offset)

variable {d : Bytes} {e : Failure} {v consumed : ℕ} {α : Type} {total flags : ℕ}
  {type : PacketType} {k : ℕ} {body : Bytes}

theorem structural_decodePrefixed {w : String} {o : ℕ}
    (h : decodePrefixed w d o=.error e) : e.structural := by
  unfold decodePrefixed at h
  dsimp only at h
  split_ifs at h
  · cases h
    trivial
  · cases h
    trivial

theorem decodes_text {o : ℕ} : Decodes (readText d o) (decodeUtf8 d o) := by
  refine .bind (.lift fun e h => structural_decodePrefixed h) fun r => ?_
  obtain ⟨bs,s⟩ := r
  refine .note ?_
  cases hu : utf8? bs with
  | none | some text => simp [isUtf8,hu]; rfl

theorem structural_octetAt {pos : ℕ} (h : octetAt d pos=.error e) : e.structural := by
  unfold octetAt at h
  split at h
  · cases h
  · cases h
    trivial

theorem decodeVbiFrom_error {m : ℕ} (h : decodeVbiFrom d m v consumed=.error e) :
    (∃ text,e=.incompletePacket text) ∨ ∃ text,e=.decodeError text := by
  induction d generalizing m v consumed with
  | nil =>
    cases h
    exact .inl ⟨_,rfl⟩
  | cons b d ih =>
    rw [decodeVbiFrom] at h
    split_ifs at h
    · cases h
      exact .inr ⟨_,rfl⟩
    · exact ih h

theorem structural_decodeVbiFrom {m : ℕ}
    (h : decodeVbiFrom d m v consumed=.error e) : e.structural := by
  rcases decodeVbiFrom_error h with ⟨text,rfl⟩ | ⟨text,rfl⟩
  · trivial
  · trivial

theorem structural_decodePropValue {wt : WireType} (hw : wt≠.utf8) {pos s : ℕ} (e : Failure)
    (h : decodePropValue wt d pos s=.error e) : e.structural := by
  cases wt with
  | utf8 => exact absurd rfl hw
  | byte => exact expected_of_bind (fun e => structural_octetAt) (fun a e ha => by cases ha) e h
  | uint16 | uint32 => cases h
  | vbi =>
    exact expected_of_bind (fun e => structural_decodeVbiFrom) (fun a e ha => by cases ha) e h
  | binary =>
    exact expected_of_bind (fun e => structural_decodePrefixed) (fun a e ha => by cases ha) e h
  | pair =>
    cases h
    trivial

theorem decodes_propValue {wt : WireType} {pos s : ℕ} :
    Decodes (readPropValue wt d pos s) (decodePropValue wt d pos s) := by
  unfold readPropValue
  by_cases hw : wt=.utf8
  · subst hw
    rw [if_pos rfl]
    exact .bind decodes_text fun r => .pure
  · rw [if_neg hw]
    exact .lift (structural_decodePropValue hw)

theorem decodes_property {pos s : ℕ} {p : Properties} :
    Decodes (readProperty d pos s p) (decodeProperty d pos s p) := by
  refine .bind (.lift fun e => structural_octetAt) fun i => ?_
  cases PropertyKey.ofIdentifier i with
  | none =>
    exact .lift (by rintro _ ⟨⟩; trivial)
  | some key =>
    refine .ite ?_ ?_
    · exact .bind decodes_text fun r => .bind decodes_text fun r' => .pure
    · exact .bind decodes_propValue fun r => .pure

theorem decodes_propertiesFrom {s ro pos : ℕ} {p : Properties} :
    Decodes (readPropertiesFrom d s ro pos p) (decodePropertiesFrom d s ro pos p) := by
  induction ro generalizing pos p with
  | zero => exact .pure
  | succ ro ih =>
    refine .ite ?_ .pure
    exact .bind decodes_property fun r => ih

theorem decodes_properties {o : ℕ} :
    Decodes (readProperties d o) (decodeProperties d o) := by
  refine .bind (.lift fun e => structural_decodeVbiFrom) fun r => ?_
  refine .ite ?_ ?_
  · exact .lift (by rintro _ ⟨⟩; trivial)
  · exact .bind decodes_propertiesFrom fun p => .pure

def readOptional {α : Type} (present : Bool) (read : ℕ → Reading (α × ℕ)) (pos : ℕ) :
    Reading (Option α × ℕ) :=
  if present then do
    let (a,pos) ← read pos
    return (some a,pos)
  else pure (none,pos)

def readWill (body : Bytes) (protoLevel : ℕ) (present : Bool) (pos : ℕ) :
    Reading ((Properties × Option Text × Option Bytes) × ℕ) :=
  if present then do
    let (properties,consumed) ←
      if protoLevel ≥ 5 then readProperties body pos else pure ([],0)
    let (topic,pos) ← readText body (pos+consumed)
    let (payload,pos) ← Noted.lift (decodeBinary body pos)
    return ((properties,some topic,some payload),pos)
  else pure (([],none,none),pos)

def readConnect (body : Bytes) : Reading ConnectFields := do
  let (_,pos) ← readText body 0
  if pos+4 > body.length then
    Noted.lift (.error (.decodeError "CONNECT truncated before the fixed header fields"))
  else do
    let protoLevel ← Noted.lift (octetAt body pos)
    let flags ← Noted.lift (octetAt body (pos+1))
    let (properties,consumed) ←
      if protoLevel.toNat ≥ 5 then readProperties body (pos+4) else pure ([],0)
    let (clientId,pos') ← readText body (pos+4+consumed)
    let (will,pos') ← readWill body protoLevel.toNat (flags.toNat.testBit 2) pos'
    let (username,pos') ← readOptional (flags.toNat.testBit 7) (readText body) pos'
    let (password,_) ← readOptional (flags.toNat.testBit 6)
      (fun pos => Noted.lift (decodeBinary body pos)) pos'
    return { clientId,cleanStart:=flags.toNat.testBit 1,
             keepAlive:=ofBigEndian (slice body (pos+2) (pos+4)),
             protoLevel:=protoLevel.toNat,username,password,willTopic:=will.2.1,
             willPayload:=will.2.2,willQos:=flags.toNat / 8 % 4,
             willRetain:=flags.toNat.testBit 5,willProperties:=will.1,properties}

def readPublish (body : Bytes) (flags : ℕ) : Reading PublishFields := do
  let qos := flags / 2 % 4
  let (topic,pos) ← readText body 0
  let (packetId,pos) :=
    if qos > 0 then (some (ofBigEndian (slice body pos (pos+2))),pos+2) else (none,pos)
  let (properties,consumed) ← readProperties body pos
  return { topic,payload:=body.drop (pos+consumed),qos,packetId,
           retain:=flags.testBit 0,dup:=flags.testBit 3,properties}

def readConnack (body : Bytes) : Reading MQTTConnack := do
  let flags ← Noted.lift (octetAt body 0)
  let reasonCode ← Noted.lift (octetAt body 1)
  let (properties,_) ← readProperties body 2
  return {sessionPresent:=flags.toNat.testBit 0,reasonCode:=reasonCode.toNat,properties}

def readPacketIdAck (body : Bytes) : Reading PacketIdAck := do
  let packetId := ofBigEndian (slice body 0 2)
  if body.length > 2 then
    let reasonCode ← Noted.lift (octetAt body 2)
    if body.length > 3 then
      let (properties,_) ← readProperties body 3
      return {packetId,reasonCode:=reasonCode.toNat,properties}
    else return {packetId,reasonCode:=reasonCode.toNat}
  else return {packetId}

def readSubscriptions (body : Bytes) :
    ℕ → ℕ → Reading (List (Text × ℕ) × List SubscriptionOptions)
  | 0,_ => pure ([],[])
  | rounds+1,pos =>
    if pos<body.length then do
      let (filter,pos) ← readText body pos
      let octet ← Noted.lift (octetAt body pos)
      let options := SubscriptionOptions.ofOctet octet.toNat
      let (subscriptions,rest) ← readSubscriptions body rounds (pos+1)
      return ((filter,options.qos)::subscriptions,options::rest)
    else pure ([],[])

def readSubscribe (body : Bytes) : Reading MQTTSubscribe := do
  let packetId := ofBigEndian (slice body 0 2)
  let (properties,consumed) ← readProperties body 2
  let (subscriptions,options) ← readSubscriptions body body.length (2+consumed)
  return {packetId,subscriptions,properties,subscriptionOptions:=some options}

def readReasonCodes (body : Bytes) : Reading ReasonCodesAck := do
  let packetId := ofBigEndian (slice body 0 2)
  let (properties,consumed) ← readProperties body 2
  return {packetId,reasonCodes:=(body.drop (2+consumed)).map UInt8.toNat,properties}

def readTopics (body : Bytes) : ℕ → ℕ → Reading (List Text)
  | 0,_ => pure []
  | rounds+1,pos =>
    if pos<body.length then do
      let (topic,pos) ← readText body pos
      let topics ← readTopics body rounds pos
      return topic::topics
    else pure []

def readUnsubscribe (body : Bytes) : Reading MQTTUnsubscribe := do
  let packetId := ofBigEndian (slice body 0 2)
  let (properties,consumed) ← readProperties body 2
  let topics ← readTopics body body.length (2+consumed)
  return {packetId,topics,properties}

def readReasonAndProps (body : Bytes) : Reading ReasonAndProps := do
  if body.length=0 then return {}
  else do
    let reasonCode ← Noted.lift (octetAt body 0)
    if body.length > 1 then
      let (properties,_) ← readProperties body 1
      return {reasonCode:=some reasonCode.toNat,properties}
    else return {reasonCode:=some reasonCode.toNat}

theorem decodes_optional {read : ℕ → Reading (α × ℕ)} {d : ℕ → Except Failure (α × ℕ)}
    (h : ∀ {pos},Decodes (read pos) (d pos)) {p : Bool} {pos : ℕ} :
    Decodes (readOptional p read pos) (decodeOptional p d pos) :=
  .ite (.bind h fun _ => .pure) .pure

theorem decodes_binary {pos : ℕ} :
    Decodes (Noted.lift (decodeBinary d pos)) (decodeBinary d pos) :=
  .lift fun _ => structural_decodePrefixed

theorem decodes_octetAt {pos : ℕ} :
    Decodes (Noted.lift (octetAt d pos)) (octetAt d pos) :=
  .lift fun _ => structural_octetAt

theorem decodes_will {pl : ℕ} {p : Bool} {pos : ℕ} :
    Decodes (readWill body pl p pos) (decodeWill body pl p pos) := by
  refine .ite ?_ .pure
  refine .ite (.bind decodes_properties fun pr => ?_) (.bind .pure fun pr => ?_)
  all_goals
    exact .bind decodes_text fun t => .bind decodes_binary fun pa => .pure

theorem decodes_connack : Decodes (readConnack body) (decodeConnack body) :=
  .bind decodes_octetAt fun _ => .bind decodes_octetAt fun _ =>
    .bind decodes_properties fun _ => .pure

theorem decodes_packetIdAck : Decodes (readPacketIdAck body) (decodePacketIdAck body) := by
  refine .ite (.bind decodes_octetAt fun rc => ?_) .pure
  exact .ite (.bind decodes_properties fun _ => .pure) .pure

theorem decodes_subscriptions {r pos : ℕ} :
    Decodes (readSubscriptions body r pos) (decodeSubscriptions body r pos) := by
  induction r generalizing pos with
  | zero => exact .pure
  | succ r ih =>
    refine .ite ?_ .pure
    exact .bind decodes_text fun f => .bind decodes_octetAt fun o =>
      .bind ih fun _ => .pure

theorem decodes_subscribe : Decodes (readSubscribe body) (decodeSubscribe body) :=
  .bind decodes_properties fun _ => .bind decodes_subscriptions fun _ => .pure

theorem decodes_reasonCodes : Decodes (readReasonCodes body) (decodeReasonCodes body) :=
  .bind decodes_properties fun _ => .pure

theorem decodes_topics {r pos : ℕ} : Decodes (readTopics body r pos) (decodeTopics body r pos) := by
  induction r generalizing pos with
  | zero => exact .pure
  | succ r ih =>
    refine .ite ?_ .pure
    exact .bind decodes_text fun t => .bind ih fun _ => .pure

theorem decodes_unsubscribe : Decodes (readUnsubscribe body) (decodeUnsubscribe body) :=
  .bind decodes_properties fun _ => .bind decodes_topics fun _ => .pure

theorem decodes_reasonAndProps : Decodes (readReasonAndProps body) (decodeReasonAndProps body) := by
  refine .ite .pure (.bind decodes_octetAt fun rc => ?_)
  exact .ite (.bind decodes_properties fun _ => .pure) .pure

theorem decodes_connect :
    TracesThen isUtf8 .unicodeDecodeError Failure.structural MQTTConnect.make (readConnect body)
      (decodeConnect body) := by
  refine .bind decodes_text fun name => .ite (.raise trivial) ?_
  refine .bind decodes_octetAt fun pl => ?_
  refine .bind decodes_octetAt fun flags => ?_
  refine .ite (.bind decodes_properties fun p => ?_) (.bind .pure fun p => ?_)
  all_goals
    refine .bind decodes_text fun id => ?_
    refine .bind (decodes_will) fun w => ?_
    refine .bind (decodes_optional decodes_text) fun u => ?_
    exact .bind (decodes_optional decodes_binary) fun pa => .pure

theorem decodes_publish :
    TracesThen isUtf8 .unicodeDecodeError Failure.structural MQTTPublish.make
      (readPublish body flags) (decodePublish body flags) := by
  refine .bind decodes_text fun t => ?_
  exact .bind decodes_properties fun p => .pure

/-- A failure that is not one of structure. -/
def Escapes {α : Type} (decoded : Except Failure α) : Prop :=
  ∃ e,decoded=.error e ∧ ¬ e.structural

theorem escapes_map {β : Type} (f : α → β) (d : Except Failure α) :
    Escapes (f <$> d) ↔ Escapes d := by
  cases d with
  | error e =>
    have hm : (f <$> (.error e : Except Failure α))=.error e := rfl
    simp [Escapes,hm]
  | ok a =>
    have hm : (f <$> (.ok a : Except Failure α))=.ok (f a) := rfl
    simp [Escapes,hm]

theorem escapes_iff {r : Reading α} {d : Except Failure α}
    (h : Decodes r d) : Escapes d ↔ ¬ r.notes.all isUtf8=true := by
  rw [h.judged,Noted.judged]
  split_ifs with hn
  · refine iff_of_false ?_ (not_not.mpr hn)
    rintro ⟨e,he,hb⟩
    exact hb (h.expected e he)
  · exact iff_of_true ⟨_,rfl,id⟩ hn

theorem escapes_checked {β : Type} {r : Reading α} {m : α → Except Failure β} {d : Except Failure
    β} {re : α → Option String} (h : TracesThen isUtf8 .unicodeDecodeError Failure.structural m r
    d) (hm : ∀ fs,Escapes (m fs) ↔ re fs≠none) : Escapes d ↔ ¬ (r.notes.all isUtf8=true ∧
      ∀ fs,r.result=.ok fs → re fs=none) := by
  rw [h.judged,Noted.judged]
  split_ifs with hn
  · cases hr : r.result with
    | error e =>
      have hes : ¬ Escapes ((.error e : Except Failure α) >>= m) := by
        rintro ⟨e',he,hb⟩
        cases he
        exact hb (h.expected e hr)
      simp [hes,hn]
    | ok fs =>
      have hbi : ((.ok fs : Except Failure α) >>= m)=m fs := rfl
      simp [hbi,hm,hn]
  · have hes : Escapes ((.error .unicodeDecodeError : Except Failure α) >>= m) :=
      ⟨_,rfl,id⟩
    simp [hes,hn]

theorem escapes_makeConnect (fs : ConnectFields) :
    Escapes (MQTTConnect.make fs) ↔ fs.refusal≠none := by
  unfold MQTTConnect.make
  split
  · next h => simp [Escapes,h]
  · next text h => simp [Escapes,h,Failure.structural]

theorem escapes_makePublish (fs : PublishFields) :
    Escapes (MQTTPublish.make fs) ↔ fs.refusal≠none := by
  unfold MQTTPublish.make
  split
  · next h => simp [Escapes,h]
  · next text h => simp [Escapes,h,Failure.structural]

/-- The octets of the texts of a body, up to where its structure ends. -/
def bodyTexts (body : Bytes) (flags : ℕ) : PacketType → List Bytes
  | .connect => (readConnect body).notes
  | .connack => (readConnack body).notes
  | .publish => (readPublish body flags).notes
  | .puback | .pubrec | .pubrel | .pubcomp => (readPacketIdAck body).notes
  | .subscribe => (readSubscribe body).notes
  | .suback | .unsuback => (readReasonCodes body).notes
  | .unsubscribe => (readUnsubscribe body).notes
  | .pingreq | .pingresp => []
  | .disconnect | .auth => (readReasonAndProps body).notes

/-- The fields of a CONNECT or a PUBLISH pass the checks of their record. -/
def FieldsAccepted (body : Bytes) (flags : ℕ) : PacketType → Prop
  | .connect => ∀ fields,(readConnect body).result=.ok fields → fields.refusal=none
  | .publish => ∀ fields,(readPublish body flags).result=.ok fields → fields.refusal=none
  | _ => True

theorem escapes_decodeBody (flags : ℕ) (type : PacketType) : Escapes (decodeBody body flags type) ↔
      ¬ ((bodyTexts body flags type).all isUtf8=true ∧ FieldsAccepted body flags type) := by
  have hm {α : Type} {r : Reading α} {d : Except Failure α} (mk : α → Packet) (h : Decodes r d) :
      Escapes (mk <$> d) ↔ ¬ (r.notes.all isUtf8=true ∧ True) := by
    rw [escapes_map,escapes_iff h,and_true]
  cases type with
  | connect =>
    rw [decodeBody,escapes_map]
    exact escapes_checked decodes_connect escapes_makeConnect
  | publish =>
    rw [decodeBody,escapes_map]
    exact escapes_checked decodes_publish escapes_makePublish
  | connack => exact hm _ decodes_connack
  | puback | pubrec | pubrel | pubcomp => exact hm _ decodes_packetIdAck
  | subscribe => exact hm _ decodes_subscribe
  | suback | unsuback => exact hm _ decodes_reasonCodes
  | unsubscribe => exact hm _ decodes_unsubscribe
  | pingreq | pingresp => simp [decodeBody,Escapes,bodyTexts,FieldsAccepted]
  | disconnect | auth => exact hm _ decodes_reasonAndProps

structure Announces (data : Bytes) (type : PacketType) (flags : ℕ) (body : Bytes) (total : ℕ) :
    Prop where
  hasType : PacketType.ofCode ((data.getD 0 0).toNat / 16) = some type
  hasFlags : flags = (data.getD 0 0).toNat % 16
  reserved : type=.publish ∨ flags=type.reservedFlags
  length : ∃ length consumed,decodeVariableByteInteger (data.drop 1)=.ok (length,consumed) ∧
    total=1+consumed+length ∧ body=slice data (1+consumed) total
  complete : total≤data.length

def CutShort (data : Bytes) : Prop :=
  (data.length≤5 ∧ ∀ b∈data.drop 1,128≤b) ∨
    ∃ length consumed,decodeVariableByteInteger (data.drop 1)=.ok (length,consumed) ∧
      data.length<1+consumed+length

theorem digits_le (h : ¬ 128^k > 128*128*128) : k≤3 := by
  by_contra hk
  apply h
  calc 128*128*128<128^4 := by decide
    _≤128^k := Nat.pow_le_pow_right (by decide) (by omega)

theorem decodeVbiFrom_incomplete {t : String} (hk : k≤4)
    (h : decodeVbiFrom d (128^k) v consumed=.error (.incompletePacket t)) :
    d.length+k≤4 ∧ ∀ b∈d,128≤b := by
  induction d generalizing k v consumed with
  | nil => simpa using hk
  | cons byte d ih =>
    rw [decodeVbiFrom] at h
    split_ifs at h with hl hla
    · simp at h
    · have hk' := digits_le hl
      rw [← pow_succ] at h
      obtain ⟨hle,hm⟩ := ih (by omega) h
      refine ⟨by simp only [List.length_cons]; omega,fun b hb => ?_⟩
      rcases List.mem_cons.mp hb with rfl | hb
      · exact UInt8.not_lt.mp hla
      · exact hm b hb

theorem decodeVbiFrom_bound {n : ℕ} (hv : v<128^k)
    (h : decodeVbiFrom d (128^k) v consumed=.ok (n,total)) : n<128^4 ∧ total+k≤consumed+4 := by
  induction d generalizing k v consumed with
  | nil => cases h
  | cons b d ih =>
    rw [decodeVbiFrom] at h
    have hd : v + b.toNat % 128 * 128^k < 128^(k + 1) := by
      have hle : b.toNat % 128 * 128^k ≤ 127 * 128^k := Nat.mul_le_mul_right _ (by omega)
      rw [pow_succ]
      omega
    split_ifs at h with hl hla
    · have hk := digits_le hl
      obtain ⟨rfl,rfl⟩ := Prod.mk.inj (Except.ok.inj h)
      exact ⟨lt_of_lt_of_le hd (Nat.pow_le_pow_right (by decide) (by omega)),by omega⟩
    · rw [← pow_succ] at h
      obtain ⟨hlen,ht⟩ := ih hd h
      exact ⟨hlen,by omega⟩

def withTotal (total : ℕ) : Except Failure Packet → Except Failure (Packet × ℕ)
  | .ok packet => .ok (packet,total)
  | .error failure => .error failure.ofBody

theorem decodeRemaining_cases (ht : PacketType.ofCode ((d.getD 0 0).toNat / 16) = some type)
    (hf : flags = (d.getD 0 0).toNat % 16) (hr : type = .publish ∨ flags = type.reservedFlags) :
    (∃ text,decodeRemaining d flags type=.error (.incompletePacket text) ∧ CutShort d) ∨
    (∃ text,decodeRemaining d flags type=.error (.decodeError text) ∧
      ∀ type flags body total,¬ Announces d type flags body total) ∨
    ∃ body total,Announces d type flags body total ∧
      decodeRemaining d flags type=withTotal total (decodeBody body flags type) := by
  unfold decodeRemaining
  cases hl : decodeVariableByteInteger (d.drop 1) with
  | error e =>
    have hn : ∀ type flags body total,¬ Announces d type flags body total := by
      rintro type flags body total ⟨-,-,-,⟨n,consumed,hok,-⟩,-⟩
      rw [hl] at hok
      cases hok
    rcases decodeVbiFrom_error hl with ⟨text,rfl⟩ | ⟨text,rfl⟩
    · have hc := decodeVbiFrom_incomplete (k := 0) (by decide) hl
      refine .inl ⟨text,rfl,.inl ⟨?_,hc.2⟩⟩
      have hd := hc.1
      rw [List.length_drop] at hd
      omega
    · exact .inr (.inl ⟨text,rfl,hn⟩)
  | ok r =>
    obtain ⟨n,consumed⟩ := r
    by_cases hs : 1+consumed+n > d.length
    · left
      refine ⟨"Packet body truncated",?_,.inr ⟨n,consumed,hl,hs⟩⟩
      simp [bind,Except.bind,hs]
      rfl
    · right
      right
      refine ⟨_,_,⟨ht,hf,hr,⟨n,consumed,hl,rfl,rfl⟩,Nat.le_of_not_lt hs⟩,?_⟩
      simp only [bind,Except.bind,if_neg hs]
      cases decodeBody (slice d (1+consumed) (1+consumed+n)) flags type <;> rfl

theorem decodePacket_cases (d : Bytes) :
    (∃ text,decodePacket d=.error (.incompletePacket text) ∧ CutShort d) ∨
    (∃ text,decodePacket d=.error (.decodeError text) ∧
      ∀ type flags body total,¬ Announces d type flags body total) ∨
    ∃ type flags body total,Announces d type flags body total ∧
      decodePacket d=withTotal total (decodeBody body flags type) := by
  unfold decodePacket
  by_cases hs : d.length<2
  · left
    refine ⟨_,if_pos hs,.inl ⟨by omega,?_⟩⟩
    have he : d.drop 1=[] := List.drop_eq_nil_of_le (by omega)
    simp [he]
  have hf : octetAt d 0=.ok (d.getD 0 0) := by
    cases d with
    | nil => simp at hs
    | cons a rest => rfl
  rw [if_neg hs,hf]
  dsimp only [bind,Except.bind]
  cases ht : PacketType.ofCode ((d.getD 0 0).toNat / 16) with
  | none =>
    refine .inr (.inl ⟨_,rfl,?_⟩)
    rintro type flags body total ⟨ht',-⟩
    rw [ht] at ht'
    cases ht'
  | some type =>
    by_cases hfl : type ≠ .publish ∧ (d.getD 0 0).toNat % 16 ≠ type.reservedFlags
    · refine .inr (.inl ⟨_,if_pos hfl,?_⟩)
      rintro t flags body total ⟨ht',rfl,hr,-⟩
      rw [ht] at ht'
      cases ht'
      rcases hr with hp | hr
      · exact hfl.1 hp
      · exact hfl.2 hr
    · have hr : type = .publish ∨ (d.getD 0 0).toNat % 16 = type.reservedFlags := by
        by_contra hb
        exact hfl (not_or.mp hb)
      have hc := decodeRemaining_cases ht rfl hr
      simp only [if_neg hfl]
      rcases hc with hs | hm | ⟨body,total,ha,heq⟩
      · exact .inl hs
      · exact .inr (.inl hm)
      · exact .inr (.inr ⟨type,_,body,total,ha,heq⟩)

theorem ofBody_ne_incomplete (f : Failure) (t : String) : f.ofBody≠.incompletePacket t := by
  cases f <;> simp [Failure.ofBody]

theorem not_cutShort_of_long (h : 128^4+5≤d.length) : ¬ CutShort d := by
  rintro (⟨hf,-⟩ | ⟨n,consumed,hl,hs⟩)
  · omega
  · obtain ⟨hb,hf⟩ := decodeVbiFrom_bound (k := 0) Nat.one_pos hl
    omega

theorem not_incomplete_of_not_cutShort (hc : ¬ CutShort d) (t : String) :
    decodePacket d≠.error (.incompletePacket t) := by
  intro h
  rcases decodePacket_cases d with ⟨_,-,hs⟩ | ⟨_,he,-⟩ | ⟨type,flags,body,total,-,heq⟩
  · exact hc hs
  · rw [he] at h
    cases h
  · rw [heq] at h
    cases hb : decodeBody body flags type with
    | ok p =>
      rw [hb] at h
      cases h
    | error f =>
      rw [hb] at h
      exact ofBody_ne_incomplete f t (Except.error.inj h)

theorem decodeVbiFrom_ne_ok (hd : ∀ b∈d,128≤b) (m v consumed : ℕ)
    (r : ℕ × ℕ) : decodeVbiFrom d m v consumed≠.ok r := by
  induction d generalizing m v consumed with
  | nil => simp [decodeVbiFrom]
  | cons byte d ih =>
    have hm : ¬ byte<128 := UInt8.not_lt.mpr (hd byte List.mem_cons_self)
    rw [decodeVbiFrom,if_neg hm]
    split_ifs
    · simp
    · exact ih (fun b hb => hd b (List.mem_cons_of_mem _ hb)) _ _ _

theorem Announces.not_cutShort {body : Bytes} (h : Announces d type flags body total) :
    ¬ CutShort d := by
  obtain ⟨n,consumed,hl,rfl,rfl⟩ := h.length
  rintro (⟨-,hc⟩ | ⟨n',k',hl',hs⟩)
  · exact decodeVbiFrom_ne_ok hc _ _ _ _ hl
  · rw [hl] at hl'
    obtain ⟨rfl,rfl⟩ := Prod.mk.inj (Except.ok.inj hl')
    exact absurd h.complete (Nat.not_le.mpr hs)

theorem exists_not_incomplete (d : Bytes) :
    ∃ m,∀ text,decodePacket (d++m)≠.error (.incompletePacket text) := by
  obtain ⟨n,hn⟩ : ∃ n,n=128^4+5 := ⟨_,rfl⟩
  refine ⟨List.replicate n 0,not_incomplete_of_not_cutShort (not_cutShort_of_long ?_)⟩
  rw [← hn,List.length_append,List.length_replicate]
  omega

/-- The decoder gives a packet and the octets it takes, or says that there are too few, or that
they are malformed. -/
def Contained (data : Bytes) : Prop :=
  (∃ packet consumed,decodePacket data=.ok (packet,consumed) ∧ consumed≤data.length) ∨
  (∃ text,decodePacket data=.error (.incompletePacket text) ∧ CutShort data ∧
    ∃ more,∀ text',decodePacket (data++more)≠.error (.incompletePacket text')) ∨
  ∃ text,decodePacket data=.error (.decodeError text)

/-- Every text of the packet is UTF-8, and its fields pass the checks of their record. -/
def WellEncoded (data : Bytes) : Prop :=
  ∀ type flags body total,Announces data type flags body total →
    (∀ octets∈bodyTexts body flags type,isUtf8 octets=true) ∧ FieldsAccepted body flags type

theorem Announces.unique {t : PacketType} {f' : ℕ} {body b : Bytes} {t' : ℕ}
    (h : Announces d type flags body total) (h' : Announces d t f' b t') :
    t=type ∧ f'=flags ∧ b=body := by
  obtain ⟨n,consumed,hl,rfl,rfl⟩ := h.length
  obtain ⟨n',k',hl',rfl,rfl⟩ := h'.length
  rw [hl] at hl'
  obtain ⟨rfl,rfl⟩ := Prod.mk.inj (Except.ok.inj hl')
  exact ⟨Option.some.inj (h'.hasType.symm.trans h.hasType),h'.hasFlags.trans h.hasFlags.symm,rfl⟩

theorem structural_ofBody {f : Failure} (h : f.structural) :
    ∃ text,f.ofBody=.decodeError text := by
  cases f with
  | incompletePacket text | decodeError text | indexError => exact ⟨_,rfl⟩
  | _ => exact absurd h id

theorem structural_of_ofBody {f : Failure} {t : String}
    (h : f.ofBody=.decodeError t) : f.structural := by
  cases f <;> simp_all [Failure.ofBody,Failure.structural]

/-- A whole packet is contained when no failure of its body escapes. -/
theorem contained_of_announces {body : Bytes} (ha : Announces d type flags body total)
    (heq : decodePacket d=withTotal total (decodeBody body flags type)) :
    Contained d ↔ ¬ Escapes (decodeBody body flags type) := by
  cases hb : decodeBody body flags type with
  | ok p =>
    rw [hb,withTotal] at heq
    refine iff_of_true (.inl ⟨p,total,heq,ha.complete⟩) ?_
    rintro ⟨f,hf,-⟩
    cases hf
  | error f =>
    rw [hb,withTotal] at heq
    constructor
    · rintro (⟨p,consumed,hok,-⟩ | ⟨text,-,hc,-⟩ | ⟨text,hm⟩)
      · rw [heq] at hok
        cases hok
      · exact absurd hc ha.not_cutShort
      · rw [heq] at hm
        rintro ⟨f',hf,he⟩
        obtain rfl := Except.error.inj hf
        exact he (structural_of_ofBody (Except.error.inj hm))
    · intro hs
      have hst : f.structural := by
        by_contra he
        exact hs ⟨f,rfl,he⟩
      obtain ⟨text,ht⟩ := structural_ofBody hst
      exact .inr (.inr ⟨text,by rw [heq,ht]⟩)

/-- Nothing but the two exceptions of the codec escapes, exactly when every text that is read is
UTF-8 and no record refuses its fields. -/
theorem decodePacket_contained_iff (data : Bytes) : Contained data ↔ WellEncoded data := by
  rcases decodePacket_cases data with ⟨text,he,hc⟩ | ⟨text,he,hn⟩ | ⟨type,flags,body,total,ha,heq⟩
  · refine iff_of_true (.inr (.inl ⟨text,he,hc,exists_not_incomplete data⟩)) ?_
    intro type flags body total h
    exact absurd hc h.not_cutShort
  · exact iff_of_true (.inr (.inr ⟨text,he⟩)) fun type flags body total h =>
      absurd h (hn type flags body total)
  · have hw : WellEncoded data ↔ ¬ Escapes (decodeBody body flags type) := by
      rw [escapes_decodeBody,not_not,List.all_eq_true]
      constructor
      · intro h
        exact h type flags body total ha
      · intro h type' flags' body' total' ha'
        obtain ⟨rfl,rfl,rfl⟩ := ha.unique ha'
        exact h
    rw [hw]
    exact contained_of_announces ha heq

def publishNoText : Bytes := [0x30,4,0,1,0xFF,0]

/-- A PUBLISH to `a` with the topic alias 0. -/
def publishAliasZero : Bytes := [0x30,7,0,1,0x61,3,0x23,0,0]

/-- Two packets that end in neither exception of the codec. -/
theorem decodePacket_escapes :
    (decodePacket publishNoText=.error .unicodeDecodeError ∧
      decodePacket publishAliasZero =
        .error (.valueError "Topic Alias 0 is prohibited in PUBLISH (§3.3.2.4)")) ∧
    ¬ Contained publishNoText ∧ ¬ Contained publishAliasZero := by
  have ht : decodePacket publishNoText=.error .unicodeDecodeError := by decide +kernel
  have ha : decodePacket publishAliasZero =
      .error (.valueError "Topic Alias 0 is prohibited in PUBLISH (§3.3.2.4)") := by
    decide +kernel
  refine ⟨⟨ht,ha⟩,?_,?_⟩
  · rw [Contained,ht]
    simp
  · rw [Contained,ha]
    simp

end BlackBull.Mqtt
