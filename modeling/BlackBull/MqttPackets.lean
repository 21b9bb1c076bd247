import BlackBull.MqttFields

/-!
# MQTT: the control packets

The fifteen packets, their encoders and `decode_packet`. A CONNECT or a PUBLISH is built through the
checks of its `__post_init__`, so the record carries the fact that they passed; a SUBSCRIBE or an
UNSUBSCRIBE has a packet identifier.
-/

namespace BlackBull.Mqtt

open ByteString

inductive PacketType
  | connect | connack | publish | puback | pubrec | pubrel | pubcomp | subscribe | suback
  | unsubscribe | unsuback | pingreq | pingresp | disconnect | auth
  deriving DecidableEq

namespace PacketType

def code : PacketType → ℕ
  | connect => 1
  | connack => 2
  | publish => 3
  | puback => 4
  | pubrec => 5
  | pubrel => 6
  | pubcomp => 7
  | subscribe => 8
  | suback => 9
  | unsubscribe => 10
  | unsuback => 11
  | pingreq => 12
  | pingresp => 13
  | disconnect => 14
  | auth => 15

def name : PacketType → String
  | connect => "CONNECT"
  | connack => "CONNACK"
  | publish => "PUBLISH"
  | puback => "PUBACK"
  | pubrec => "PUBREC"
  | pubrel => "PUBREL"
  | pubcomp => "PUBCOMP"
  | subscribe => "SUBSCRIBE"
  | suback => "SUBACK"
  | unsubscribe => "UNSUBSCRIBE"
  | unsuback => "UNSUBACK"
  | pingreq => "PINGREQ"
  | pingresp => "PINGRESP"
  | disconnect => "DISCONNECT"
  | auth => "AUTH"

def all : List PacketType :=
  [connect,connack,publish,puback,pubrec,pubrel,pubcomp,subscribe,suback,unsubscribe,
    unsuback,pingreq,pingresp,disconnect,auth]

/-- `MQTTPacketType(code)`, `none` for the reserved type. -/
def ofCode (n : ℕ) : Option PacketType := all.find? fun type => type.code=n

/-- The flags the fixed header of the packet must carry; a PUBLISH has its own. -/
def reservedFlags : PacketType → ℕ
  | pubrel | subscribe | unsubscribe => 2
  | _ => 0

end PacketType

structure ConnectFields where
  clientId : Text
  cleanStart : Bool
  keepAlive : ℕ
  protoLevel : ℕ := 5
  username : Option Text := none
  /-- A `str` password stands for its UTF-8 octets. -/
  password : Option Bytes := none
  willTopic : Option Text := none
  willPayload : Option Bytes := none
  willQos : ℕ := 0
  willRetain : Bool := false
  willProperties : Properties := []
  properties : Properties := []
  deriving DecidableEq

/-- The `ValueError` of `MQTTConnect.__post_init__`. -/
def ConnectFields.refusal (m : ConnectFields) : Option String :=
  if Char.ofNat 0∈m.clientId then some "Client Identifier must not contain a null character"
  else if m.password.isSome ∧ m.username=none then
    some "Password must not be set without a User Name (§3.1.2.9)"
  else none

structure MQTTConnect extends ConnectFields where
  checked : toConnectFields.refusal=none
  deriving DecidableEq

def MQTTConnect.make (m : ConnectFields) : Except Failure MQTTConnect :=
  match h : m.refusal with
  | none => .ok ⟨m,h⟩
  | some text => .error (.valueError text)

structure MQTTConnack where
  sessionPresent : Bool := false
  reasonCode : ℕ := 0
  properties : Properties := []
  deriving DecidableEq

structure PublishFields where
  topic : Text
  payload : Bytes
  qos : ℕ := 0
  packetId : Option ℕ := none
  retain : Bool := false
  dup : Bool := false
  properties : Properties := []
  deriving DecidableEq

/-- The `ValueError` of `MQTTPublish.__post_init__`. -/
def PublishFields.refusal (m : PublishFields) : Option String :=
  if m.qos > 0 ∧ m.packetId=none then
    some "QoS > 0 PUBLISH requires a Packet Identifier (§3.3.2-2)"
  else if m.properties.get? .topicAlias=some (.number 0) then
    some "Topic Alias 0 is prohibited in PUBLISH (§3.3.2.4)"
  else if m.properties.get? .payloadFormatIndicator=some (.number 1) ∧
      utf8? m.payload=none then
    some "Payload Format Indicator 1 requires a valid UTF-8 payload"
  else none

structure MQTTPublish extends PublishFields where
  checked : toPublishFields.refusal=none
  deriving DecidableEq

def MQTTPublish.make (m : PublishFields) : Except Failure MQTTPublish :=
  match h : m.refusal with
  | none => .ok ⟨m,h⟩
  | some text => .error (.valueError text)

structure PacketIdAck where
  packetId : ℕ
  reasonCode : ℕ := 0
  properties : Properties := []
  deriving DecidableEq

structure SubscriptionOptions where
  qos : ℕ := 0
  noLocal : Bool := false
  retainAsPublished : Bool := false
  retainHandling : ℕ := 0
  deriving DecidableEq

structure MQTTSubscribe where
  packetId : ℕ
  subscriptions : List (Text × ℕ) := []
  properties : Properties := []
  subscriptionOptions : Option (List SubscriptionOptions) := none
  deriving DecidableEq

structure MQTTUnsubscribe where
  packetId : ℕ
  topics : List Text := []
  properties : Properties := []
  deriving DecidableEq

structure ReasonCodesAck where
  packetId : ℕ
  reasonCodes : List ℕ
  properties : Properties := []
  deriving DecidableEq

structure ReasonAndProps where
  reasonCode : Option ℕ := none
  properties : Properties := []
  deriving DecidableEq

inductive Packet
  | connect (m : MQTTConnect)
  | connack (m : MQTTConnack)
  | publish (m : MQTTPublish)
  | puback (m : PacketIdAck)
  | pubrec (m : PacketIdAck)
  | pubrel (m : PacketIdAck)
  | pubcomp (m : PacketIdAck)
  | subscribe (m : MQTTSubscribe)
  | suback (m : ReasonCodesAck)
  | unsubscribe (m : MQTTUnsubscribe)
  | unsuback (m : ReasonCodesAck)
  | pingreq
  | pingresp
  | disconnect (m : ReasonAndProps)
  | auth (m : ReasonAndProps)
  deriving DecidableEq

/-- `bytearray.append(n)`. -/
def appendOctet (n : ℕ) : Except Failure Bytes :=
  if n<256 then .ok [UInt8.ofNat n] else .error (.valueError "byte must be in range(0, 256)")

def frame (type : PacketType) (flags : ℕ) (body : Bytes) : Except Failure Bytes := do
  let length ← encodeVariableByteInteger body.length
  return UInt8.ofNat (type.code * 16 + flags % 16)::length++body

def encodeOptional {α : Type} (encode : α → Except Failure Bytes) :
    Option α → Except Failure Bytes
  | none => .ok []
  | some a => encode a

def ConnectFields.flags (m : ConnectFields) : ℕ :=
  (if m.cleanStart then 0x02 else 0) +
    (if m.willTopic.isSome then
      0x04 + m.willQos % 4 * 8 + (if m.willRetain then 0x20 else 0) else 0) +
    (if m.password.isSome then 0x40 else 0)+(if m.username.isSome then 0x80 else 0)

def encodeWill (m : ConnectFields) : Except Failure Bytes :=
  match m.willTopic with
  | none => .ok []
  | some topic => do
    let properties ← encodeProperties m.willProperties
    let topic ← encodeUtf8 topic
    let payload ← encodeBinary (m.willPayload.getD [])
    return properties++(topic++payload)

def connectBody (m : ConnectFields) : Except Failure Bytes := do
  let name ← encodeUtf8 "MQTT".toList
  let protoLevel ← appendOctet m.protoLevel
  let keepAlive ← toBytes 2 m.keepAlive
  let properties ← encodeProperties m.properties
  let clientId ← encodeUtf8 m.clientId
  let will ← encodeWill m
  let username ← encodeOptional encodeUtf8 m.username
  let password ← encodeOptional encodeBinary m.password
  return name++(protoLevel++(UInt8.ofNat m.flags::(keepAlive++(properties++(clientId ++
    (will++(username++password)))))))

def connackBody (m : MQTTConnack) : Except Failure Bytes := do
  let properties ← encodeProperties m.properties
  return (if m.sessionPresent then 1 else 0)::UInt8.ofNat m.reasonCode::properties

def PublishFields.flags (m : PublishFields) : ℕ :=
  m.qos % 4 * 2 + (if m.dup then 8 else 0) + (if m.retain then 1 else 0)

def publishBody (m : PublishFields) : Except Failure Bytes := do
  let topic ← encodeUtf8 m.topic
  let packetId ← if m.qos > 0 then toBytes 2 (m.packetId.getD 0) else .ok []
  let properties ← encodeProperties m.properties
  return topic++(packetId++(properties++m.payload))

def packetIdAckBody (m : PacketIdAck) : Except Failure Bytes := do
  let packetId ← toBytes 2 m.packetId
  let properties ← encodeProperties m.properties
  return packetId++(UInt8.ofNat m.reasonCode::properties)

def SubscriptionOptions.octet (qos : ℕ) : Option SubscriptionOptions → ℕ
  | none => qos % 4
  | some o => qos % 4 + (if o.noLocal then 4 else 0) + (if o.retainAsPublished then 8 else 0) +
    o.retainHandling % 4 * 16

/-- The filters of a SUBSCRIBE, with the options that are left for them. -/
def encodeSubscriptions : List (Text × ℕ) → List SubscriptionOptions → Except Failure Bytes
  | [],_ => .ok []
  | (filter,qos)::subscriptions,options => do
    let filter ← encodeUtf8 filter
    let rest ← encodeSubscriptions subscriptions options.tail
    return filter++(UInt8.ofNat (SubscriptionOptions.octet qos options.head?)::rest)

def subscribeBody (m : MQTTSubscribe) : Except Failure Bytes := do
  let packetId ← toBytes 2 m.packetId
  let properties ← encodeProperties m.properties
  let subscriptions ← encodeSubscriptions m.subscriptions (m.subscriptionOptions.getD [])
  return packetId++(properties++subscriptions)

def reasonCodesBody (m : ReasonCodesAck) : Except Failure Bytes := do
  let packetId ← toBytes 2 m.packetId
  let properties ← encodeProperties m.properties
  return packetId++(properties++m.reasonCodes.map UInt8.ofNat)

def unsubscribeBody (m : MQTTUnsubscribe) : Except Failure Bytes := do
  let packetId ← toBytes 2 m.packetId
  let properties ← encodeProperties m.properties
  let topics ← encodeEach encodeUtf8 m.topics
  return packetId++(properties++topics)

/-- DISCONNECT and AUTH: no body at all when there is nothing to say. -/
def reasonAndPropsBody (m : ReasonAndProps) : Except Failure Bytes :=
  if m.reasonCode=none ∧ m.properties=[] then .ok []
  else do
    let properties ← encodeProperties m.properties
    return UInt8.ofNat (m.reasonCode.getD 0)::properties

def Packet.type : Packet → PacketType
  | connect _ => .connect
  | connack _ => .connack
  | publish _ => .publish
  | puback _ => .puback
  | pubrec _ => .pubrec
  | pubrel _ => .pubrel
  | pubcomp _ => .pubcomp
  | subscribe _ => .subscribe
  | suback _ => .suback
  | unsubscribe _ => .unsubscribe
  | unsuback _ => .unsuback
  | pingreq => .pingreq
  | pingresp => .pingresp
  | disconnect _ => .disconnect
  | auth _ => .auth

/-- The flags an encoder gives to `_frame`. -/
def Packet.flags : Packet → ℕ
  | publish m => m.flags
  | pubrel _ | subscribe _ | unsubscribe _ => 2
  | _ => 0

/-- The encoders of `_ENCODERS`, up to the call of `_frame` each of them ends in. -/
def encodeBody : Packet → Except Failure Bytes
  | .connect m => connectBody m.toConnectFields
  | .connack m => connackBody m
  | .publish m => publishBody m.toPublishFields
  | .puback m | .pubrec m | .pubrel m | .pubcomp m => packetIdAckBody m
  | .subscribe m => subscribeBody m
  | .suback m | .unsuback m => reasonCodesBody m
  | .unsubscribe m => unsubscribeBody m
  | .pingreq | .pingresp => .ok []
  | .disconnect m | .auth m => reasonAndPropsBody m

def encodePacket (packet : Packet) : Except Failure Bytes := do
  let body ← encodeBody packet
  frame packet.type packet.flags body

def decodeOptional {α : Type} (present : Bool) (decode : ℕ → Except Failure (α × ℕ)) (pos : ℕ) :
    Except Failure (Option α × ℕ) :=
  if present then do
    let (a,pos) ← decode pos
    return (some a,pos)
  else .ok (none,pos)

def decodeWill (body : Bytes) (protoLevel : ℕ) (present : Bool) (pos : ℕ) :
    Except Failure ((Properties × Option Text × Option Bytes) × ℕ) :=
  if present then do
    let (properties,consumed) ←
      if protoLevel ≥ 5 then decodeProperties body pos else .ok ([],0)
    let (topic,pos) ← decodeUtf8 body (pos+consumed)
    let (payload,pos) ← decodeBinary body pos
    return ((properties,some topic,some payload),pos)
  else .ok (([],none,none),pos)

def decodeConnect (body : Bytes) : Except Failure MQTTConnect := do
  let (_,pos) ← decodeUtf8 body 0
  if pos+4 > body.length then
    throw (.decodeError "CONNECT truncated before the fixed header fields")
  let protoLevel ← octetAt body pos
  let flags ← octetAt body (pos+1)
  let flags := flags.toNat
  let keepAlive := ofBigEndian (slice body (pos+2) (pos+4))
  let pos := pos+4
  -- An older protocol level carries no properties; the broker refuses it later.
  let (properties,consumed) ←
    if protoLevel.toNat ≥ 5 then decodeProperties body pos else .ok ([],0)
  let (clientId,pos) ← decodeUtf8 body (pos+consumed)
  let (will,pos) ← decodeWill body protoLevel.toNat (flags.testBit 2) pos
  let (username,pos) ← decodeOptional (flags.testBit 7) (decodeUtf8 body) pos
  let (password,_) ← decodeOptional (flags.testBit 6) (decodeBinary body) pos
  MQTTConnect.make
    { clientId,cleanStart:=flags.testBit 1,keepAlive,protoLevel:=protoLevel.toNat
      username,password,willTopic:=will.2.1,willPayload:=will.2.2
      willQos:=flags / 8 % 4,willRetain:=flags.testBit 5,willProperties:=will.1
      properties}

def decodeConnack (body : Bytes) : Except Failure MQTTConnack := do
  let flags ← octetAt body 0
  let reasonCode ← octetAt body 1
  let (properties,_) ← decodeProperties body 2
  return {sessionPresent:=flags.toNat.testBit 0,reasonCode:=reasonCode.toNat,properties}

def decodePublish (body : Bytes) (flags : ℕ) : Except Failure MQTTPublish := do
  let qos := flags / 2 % 4
  let (topic,pos) ← decodeUtf8 body 0
  let (packetId,pos) :=
    if qos > 0 then (some (ofBigEndian (slice body pos (pos+2))),pos+2) else (none,pos)
  let (properties,consumed) ← decodeProperties body pos
  MQTTPublish.make
    { topic,payload:=body.drop (pos+consumed),qos,packetId
      retain:=flags.testBit 0,dup:=flags.testBit 3,properties}

def decodePacketIdAck (body : Bytes) : Except Failure PacketIdAck := do
  let packetId := ofBigEndian (slice body 0 2)
  if body.length > 2 then
    let reasonCode ← octetAt body 2
    if body.length > 3 then
      let (properties,_) ← decodeProperties body 3
      return {packetId,reasonCode:=reasonCode.toNat,properties}
    else return {packetId,reasonCode:=reasonCode.toNat}
  else return {packetId}

def SubscriptionOptions.ofOctet (octet : ℕ) : SubscriptionOptions :=
  { qos:=octet % 4,noLocal:=octet.testBit 2,retainAsPublished:=octet.testBit 3
    retainHandling:=octet / 16 % 4}

/-- The loop of `_decode_subscribe`: a round takes at least the length of the filter, so the
length of the body bounds the rounds. -/
def decodeSubscriptions (body : Bytes) :
    ℕ → ℕ → Except Failure (List (Text × ℕ) × List SubscriptionOptions)
  | 0,_ => .ok ([],[])
  | rounds+1,pos =>
    if pos<body.length then do
      let (filter,pos) ← decodeUtf8 body pos
      let octet ← octetAt body pos
      let options := SubscriptionOptions.ofOctet octet.toNat
      let (subscriptions,rest) ← decodeSubscriptions body rounds (pos+1)
      return ((filter,options.qos)::subscriptions,options::rest)
    else .ok ([],[])

def decodeSubscribe (body : Bytes) : Except Failure MQTTSubscribe := do
  let packetId := ofBigEndian (slice body 0 2)
  let (properties,consumed) ← decodeProperties body 2
  let (subscriptions,options) ← decodeSubscriptions body body.length (2+consumed)
  return {packetId,subscriptions,properties,subscriptionOptions:=some options}

def decodeReasonCodes (body : Bytes) : Except Failure ReasonCodesAck := do
  let packetId := ofBigEndian (slice body 0 2)
  let (properties,consumed) ← decodeProperties body 2
  return {packetId,reasonCodes:=(body.drop (2+consumed)).map UInt8.toNat,properties}

/-- The loop of `_decode_unsubscribe`. -/
def decodeTopics (body : Bytes) : ℕ → ℕ → Except Failure (List Text)
  | 0,_ => .ok []
  | rounds+1,pos =>
    if pos<body.length then do
      let (topic,pos) ← decodeUtf8 body pos
      let topics ← decodeTopics body rounds pos
      return topic::topics
    else .ok []

def decodeUnsubscribe (body : Bytes) : Except Failure MQTTUnsubscribe := do
  let packetId := ofBigEndian (slice body 0 2)
  let (properties,consumed) ← decodeProperties body 2
  let topics ← decodeTopics body body.length (2+consumed)
  return {packetId,topics,properties}

def decodeReasonAndProps (body : Bytes) : Except Failure ReasonAndProps := do
  if body.length=0 then return {}
  let reasonCode ← octetAt body 0
  if body.length > 1 then
    let (properties,_) ← decodeProperties body 1
    return {reasonCode:=some reasonCode.toNat,properties}
  else return {reasonCode:=some reasonCode.toNat}

/-- `_DECODERS`. -/
def decodeBody (body : Bytes) (flags : ℕ) : PacketType → Except Failure Packet
  | .connect => Packet.connect <$> decodeConnect body
  | .connack => Packet.connack <$> decodeConnack body
  | .publish => Packet.publish <$> decodePublish body flags
  | .puback => Packet.puback <$> decodePacketIdAck body
  | .pubrec => Packet.pubrec <$> decodePacketIdAck body
  | .pubrel => Packet.pubrel <$> decodePacketIdAck body
  | .pubcomp => Packet.pubcomp <$> decodePacketIdAck body
  | .subscribe => Packet.subscribe <$> decodeSubscribe body
  | .suback => Packet.suback <$> decodeReasonCodes body
  | .unsubscribe => Packet.unsubscribe <$> decodeUnsubscribe body
  | .unsuback => Packet.unsuback <$> decodeReasonCodes body
  | .pingreq => .ok .pingreq
  | .pingresp => .ok .pingresp
  | .disconnect => Packet.disconnect <$> decodeReasonAndProps body
  | .auth => Packet.auth <$> decodeReasonAndProps body

/-- What `decode_packet` makes of a failure inside a body that is wholly there. -/
def Failure.ofBody : Failure → Failure
  | .incompletePacket _ => .decodeError "Packet body inconsistent with Remaining Length"
  | .indexError => .decodeError "Packet body indexed past its Remaining Length"
  | failure => failure

/-- `decode_packet` behind the checks of the first octet. -/
def decodeRemaining (data : Bytes) (flags : ℕ) (type : PacketType) :
    Except Failure (Packet × ℕ) := do
  let (remainingLength,consumed) ← decodeVariableByteInteger (data.drop 1)
  let total := 1+consumed+remainingLength
  if total > data.length then throw (.incompletePacket "Packet body truncated")
  match decodeBody (slice data (1+consumed) total) flags type with
  | .ok packet => return (packet,total)
  | .error failure => throw failure.ofBody

/-- The first packet in the octets, and the octets it takes. -/
def decodePacket (data : Bytes) : Except Failure (Packet × ℕ) :=
  if data.length<2 then
    .error (.incompletePacket "Need at least a 2-byte fixed header")
  else do
    let firstByte ← octetAt data 0
    let flags := firstByte.toNat % 16
    match PacketType.ofCode (firstByte.toNat / 16) with
    | none => throw (.decodeError ("Invalid packet type in 0x" ++ hexOctet firstByte))
    | some type =>
      if type≠.publish ∧ flags≠type.reservedFlags then
        throw (.decodeError ("Reserved flag bits 0x" ++ hexDigit flags ++ " invalid for " ++
          type.name))
      decodeRemaining data flags type

end BlackBull.Mqtt
