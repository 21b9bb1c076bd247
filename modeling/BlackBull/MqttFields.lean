import BlackBull.ByteString
import BlackBull.OrderedDict

/-!
# MQTT: the fields of a packet

Variable byte integers, length-prefixed strings and the property block, as the codec reads them at
an offset of the packet body and writes them. The codec raises where Python does: an index past the
end is an `IndexError`, and a number that does not fit its width an `OverflowError`.
-/

namespace BlackBull.Mqtt

open ByteString

abbrev Text := List Char

inductive Failure
  | incompletePacket (text : String)
  | decodeError (text : String)
  | valueError (text : String)
  | unicodeDecodeError
  | indexError
  | keyError
  | overflowError
  | typeError
  | runtimeError (text : String)
  deriving DecidableEq

/-- `octets.decode('utf-8')`, `none` for the `UnicodeDecodeError`. -/
def utf8? (octets : Bytes) : Option Text :=
  (ByteArray.utf8Decode? ⟨octets.toArray⟩).map Array.toList

/-- `text.encode('utf-8')`. -/
def utf8 (text : Text) : Bytes := (String.ofList text).toUTF8.data.toList

/-- `n.to_bytes(width, 'big')`. -/
def toBytes (width n : ℕ) : Except Failure Bytes :=
  if n<256^width then .ok (bigEndian width n) else .error .overflowError

/-- `data[pos]`. -/
def octetAt (data : Bytes) (pos : ℕ) : Except Failure UInt8 :=
  match data[pos]? with
  | some b => .ok b
  | none => .error .indexError

private def upperDigit (n : ℕ) : Char := Char.ofNat (if n<10 then 48+n else 55+n)

/-- The format `02X` of an octet. -/
def hexOctet (b : UInt8) : String :=
  String.ofList [upperDigit (b.toNat / 16),upperDigit (b.toNat % 16)]

/-- The format `X` of a number below sixteen. -/
def hexDigit (n : ℕ) : String := String.ofList [upperDigit n]

def vbiMax : ℕ := 268435455

/-- The loop of `encode_variable_byte_integer`. -/
def vbiGroups (value : ℕ) : Bytes :=
  if value / 128 = 0 then [UInt8.ofNat (value % 128)]
  else UInt8.ofNat (value % 128 + 128)::vbiGroups (value / 128)
termination_by value
decreasing_by omega

def encodeVariableByteInteger (value : ℕ) : Except Failure Bytes :=
  if value > vbiMax then
    .error (.decodeError ("Variable Byte Integer out of range: " ++ toString value))
  else .ok (vbiGroups value)

/-- The loop of `decode_variable_byte_integer`. -/
def decodeVbiFrom : Bytes → ℕ → ℕ → ℕ → Except Failure (ℕ × ℕ)
  | [],_,_,_ => .error (.incompletePacket "Variable Byte Integer continues past buffer")
  | byte::data,multiplier,value,consumed =>
    if multiplier > 128*128*128 then .error (.decodeError "Variable Byte Integer too long")
    else if byte < 128 then .ok (value + byte.toNat % 128 * multiplier,consumed + 1)
    else decodeVbiFrom data (multiplier * 128) (value + byte.toNat % 128 * multiplier)
      (consumed+1)

def decodeVariableByteInteger (data : Bytes) : Except Failure (ℕ × ℕ) :=
  decodeVbiFrom data 1 0 0

def encodePrefixed (octets : Bytes) : Except Failure Bytes := do
  let length ← toBytes 2 octets.length
  return length++octets

def decodePrefixed (what : String) (data : Bytes) (offset : ℕ) : Except Failure (Bytes × ℕ) :=
  if offset+2 > data.length then .error (.incompletePacket (what ++ " length prefix truncated"))
  else
    let start := offset+2
    let stop := start+ofBigEndian (slice data offset (offset+2))
    if stop > data.length then .error (.incompletePacket (what ++ " body truncated"))
    else .ok (slice data start stop,stop)

def encodeUtf8 (text : Text) : Except Failure Bytes := encodePrefixed (utf8 text)

def decodeUtf8 (data : Bytes) (offset : ℕ) : Except Failure (Text × ℕ) := do
  let (octets,stop) ← decodePrefixed "UTF-8" data offset
  match utf8? octets with
  | some text => return (text,stop)
  | none => throw .unicodeDecodeError

def encodeBinary (blob : Bytes) : Except Failure Bytes := encodePrefixed blob

def decodeBinary (data : Bytes) (offset : ℕ) : Except Failure (Bytes × ℕ) :=
  decodePrefixed "Binary" data offset

inductive WireType
  | byte | uint16 | uint32 | vbi | utf8 | binary | pair
  deriving DecidableEq

inductive PropertyKey
  | payloadFormatIndicator | messageExpiryInterval | contentType | responseTopic
  | correlationData | subscriptionIdentifier | sessionExpiryInterval
  | assignedClientIdentifier | serverKeepAlive | authenticationMethod | authenticationData
  | requestProblemInformation | willDelayInterval | requestResponseInformation
  | responseInformation | serverReference | reasonString | receiveMaximum | topicAliasMaximum
  | topicAlias | maximumQos | retainAvailable | userProperties | maximumPacketSize
  | wildcardSubscriptionAvailable | subscriptionIdentifierAvailable
  | sharedSubscriptionAvailable
  deriving DecidableEq

/-- The rows of `_PROPERTY_SPECS`. -/
def PropertyKey.spec : PropertyKey → UInt8 × WireType
  | payloadFormatIndicator => (0x01,.byte)
  | messageExpiryInterval => (0x02,.uint32)
  | contentType => (0x03,.utf8)
  | responseTopic => (0x08,.utf8)
  | correlationData => (0x09,.binary)
  | subscriptionIdentifier => (0x0B,.vbi)
  | sessionExpiryInterval => (0x11,.uint32)
  | assignedClientIdentifier => (0x12,.utf8)
  | serverKeepAlive => (0x13,.uint16)
  | authenticationMethod => (0x15,.utf8)
  | authenticationData => (0x16,.binary)
  | requestProblemInformation => (0x17,.byte)
  | willDelayInterval => (0x18,.uint32)
  | requestResponseInformation => (0x19,.byte)
  | responseInformation => (0x1A,.utf8)
  | serverReference => (0x1C,.utf8)
  | reasonString => (0x1F,.utf8)
  | receiveMaximum => (0x21,.uint16)
  | topicAliasMaximum => (0x22,.uint16)
  | topicAlias => (0x23,.uint16)
  | maximumQos => (0x24,.byte)
  | retainAvailable => (0x25,.byte)
  | userProperties => (0x26,.pair)
  | maximumPacketSize => (0x27,.uint32)
  | wildcardSubscriptionAvailable => (0x28,.byte)
  | subscriptionIdentifierAvailable => (0x29,.byte)
  | sharedSubscriptionAvailable => (0x2A,.byte)

def PropertyKey.all : List PropertyKey :=
  [payloadFormatIndicator,messageExpiryInterval,contentType,responseTopic,correlationData,
    subscriptionIdentifier,sessionExpiryInterval,assignedClientIdentifier,serverKeepAlive,
    authenticationMethod,authenticationData,requestProblemInformation,willDelayInterval,
    requestResponseInformation,responseInformation,serverReference,reasonString,
    receiveMaximum,topicAliasMaximum,topicAlias,maximumQos,retainAvailable,userProperties,
    maximumPacketSize,wildcardSubscriptionAvailable,subscriptionIdentifierAvailable,
    sharedSubscriptionAvailable]

/-- `_PROP_BY_ID`. -/
def PropertyKey.ofIdentifier (identifier : UInt8) : Option PropertyKey :=
  all.find? fun key => key.spec.1=identifier

inductive PropertyValue
  | number (n : ℕ)
  | text (t : Text)
  | binary (b : Bytes)
  | pairs (l : List (Text × Text))
  deriving DecidableEq

abbrev Properties := Dict PropertyKey PropertyValue

/-- `properties.get(key)` of a property that is an integer. -/
def Properties.number? (properties : Properties) (key : PropertyKey) : Option ℕ :=
  match properties.get? key with
  | some (.number n) => some n
  | _ => none

/-- The encoders of `_WIRE_CODECS`. -/
def encodePropValue : WireType → PropertyValue → Except Failure Bytes
  | .byte,.number n => .ok [UInt8.ofNat n]
  | .uint16,.number n => toBytes 2 n
  | .uint32,.number n => toBytes 4 n
  | .vbi,.number n => encodeVariableByteInteger n
  | .utf8,.text t => encodeUtf8 t
  | .binary,.binary b => encodeBinary b
  | _,_ => .error .typeError

def encodePair (identifier : UInt8) (pair : Text × Text) : Except Failure Bytes := do
  let key ← encodeUtf8 pair.1
  let value ← encodeUtf8 pair.2
  return identifier::(key++value)

def encodeEach {α : Type} (encode : α → Except Failure Bytes) : List α → Except Failure Bytes
  | [] => .ok []
  | item::items => do
    let octets ← encode item
    let rest ← encodeEach encode items
    return octets++rest

def encodeProperty (property : PropertyKey × PropertyValue) : Except Failure Bytes :=
  let (identifier,wireType) := property.1.spec
  match wireType,property.2 with
  | .pair,.pairs l => encodeEach (encodePair identifier) l
  | _,value => do
    let octets ← encodePropValue wireType value
    return identifier::octets

def encodeProperties (properties : Properties) : Except Failure Bytes := do
  let body ← encodeEach encodeProperty properties
  let length ← encodeVariableByteInteger body.length
  return length++body

/-- The decoders of `_WIRE_CODECS`. -/
def decodePropValue (wireType : WireType) (data : Bytes) (pos stop : ℕ) :
    Except Failure (PropertyValue × ℕ) :=
  match wireType with
  | .byte => do
    let b ← octetAt data pos
    return (.number b.toNat,pos+1)
  | .uint16 => .ok (.number (ofBigEndian (slice data pos (pos+2))),pos+2)
  | .uint32 => .ok (.number (ofBigEndian (slice data pos (pos+4))),pos+4)
  | .vbi => do
    let (value,consumed) ← decodeVariableByteInteger (slice data pos stop)
    return (.number value,pos+consumed)
  | .utf8 => do
    let (text,pos) ← decodeUtf8 data pos
    return (.text text,pos)
  | .binary => do
    let (blob,pos) ← decodeBinary data pos
    return (.binary blob,pos)
  | .pair => .error (.decodeError "Unhandled property wire type 'pair'")

/-- `props.setdefault(key, []).append(pair)`. -/
def Properties.addPair (properties : Properties) (key : PropertyKey) (pair : Text × Text) :
    Properties :=
  match properties.get? key with
  | some (.pairs l) => properties.set key (.pairs (l++[pair]))
  | _ => properties.set key (.pairs [pair])

/-- One round of the loop of `decode_properties`. -/
def decodeProperty (data : Bytes) (pos stop : ℕ) (properties : Properties) :
    Except Failure (Properties × ℕ) := do
  let identifier ← octetAt data pos
  match PropertyKey.ofIdentifier identifier with
  | none => throw (.decodeError ("Unknown property identifier 0x" ++ hexOctet identifier))
  | some key =>
    if key.spec.2=.pair then
      let (pairKey,pos) ← decodeUtf8 data (pos+1)
      let (pairValue,pos) ← decodeUtf8 data pos
      return (properties.addPair key (pairKey,pairValue),pos)
    else
      let (value,pos) ← decodePropValue key.spec.2 data (pos+1) stop
      return (properties.set key value,pos)

/-- The loop of `decode_properties`: a round takes at least the octet of the identifier, so the
length of the block bounds the rounds. -/
def decodePropertiesFrom (data : Bytes) (stop : ℕ) :
    ℕ → ℕ → Properties → Except Failure Properties
  | 0,_,properties => .ok properties
  | rounds+1,pos,properties =>
    if pos<stop then do
      let (properties,pos) ← decodeProperty data pos stop properties
      decodePropertiesFrom data stop rounds pos properties
    else .ok properties

/-- The properties and the octets the block takes with its length. -/
def decodeProperties (data : Bytes) (offset : ℕ) : Except Failure (Properties × ℕ) := do
  let (length,consumed) ← decodeVariableByteInteger (data.drop offset)
  let start := offset+consumed
  if start+length > data.length then
    throw (.incompletePacket "Properties body truncated")
  let properties ← decodePropertiesFrom data (start+length) length start []
  return (properties,start + length - offset)

end BlackBull.Mqtt
