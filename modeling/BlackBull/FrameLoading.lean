import BlackBull.HeadParser

/-!
# Loading HTTP/2 frames

A frame as it comes off the wire, what the loader makes of it, and how a HEADERS frame turns its
payload into a request: the octets handed to the HPACK decoder and the checks on what it gives. The
HPACK decoder and `urlsplit` are parameters.
-/

namespace BlackBull.H2

open ByteString HeadParser

/-- The libraries the loader calls. Either call may raise. -/
structure Library (τ : Type) where
  /-- `Decoder.decode` on a header block, with the dynamic table it leaves. -/
  decode : τ → Bytes → Option (HeaderList × τ)
  /-- The path and the query of `urlsplit`. -/
  urlsplit : Bytes → Option (Bytes × Bytes)

inductive FrameType where
  | data | headers | priority | rstStream | settings | pushPromise | ping | goaway
  | windowUpdate | continuation | priorityUpdate
  deriving DecidableEq

def FrameType.ofOctet (octet : UInt8) : Option FrameType :=
  match octet.toNat with
  | 0 => some .data
  | 1 => some .headers
  | 2 => some .priority
  | 3 => some .rstStream
  | 4 => some .settings
  | 5 => some .pushPromise
  | 6 => some .ping
  | 7 => some .goaway
  | 8 => some .windowUpdate
  | 9 => some .continuation
  | 16 => some .priorityUpdate
  | _ => none

inductive ErrorCode where
  | noError | protocolError | internalError | flowControlError | streamClosed
  | frameSizeError | refusedStream | cancel | enhanceYourCalm
  deriving DecidableEq

inductive Raised where
  | frameSize
  | dataPadding
  | hpack
  | unicodeDecode
  | urlsplit
  | unsupportedFrameType
  | attributeError
  | flowControlStalled
  deriving DecidableEq

/-- A frame on the wire. The length is that of the payload and the reserved bit of the stream
identifier is off already. -/
structure RawFrame where
  typeOctet : UInt8
  flags : UInt8
  streamId : ℕ
  payload : Bytes

def defaultMaxFrameSize : ℕ := 16384

namespace RawFrame

def type (raw : RawFrame) : Option FrameType := FrameType.ofOctet raw.typeOctet

def hasFlag (raw : RawFrame) (mask : UInt8) : Bool := raw.flags &&& mask ≠ 0

def endStream (raw : RawFrame) : Bool := raw.hasFlag 0x1

def ack (raw : RawFrame) : Bool := raw.hasFlag 0x1

def endHeaders (raw : RawFrame) : Bool := raw.hasFlag 0x4

def padded (raw : RawFrame) : Bool := raw.hasFlag 0x8

def priority (raw : RawFrame) : Bool := raw.hasFlag 0x20

end RawFrame

/-- `BytesIO.read`: a negative count reads to the end. -/
def readCount (text : Bytes) (count : ℤ) : Bytes :=
  if count<0 then text else text.take count.toNat

inductive PseudoHeader where
  | method | path | scheme | status | authority | protocol
  deriving DecidableEq

def PseudoHeader.ofName (name : Bytes) : Option PseudoHeader :=
  if name=ascii ":method" then some .method
  else if name=ascii ":path" then some .path
  else if name=ascii ":scheme" then some .scheme
  else if name=ascii ":status" then some .status
  else if name=ascii ":authority" then some .authority
  else if name=ascii ":protocol" then some .protocol
  else none

inductive Defect where
  | padLength | selfDependency
  | fieldName (name : Bytes) | fieldValue (value : Bytes)
  | pseudoAfterRegular (name : Bytes) | unknownPseudo (name : Bytes)
  | duplicatePseudo (name : Bytes) | connectionSpecific (name : Bytes) | te (value : Bytes)
  | responsePseudo | missingMethod | missingScheme | missingPath | emptyPath
  | emptyAuthority | authority (value : Bytes) | multipleHost (count : ℕ) | missingHost
  | emptyHost | host (value : Bytes)
  deriving DecidableEq

/-- The state of a HEADERS frame: its flags, the block gathered so far and, once parsed, the
fields or the defect found. -/
structure HeadersFrame where
  streamId : ℕ
  length : ℕ
  endStream : Bool
  endHeaders : Bool
  padded : Bool
  priority : Bool
  rawBlock : Bytes
  pseudoHeaders : List (PseudoHeader × Bytes) := []
  headers : HeaderList := []
  malformed : Option Defect := none
  deriving DecidableEq

def hopByHopHeaders : List Bytes :=
  [ascii "connection",ascii "keep-alive",ascii "proxy-connection",ascii "transfer-encoding",
    ascii "upgrade"]

def fieldNameOctet (b : UInt8) : Bool :=
  !(b≤32 || b=58 || (65≤b && b≤90) || 127≤b)

def fieldNameIsValid (name : Bytes) : Bool :=
  match name with
  | [] => false
  | b::rest => if b=58 then rest.all fieldNameOctet else name.all fieldNameOctet

def fieldValueIsValid (value : Bytes) : Bool :=
  !(value.contains 0 || value.contains 10 || value.contains 13)

namespace HeadersFrame

def ofRaw (raw : RawFrame) : HeadersFrame where
  streamId := raw.streamId
  length := raw.payload.length
  endStream := raw.endStream
  endHeaders := raw.endHeaders
  padded := raw.padded
  priority := raw.priority
  rawBlock := raw.payload

def pseudo (frame : HeadersFrame) (key : PseudoHeader) : Option Bytes :=
  (frame.pseudoHeaders.find? fun entry => entry.1=key).map Prod.snd

def markMalformed (frame : HeadersFrame) (defect : Defect) : HeadersFrame :=
  {frame with malformed:=some defect}

/-- The padding length, when the frame is padded, is the first octet; it must be smaller than
the frame. What is left is the rest of the block and how many octets of it count. -/
def cutPadding (frame : HeadersFrame) : Except Defect (Bytes × ℤ) :=
  let remaining : ℤ := frame.rawBlock.length
  if frame.padded then
    let padLength := ofBigEndian (frame.rawBlock.take 1)
    if padLength ≥ frame.length then .error .padLength
    else .ok (frame.rawBlock.drop 1,remaining - (1 + padLength))
  else .ok (frame.rawBlock,remaining)

/-- The priority field takes five octets; its dependency must be on another stream. -/
def cutPriority (frame : HeadersFrame) (payload : Bytes) (remaining : ℤ) :
    Except Defect (Bytes × ℤ) :=
  if frame.priority then
    if ofBigEndian (payload.take 4) % 2^31 = frame.streamId then .error .selfDependency
    else .ok (payload.drop 5,remaining - 5)
  else .ok (payload,remaining)

/-- The octets `parse_payload` hands to the decoder. -/
def headerBlock (frame : HeadersFrame) : Except Defect Bytes := do
  let (payload,remaining) ← frame.cutPadding
  let (payload,remaining) ← frame.cutPriority payload remaining
  pure (readCount payload remaining)

def addFields : Bool → HeaderList → HeadersFrame → Except Raised HeadersFrame
  | _,[],frame => .ok frame
  | seenRegular,(name,value)::fields,frame =>
    if !fieldNameIsValid name then .ok (frame.markMalformed (.fieldName name))
    else if !fieldValueIsValid value then .ok (frame.markMalformed (.fieldValue value))
    else if name.head? = some 58 then
      if seenRegular then .ok (frame.markMalformed (.pseudoAfterRegular name))
      else
        match PseudoHeader.ofName name with
        | none => .ok (frame.markMalformed (.unknownPseudo name))
        | some key =>
          if (frame.pseudo key).isSome then .ok (frame.markMalformed (.duplicatePseudo name))
          else if isUtf8 value then
            addFields seenRegular fields
              {frame with pseudoHeaders:=frame.pseudoHeaders++[(key,value)]}
          else .error .unicodeDecode
    else if name∈hopByHopHeaders then .ok (frame.markMalformed (.connectionSpecific name))
    else if name=ascii "te" ∧ value≠ascii "trailers" then
      .ok (frame.markMalformed (.te value))
    else addFields true fields {frame with headers:=frame.headers++[(name,value)]}

end HeadersFrame

structure Request where
  type : ConnType
  method : Bytes
  scheme : Bytes
  path : Bytes
  rawPath : Bytes
  queryString : Bytes
  headers : HeaderList
  deriving DecidableEq

/-- `_split_h2_path`; the path is the octets whose UTF-8 decoding the application sees. -/
def splitH2Path {τ : Type} (lib : Library τ) (raw : Bytes) :
    Except Raised (Bytes × Bytes × Bytes) :=
  match lib.urlsplit raw with
  | none => .error .urlsplit
  | some (path,query) => .ok (if 37∈path then unquote path else path,path,query)

/-- The path of a request, empty when the pseudo-header is absent or empty. -/
def requestPath {τ : Type} (lib : Library τ) (frame : HeadersFrame) :
    Except Raised (Bytes × Bytes × Bytes) :=
  match frame.pseudo .path with
  | none | some [] => .ok ([],[],[])
  | some path => splitH2Path lib path

/-- The fields with the authority, when there is one, as the only Host. -/
def requestHeadersWithHost (frame : HeadersFrame) (requirePresent : Bool) :
    Except Defect HeaderList :=
  match frame.pseudo .authority with
  | some authority =>
    if authority.isEmpty then .error .emptyAuthority
    else if authority.any hostForbidden then .error (.authority authority)
    else .ok ((frame.headers.filter fun field => field.1≠ascii "host") ++
      [(ascii "host",authority)])
  | none =>
    match (frame.headers.filter fun field => field.1=ascii "host").map Prod.snd with
    | [] => if requirePresent then .error .missingHost else .ok frame.headers
    | [host] =>
      let value := strip isBlank host
      if value.isEmpty then .error .emptyHost
      else if value.any hostForbidden then .error (.host value)
      else .ok frame.headers
    | hosts => .error (.multipleHost hosts.length)

def requestMethod (frame : HeadersFrame) : Except Defect Bytes :=
  if (frame.pseudo .status).isSome then .error .responsePseudo
  else
    match frame.pseudo .method with
    | none => .error .missingMethod
    | some method =>
      if method=ascii "CONNECT" then .ok method
      else if (frame.pseudo .scheme).isNone then .error .missingScheme
      else
        match frame.pseudo .path with
        | none => .error .missingPath
        | some path => if path.isEmpty then .error .emptyPath else .ok method

/-- `parse_headers`: the request, or the defect that makes the frame malformed. -/
def parseHeaders {τ : Type} (lib : Library τ) (frame : HeadersFrame) :
    Except Raised (Except Defect Request) :=
  match frame.malformed with
  | some defect => .ok (.error defect)
  | none =>
    match requestMethod frame with
    | .error defect => .ok (.error defect)
    | .ok method => do
      let (path,rawPath,queryString) ← requestPath lib frame
      if method=ascii "CONNECT" ∧ frame.pseudo .protocol=some (ascii "websocket") then
        let scheme := (frame.pseudo .scheme).getD (ascii "https")
        pure ((requestHeadersWithHost frame false).map fun headers =>
          { type:=.websocket,method:=method,
            scheme:=if scheme=ascii "https" then ascii "wss" else ascii "ws",
            path:=path,rawPath:=rawPath,queryString:=queryString,headers:=headers})
      else
        let scheme := match frame.pseudo .scheme with
          | none | some [] => ascii "https"
          | some scheme => scheme
        let headers :=
          if method=ascii "CONNECT" then .ok frame.headers
          else requestHeadersWithHost frame
            (scheme=ascii "http" || scheme=ascii "https")
        pure (headers.map fun headers =>
          { type:=.http,method:=if method.isEmpty then ascii "HEAD" else method,
            scheme:=scheme,path:=path,rawPath:=rawPath,queryString:=queryString,
            headers:=headers})

/-- The digits of a Python integer literal: single underscores may separate them. -/
def integerDigits : Bytes → Option (List UInt8)
  | [] => none
  | [b] => if isDigit b then some [b] else none
  | b::95::c::rest =>
    if isDigit b then (integerDigits (c::rest)).map (b :: ·) else none
  | b::rest => if isDigit b then (integerDigits rest).map (b :: ·) else none

/-- `int(value)` on a value without its sign. -/
def unsignedInt (text : Bytes) : Option ℕ :=
  match integerDigits text with
  | none => none
  | some digits => if digits.length ≤ integerMaxDigits then some (ofDigits 10 digits) else none

/-- `int(value)`. -/
def pythonInt (value : Bytes) : Option ℤ :=
  match strip isSpace value with
  | 43::rest => (unsignedInt rest).map Int.ofNat
  | 45::rest => (unsignedInt rest).map fun n => -(n : ℤ)
  | text => (unsignedInt text).map Int.ofNat

/-- The declared length of the body, none when it is absent or not a length. -/
def extractContentLength (request : Request) : Option ℕ :=
  match request.headers.find? fun field => field.1=ascii "content-length" with
  | none => none
  | some (_,value) =>
    match pythonInt value with
    | some n => if 0≤n then some n.toNat else none
    | none => none

structure Settings where
  enablePush : Option ℕ := none
  initialWindowSize : Option ℕ := none
  maxFrameSize : Option ℕ := none
  deriving DecidableEq

/-- The parameters in order, the last of an identifier wins; a short tail is dropped. -/
def Settings.ofPayload : Bytes → Settings → Settings
  | i::j::a::b::c::d::rest,settings =>
    let value := ofBigEndian [a,b,c,d]
    Settings.ofPayload rest <|
      match ofBigEndian [i,j] with
      | 2 => {settings with enablePush:=some value}
      | 4 => {settings with initialWindowSize:=some value}
      | 5 => {settings with maxFrameSize:=some value}
      | _ => settings
  | _,settings => settings

inductive Content where
  | unknown
  | data (endStream : Bool) (payload : Bytes)
  | headers (frame : HeadersFrame)
  | priority (dependentStream : ℕ)
  | rstStream
  | settings (ack : Bool) (settings : Settings)
  | pushPromise
  | ping (ack : Bool) (payload : Bytes)
  | goaway
  | windowUpdate (windowSize : ℕ)
  | continuation (endHeaders : Bool) (payload : Bytes)
  | priorityUpdate (prioritizedStreamId : ℕ)

def dataPayload (raw : RawFrame) : Except Raised Bytes :=
  if raw.padded then
    let padLength := ofBigEndian (raw.payload.take 1)
    if padLength ≥ raw.payload.length then .error .dataPadding
    else .ok ((raw.payload.drop 1).take (raw.payload.length - padLength - 1))
  else .ok raw.payload

/-- The loader, up to the header block of a HEADERS frame. -/
def loadContent (raw : RawFrame) : Except Raised Content :=
  match raw.type with
  | none => .ok .unknown
  | some .data => (dataPayload raw).map (.data raw.endStream)
  | some .headers => .ok (.headers (.ofRaw raw))
  | some .priority => .ok (.priority (ofBigEndian (raw.payload.take 4) % 2^31))
  | some .rstStream => if raw.payload.length=4 then .ok .rstStream else .error .frameSize
  | some .settings => .ok (.settings raw.ack (.ofPayload raw.payload {}))
  | some .pushPromise => .ok .pushPromise
  | some .ping =>
    if raw.payload.length=8 then .ok (.ping raw.ack raw.payload) else .error .frameSize
  | some .goaway => .ok .goaway
  | some .windowUpdate => .ok (.windowUpdate (ofBigEndian raw.payload))
  | some .continuation => .ok (.continuation raw.endHeaders raw.payload)
  | some .priorityUpdate => .ok (.priorityUpdate (ofBigEndian (raw.payload.take 4) % 2^31))

/-- The entries of the static table for the pseudo-headers of a request. -/
def staticTable : HeaderList :=
  [(ascii ":authority",[]),(ascii ":method",ascii "GET"),(ascii ":method",ascii "POST"),
    (ascii ":path",ascii "/"),(ascii ":path",ascii "/index.html"),
    (ascii ":scheme",ascii "http"),(ascii ":scheme",ascii "https")]

def tableEntry (table : HeaderList) (index : ℕ) : Option (Bytes × Bytes) :=
  if index < 62 then staticTable[index - 1]? else table[index - 62]?

/-- HPACK without string coding and table sizes: indexed fields, and literal values under an
indexed name that enter the dynamic table. -/
def decodeFields : ℕ → HeaderList → Bytes → Option (HeaderList × HeaderList)
  | _,table,[] => some ([],table)
  | 0,_,_ => none
  | fuel+1,table,b::rest =>
    if 128<b then do
      let field ← tableEntry table (b.toNat - 128)
      let (fields,table) ← decodeFields fuel table rest
      pure (field::fields,table)
    else if 64<b ∧ b<127 then do
      let (name,_) ← tableEntry table (b.toNat - 64)
      let length ← rest.head?
      let value := (rest.drop 1).take length.toNat
      let (fields,table) ←
        decodeFields fuel ((name,value)::table) (rest.drop (1+length.toNat))
      pure ((name,value)::fields,table)
    else none

def plainLibrary : Library HeaderList where
  decode table block := decodeFields block.length table block
  urlsplit target := some (target.takeWhile (· ≠ 63),(target.dropWhile (· ≠ 63)).drop 1)

end BlackBull.H2
