import BlackBull.MqttFields
import BlackBull.RateWindow

/-!
# Reading WebSocket frames

The read side of a WebSocket connection up to what one frame comes to: the header and its checks,
the payload, the assembly of fragments, the inflation of messages and the answers to control frames.
A frame is read in up to four reads, each of which may have to wait.
-/

namespace BlackBull.WebSocket

open ByteString
open Mqtt (Text utf8?)

/-- `WSOpcode`, and the opcodes that are reserved. -/
inductive Opcode where
  | continuation
  | text
  | binary
  | close
  | ping
  | pong
  | reserved (code : ℕ)
  deriving DecidableEq

def Opcode.ofCode : ℕ → Opcode
  | 0x0 => .continuation
  | 0x1 => .text
  | 0x2 => .binary
  | 0x8 => .close
  | 0x9 => .ping
  | 0xA => .pong
  | code => .reserved code

def Opcode.code : Opcode → ℕ
  | .continuation => 0x0
  | .text => 0x1
  | .binary => 0x2
  | .close => 0x8
  | .ping => 0x9
  | .pong => 0xA
  | .reserved code => code

/-- `_CONTROL_OPS`. -/
def Opcode.isControl : Opcode → Bool
  | .close | .ping | .pong => true
  | _ => false

/-- `WSFrameHeader`; the length is the code of seven bits. -/
structure FrameHeader where
  opcode : Opcode
  masked : Bool
  length : ℕ
  fin : Bool
  rsv1 : Bool
  rsv2 : Bool
  rsv3 : Bool
  deriving DecidableEq

def readFrameHeader (first second : UInt8) : FrameHeader where
  opcode := .ofCode (first &&& 0x0F).toNat
  masked := second &&& 0x80 ≠ 0
  length := (second &&& 0x7F).toNat
  fin := first &&& 0x80 ≠ 0
  rsv1 := first &&& 0x40 ≠ 0
  rsv2 := first &&& 0x20 ≠ 0
  rsv3 := first &&& 0x10 ≠ 0

/-- The payload, from what is on the wire: exclusive or of two numbers. -/
def unmask (key raw : Bytes) : Bytes :=
  if raw=[] then raw
  else
    let extendedMask := (List.replicate ((raw.length + 3) / 4) key).flatten.take raw.length
    bigEndian raw.length (ofBigEndian raw ^^^ ofBigEndian extendedMask)

/-- Where a `ProtocolError` is raised. -/
inductive ProtocolError where
  | fragmentedControl
  | longControl (length : ℕ)
  | controlRate (count window : ℕ)
  | reservedBits (rsv2 rsv3 : Bool)
  | compressedFrame (opcode : ℕ)
  | frameTooLarge (declared maximum : ℕ)
  | unmasked
  | noOpener
  | compressedContinuation
  | openerInside
  | messageTooLarge (produced maximum : ℕ)
  | inflateFailed
  | invalidUtf8
  deriving DecidableEq

namespace ProtocolError

def closeCode : ProtocolError → ℕ
  | controlRate _ _ => 1008
  | frameTooLarge _ _ => 1009
  | messageTooLarge _ _ => 1009
  | invalidUtf8 => 1007
  | _ => 1002

end ProtocolError

structure Config where
  requireMasked : Bool := true
  maxFramePayload : ℕ := 64*1024*1024
  /-- Zero turns the bound off. -/
  maxMessageSize : ℕ := 16*1024*1024
  /-- permessage-deflate is negotiated. -/
  deflate : Bool := false
  /-- `client_no_context_takeover`. -/
  resetPerMessage : Bool := false

/-- A `zlib.decompressobj`: what it writes for an input before it ends or finds an error, and the
state it is left in, `none` for the error. -/
structure Inflater (σ : Type) where
  initial : σ
  inflate : σ → Bytes → Bytes × Option σ

def deflateTail : Bytes := [0x00,0x00,0xFF,0xFF]

section

variable {σ : Type} (config : Config) (inflater : Inflater σ)

def overSize (total : ℕ) : Bool := config.maxMessageSize≠0 && config.maxMessageSize<total

/-- `InboundDecompressor.decompress`. The library is asked for one octet more than the bound and
stops there, so it has input left only if the bound is passed. -/
def decompress (state : σ) (payload : Bytes) : Except ProtocolError (Bytes × σ) :=
  let (out,next) := inflater.inflate state (payload++deflateTail)
  if overSize config out.length then
    .error (.messageTooLarge (config.maxMessageSize+1) config.maxMessageSize)
  else
    match next with
    | none => .error .inflateFailed
    | some next => .ok (out,if config.resetPerMessage then inflater.initial else next)

/-- `str` or `bytes`. -/
inductive Message where
  | text (content : Text)
  | binary (content : Bytes)
  deriving DecidableEq

structure Fragments where
  opcode : Opcode
  buf : Bytes
  compressed : Bool
  deriving DecidableEq

/-- `FragmentAssembler.feed`: the message, if it is complete, and what is in progress. -/
def feed (assembler : Option Fragments) (opcode : Opcode) (payload : Bytes) (fin rsv1 : Bool) :
    Except ProtocolError (Option Fragments × Option Fragments) :=
  if opcode=.continuation then
    match assembler with
    | none => .error .noOpener
    | some fragments =>
      if rsv1 then .error .compressedContinuation
      else if overSize config (fragments.buf.length+payload.length) then
        .error (.messageTooLarge (fragments.buf.length+payload.length) config.maxMessageSize)
      else
        let whole := {fragments with buf:=fragments.buf++payload}
        if fin then .ok (some whole,none) else .ok (none,some whole)
  else
    match assembler with
    | some _ => .error .openerInside
    | none =>
      if fin then .ok (some ⟨opcode,payload,rsv1⟩,none)
      else if overSize config payload.length then
        .error (.messageTooLarge payload.length config.maxMessageSize)
      else .ok (none,some ⟨opcode,payload,rsv1⟩)

def expand (state : σ) (whole : Fragments) : Except ProtocolError (Bytes × σ) :=
  if whole.compressed then decompress config inflater state whole.buf
  else if overSize config whole.buf.length then
    .error (.messageTooLarge whole.buf.length config.maxMessageSize)
  else .ok (whole.buf,state)

def decodeMessage (opcode : Opcode) (payload : Bytes) : Except ProtocolError Message :=
  if opcode=.text then
    match utf8? payload with
    | none => .error .invalidUtf8
    | some text => .ok (.text text)
  else .ok (.binary payload)

def complete (state : σ) (whole : Fragments) : Except ProtocolError (Message × σ) := do
  let (payload,next) ← expand config inflater state whole
  let message ← decodeMessage whole.opcode payload
  .ok (message,next)

def isValidCloseCode (code : ℕ) : Bool :=
  if code∈[1004,1005,1006,1015] then false
  else if 1000≤code ∧ code≤1015 then true
  else 3000≤code ∧ code≤4999

/-- `_parse_close_payload`: the code, and whether the payload is well formed. -/
def parseClosePayload (payload : Bytes) : ℕ × Bool :=
  if payload=[] then (1000,true)
  else if payload.length=1 then (1002,false)
  else
    let code := ofBigEndian (payload.take 2)
    if !isValidCloseCode code then (1002,false)
    else if payload.length > 2 ∧ utf8? (payload.drop 2)=none then (1002,false)
    else (code,true)

inductive Reaction where
  | nothing
  | message (message : Message)
  | pong (payload : Bytes)
  /-- A CLOSE frame with this code is sent, and the channel ends with it. -/
  | close (code : ℕ)
  deriving DecidableEq

/-- What the read side of a connection works on. -/
structure Wire (σ : Type) where
  /-- The octets that have arrived and are not read. -/
  buffer : Bytes := []
  eof : Bool := false
  assembler : Option Fragments := none
  inflater : σ
  meter : RateWindow
  /-- `_inbound_seq`. -/
  frames : ℕ := 0

/-- What the assembler has made of a data frame: the message, if it is complete, and what is in
progress. -/
def deliver (wire : Wire σ) : Option Fragments × Option Fragments →
    Except ProtocolError (Reaction × Wire σ)
  | (none,assembler) => .ok (.nothing,{wire with assembler})
  | (some whole,assembler) => do
    let (message,next) ← complete config inflater wire.inflater whole
    .ok (.message message,{wire with assembler,inflater:=next})

def handleDataFrame (wire : Wire σ) (h : FrameHeader) (payload : Bytes) :
    Except ProtocolError (Reaction × Wire σ) :=
  feed config wire.assembler h.opcode payload h.fin h.rsv1 >>= deliver config inflater wire

/-- A frame that is read, by its opcode: `_handle_data_frame`, `_handle_control_frame` and
`_handle_unknown_opcode`. -/
def handle (wire : Wire σ) (h : FrameHeader) (payload : Bytes) :
    Except ProtocolError (Reaction × Wire σ) :=
  match h.opcode with
  | .text | .binary | .continuation => handleDataFrame config inflater wire h payload
  | .close =>
    let (code,ok) := parseClosePayload payload
    .ok (.close (if ok then code else 1002),wire)
  | .ping => .ok (.pong payload,wire)
  | .pong => .ok (.nothing,wire)
  | .reserved _ => .ok (.close 1002,wire)

inductive Stage where
  | header
  /-- The length of 16 or 64 bits. -/
  | length (h : FrameHeader)
  | mask (h : FrameHeader) (length : ℕ)
  | payload (h : FrameHeader) (length : ℕ) (key : Option Bytes)
  deriving DecidableEq

def Stage.need : Stage → ℕ
  | header => 2
  | length h => if h.length=126 then 2 else 8
  | mask _ _ => 4
  | payload _ size _ => size

def countControl (meter : RateWindow) (h : FrameHeader) (now : ℕ) : Bool × RateWindow :=
  if h.opcode.isControl && h.fin && decide (h.length≤125) then meter.hit now
  else (false,meter)

/-- The checks of a header; `flooding` is what the meter says, `meter` the meter then. -/
def checkHeader (h : FrameHeader) (flooding : Bool) (meter : RateWindow) :
    Except ProtocolError Unit :=
  if h.opcode.isControl && !h.fin then .error .fragmentedControl
  else if h.opcode.isControl && decide (125<h.length) then .error (.longControl h.length)
  else if h.opcode.isControl && flooding then .error (.controlRate meter.count meter.window)
  else if h.rsv2 || h.rsv3 then .error (.reservedBits h.rsv2 h.rsv3)
  else if h.rsv1 && (!config.deflate || h.opcode.isControl) then
    .error (.compressedFrame h.opcode.code)
  else .ok ()

/-- The next read, once the length is known. -/
def sized (h : FrameHeader) (length : ℕ) : Except ProtocolError Stage :=
  if config.maxFramePayload<length then .error (.frameTooLarge length config.maxFramePayload)
  else .ok (if h.masked then .mask h length else .payload h length none)

inductive Progress (σ : Type) where
  /-- There are not enough octets yet. -/
  | waits
  /-- There will not be enough: `IncompleteReadError`. -/
  | ends
  | raises (error : ProtocolError) (wire : Wire σ)
  | goes (stage : Stage) (wire : Wire σ)
  | done (reaction : Reaction) (wire : Wire σ)

def Progress.ofStage (wire : Wire σ) : Except ProtocolError Stage → Progress σ
  | .error error => .raises error wire
  | .ok stage => .goes stage wire

def Progress.ofReaction (wire : Wire σ) : Except ProtocolError (Reaction × Wire σ) → Progress σ
  | .error error => .raises error wire
  | .ok (reaction,wire) => .done reaction wire

def unmasked (octets : Bytes) : Option Bytes → Bytes
  | none => octets
  | some key => unmask key octets

def resume (wire : Wire σ) (now : ℕ) (octets : Bytes) : Stage → Progress σ
  | .header =>
    let h := readFrameHeader (octets.getD 0 0) (octets.getD 1 0)
    let (flooding,meter) := countControl wire.meter h now
    let wire := {wire with meter,frames:=wire.frames+1}
    .ofStage wire <| checkHeader config h flooding meter >>= fun _ =>
      if h.length<126 then sized config h h.length else .ok (.length h)
  | .length h => .ofStage wire (sized config h (ofBigEndian octets))
  | .mask h length => .goes (.payload h length (some octets)) wire
  | .payload h _ key =>
    if config.requireMasked && !h.masked then .raises .unmasked wire
    else .ofReaction wire (handle config inflater wire h (unmasked octets key))

/-- One read of `_read_step`. -/
def Wire.read (wire : Wire σ) (now : ℕ) (stage : Stage) : Progress σ :=
  if stage.need≤wire.buffer.length then
    resume config inflater {wire with buffer:=wire.buffer.drop stage.need} now
      (wire.buffer.take stage.need) stage
  else if wire.eof then .ends
  else .waits

end

end BlackBull.WebSocket
