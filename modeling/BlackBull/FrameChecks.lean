import BlackBull.RateWindow
import BlackBull.SendWindows

/-!
# An HTTP/2 connection and the checks on its frames

The state of a connection, what it sends, and the checks a frame passes before it
is handled: the rate meters, the limits and the state of its stream. Log texts,
priorities and the credit returned to the peer are left out.
-/

namespace BlackBull.H2

open ByteString HeadParser

variable {τ : Type}

inductive StreamState where
  | idle | open | halfClosedLocal | halfClosedRemote | closed
  deriving DecidableEq

structure Stream where
  request : Option Request := none
  state : StreamState := .idle
  expectedContentLength : Option ℕ := none
  receivedDataBytes : ℕ := 0
  deriving DecidableEq

inductive Item where
  | data (payload : Bytes) (endStream : Bool)
  | endOfStream
  | disconnect
  deriving DecidableEq

structure Recipient where
  websocket : Bool := false
  endOfStreamOnHeaders : Bool := false
  items : List Item := []
  deriving DecidableEq

inductive OutFrame where
  | settingsAck
  | pingAck (payload : Bytes)
  | rstStream (streamId : ℕ) (code : ErrorCode)
  | goaway (lastStreamId : ℕ) (code : ErrorCode)
  | windowUpdate (streamId increment : ℕ)
  | pushPromise (parentStreamId promisedStreamId : ℕ)
  | contentTooLarge (streamId : ℕ)
  deriving DecidableEq

structure Dispatch where
  streamId : ℕ
  frame : HeadersFrame
  request : Request
  deriving DecidableEq

inductive MeterKind where
  | rstStream | ping | settings | empty
  deriving DecidableEq

inductive Ending where
  | returned
  | raised (exception : Raised)
  deriving DecidableEq

structure Limits where
  maxConcurrentStreams : ℕ := 100
  headerMaxTotal : ℕ := 65536
  /-- Zero for no limit. -/
  maxBodySize : ℕ := 31457280
  wsOverH2Enabled : Bool := false
  /-- Zero for no limit. -/
  wsMaxStreams : ℕ := 5
  frameRateLimit : ℕ := 20
  /-- In ticks of the clock. -/
  frameRateWindow : ℕ := 1000

structure Actor (τ : Type) where
  /-- The dynamic table of the HPACK decoder. -/
  table : τ
  meters : MeterKind → RateWindow
  children : Dict ℕ Stream := []
  /-- The streams closed last, with whether RST_STREAM closed them. -/
  closedStreams : Dict ℕ Bool := []
  closedHighWater : ℕ := 0
  lastPeerStreamId : ℕ := 0
  nextPushStreamId : ℕ := 2
  activeStreamCount : ℕ := 0
  wsStreamCount : ℕ := 0
  recipients : Dict ℕ Recipient := []
  windows : SendWindows := {}
  /-- The handler tasks, with whether each serves a WebSocket. -/
  running : List (ℕ × Bool) := []
  /-- The HEADERS frame whose block continues, while CONTINUATION is awaited. -/
  openBlock : Option HeadersFrame := none
  goawaySent : Bool := false
  ending : Option Ending := none
  sent : List OutFrame := []
  /-- The blocks given to the decoder, with the stream of their HEADERS frame. -/
  decoded : List (ℕ × Bytes) := []
  dispatched : List Dispatch := []

namespace Actor

def initial (limits : Limits) (table : τ) : Actor τ where
  table := table
  meters := fun _ => {limit:=limits.frameRateLimit,window:=limits.frameRateWindow}

def ended (s : Actor τ) : Bool := s.goawaySent || s.ending.isSome

def closedStreamsCap : ℕ := 1024

def markClosed (s : Actor τ) (streamId : ℕ) (viaRst : Bool) : Actor τ :=
  let closed := s.closedStreams.set streamId viaRst
  {s with
    closedStreams:=if closed.length > closedStreamsCap then closed.tail else closed
    closedHighWater:=max s.closedHighWater streamId}

def modifyStream (s : Actor τ) (streamId : ℕ) (f : Stream → Stream) : Actor τ :=
  match s.children.get? streamId with
  | none => s
  | some stream => {s with children:=s.children.set streamId (f stream)}

/-- `Recipient.put_*`; an http.disconnect or the end of the stream is never refused. -/
def tellRecipient (s : Actor τ) (streamId : ℕ) (item : Item) : Actor τ :=
  match s.recipients.get? streamId with
  | none => s
  | some recipient =>
    { s with recipients :=
        s.recipients.set streamId {recipient with items:=recipient.items++[item]}}

def signalRecipients (s : Actor τ) : Actor τ :=
  { s with recipients:=s.recipients.map fun item =>
      (item.1,{item.2 with items:=item.2.items++[.disconnect]})}

/-- How an identifier without a node was closed, if it was. -/
def closedVia (s : Actor τ) (streamId : ℕ) : Option Bool :=
  match s.closedStreams.get? streamId with
  | some viaRst => some viaRst
  | none => if 0<streamId ∧ streamId ≤ s.closedHighWater then some false else none

end Actor

abbrev ActorM (τ : Type) := EStateM Raised (Actor τ)

/-- What the environment decides while one frame is handled. -/
structure Moment where
  /-- The clock when the frame is counted, and when a reset in answer is counted. -/
  now : ℕ
  later : ℕ
  /-- Whether the recipient takes a DATA frame. -/
  delivered : Bool
  /-- Whether the window for a refusal stays closed until the wait times out. -/
  stalled : Bool

/-- Count an event; true when the budget is spent. -/
def hitMeter (kind : MeterKind) (now : ℕ) : ActorM τ Bool := do
  let s ← get
  let (spent,meter) := (s.meters kind).hit now
  modify fun s => {s with meters:=Function.update s.meters kind meter}
  pure spent

def emit (frame : OutFrame) : ActorM τ Unit :=
  modify fun s => {s with sent:=s.sent++[frame]}

def goaway (code : ErrorCode) : ActorM τ Unit :=
  modify fun s =>
    {s with sent:=s.sent++[.goaway s.lastPeerStreamId code],goawaySent:=true}

def connectionError (code : ErrorCode) : ActorM τ Unit := do
  if (← get).goawaySent then pure () else goaway code

/-- Every reset the server sends is counted; too many end the connection. -/
def resetStream (moment : Moment) (streamId : ℕ) (code : ErrorCode) : ActorM τ Unit := do
  emit (.rstStream streamId code)
  if (← get).goawaySent then pure ()
  else if ← hitMeter .rstStream moment.later then goaway .enhanceYourCalm
  else pure ()

def finish : ActorM τ Unit := modify fun s =>
  {s.signalRecipients with ending:=some .returned}

inductive Answer where
  | connectionError (code : ErrorCode)
  | resetStream (code : ErrorCode)
  | ignore
  deriving DecidableEq

def Answer.perform (moment : Moment) (streamId : ℕ) : Answer → ActorM τ Unit
  | .connectionError code => H2.connectionError code
  | .resetStream code => H2.resetStream moment streamId code
  | .ignore => pure ()

def meterKind (type : FrameType) (length : ℕ) : Option MeterKind :=
  match type with
  | .rstStream => some .rstStream
  | .ping => some .ping
  | .settings => some .settings
  | .continuation | .data => if length=0 then some .empty else none
  | _ => none

/-- `_meter` on the frame; true when the connection ends over it. -/
def meterFrame (moment : Moment) (type : FrameType) (length : ℕ) : ActorM τ Bool := do
  match meterKind type length with
  | none => pure false
  | some kind =>
    if ← hitMeter kind moment.now then
      connectionError .enhanceYourCalm
      pure true
    else pure false

def frameSizeConnectionErrorTypes : List FrameType :=
  [.headers,.continuation,.pushPromise,.settings]

def streamOnlyFrameTypes : List FrameType :=
  [.data,.headers,.priority,.rstStream,.pushPromise,.continuation]

/-- The checks that do not look at the stream. -/
def frameRefusal (blockOpen : Bool) (type : FrameType) (streamId length : ℕ) : Option Answer :=
  if length > defaultMaxFrameSize then
    if type∈frameSizeConnectionErrorTypes ∨ streamId=0 then
      some (.connectionError .frameSizeError)
    else some (.resetStream .frameSizeError)
  else if streamId=0 ∧ type∈streamOnlyFrameTypes then some (.connectionError .protocolError)
  else if type=.continuation ∧ !blockOpen then some (.connectionError .protocolError)
  else if type=.priority ∧ length≠5 then some (.resetStream .frameSizeError)
  else none

def validateStreamState (state : StreamState) (type : FrameType) : Option Answer :=
  match state with
  | .idle =>
    if type∈[.headers,.priority,.continuation,.pushPromise] then none
    else some (.connectionError .protocolError)
  | .halfClosedRemote =>
    if type∈[.priority,.windowUpdate,.rstStream] then none
    else some (.resetStream .streamClosed)
  | .closed =>
    if type=.priority then none
    else if type∈[.headers,.continuation] then some (.connectionError .streamClosed)
    else some (.resetStream .streamClosed)
  | .open | .halfClosedLocal => none

def lateFrame (type : FrameType) (viaRst : Bool) : Option Answer :=
  match type with
  | .priority => none
  | .headers | .continuation => some (.connectionError .streamClosed)
  | .windowUpdate | .rstStream =>
    if viaRst then some (.resetStream .streamClosed) else some .ignore
  | _ => some (.resetStream .streamClosed)

def Actor.streamRefusal (s : Actor τ) (type : FrameType) (streamId : ℕ) : Option Answer :=
  if streamId=0 then none
  else
    match s.children.get? streamId with
    | some stream => validateStreamState stream.state type
    | none =>
      match s.closedVia streamId with
      | some viaRst => lateFrame type viaRst
      | none =>
        match type with
        | .headers =>
          if streamId % 2 = 0 ∨ streamId ≤ s.lastPeerStreamId then
            some (.connectionError .protocolError)
          else none
        | .priority => none
        | _ => some (.connectionError .protocolError)

end BlackBull.H2
