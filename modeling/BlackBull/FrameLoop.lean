import BlackBull.FrameChecks
import BlackBull.TransitionRuns

/-!
# The frame loop of an HTTP/2 connection

One turn of the loop loads one frame and handles it; a turn that raises ends the connection. Between
turns the handlers of the streams finish, push, fail and write, and the watchdog may close the
connection.
-/

namespace BlackBull.H2

open ByteString HeadParser

variable {τ : Type} (lib : Library τ) (limits : Limits)

/-- `parse_payload`: the block goes through the decoder, then the fields through the checks. -/
def parsePayload (frame : HeadersFrame) : ActorM τ HeadersFrame := do
  match frame.headerBlock with
  | .error defect => pure (frame.markMalformed defect)
  | .ok block =>
    modify fun s => {s with decoded:=s.decoded++[(frame.streamId,block)]}
    match lib.decode (← get).table block with
    | none => throw .hpack
    | some (fields,table) =>
      modify fun s => {s with table:=table}
      MonadExcept.ofExcept (frame.addFields false fields)

/-- A HEADERS frame that ends its block is parsed as it is loaded, unless it is empty. -/
def load (raw : RawFrame) : ActorM τ Content := do
  match ← MonadExcept.ofExcept (loadContent raw) with
  | .headers frame =>
    if 0<frame.length ∧ frame.endHeaders then
      let frame ← parsePayload lib frame
      pure (.headers frame)
    else pure (.headers frame)
  | content => pure content

/-- `_spawn_stream_task` and its like: the request is the application's from here on. -/
def dispatch (streamId : ℕ) (isWs : Bool) (frame : HeadersFrame) (request : Request) :
    ActorM τ Unit :=
  modify fun s => {s with
    activeStreamCount:=s.activeStreamCount+1
    running:=s.running++[(streamId,isWs)]
    dispatched:=s.dispatched++[⟨streamId,frame,request⟩]}

/-- The guard and the body of `_refuse_oversized_declared_body`; true when it refuses. -/
def refuseOversizedDeclaredBody (moment : Moment) (streamId : ℕ) (request : Request) :
    ActorM τ Bool := do
  if limits.maxBodySize≠0 ∧ (extractContentLength request).any (limits.maxBodySize < ·) then
    if moment.stalled then throw .flowControlStalled
    else
      emit (.contentTooLarge streamId)
      resetStream moment streamId .noError
      pure true
  else pure false

def handleH2Websocket (moment : Moment) (streamId : ℕ) (frame : HeadersFrame)
    (request : Request) : ActorM τ Unit := do
  if 0<limits.wsMaxStreams ∧ limits.wsMaxStreams≤(← get).wsStreamCount then
    resetStream moment streamId .refusedStream
  else
    modify fun s => {s with
      recipients:=s.recipients.set streamId {websocket:=true}
      wsStreamCount:=s.wsStreamCount+1}
    dispatch streamId true frame request

/-- The WebSocket branch of `_on_headers_frame`. -/
def onWebsocketRequest (moment : Moment) (streamId : ℕ) (frame : HeadersFrame)
    (request : Request) : ActorM τ Unit := do
  if !limits.wsOverH2Enabled then resetStream moment streamId .protocolError
  else
    modify (·.modifyStream streamId fun stream => {stream with state:=.open})
    handleH2Websocket limits moment streamId frame request

/-- The HTTP branch of `_on_headers_frame`. -/
def onHttpRequest (moment : Moment) (streamId : ℕ) (frame : HeadersFrame) (request : Request) :
    ActorM τ Unit := do
  if ← refuseOversizedDeclaredBody limits moment streamId request then pure ()
  else
    modify fun s => {s with
      recipients:=s.recipients.set streamId {endOfStreamOnHeaders:=frame.endStream}}
    modify (·.modifyStream streamId fun stream => {stream with
      state:=if frame.endStream then .halfClosedRemote else .open})
    dispatch streamId false frame request

/-- `_on_headers_frame` on a frame that ends its block. -/
def onRequestHeaders (moment : Moment) (streamId : ℕ) (frame : HeadersFrame) :
    ActorM τ Unit := do
  if limits.maxConcurrentStreams≤(← get).activeStreamCount then
    resetStream moment streamId .refusedStream
  else
    match ← MonadExcept.ofExcept (parseHeaders lib frame) with
    | .error _ => resetStream moment streamId .protocolError
    | .ok request =>
      modify (·.modifyStream streamId fun stream => {stream with
        expectedContentLength:=extractContentLength request,request:=some request})
      if request.type=.websocket then onWebsocketRequest limits moment streamId frame request
      else onHttpRequest limits moment streamId frame request

/-- `_on_headers_frame` on the node of the stream; false when CONTINUATION is awaited. -/
def onHeadersFrame (moment : Moment) (streamId : ℕ) (frame : HeadersFrame) : ActorM τ Bool := do
  if !frame.endHeaders then pure false
  else
    onRequestHeaders lib limits moment streamId frame
    pure true

/-- The end of `_on_continuation_frame`: the block is parsed, and the request dispatched on the
stream of the CONTINUATION frame. -/
def onBlockEnd (moment : Moment) (streamId : ℕ) (frame : HeadersFrame) : ActorM τ Unit := do
  match ← MonadExcept.ofExcept (parseHeaders lib frame) with
  | .error _ => resetStream moment streamId .protocolError
  | .ok request =>
    modify (·.modifyStream streamId fun stream => {stream with
      expectedContentLength:=extractContentLength request})
    if limits.maxConcurrentStreams≤(← get).activeStreamCount then
      resetStream moment streamId .refusedStream
    else
      modify (·.modifyStream streamId fun stream => {stream with request:=some request})
      if ← refuseOversizedDeclaredBody limits moment streamId request then pure ()
      else
        modify fun s => {s with recipients:=s.recipients.set streamId {}}
        dispatch streamId false frame request

def HeadersFrame.extend (frame : HeadersFrame) (fragment : Bytes) : HeadersFrame :=
  {frame with rawBlock:=frame.rawBlock++fragment}

/-- `_on_continuation_frame` while a block is open; true when no more is awaited. -/
def onContinuationFrame (moment : Moment) (streamId : ℕ) (headerFrame : HeadersFrame)
    (endHeaders : Bool) (payload : Bytes) : ActorM τ Bool := do
  let frame := headerFrame.extend payload
  modify fun s => {s with openBlock:=some frame}
  if frame.rawBlock.length > limits.headerMaxTotal then
    resetStream moment streamId .enhanceYourCalm
    pure true
  else if !endHeaders then pure false
  else
    let frame ← parsePayload lib frame
    onBlockEnd lib limits moment streamId frame
    pure true

/-- A second HEADERS frame on a stream that has its request: trailers. -/
def onTrailers (moment : Moment) (streamId : ℕ) (endStream : Bool) : ActorM τ Unit := do
  if !endStream then resetStream moment streamId .protocolError
  else
    modify (·.modifyStream streamId fun stream => {stream with state:=.halfClosedRemote})
    match (← get).recipients.get? streamId with
    | none => pure ()
    | some recipient =>
      -- the reader of a WebSocket has no `put_end_of_stream`
      if recipient.websocket then throw .attributeError
      else modify (·.tellRecipient streamId .endOfStream)

def handleHeaders (moment : Moment) (streamId : ℕ) (frame : HeadersFrame) : ActorM τ Unit := do
  let request := ((← get).children.get? streamId).bind Stream.request
  if request.isSome ∧ frame.endHeaders then onTrailers moment streamId frame.endStream
  else
    modify fun s => {s with windows:=s.windows.makeSender streamId}
    if ← onHeadersFrame lib limits moment streamId frame then pure ()
    else modify fun s => {s with openBlock:=some frame}

def handleContinuation (moment : Moment) (streamId : ℕ) (endHeaders : Bool) (payload : Bytes) :
    ActorM τ Unit := do
  modify fun s => {s with windows:=s.windows.makeSender streamId}
  match (← get).openBlock with
  | none => connectionError .protocolError
  | some headerFrame =>
    if ← onContinuationFrame lib limits moment streamId headerFrame endHeaders payload then
      modify fun s => {s with openBlock:=none}
    else pure ()

def deliver (moment : Moment) (streamId length : ℕ) (endStream : Bool) (payload : Bytes)
    (recipient : Recipient) : ActorM τ Unit := do
  if recipient.websocket then
    modify (·.tellRecipient streamId (.data payload endStream))
    if moment.delivered ∧ 0<length then
      emit (.windowUpdate streamId length)
      emit (.windowUpdate 0 length)
  else if moment.delivered then modify (·.tellRecipient streamId (.data payload endStream))
  else
    resetStream moment streamId .enhanceYourCalm
    modify (·.tellRecipient streamId .disconnect)

def onDataFrame (moment : Moment) (streamId length : ℕ) (endStream : Bool) (payload : Bytes) :
    ActorM τ Unit := do
  match (← get).children.get? streamId with
  | none => pure ()
  | some stream =>
    if stream.state=.halfClosedRemote ∨ stream.state=.closed then
      resetStream moment streamId .streamClosed
    else
      let received := stream.receivedDataBytes+payload.length
      modify (·.modifyStream streamId fun stream => {stream with receivedDataBytes:=received})
      if stream.expectedContentLength.any fun expected =>
          expected<received || (endStream && received≠expected) then
        resetStream moment streamId .protocolError
      else
        modify (·.modifyStream streamId fun stream => {stream with
          state:=if endStream then .halfClosedRemote else stream.state})
        match (← get).recipients.get? streamId with
        | none => pure ()
        | some recipient => deliver moment streamId length endStream payload recipient

/-- `RstStreamResponder`: the handler is cancelled and the stream forgotten. -/
def onRstStream (streamId : ℕ) : ActorM τ Unit := do
  match (← get).children.get? streamId with
  | none => connectionError .protocolError
  | some stream =>
    if stream.state=.idle then connectionError .protocolError
    else modify fun s =>
      { ({s with children:=s.children.pop streamId}).markClosed streamId true with
        windows:=s.windows.dropSender streamId
        recipients:=s.recipients.pop streamId}

/-- `PriorityUpdateResponder`: a stream not seen before gets its node now. -/
def onPriorityUpdate (prioritizedStreamId : ℕ) : ActorM τ Unit := modify fun s =>
  if prioritizedStreamId=0 ∨ (s.children.get? prioritizedStreamId).isSome ∨
      limits.maxConcurrentStreams ≤ s.children.length then s
  else {s with children:=s.children.set prioritizedStreamId {}}

def WindowAnswer.perform (moment : Moment) (streamId : ℕ) : WindowAnswer → ActorM τ Unit
  | .connectionError code => H2.connectionError code
  | .resetStream code => H2.resetStream moment streamId code
  | .applied => pure ()

def onSettings (moment : Moment) (streamId length : ℕ) (ack : Bool) (settings : Settings) :
    ActorM τ Unit := do
  if streamId≠0 then connectionError .protocolError
  else if ack then
    if length≠0 then connectionError .frameSizeError
  else
    let (answer,windows) := (← get).windows.applySettings length settings
    modify fun s => {s with windows:=windows}
    if answer=.applied then emit .settingsAck else answer.perform moment 0

/-- The `match` at the end of a turn. -/
def handleContent (moment : Moment) (streamId length : ℕ) : Content → ActorM τ Unit
  | .unknown => pure ()
  | .headers frame => handleHeaders lib limits moment streamId frame
  | .continuation endHeaders payload =>
    handleContinuation lib limits moment streamId endHeaders payload
  | .data endStream payload => onDataFrame moment streamId length endStream payload
  | .goaway => do
    modify fun s => {s with sent:=s.sent++[.goaway s.lastPeerStreamId .noError]}
    finish
  | .ping ack payload =>
    if streamId≠0 then connectionError .protocolError
    else if ack then pure ()
    else emit (.pingAck payload)
  | .windowUpdate increment => do
    let (answer,windows) := (← get).windows.windowUpdate streamId length increment
    modify fun s => {s with windows:=windows}
    answer.perform moment streamId
  | .settings ack settings => onSettings moment streamId length ack settings
  | .priority dependentStream =>
    if dependentStream=streamId then resetStream moment streamId .protocolError else pure ()
  | .priorityUpdate prioritizedStreamId => onPriorityUpdate limits prioritizedStreamId
  | .rstStream => onRstStream streamId
  | .pushPromise => throw .unsupportedFrameType

/-- A HEADERS frame on a new identifier opens the stream. -/
def Actor.openStream (s : Actor τ) (type : FrameType) (streamId : ℕ) : Actor τ :=
  if type=.headers ∧ (s.children.get? streamId).isNone then
    {s with children:=s.children.set streamId {},lastPeerStreamId:=streamId}
  else s

/-- A frame within its budget: it is refused, or handled on its stream. -/
def handleCounted (moment : Moment) (type : FrameType) (raw : RawFrame) (content : Content) :
    ActorM τ Unit := do
  let s ← get
  match frameRefusal s.openBlock.isSome type raw.streamId raw.payload.length with
  | some answer => answer.perform moment raw.streamId
  | none =>
    match s.streamRefusal type raw.streamId with
    | some answer => answer.perform moment raw.streamId
    | none =>
      modify (·.openStream type raw.streamId)
      handleContent lib limits moment raw.streamId raw.payload.length content

def handleFrame (moment : Moment) (raw : RawFrame) (content : Content) : ActorM τ Unit := do
  if (← get).openBlock.isSome ∧ raw.type≠some .continuation then connectionError .protocolError
  else
    match raw.type with
    | none => pure ()
    | some type =>
      if ← meterFrame moment type raw.payload.length then pure ()
      else handleCounted lib limits moment type raw content

/-- One turn: `receive` does not read the payload of a frame that is too large. -/
def turn (moment : Moment) (raw : RawFrame) : ActorM τ Unit := do
  if (← get).goawaySent then finish
  else if raw.payload.length > defaultMaxFrameSize then
    connectionError .frameSizeError
    finish
  else
    let content ← load lib raw
    handleFrame lib limits moment raw content

inductive Action where
  /-- The loop reads a frame. -/
  | frame (raw : RawFrame) (moment : Moment)
  /-- The stream of frames ends. -/
  | eof
  /-- A handler task is done. -/
  | done (streamId : ℕ) (isWs : Bool)
  /-- A handler pushes a response. -/
  | push (parentStreamId : ℕ)
  /-- A handler fails and its stream is reset. -/
  | fail (streamId : ℕ) (code : ErrorCode) (moment : Moment)
  /-- A sender has written DATA. -/
  | debit (streamId n : ℕ)
  /-- The watchdog gives the peer up. -/
  | giveUp (code : ErrorCode)

/-- A frame that nothing else interferes with. -/
def Action.quiet (typeOctet flags : UInt8) (streamId : ℕ) (payload : Bytes) : Action :=
  .frame ⟨typeOctet,flags,streamId,payload⟩ ⟨0,0,true,false⟩

namespace Actor

def handle (s : Actor τ) (moment : Moment) (raw : RawFrame) : Actor τ :=
  match turn lib limits moment raw s with
  | .ok _ s' => s'
  | .error e s' => {s' with ending:=some (.raised e)}

/-- `_make_done_cb`. -/
def taskDone (s : Actor τ) (streamId : ℕ) (isWs : Bool) : Actor τ :=
  let s := {s with
    running:=s.running.erase (streamId,isWs)
    activeStreamCount:=s.activeStreamCount - 1
    wsStreamCount:=if isWs then s.wsStreamCount - 1 else s.wsStreamCount
    windows:=s.windows.dropSender streamId
    recipients:=s.recipients.pop streamId}
  if (s.children.get? streamId).isSome then
    ({s with children:=s.children.pop streamId}).markClosed streamId false
  else s

/-- `_handle_push`: the pushed request is served on a stream of its own. -/
def push (s : Actor τ) (parentStreamId : ℕ) : Actor τ := {s with
  nextPushStreamId:=s.nextPushStreamId+2
  sent:=s.sent++[.pushPromise parentStreamId s.nextPushStreamId]
  recipients:=s.recipients.set s.nextPushStreamId {endOfStreamOnHeaders:=true}
  activeStreamCount:=s.activeStreamCount+1
  running:=s.running++[(s.nextPushStreamId,false)]}

def step (s : Actor τ) : Action → Actor τ
  | .frame raw moment => if s.ending.isSome then s else s.handle lib limits moment raw
  | .eof => if s.ending.isSome then s else {s.signalRecipients with ending:=some .returned}
  | .done streamId isWs =>
    if (streamId,isWs)∈s.running then s.taskDone streamId isWs else s
  | .push parentStreamId => s.push parentStreamId
  | .fail streamId code moment => leaving (resetStream moment streamId code) s
  | .debit streamId n => { s with windows :=
      {(s.windows.creditStream streamId (-n)) with connection:=s.windows.connection - n}}
  | .giveUp code => leaving (goaway code) s

end Actor
end BlackBull.H2
