import BlackBull.SendWindows
import BlackBull.SuspendingTasks

/-!
# The sender of an HTTP/2 stream

The start of a response is held until the first body event, and a first chunk is held for a moment
when trailers will follow; a task of its own flushes a chunk that is held too long. Every write
suspends its task, and the windows are debited when it goes on.
-/

namespace BlackBull.H2

structure Start where
  status : ℕ
  headers : HeaderList
  deriving DecidableEq

/-- The frames of a response. Trailers end the stream, the response HEADERS never does. -/
inductive SentFrame where
  | headers (start : Start)
  | data (payload : Bytes) (endStream : Bool)
  | trailers (headers : HeaderList)
  deriving DecidableEq

inductive ResponseEvent where
  /-- A whole response at once. -/
  | bytes (start : Start) (body : Bytes)
  | start (start : Start) (trailers : Bool)
  | body (payload : Bytes) (moreBody : Bool)
  | trailers (headers : HeaderList)
  /-- `NativeResponse`: any of a start, a chunk and trailers. -/
  | native (header : Option (Start × Bool)) (body : Option (Bytes × Bool))
      (trailers : Option HeaderList)
  deriving DecidableEq

structure Response where
  endStreamSent : Bool := false
  /-- The start that is held: `_buffered_status` and `_buffered_headers`. -/
  start : Option Start := none
  expectTrailers : Bool := false
  /-- The first chunk that is held: `_buffered_body`. -/
  body : Option Bytes := none
  deriving DecidableEq

/-- A flush that is scheduled, with what was held at that moment. -/
structure Flush where
  body : Bytes
  start : Start
  expectTrailers : Bool
  deriving DecidableEq

inductive Instr where
  | debit (n : ℕ)
  | writeTrailers (headers : HeaderList)
  | writeData (body : Bytes) (endStream : Bool)
  /-- The start arm. -/
  | begin (start : Start) (expectTrailers : Bool)
  | bodyContent (payload : Bytes) (endStream : Bool)
  /-- The chunk behind a held one. -/
  | bodyData (payload : Bytes) (endStream : Bool)
  | bodyEnd (endStream : Bool)
  /-- The held chunk before the trailers, as it is held by then. -/
  | heldData
  | trailers (headers : HeaderList)
  /-- The trailers of a native response, unless its body has ended the stream. -/
  | trailersUnlessEnded (headers : HeaderList)
  | wholeResponse (start : Start) (body : Bytes)
  | clearStart
  | clearBody
  | endSent
  /-- `_do_auto_flush`. -/
  | autoFlush (flush : Flush)
  deriving DecidableEq

/-- A sender and the window of its connection, with the flushes it has scheduled. -/
structure Line where
  connection : ℤ
  window : StreamWindow
  response : Response := {}
  flushes : List Flush := []

namespace Line

/-- Where a write leaves its call: the frames it has written and what comes after it. -/
abbrev Pause := List SentFrame × List Instr

/-- `_write_data`, up to the write or to the wait for credit. -/
def writeData (line : Line) (body : Bytes) (endStream : Bool) : Pause :=
  if body=[] then ([.data [] endStream],[])
  else if line.connection≤0 ∨ line.window.size≤0 then ([],[.writeData body endStream])
  else
    let chunkSize := (min (min line.connection line.window.size)
      (min line.window.maxFrameSize body.length)).toNat
    let isLast := body.length≤chunkSize
    ([.data (body.take chunkSize) (isLast && endStream)],
      .debit chunkSize::if isLast then [] else [.writeData (body.drop chunkSize) endStream])

/-- `_write_response_start_and_body`, up to its first write. -/
def writeResponseStartAndBody (line : Line) (body : Bytes) (endStream : Bool) (start : Start)
    (expectTrailers : Bool) : Pause :=
  let setEndStream := endStream && !expectTrailers
  let after := if setEndStream then [.endSent] else []
  if body.length≤line.connection ∧ body.length≤line.window.size ∧
      body.length≤line.window.maxFrameSize then
    ([.headers start,.data body setEndStream],.debit body.length::after)
  else ([.headers start],.writeData body setEndStream::after)

/-- The call goes on with these instructions after the pause. -/
def paused (line : Line) (pause : Pause) (after : List Instr) :
    Outcome Line Instr SentFrame :=
  .pause line pause.1 (pause.2++after)

/-- Whether a chunk is held until the trailers: the first one, when it fits one frame and the
windows. -/
def holds (line : Line) (payload : Bytes) (endStream : Bool) : Bool :=
  line.response.start.isSome && line.response.expectTrailers && !endStream &&
    line.response.body.isNone &&
    decide (0<payload.length ∧ payload.length≤line.window.maxFrameSize ∧
      payload.length≤line.window.size ∧ payload.length≤line.connection)

def hold (line : Line) (payload : Bytes) (start : Start) : Line :=
  {line with
    response:={line.response with body:=some payload}
    flushes:=line.flushes++[⟨payload,start,line.response.expectTrailers⟩]}

def handleBodyContent (line : Line) (payload : Bytes) (endStream : Bool) :
    Outcome Line Instr SentFrame :=
  let response := line.response
  match response.start with
  | some start =>
    if line.holds payload endStream then .done (line.hold payload start)
    else
      match response.body with
      | some held =>
        line.paused (line.writeResponseStartAndBody held false start response.expectTrailers)
          [.clearStart,.clearBody,.bodyData payload endStream,.bodyEnd endStream]
      | none =>
        line.paused
          (line.writeResponseStartAndBody payload endStream start response.expectTrailers)
          [.clearStart,.bodyEnd endStream]
  | none =>
    line.paused (line.writeData payload (endStream && !response.expectTrailers))
      [.bodyEnd endStream]

def handleTrailers (line : Line) (headers : HeaderList) : Outcome Line Instr SentFrame :=
  match line.response.start with
  | some start =>
    match line.response.body with
    | some held =>
      if held.length≤line.connection ∧ held.length≤line.window.size then
        .pause line [.headers start,.data held false,.trailers headers]
          [.debit held.length,.clearBody,.clearStart,.endSent]
      else
        .pause line [.headers start]
          [.heldData,.writeTrailers headers,.clearBody,.clearStart,.endSent]
    | none => .pause line [.headers start,.trailers headers] [.clearStart,.endSent]
  | none => .pause line [.trailers headers] [.endSent]

def setResponse (line : Line) (f : Response → Response) : Line :=
  {line with response:=f line.response}

def exec (line : Line) : Instr → Outcome Line Instr SentFrame
  | .debit n => .done {line with
      connection:=line.connection - n
      window:={line.window with size:=line.window.size - n}}
  | .writeTrailers headers => .pause line [.trailers headers] []
  | .writeData body endStream => line.paused (line.writeData body endStream) []
  | .begin start expectTrailers => .done <| line.setResponse fun response =>
      {response with start:=some start,expectTrailers:=expectTrailers}
  | .bodyContent payload endStream => line.handleBodyContent payload endStream
  | .bodyData payload endStream =>
    line.paused (line.writeData payload (endStream && !line.response.expectTrailers)) []
  | .bodyEnd endStream => .done <| line.setResponse fun response =>
      if endStream && !response.expectTrailers then {response with endStreamSent:=true}
      else response
  | .heldData =>
    match line.response.body with
    | some held => line.paused (line.writeData held false) []
    -- the length of `None` is taken
    | none => .fail line
  | .trailers headers => line.handleTrailers headers
  | .trailersUnlessEnded headers =>
    if line.response.endStreamSent then .done line else line.handleTrailers headers
  | .wholeResponse start body =>
    line.paused (line.writeResponseStartAndBody body true start false) []
  | .clearStart => .done <| line.setResponse ({· with start:=none})
  | .clearBody => .done <| line.setResponse ({· with body:=none})
  | .endSent => .done <| line.setResponse ({· with endStreamSent:=true})
  | .autoFlush flush =>
    -- at most one chunk is held in a response, so that it is the same object means it is equal
    if line.response.body=some flush.body then
      let line := line.setResponse ({· with body:=none,start:=none})
      line.paused
        (line.writeResponseStartAndBody flush.body false flush.start flush.expectTrailers) []
    else .done line

end Line

def ResponseEvent.todo : ResponseEvent → List Instr
  | .bytes first content => [.wholeResponse first content]
  | .start first expectTrailers => [.begin first expectTrailers]
  | .body payload moreBody => [.bodyContent payload !moreBody]
  | .trailers headers => [.trailers headers]
  | .native header chunk last =>
    (header.map fun first => Instr.begin first.1 first.2).toList ++
      (chunk.map fun content => Instr.bodyContent content.1 !content.2).toList ++
      (last.map Instr.trailersUnlessEnded).toList

/-- A call: an event after the end of the stream is dropped. -/
def Line.call (line : Line) (event : ResponseEvent) : Turn Line Instr SentFrame :=
  advance Line.exec line (if line.response.endStreamSent then [] else event.todo)

end BlackBull.H2
