import BlackBull.ChunkFraming
import BlackBull.Headers
import BlackBull.StreamReader

/-!
# Reading a request body

`HTTP1Recipient` reads the body of one request at a time from the connection's reader. What the
environment decides about a call is part of the state: how its deadline falls (`Reader.patience`)
and how long each of its timed waits takes (`elapsed`).
-/

namespace BlackBull

open ByteString

structure RecipientSettings where
  bodyTimeout : ℚ := 0
  chunkSize : ℕ := 65536
  chunkMax : ℕ := 524288
  /-- Zero for no cap. -/
  maxBody : ℕ := 31457280
  /-- Octets a second, zero for no floor. -/
  minRate : ℚ := 240
  minRateGrace : ℚ := 5

inductive RecipientError where
  | httpException (exception : HTTPException)
  | clientDisconnected
  | read (error : ReadError)
  /-- Not an exception of the source: the trailer loop used up its bound. -/
  | outOfFuel
  deriving DecidableEq

structure HTTP1Recipient where
  settings : RecipientSettings
  reader : Reader
  elapsed : List ℚ
  chunked : Bool
  /-- Octets still owed by a body of declared length. -/
  contentLength : Option ℕ
  /-- Octets still owed by the chunk being delivered. -/
  chunkRemaining : ℕ
  done : Bool
  bodySeen : ℕ
  bodyWait : ℚ
  rateWindowWait : ℚ
  rateWindowSeen : ℕ
  bodyRefused : Bool
  framingBroken : Bool

abbrev RecipientM := EStateM RecipientError HTTP1Recipient

namespace HTTP1Recipient

inductive BindError where
  | notImplemented (transferEncoding : Bytes)
  | valueError (contentLength : Bytes)
  deriving DecidableEq

/-- `int(cl) if cl else None` on the values the head parser lets through, which are digits
only. -/
def declaredLength (cl : Bytes) : Except BindError (Option ℕ) :=
  if cl=[] then .ok none
  else if isdigit cl then
    match int? cl with
    | some n => .ok (some n)
    | none => .error (.valueError cl)
  else .error (.valueError cl)

def bind (settings : RecipientSettings) (reader : Reader) (headers : Headers) :
    Except BindError HTTP1Recipient :=
  let te := lower (strip isSpace (headers.get (ascii "transfer-encoding") []))
  let cl := headers.get (ascii "content-length") []
  if te≠[] ∧ te≠ascii "chunked" then .error (.notImplemented te)
  else (declaredLength cl).map fun contentLength => {
    settings:={settings with chunkMax:=max settings.chunkMax 1}
    reader:=reader
    elapsed:=[]
    chunked:=te=ascii "chunked"
    contentLength:=contentLength
    chunkRemaining:=0
    done:=false
    bodySeen:=0
    bodyWait:=0
    rateWindowWait:=0
    rateWindowSeen:=0
    bodyRefused:=false
    framingBroken:=false}

def mustClose (s : HTTP1Recipient) : Bool := s.framingBroken || s.bodyRefused

inductive Verdict where
  | reusable
  | needsDrain
  | mustClose
  deriving DecidableEq

def afterDispatch (s : HTTP1Recipient) : Verdict :=
  if s.framingBroken || s.bodyRefused then .mustClose
  else if !s.done && (s.chunked || s.contentLength.getD 0 != 0) then .needsDrain
  else .reusable

/-- The reader as a read of the body sees it: without a body timeout no deadline falls. -/
def timedReader (s : HTTP1Recipient) : Reader :=
  if 0<s.settings.bodyTimeout then s.reader else {s.reader with patience:=none}

/-- The recipient after a read that left `reader`: the wait is charged to the peer when the
delivery rate is watched. -/
def afterRead (s : HTTP1Recipient) (reader : Reader) : HTTP1Recipient :=
  if s.settings.minRate≠0 then
    {s with
      reader:=reader
      bodyWait:=s.bodyWait+s.elapsed.headD 0
      elapsed:=s.elapsed.tail}
  else {s with reader:=reader}

def readWithTimeout (op : ReaderM Bytes) : RecipientM Bytes := fun s =>
  match op s.timedReader with
  | .ok out reader => .ok out (s.afterRead reader)
  | .error e reader => .error (.read e) (s.afterRead reader)

def breakFraming (detail : String) {α : Type} : RecipientM α := do
  modify fun s => {s with framingBroken:=true}
  throw (.httpException (badRequest detail))

def readChunkSlice : RecipientM Bytes := do
  let s ← get
  let n := min s.chunkRemaining s.settings.chunkSize
  let data ← readWithTimeout (Reader.readexactly n)
  modify fun s => {s with chunkRemaining:=s.chunkRemaining - n}
  if (← get).chunkRemaining=0 then
    let term ← readWithTimeout (Reader.readexactly 2)
    if term≠crlf then
      breakFraming ("chunk-data not CRLF-terminated: " ++ reprBytes term)
    else pure data
  else pure data

def readChunkLine : RecipientM Bytes := do
  let line ← readWithTimeout (Reader.readuntil 10)
  if line.length > chunkLineMax then
    breakFraming "chunk framing line exceeds length limit"
  else pure line

def parseChunkSizeOr400 (sizeLine : Bytes) : RecipientM ℕ :=
  match parseChunkSize sizeLine with
  | .ok n => pure n
  | .error e => do
    modify fun s => {s with framingBroken:=true}
    throw (.httpException e)

/-- Weigh a chunk against the two body limits, giving up if it fails one. -/
def account (chunk : Bytes) : RecipientM Bytes := do
  modify fun s => {s with
    bodySeen:=s.bodySeen+chunk.length
    rateWindowSeen:=s.rateWindowSeen+chunk.length}
  let s ← get
  if s.settings.maxBody≠0 ∧ s.bodySeen > s.settings.maxBody then
    modify fun s => {s with bodyRefused:=true,done:=true}
    throw (.httpException (contentTooLarge
      ("request body exceeds " ++ toString s.settings.maxBody ++ " bytes")))
  else if s.settings.minRate≠0 then
    let windowWait := s.bodyWait - s.rateWindowWait
    if windowWait > s.settings.minRateGrace then
      if (s.rateWindowSeen : ℚ)<s.settings.minRate*windowWait then
        modify fun s => {s with bodyRefused:=true,done:=true}
        throw .clientDisconnected
      else
        modify fun s => {s with rateWindowWait:=s.bodyWait,rateWindowSeen:=0}
        pure chunk
    else pure chunk
  else pure chunk

/-- The trailer loop. Every round consumes a line, so the length of the stream bounds it. -/
def readTrailers : ℕ → RecipientM Unit
  | 0 => throw .outOfFuel
  | fuel+1 => do
    let line ← readChunkLine
    if line=crlf then pure ()
    else if !endsWith line crlf then
      breakFraming ("trailer line not CRLF-terminated: " ++
        reprBytes (line.drop (line.length - 8)))
    else if trailerName line∈prohibitedTrailerFields then
      breakFraming ("prohibited trailer field " ++ reprBytes (trailerName line) ++
        " (RFC 9110 §6.5.1)")
    else readTrailers fuel

def finish : RecipientM (Option Bytes) := do
  modify fun s => {s with done:=true}
  pure none

def nextChunked : RecipientM (Option Bytes) := do
  if (← get).chunkRemaining≠0 then
    some <$> (readChunkSlice >>= account)
  else
    let sizeLine ← readChunkLine
    let chunkSize ← parseChunkSizeOr400 sizeLine
    if chunkSize=0 then
      readTrailers ((← get).reader.stream.length+1)
      finish
    else
      modify fun s => {s with chunkRemaining:=chunkSize}
      some <$> (readChunkSlice >>= account)

def nextSized : RecipientM (Option Bytes) := do
  let s ← get
  let owed := s.contentLength.getD 0
  if owed≠0 then
    let body ← readWithTimeout (Reader.read (min owed s.settings.chunkMax))
    if body.length=0 then throw (.read (.incompleteRead []))
    else
      modify fun s => {s with
        contentLength:=some (owed - body.length)
        done:=owed - body.length = 0 || s.done}
      some <$> account body
  else finish

/-- The deadline and the end of the stream are told apart only in the log. -/
def surfaceReadError : RecipientError → RecipientM (Option Bytes)
  | .read _ => do
    modify fun s => {s with done:=true}
    throw .clientDisconnected
  | e => throw e

/-- The next body chunk, or `none` once the body is complete. -/
def nextChunk : RecipientM (Option Bytes) := do
  let s ← get
  if s.done then pure none
  else tryCatch (if s.chunked then nextChunked else nextSized) surfaceReadError

inductive ReceiveEvent where
  | request (body : Bytes) (moreBody : Bool)
  | disconnect
  deriving DecidableEq

def receive : RecipientM ReceiveEvent := do
  if (← get).done then pure .disconnect
  else
    tryCatch
      (do
        match ← nextChunk with
        | none => pure (.request [] false)
        | some chunk => pure (.request chunk (!(← get).done)))
      fun
        | .clientDisconnected => pure .disconnect
        | e => throw e

/-- What the environment decides about the waits of one call. -/
structure Waits where
  /-- Waits that end in a delivery before the deadline expires, `none` if it does not. -/
  patience : Option ℕ := none
  elapsed : List ℚ := []

def entering (s : HTTP1Recipient) (waits : Waits) : HTTP1Recipient :=
  {s with reader:={s.reader with patience:=waits.patience},elapsed:=waits.elapsed}

def arrive (s : HTTP1Recipient) : HTTP1Recipient := {s with reader:=s.reader.arrive}

end HTTP1Recipient
end BlackBull
