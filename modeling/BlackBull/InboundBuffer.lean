import BlackBull.ByteString
import BlackBull.TransitionRuns

/-!
# The read buffer of a connection

What the transport delivers goes into one buffer, and one coroutine reads from it. A delivery that
leaves the buffer at the high-water mark pauses the transport, unless the reader is parked. The
reads are those of an HTTP/1.1 connection, and the octets between the two cursors are the state.
-/

namespace BlackBull.Inbound

open ByteString

def highWater : ℕ := 128*1024

def lowWater : ℕ := 32*1024

/-- `_CHUNK_LINE_MAX`, compared with a line that has been read. -/
def chunkLineMax : ℕ := 8192

/-- The first line of the HTTP/2 preface, which detection waits for. -/
def detectPrefixLen : ℕ := 16

structure Settings where
  headerMaxTotal : ℕ := 65536
  bodyChunkSize : ℕ := 65536
  bodyChunkMax : ℕ := 524288

inductive Op
  | readHead (limit : ℕ)
  | read (n : ℕ)
  | readexactly (n : ℕ)
  | readuntil (sep : UInt8)
  | fill (n : ℕ)
  /-- With what is left of the octets that may be thrown away. -/
  | discard (left : ℕ)
  deriving DecidableEq

structure Connection where
  /-- The octets that have been delivered and not consumed. -/
  resident : Bytes := []
  /-- How many of them the scan for the end of the head has cleared. -/
  scanned : ℕ := 0
  readingPaused : Bool := false
  peerClosed : Bool := false
  /-- The read that is parked. -/
  waiting : Option Op := none
  /-- The parked read has been woken and has not run yet. -/
  woken : Bool := false
  deriving DecidableEq

namespace Connection

variable (c : Connection)

/-- The first place, at or after `start`, where the pattern stands. -/
def findFrom (pattern : Bytes) (start : ℕ) (text : Bytes) : Option ℕ :=
  ((List.range text.length).drop start).find? fun i => startsWith (text.drop i) pattern

inductive HeadEnd
  | limitExceeded
  | missing
  | found (length : ℕ)

/-- `find_head_end`: the scan resumes three octets before where it stopped. -/
def findHeadEnd (limit : ℕ) : Connection × HeadEnd :=
  match findFrom (crlf++crlf) (c.scanned - 3) c.resident with
  | none =>
    ({c with scanned:=c.resident.length},
      if 0<limit ∧ limit<c.resident.length then .limitExceeded else .missing)
  | some i =>
    ({c with scanned:=i},
      if 0<limit ∧ limit < i+4 then .limitExceeded else .found (i+4))

/-- `take` and `consume`: the scan starts again. -/
def take (n : ℕ) : Connection := {c with resident:=c.resident.drop n,scanned:=0}

/-- `_consumed`: reading goes on once little is left. -/
def consumed : Connection :=
  if c.readingPaused ∧ c.resident.length≤lowWater then {c with readingPaused:=false} else c

/-- `wait_for_data`. -/
def park (op : Op) : Connection :=
  {c with readingPaused:=false,waiting:=some op,woken:=false}

/-- Runs a read up to where it parks, returns or raises. -/
def proceed (op : Op) : Connection :=
  match op with
  | .readHead limit =>
    if c.resident=[] then
      if c.peerClosed then c else c.park op
    else
      match c.findHeadEnd limit with
      | (c,.limitExceeded) => c
      | (c,.found n) => (c.take n).consumed
      | (c,.missing) => if c.peerClosed then c.take c.resident.length else c.park op
  | .read n =>
    if c.resident=[] then
      if c.peerClosed then c else c.park op
    else (c.take (min n c.resident.length)).consumed
  | .readexactly n =>
    if c.resident.length<n then
      if c.peerClosed then c.take c.resident.length else c.park op
    else (c.take n).consumed
  | .readuntil sep =>
    match findFrom [sep] 0 c.resident with
    | some i => (c.take (i+1)).consumed
    | none => if c.peerClosed then c.take c.resident.length else c.park op
  | .fill n =>
    if c.resident.length<n ∧ c.peerClosed=false then c.park op else c
  | .discard left =>
    let left := left - c.resident.length
    let c := (c.take c.resident.length).consumed
    if c.peerClosed ∨ left=0 then c else c.park (.discard left)

def wake : Connection := {c with woken:=c.waiting.isSome}

/-- `buffer_updated`, with the reader's decision about a crossing of the mark. -/
def bufferUpdated (data : Bytes) : Connection :=
  let c := {c with resident:=c.resident++data}
  (if highWater≤c.resident.length ∧ c.waiting.isNone then
    {c with readingPaused:=true} else c).wake

def eofReceived : Connection := {c with peerClosed:=true}.wake

end Connection

inductive Call
  /-- `_peek_and_select`, for a prefix of this length. -/
  | detect (want : ℕ)
  | head
  /-- A slice of a body with this much of its length left. -/
  | body (remaining : ℕ)
  /-- A slice of a chunk with this much left. -/
  | slice (remaining : ℕ)
  /-- The two octets after a chunk. -/
  | terminator
  /-- A chunk-size line or a trailer line. -/
  | line
  /-- The lingering close. -/
  | linger (maxBytes : ℕ)

def Call.op (settings : Settings) : Call → Op
  | .detect want => .fill (min want detectPrefixLen)
  | .head => .readHead settings.headerMaxTotal
  | .body remaining => .read (min remaining (max settings.bodyChunkMax 1))
  | .slice remaining => .readexactly (min remaining settings.bodyChunkSize)
  | .terminator => .readexactly 2
  | .line => .readuntil 10
  | .linger maxBytes => .discard maxBytes

inductive Action
  | call (call : Call)
  /-- The transport has read these octets. -/
  | deliver (data : Bytes)
  | eof
  /-- The event loop runs the reader that was woken. -/
  | resume
  /-- A timeout cancels the read. -/
  | cancel

/-- A paused transport delivers nothing; one coroutine makes one read at a time. -/
def Connection.step (settings : Settings) (c : Connection) : Action → Connection
  | .call call => if c.waiting.isNone then c.proceed (call.op settings) else c
  | .deliver data =>
    if c.readingPaused ∨ c.peerClosed then c
    else if data=[] then c.eofReceived else c.bufferUpdated data
  | .eof => c.eofReceived
  | .resume =>
    match c.waiting with
    | some op => if c.woken then {c with waiting:=none,woken:=false}.proceed op else c
    | none => c
  | .cancel => {c with waiting:=none,woken:=false}

end BlackBull.Inbound
