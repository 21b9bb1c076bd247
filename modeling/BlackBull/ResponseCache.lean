import BlackBull.Headers
import BlackBull.OrderedDict

/-!
# The response cache

`Cache` answers a request from its store, or lets the handler answer and captures the events of the
response on their way to the client. A header list is a Python list, so a stored one is a cell of a
heap, which other code can change if it has been handed the cell. The clock and the digest of an
ETag are arguments.
-/

namespace BlackBull.Caching

open ByteString

/-- `None` is an absent part; an empty body is a body. -/
structure NativeResponse where
  status : ℕ := 200
  header : Option HeaderList := none
  body : Option Bytes := none
  moreBody : Bool := false
  trailers : Option HeaderList := none
  expectsTrailers : Bool := false
  filePath : Option Bytes := none
  deriving DecidableEq

/-- What a handler passes to `send`. -/
inductive HandlerEvent where
  | start (status : ℕ) (headers : HeaderList) (trailers : Bool)
  | body (content : Option Bytes) (moreBody : Bool)
  | trailers (headers : HeaderList)
  /-- A whole response at once. -/
  | bytes (content : Bytes) (status : ℕ) (headers : HeaderList)
  | native (response : NativeResponse)
  /-- A push, a path to send, or anything else that is not a response. -/
  | other (event : Bytes)
  deriving DecidableEq

inductive Event where
  | response (response : NativeResponse)
  | other (event : Bytes)
  deriving DecidableEq

/-- Every shape a handler may send becomes a response or is passed on as it is. -/
def wrapNativeSend : HandlerEvent → Event
  | .start status headers trailers =>
    .response {status:=status,header:=some headers,expectsTrailers:=trailers}
  | .body content moreBody =>
    .response {body:=some (content.getD []),moreBody:=moreBody}
  | .trailers headers => .response {trailers:=some headers}
  | .bytes content status headers =>
    .response {status:=status,header:=some headers,body:=some content}
  | .native response => .response response
  | .other event => .other event

structure Request where
  method : Bytes
  path : Bytes
  queryString : Bytes
  headers : HeaderList
  deriving DecidableEq

structure Config where
  maxAge : ℕ := 300
  maxEntries : ℕ := 1024
  cacheableMethods : List Bytes := [ascii "GET",ascii "HEAD"]
  cacheableStatuses : List ℕ := [200,203,300,301,308,404,410,414,451]
  cacheAuthenticated : Bool := false
  generateEtag : Bool := true
  maxAge_pos : 0 < maxAge := by decide
  maxEntries_pos : 0 < maxEntries := by decide

def indexFirst (out : Dict Bytes Bytes) (pair : Bytes × Bytes) : Dict Bytes Bytes :=
  match out.get? (lower pair.1) with
  | some _ => out
  | none => out.set (lower pair.1) pair.2

def requestHeaders (headers : HeaderList) : Dict Bytes Bytes := headers.foldl indexFirst []

def requestHasNoStore (headers : Dict Bytes Bytes) : Bool :=
  (splitByte 44 (lower ((headers.get? (ascii "cache-control")).getD []))).any fun piece =>
    strip isSpace piece=ascii "no-store"

def members (name : Bytes) (headers : HeaderList) : List Bytes :=
  (headers.filter fun pair => lower pair.1=name).flatMap fun pair =>
    (splitByte 44 pair.2).map fun piece => lower (strip isSpace piece)

def cacheControl (headers : HeaderList) : List Bytes :=
  (members (ascii "cache-control") headers).flatMap fun token =>
    if token.isEmpty then []
    else if 61∈token then [token,(partition 61 token).1]
    else [token]

/-- `int(text)`, with `none` for a `ValueError`. -/
def parseInt (text : Bytes) : Option ℤ :=
  let text := strip isSpace text
  let (negative,digits) := match text with
    | 45::rest => (true,rest)
    | 43::rest => (false,rest)
    | _ => (false,text)
  let groups := splitByte 95 digits
  if groups.all isdigit && groups.flatten.length ≤ integerMaxDigits then
    let value : ℤ := ofDigits 10 groups.flatten
    some (if negative then -value else value)
  else none

/-- The last well-formed `s-maxage`, or else the last well-formed `max-age`. -/
def responseMaxAge (headers : HeaderList) : Option ℤ :=
  let (sMax,maxAge) := (members (ascii "cache-control") headers).foldl
    (fun (sMax,maxAge) token =>
      if startsWith token (ascii "s-maxage=") then ((parseInt (token.drop 9)).or sMax,maxAge)
      else if startsWith token (ascii "max-age=") then
        (sMax,(parseInt (token.drop 8)).or maxAge)
      else (sMax,maxAge))
    ((none,none) : Option ℤ × Option ℤ)
  sMax.or maxAge

def byteLe : Bytes → Bytes → Bool
  | [],_ => true
  | _::_,[] => false
  | a::rest,b::rest' => a<b || (a=b && byteLe rest rest')

/-- The fields `Vary` names, sorted; `none` for `Vary: *`. -/
def responseVary (headers : HeaderList) : Option (List Bytes) :=
  let fields := members (ascii "vary") headers
  if ascii "*" ∈ fields then none
  else some ((fields.filter fun field => !field.isEmpty).dedup.insertionSort
    fun a b => byteLe a b=true)

/-- The values of the varied fields; a field that is missing counts as empty. -/
def varyKey (varyFields : List Bytes) (headers : Dict Bytes Bytes) : List (Bytes × Bytes) :=
  varyFields.map fun field => (field,(headers.get? field).getD [])

def readEtag (headers : HeaderList) : Option Bytes :=
  (headers.find? fun pair => lower pair.1=ascii "etag").map Prod.snd

def etagMatches (ifNoneMatch etag : Bytes) : Bool :=
  let candidates := strip isSpace ifNoneMatch
  candidates=ascii "*" || (splitByte 44 candidates).any fun candidate =>
    strongTag (strip isSpace candidate)=strongTag etag

def shouldCache (config : Config) (status : Option ℕ) (headers : HeaderList) : Bool :=
  status.any (· ∈ config.cacheableStatuses) &&
    [ascii "no-store",ascii "private",ascii "no-cache"].all fun directive =>
      !(directive∈cacheControl headers)

def makeEtag (digest : Bytes → Bytes) (body : Bytes) : Bytes :=
  ascii "W/\"" ++ digest body++ascii "\""

structure Capture where
  held : List NativeResponse := []
  bodyChunks : List Bytes := []
  status : Option ℕ := none
  responseHeaders : HeaderList := []
  flushed : Bool := false

structure Stored where
  varyFields : List Bytes
  status : ℕ
  header : HeaderList
  body : Bytes
  etag : Bytes
  ttl : ℤ
  deriving DecidableEq

/-- The response is held, and its status and headers are taken if it has them. -/
def Capture.hold (capture : Capture) (response : NativeResponse) : Capture :=
  let capture := match response.header with
    | some header => {capture with status:=some response.status,responseHeaders:=header}
    | none => capture
  {capture with held:=capture.held++[response]}

structure Outcome where
  capture : Capture
  sent : List Event := []
  stored : Option Stored := none

def replaceHeader (headers : HeaderList) : List NativeResponse → List NativeResponse
  | [] => []
  | response::held =>
    if response.header.isSome then {response with header:=some headers}::held
    else response::replaceHeader headers held

/-- `_response_max_age(...) or self._max_age`. -/
def lifetime (config : Config) (headers : HeaderList) : ℤ :=
  match responseMaxAge headers with
  | some 0 => config.maxAge
  | some age => age
  | none => config.maxAge

section

variable (config : Config) (digest : Bytes → Bytes)

/-- The tag of the response, or else a new one; an empty tag counts as none. -/
def chooseEtag (headers : HeaderList) (body : Bytes) : Option Bytes :=
  match (readEtag headers).filter (!·.isEmpty) with
  | some etag => some etag
  | none => if config.generateEtag then some (makeEtag digest body) else none

/-- The terminal body has arrived: a new tag is put in the headers, and the response is stored if
it has a tag and does not vary on everything. -/
def decideStore (capture : Capture) : Capture × Option Stored :=
  let body := capture.bodyChunks.flatten
  if shouldCache config capture.status capture.responseHeaders then
    match chooseEtag config digest capture.responseHeaders body with
    | none => (capture,none)
    | some etag =>
      let vary := responseVary capture.responseHeaders
      let capture :=
        if (readEtag capture.responseHeaders).isNone then
          let headers := capture.responseHeaders++[(ascii "etag",etag)]
          {capture with
            responseHeaders:=headers,held:=replaceHeader headers capture.held}
        else capture
      (capture,vary.map fun varyFields =>
        { varyFields:=varyFields,status:=capture.status.getD 200
          header:=capture.responseHeaders,body:=body,etag:=etag
          ttl:=lifetime config capture.responseHeaders})
  else (capture,none)

/-- What is held goes out, unless something has gone out before. -/
def release (capture : Capture) : Outcome where
  capture := {capture with flushed:=true}
  sent := if capture.flushed then [] else capture.held.map .response

def isTerminal (response : NativeResponse) : Bool :=
  response.filePath.isNone && response.body.isSome && !response.moreBody

/-- `cap_send`. What has been sent stays in `held`. -/
def capSend (capture : Capture) : Event → Outcome
  | .other event =>
    let outcome := release capture
    {outcome with sent:=outcome.sent++[.other event]}
  | .response response =>
    let capture := capture.hold response
    if response.filePath.isSome then release capture
    else
      match response.body with
      | none => {capture:=capture}
      | some body =>
        let capture := {capture with bodyChunks:=capture.bodyChunks++[body]}
        if response.moreBody then release capture
        else
          let (capture,stored) := decideStore config digest capture
          { capture:={capture with flushed:=true}
            sent:=capture.held.map .response,stored:=stored}

def captureAll (capture : Capture) : List Event → List Event
  | [] => if capture.flushed then [] else capture.held.map .response
  | event::events =>
    let outcome := capSend config digest capture event
    outcome.sent++captureAll outcome.capture events

def sentOnMiss (handler : List HandlerEvent) : List Event :=
  captureAll config digest {} (handler.map wrapNativeSend)

end

abbrev Cell := ℕ

structure Entry where
  status : ℕ
  header : Cell
  body : Bytes
  etag : Bytes
  expiresAt : ℚ

structure Bucket where
  varyFields : List Bytes := []
  entries : Dict (List (Bytes × Bytes)) Entry := []

abbrev Key := Bytes × Bytes × Bytes

def Request.key (request : Request) : Key := (request.method,request.path,request.queryString)

/-- A request whose handler answers, with what the handler has sent and when it sent the terminal
body. -/
structure Flight where
  request : Request
  capture : Capture := {}
  events : List Event := []
  finishedAt : Option ℚ := none

structure Hit where
  request : Request
  response : NativeResponse
  now : ℚ

/-- The middleware with the header lists its entries and the responses it sent refer to. The cells
of the latter are those that other code knows. -/
structure Server where
  store : Dict Key Bucket := []
  heap : List HeaderList := []
  exposed : List Cell := []
  flights : List Flight := []
  hits : List Hit := []

def maxVariantsPerKey : ℕ := 16

inductive Action where
  | request (request : Request) (now : ℚ)
  | event (flight : ℕ) (event : HandlerEvent) (now : ℚ)
  /-- Other code changes a header list in place. -/
  | change (cell : Cell) (headers : HeaderList)

namespace Server

def lookup (s : Server) (request : Request) : Option (Bucket × Entry) := do
  let bucket ← s.store.get? request.key
  let entry ← bucket.entries.get? (varyKey bucket.varyFields (requestHeaders request.headers))
  pure (bucket,entry)

def notModified (request : Request) (entry : Entry) : Bool :=
  ((requestHeaders request.headers).get? (ascii "if-none-match")).any (etagMatches · entry.etag)

/-- The headers of the answer: a copy of those stored, or the ETag alone. -/
def answerHeader (s : Server) (request : Request) (entry : Entry) : HeaderList :=
  if notModified request entry then [(ascii "etag",entry.etag)] else s.heap.getD entry.header []

def answerResponse (s : Server) (request : Request) (entry : Entry) : NativeResponse :=
  if notModified request entry then
    {status:=304,header:=some (s.answerHeader request entry),body:=some []}
  else
    { status:=entry.status,header:=some (s.answerHeader request entry)
      body:=some entry.body}

/-- The entry answers, and both of its places become the most recent. -/
def answer (s : Server) (request : Request) (bucket : Bucket) (entry : Entry) (now : ℚ) :
    Server :=
  let variant := varyKey bucket.varyFields (requestHeaders request.headers)
  let bucket := {bucket with entries:=bucket.entries.moveToEnd variant}
  {s with
    store:=(s.store.set request.key bucket).moveToEnd request.key
    heap:=s.heap++[s.answerHeader request entry]
    exposed:=s.heap.length::s.exposed
    hits:=s.hits++[⟨request,s.answerResponse request entry,now⟩]}

/-- A request: passed on without the cache, answered by it, or answered by the handler. -/
def receive (config : Config) (s : Server) (request : Request) (now : ℚ) : Server :=
  let headers := requestHeaders request.headers
  if request.method∉config.cacheableMethods then s
  else if !config.cacheAuthenticated && (headers.get? (ascii "authorization")).isSome then s
  else if requestHasNoStore headers then s
  else
    match s.lookup request with
    | some (bucket,entry) =>
      if now<entry.expiresAt then s.answer request bucket entry now
      else {s with flights:=s.flights++[{request:=request}]}
    | none => {s with flights:=s.flights++[{request:=request}]}

/-- The bucket to store in: a response that varies on other fields empties it. -/
def bucketFor (s : Server) (key : Key) (varyFields : List Bytes) : Bucket :=
  match s.store.get? key with
  | some bucket => if bucket.varyFields=varyFields then bucket else {varyFields:=varyFields}
  | none => {varyFields:=varyFields}

/-- The response is stored: the list of the response that is sent and the list of the entry are
two copies. -/
def insert (config : Config) (s : Server) (request : Request) (stored : Stored) (now : ℚ) :
    Server :=
  let bucket := s.bucketFor request.key stored.varyFields
  let variant := varyKey stored.varyFields (requestHeaders request.headers)
  let entry : Entry :=
    { status:=stored.status,header:=s.heap.length+1,body:=stored.body
      etag:=stored.etag,expiresAt:=now+stored.ttl}
  let bucket := {bucket with
    entries:=((bucket.entries.set variant entry).moveToEnd variant).keepLast maxVariantsPerKey}
  {s with
    store:=((s.store.set request.key bucket).moveToEnd request.key).keepLast config.maxEntries
    heap:=s.heap++[stored.header,stored.header]
    exposed:=s.heap.length::s.exposed}

def send (config : Config) (digest : Bytes → Bytes) (s : Server) (flight : ℕ) (event : Event)
    (now : ℚ) : Server :=
  match s.flights[flight]? with
  | none => s
  | some record =>
    let outcome := capSend config digest record.capture event
    let finishedAt := match event with
      | .response response => if isTerminal response then some now else record.finishedAt
      | .other _ => record.finishedAt
    let record' := {record with
      capture:=outcome.capture,events:=record.events++[event],finishedAt:=finishedAt}
    let s := {s with flights:=s.flights.set flight record'}
    match outcome.stored with
    | none => s
    | some stored => s.insert config record.request stored now

def step (config : Config) (digest : Bytes → Bytes) (s : Server) : Action → Server
  | .request request now => s.receive config request now
  | .event flight event now => s.send config digest flight (wrapNativeSend event) now
  | .change cell headers =>
    if cell∈s.exposed then {s with heap:=s.heap.set cell headers} else s

end Server

end BlackBull.Caching
