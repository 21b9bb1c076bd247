import BlackBull.MessageDecoding

/-!
# The HTTP/1.1 sender

The start of a response is held until its first body event, which decides the framing:
Content-Length when it is also the last one, the chunked coding otherwise. The date and the contents
of a file are the environment's.
-/

namespace BlackBull

open ByteString

structure HTTPStatus where
  code : ℕ
  phrase : Bytes
  deriving DecidableEq

namespace Headers

def append (headers : Headers) (name value : Bytes) : Headers :=
  ⟨headers.entries++[(lower name,(name,value))]⟩

end Headers

inductive SendEvent where
  /-- A whole response at once. -/
  | bytes (body : Bytes) (status : HTTPStatus) (headers : HeaderList)
  | start (status : HTTPStatus) (headers : HeaderList) (trailers : Bool)
  | body (content : Bytes) (moreBody : Bool)
  | trailers (headers : HeaderList)
  /-- A file is sent, with the octets it holds. -/
  | pathsend (file : Bytes)
  /-- `NativeResponse`: any of a start, a file, a chunk and trailers. -/
  | native (header : Option (HTTPStatus × HeaderList × Bool)) (file : Option Bytes)
      (body : Option (Bytes × Bool)) (trailers : Option HeaderList)

structure HTTP1Sender where
  buffered : Option (HTTPStatus × Headers) := none
  chunked : Bool := false
  expectTrailers : Bool := false
  started : Bool := false
  completed : Bool := false
  headMode : Bool := false
  /-- The octets written so far. -/
  written : Bytes := []

namespace HTTP1Sender

def isInformational (status : HTTPStatus) : Bool := status.code<200

def statusLine (status : HTTPStatus) : Bytes :=
  ascii "HTTP/1.1 " ++ toDigits 10 status.code++ascii " " ++ status.phrase++crlf

def renderStart (status : HTTPStatus) (headers : HeaderList) : Bytes :=
  statusLine status++renderFields headers++crlf

def write (s : HTTP1Sender) (data : Bytes) : HTTP1Sender := {s with written:=s.written++data}

def ensureFramingHeaders (s : HTTP1Sender) (status : HTTPStatus) (headers : Headers)
    (bodyLength : ℕ) (moreBody : Bool) : HTTP1Sender × Headers :=
  if isInformational status then (s,headers)
  else if moreBody then
    ({s with chunked:=true},
      if headers.contains (ascii "transfer-encoding") then headers
      else headers.append (ascii "transfer-encoding") (ascii "chunked"))
  else
    (s,if headers.contains (ascii "content-length") then headers
      else headers.append (ascii "content-length") (toDigits 10 bodyLength))

def ensureDateHeader (date : Bytes) (headers : Headers) : Headers :=
  if headers.contains (ascii "Date") then headers else headers.append (ascii "Date") date

def lastChunk : Bytes := ascii "0" ++ crlf++crlf

def chunkOf (content : Bytes) (last : Bool) : Bytes :=
  (if content=[] then [] else renderChunk content)++if last then lastChunk else []

def flush (s : HTTP1Sender) (date : Bytes) (status : HTTPStatus) (headers : Headers)
    (body : Bytes) (moreBody : Bool) : HTTP1Sender :=
  let s := if isInformational status then s else {s with started:=true}
  let (s,headers) := s.ensureFramingHeaders status headers body.length moreBody
  let head := renderStart status (ensureDateHeader date headers).toList
  if s.headMode then s.write head
  else if s.chunked then s.write (head++chunkOf body (!moreBody && !s.expectTrailers))
  else s.write (head++body)

def handleBodyContent (s : HTTP1Sender) (date content : Bytes) (moreBody : Bool) : HTTP1Sender :=
  let s := match s.buffered with
    | some (status,headers) =>
      {s.flush date status headers content moreBody with buffered:=none}
    | none =>
      if s.headMode then s
      else if s.chunked then s.write (chunkOf content (!moreBody && !s.expectTrailers))
      else s.write content
  if moreBody then s else {s with completed:=true}

def handleTrailers (s : HTTP1Sender) (headers : HeaderList) : HTTP1Sender :=
  {s.write (ascii "0" ++ crlf++renderFields headers++crlf) with completed:=true}

/-- `_pathsend`; without a start that is held it is dropped. -/
def pathsend (s : HTTP1Sender) (date file : Bytes) : HTTP1Sender :=
  match s.buffered with
  | none => s
  | some (status,headers) =>
    let s := {s with started:=true}
    let (s,headers) := s.ensureFramingHeaders status headers file.length false
    let s := {s with buffered:=none}.write
      (renderStart status (ensureDateHeader date headers).toList)
    if s.headMode then s else s.write file

def begin (s : HTTP1Sender) (status : HTTPStatus) (headers : HeaderList) (trailers : Bool) :
    HTTP1Sender :=
  {s with buffered:=some (status,.ofPairs headers),expectTrailers:=trailers}

def send (date : Bytes) (s : HTTP1Sender) (event : SendEvent) : HTTP1Sender :=
  if s.completed then s
  else
    match event with
    | .bytes body status headers =>
      let s := s.flush date status (.ofPairs headers) body false
      if isInformational status then s else {s with completed:=true}
    | .start status headers trailers => s.begin status headers trailers
    | .body content moreBody => s.handleBodyContent date content moreBody
    | .trailers headers => s.handleTrailers headers
    | .pathsend file => {s.pathsend date file with completed:=true}
    | .native header file body trailers =>
      let s := match header with
        | some (status,headers,expectsTrailers) => s.begin status headers expectsTrailers
        | none => s
      match file with
      | some file => {s.pathsend date file with completed:=true}
      | none =>
        let s := match body with
          | some (content,moreBody) => s.handleBodyContent date content moreBody
          | none => s
        match trailers with
        | some headers => if s.completed then s else s.handleTrailers headers
        | none => s

end HTTP1Sender
end BlackBull
