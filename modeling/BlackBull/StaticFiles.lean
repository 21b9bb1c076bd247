import BlackBull.CanonicalPaths
import BlackBull.MessageDecoding
import BlackBull.HeadParser

/-!
# The static file middleware

`StaticFiles` turns the path of a request into a file below its root, chooses between the file and
its precompressed siblings, and answers with the whole file, a range of it or a 304. Text is its
UTF-8 octets; what the standard library computes from text and dates is a parameter.
-/

namespace BlackBull.Static

open ByteString Posix HeadParser

structure Conn where
  /-- It is a `Connection` of type `http`, not a raw scope. -/
  http : Bool
  method : Bytes
  path : Bytes
  headers : HeaderList
  /-- `http.response.pathsend` is among the extensions. -/
  pathsend : Bool

structure Request where
  conn : Conn
  /-- There is a `call_next`. -/
  hasNext : Bool
  /-- The environment of the settings is production. -/
  production : Bool
  /-- `time.monotonic()`. -/
  now : ℤ

structure Library where
  unquote : Bytes → Bytes
  /-- `text.strip()`. -/
  strip : Bytes → Bytes
  int : Bytes → Option ℤ
  /-- `float(text) <= 0`; a text that is no number is not. -/
  nonPositive : Bytes → Bool
  /-- `mimetypes.guess_type(path)[0]`. -/
  guessType : Bytes → Option Bytes
  /-- `formatdate` of a time in nanoseconds. -/
  formatdate : ℕ → Bytes
  /-- The whole seconds of a date, when it is one. -/
  parsedate : Bytes → Option ℤ

structure NativeResponse where
  status : ℕ := 200
  header : Option HeaderList := none
  body : Option Bytes := none
  moreBody : Bool := false
  filePath : Option Bytes := none
  deriving DecidableEq

/-- What a call ends with: the next handler, the responses sent, with the file they are made from,
or an exception. -/
inductive Outcome
  | callNext
  | sent (file : Option Bytes) (responses : List NativeResponse)
  | raised
  deriving DecidableEq

def respond (status : ℕ) (extraHeaders : HeaderList) : NativeResponse :=
  {status:=status,header:=some extraHeaders,body:=some []}

/-- The next handler, or a 404 where there is none. -/
def passOn (hasNext : Bool) : Outcome :=
  if hasNext then .callNext else .sent none [respond 404 []]

def parseByteRange (lib : Library) (rangeHdr : Bytes) (size : ℤ) : Option (ℤ × ℤ) :=
  if startsWith rangeHdr (ascii "bytes=") then
    let spec := lib.strip (rangeHdr.drop 6)
    if spec=[] ∨ 44∈spec then none
    else
      let (startS,sep,endS) := partition 45 spec
      if sep then
        let startS := lib.strip startS
        let endS := lib.strip endS
        if startS=[] then
          if endS = [] then none else (lib.int endS).map fun n => (max 0 (size - n),size - 1)
        else do
          let start ← lib.int startS
          let stop ← if endS = [] then some (size - 1) else lib.int endS
          pure (start,stop)
      else none
  else none

def lastValue (headers : HeaderList) (name : Bytes) : Option Bytes :=
  (headers.filter fun header => lower header.1=name).getLast?.map (·.2)

def notModified (lib : Library) (headers : HeaderList) (etag : Bytes) (mtimeNs : ℕ) : Bool :=
  match lastValue headers (ascii "if-none-match") with
  | some inm =>
    let candidate := strip isSpace inm
    candidate=ascii "*" || (splitByte 44 candidate).any fun tag =>
      strongTag (strip isSpace tag)=strongTag etag
  | none =>
    match lastValue headers (ascii "if-modified-since") with
    | some ims =>
      match lib.parsedate ims with
      | some seconds => (mtimeNs / 10^9 : ℕ) ≤ seconds
      | none => false
    | none => false

structure Config where
  /-- The path of `_root_str`. -/
  root : FileSystem.Normal
  root_names : ∀ name∈root.path,name≠[] ∧ slash∉name
  urlPrefix : Bytes
  cacheEnabled : Bool
  index : Option Bytes
  conditional : Bool
  /-- `_STAT_TTL_S`, in the unit of the clock. -/
  statTtl : ℤ

/-- `__init__` on an absolute directory. -/
def Config.init (fs : FileSystem) (directory urlPrefix : Bytes) (cacheEnabled : Bool)
    (index : Option Bytes) (conditional : Bool) (statTtl : ℤ) : Option Config :=
  match h : fs.realpath directory with
  | none => none
  | some root => some {
      root:=root,root_names:=(FileSystem.realpath_eq_some h).1,
      urlPrefix:=rstrip (· = slash) urlPrefix,cacheEnabled:=cacheEnabled,index:=index,
      conditional:=conditional,statTtl:=statTtl}

def Config.rootStr (config : Config) : Bytes := config.root.text

def Config.rootSep (config : Config) : Bytes := config.rootStr++[slash]

structure Entry where
  mtimeNs : ℕ
  size : ℕ
  body : Bytes
  mime : Bytes
  contentEncoding : Bytes
  lastStat : ℤ
  deriving DecidableEq

structure StaticFiles where
  config : Config
  /-- Decided by the settings at the first request. -/
  enabled : Option Bool := none
  cache : Dict Bytes Entry := []
  siblingCache : Dict Bytes (Dict Bytes Bytes) := []

def cacheMaxBytesPerFile : ℕ := 4*1024*1024

def cacheMaxEntries : ℕ := 256

def chunkSize : ℕ := 64*1024

def Config.contains (config : Config) (target : Bytes) : Bool :=
  target=config.rootStr || startsWith target config.rootSep

def Config.requested (lib : Library) (config : Config) (rawPath : Bytes) : Bytes :=
  join config.rootStr (lstrip (· = slash) (lib.unquote rawPath))

inductive Located
  | outside
  | missing
  | found (path : Bytes)
  | raised
  deriving DecidableEq

def Config.locateIndex (fs : FileSystem) (config : Config) (target : Bytes) : Located :=
  match config.index with
  | none => .missing
  | some index =>
    if index≠[] ∧ fs.isdir target then
      match fs.realpath (join target index) with
      | none => .raised
      | some candidate =>
        if config.contains candidate.text ∧ fs.isfile candidate.text then .found candidate.text
        else .missing
    else .missing

/-- The file that a path below the prefix names. -/
def Config.locate (lib : Library) (fs : FileSystem) (config : Config) (rawPath : Bytes) :
    Located :=
  match fs.realpath (config.requested lib rawPath) with
  | none => .raised
  | some target =>
    if config.contains target.text then
      if fs.isfile target.text then .found target.text else config.locateIndex fs target.text
    else .outside

def encodingSuffixes : List (Bytes × Bytes) :=
  [(ascii "br",ascii ".br"),(ascii "zstd",ascii ".zst"),(ascii "gzip",ascii ".gz")]

def clientAccepts (lib : Library) (acceptHeader encoding : Bytes) : Bool :=
  match (splitByte 44 acceptHeader).find? fun token =>
      lower (strip isSpace (partition 59 (strip isSpace token)).1)=encoding with
  | none => false
  | some token => ((splitByte 59 (strip isSpace token)).drop 1).all fun param =>
      let p := strip isSpace param
      !(startsWith p (ascii "q=") && lib.nonPositive (p.drop 2))

def siblings (fs : FileSystem) (target : Bytes) : Dict Bytes Bytes :=
  (encodingSuffixes.filter fun (_,suffix) => fs.isfile (target++suffix)).map
    fun (enc,suffix) => (enc,target++suffix)

def choose (lib : Library) (available : Dict Bytes Bytes) (accept target : Bytes) :
    Bytes × Bytes :=
  match encodingSuffixes.find? fun (enc,_) =>
      (available.get? enc).isSome && clientAccepts lib accept enc with
  | some (enc,_) => ((available.get? enc).getD target,enc)
  | none => (target,[])

/-- The value of `Accept-Encoding` that siblings are chosen by; a range is of the file itself. -/
def acceptEncoding (headers : HeaderList) : Bytes :=
  if headers.any fun header => lower header.1=ascii "range" then []
  else lower ((lastValue headers (ascii "accept-encoding")).getD [])

def StaticFiles.negotiate (lib : Library) (fs : FileSystem) (s : StaticFiles) (conn : Conn)
    (target : Bytes) : StaticFiles × Bytes × Bytes :=
  let accept := acceptEncoding conn.headers
  if accept=[] then (s,target,[])
  else if s.config.cacheEnabled then
    match s.siblingCache.get? target with
    | some available => (s,choose lib available accept target)
    | none =>
      let available := siblings fs target
      ({s with siblingCache:=s.siblingCache.set target available},
        choose lib available accept target)
  else (s,choose lib (siblings fs target) accept target)

def read (fs : FileSystem) (path : Bytes) : Option (ℕ × Bytes) :=
  match fs.stat path with
  | some (.file modified content) => some (modified,content)
  | _ => none

/-- What is known of the file that is served; the body when it is not streamed. -/
structure Loaded where
  mtimeNs : ℕ
  size : ℕ
  body : Option Bytes
  mime : Bytes

def moveToEnd (cache : Dict Bytes Entry) (path : Bytes) : Dict Bytes Entry :=
  match cache.get? path with
  | some entry => cache.pop path++[(path,entry)]
  | none => cache

/-- `_store`: the oldest items go. -/
def store (cache : Dict Bytes Entry) (path : Bytes) (entry : Entry) : Dict Bytes Entry :=
  let cache := moveToEnd (cache.set path entry) path
  cache.drop (cache.length - cacheMaxEntries)

/-- The branch of `_serve` that asks the file system. -/
def StaticFiles.loadFresh (lib : Library) (fs : FileSystem) (s : StaticFiles) (now : ℤ)
    (path servedPath contentEncoding : Bytes) (cached : Option Entry) :
    StaticFiles × Option Loaded :=
  let mime := (lib.guessType path).getD (ascii "application/octet-stream")
  match read fs servedPath with
  | none => (s,none)
  | some (mtimeNs,content) =>
    let fresh : Entry := ⟨mtimeNs,content.length,content,mime,contentEncoding,now⟩
    match cached.filter fun entry => entry.mtimeNs=mtimeNs ∧ entry.size=content.length with
    | some entry =>
      let entry := {entry with contentEncoding:=contentEncoding,lastStat:=now}
      ({s with cache:=moveToEnd (s.cache.set servedPath entry) servedPath},
        some ⟨mtimeNs,content.length,some entry.body,entry.mime⟩)
    | none =>
      if content.length≤cacheMaxBytesPerFile then
        (if s.config.cacheEnabled then {s with cache:=store s.cache servedPath fresh} else s,
          some ⟨mtimeNs,content.length,some content,mime⟩)
      else
        (if s.config.cacheEnabled then {s with cache:=s.cache.pop servedPath} else s,
          some ⟨mtimeNs,content.length,none,mime⟩)

def StaticFiles.load (lib : Library) (fs : FileSystem) (s : StaticFiles) (now : ℤ)
    (path servedPath contentEncoding : Bytes) : StaticFiles × Option Loaded :=
  match if s.config.cacheEnabled then s.cache.get? servedPath else none with
  | some entry =>
    if 0 < s.config.statTtl ∧ now - entry.lastStat < s.config.statTtl then
      ({s with cache:=moveToEnd s.cache servedPath},
        some ⟨entry.mtimeNs,entry.size,some entry.body,entry.mime⟩)
    else s.loadFresh lib fs now path servedPath contentEncoding (some entry)
  | none => s.loadFresh lib fs now path servedPath contentEncoding none

/-- The chunks that are read while some of the length remains. -/
def streamed : ℕ → Bytes → ℕ → List NativeResponse
  | 0,_,_ => []
  | fuel+1,content,remaining =>
    let chunk := content.take (min chunkSize remaining)
    if remaining=0 ∨ chunk=[] then []
    else
      {body:=some chunk,moreBody:=decide (0 < remaining - chunk.length)} ::
        streamed fuel (content.drop chunk.length) (remaining - chunk.length)

def hex (n : ℕ) : Bytes := toDigits 16 n

def decimal (n : ℕ) : Bytes := toDigits 10 n

def etagOf (file : Loaded) : Bytes :=
  ascii "\"" ++ hex file.mtimeNs++ascii "-" ++ hex file.size++ascii "\""

/-- The content from `start` up to `stop`, in one response, as a path for `sendfile` or in
chunks. -/
def sendContent (fs : FileSystem) (conn : Conn) (servedPath : Bytes) (file : Loaded)
    (status start stop : ℕ) (extraHeaders : HeaderList) : List NativeResponse :=
  let bodyLen := stop - start
  let header := (ascii "content-type",file.mime) ::
    (ascii "content-length",decimal bodyLen)::extraHeaders
  match file.body with
  | some body =>
    let chunk := if start≠0 ∨ stop≠file.size then (body.take stop).drop start else body
    [{status:=status,header:=some header,body:=some chunk}]
  | none =>
    if status≠206 ∧ conn.pathsend then
      [{status:=status,header:=some header,filePath:=some servedPath}]
    else
      let content := ((read fs servedPath).map (·.2)).getD []
      {status:=status,header:=some header} ::
        streamed bodyLen (content.drop start) bodyLen

/-- The rest of `_serve`. -/
def answer (lib : Library) (fs : FileSystem) (config : Config) (conn : Conn)
    (servedPath contentEncoding : Bytes) (file : Loaded) : List NativeResponse :=
  let vary := if contentEncoding=[] then [] else [(ascii "vary",ascii "Accept-Encoding")]
  let validators := if config.conditional then
    [(ascii "etag",etagOf file),(ascii "last-modified",lib.formatdate file.mtimeNs)] else []
  let encoding := if contentEncoding=[] then [] else
    (ascii "content-encoding",contentEncoding)::vary
  if config.conditional && notModified lib conn.headers (etagOf file) file.mtimeNs then
    [respond 304 (validators++vary)]
  else
    let rangeHdr := ((conn.headers.find? fun header => lower header.1=ascii "range").map
      (·.2)).getD []
    match parseByteRange lib rangeHdr file.size with
    | none => sendContent fs conn servedPath file 200 0 file.size (validators++encoding)
    | some (start,stop) =>
      if (file.size : ℤ) ≤ start ∨ file.size ≤ stop ∨ stop<start then
        [respond 416 [(ascii "content-range",ascii "bytes */" ++ decimal file.size)]]
      else
        sendContent fs conn servedPath file 206 start.toNat (stop.toNat+1) (validators ++
          (ascii "content-range",ascii "bytes " ++ decimal start.toNat++ascii "-" ++
            decimal stop.toNat++ascii "/" ++ decimal file.size)::encoding)

/-- The first `Range` header can be decoded. -/
def Conn.rangeReadable (conn : Conn) : Bool :=
  match conn.headers.find? fun header => lower header.1=ascii "range" with
  | some (_,value) => isUtf8 value
  | none => true

def StaticFiles.serve (lib : Library) (fs : FileSystem) (s : StaticFiles) (now : ℤ) (conn : Conn)
    (path : Bytes) : StaticFiles × Outcome :=
  let (s,servedPath,contentEncoding) := s.negotiate lib fs conn path
  match s.load lib fs now path servedPath contentEncoding with
  | (s,none) => (s,.sent none [respond 404 []])
  | (s,some file) =>
    if conn.rangeReadable then
      (s,.sent (some servedPath)
        (answer lib fs s.config conn servedPath contentEncoding file))
    else (s,.raised)

def methods : List Bytes := [ascii "GET",ascii "HEAD"]

def StaticFiles.call (lib : Library) (fs : FileSystem) (s : StaticFiles) (request : Request) :
    StaticFiles × Outcome :=
  let conn := request.conn
  if conn.http=false ∨ conn.method∉methods then (s,passOn request.hasNext)
  else
    let enabled := s.enabled.getD (!request.production)
    let s := {s with enabled:=some enabled}
    if enabled=false then (s,passOn request.hasNext)
    else if startsWith conn.path s.config.urlPrefix then
      match s.config.locate lib fs (conn.path.drop s.config.urlPrefix.length) with
      | .raised => (s,.raised)
      | .outside => (s,.sent none [respond 400 []])
      | .missing => (s,passOn request.hasNext)
      | .found path => s.serve lib fs request.now conn path
    else (s,passOn request.hasNext)

end BlackBull.Static
