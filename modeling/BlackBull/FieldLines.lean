import BlackBull.EffectOutcomes
import BlackBull.Headers

/-!
# The field lines of a request head

How `HTTP1Actor._parse` turns one line of a head block into a field: the octet tables, the test of
the whole block, the table of lines every deployment shares and the cache of lines a connection has
already sent.
-/

namespace BlackBull

open ByteString

inductive ParseError where
  | badRequest (detail : String)
  | headerTooLarge (detail : String)
  | notImplementedFraming (detail : String)
  | unsupportedVersion (detail : String)
  /-- A host that is not UTF-8 escapes as the decoder's own exception. -/
  | unicodeDecode
  /-- So does a number with more digits than `int` converts. -/
  | valueError
  deriving DecidableEq

/-- The status `run` answers a head with that is rejected this way; it catches nothing else. -/
def ParseError.status : ParseError → Option ℕ
  | .headerTooLarge _ => some 431
  | .badRequest _ => some 400
  | .notImplementedFraming _ => some 501
  | .unsupportedVersion _ => some 505
  | .unicodeDecode | .valueError => none

namespace HeadParser

/-- `data.split(b'\r\n')`. -/
def splitCrlf : Bytes → List Bytes
  | [] => [[]]
  | 13::10::rest => []::splitCrlf rest
  | b::rest =>
    match splitCrlf rest with
    | [] => [[b]]
    | piece::pieces => (b::piece)::pieces

/-- `text.count(b'\r\n')`. -/
def countCrlf : Bytes → ℕ
  | [] => 0
  | 13::10::rest => countCrlf rest+1
  | _::rest => countCrlf rest

/-- The octets `_FIELD_VALUE_INVALID_RE` looks for: every control octet but HTAB. -/
def isControl (b : UInt8) : Bool := b≤8 || (10≤b && b≤31) || b=127

/-- The octets a head block may contain besides CR and LF. -/
def blockAllowedOctet (b : UInt8) : Bool :=
  !(b<9 || (11≤b && b≤12) || (14≤b && b≤31) || b=127) && !(b=10 || b=13)

/-- What is left of the block once every permitted octet is deleted. -/
def blockResidue (data : Bytes) : Bytes := data.filter fun b => !blockAllowedOctet b

def blockValuesAreClean (data : Bytes) : Bool :=
  countCrlf (blockResidue data)*2=(blockResidue data).length

/-- The lines of one field whose values a specification enumerates. -/
def enumeratedLines (start : String) (values : List String) (stop : String) : List Bytes :=
  values.map fun value => ascii start++ascii value++ascii stop

def specEnumeratedLines : List Bytes :=
  enumeratedLines "Sec-Fetch-Site: " ["cross-site", "same-origin", "same-site", "none"] "" ++
  enumeratedLines "Sec-Fetch-Mode: "
    ["cors", "navigate", "no-cors", "same-origin", "websocket"] "" ++
  enumeratedLines "Sec-Fetch-Dest: "
    ["audio", "audioworklet", "document", "embed", "empty", "font", "frame", "iframe", "image",
      "manifest", "object", "paintworklet", "report", "script", "serviceworker", "sharedworker",
      "style", "track", "video", "worker", "xslt"] "" ++
  ["Sec-Fetch-User: ?1", "sec-ch-ua-mobile: ?0", "sec-ch-ua-mobile: ?1"].map ascii ++
  enumeratedLines "sec-ch-ua-platform: \""
    ["Android", "Chrome OS", "Chromium OS", "iOS", "Linux", "macOS", "Windows", "Unknown"] "\"" ++
  ["Upgrade-Insecure-Requests: 1", "DNT: 0", "DNT: 1", "TE: trailers", "Pragma: no-cache",
    "Connection: keep-alive", "Connection: Keep-Alive", "Connection: close"].map ascii ++
  enumeratedLines "Cache-Control: " ["no-cache", "no-store", "max-age=0"] "" ++
  ["Accept: */*", "Accept-Encoding: gzip", "Accept-Encoding: gzip, deflate",
    "Accept-Encoding: gzip, deflate, br", "Accept-Encoding: gzip, deflate, br, zstd",
    "Accept-Encoding: identity"].map ascii

def underscoreFramingNames : List Bytes := ["content_length", "transfer_encoding"].map ascii

/-- The pair a field line stands for: the name in lower case and the value without the blanks
around it. -/
def fieldPair (line : Bytes) : Bytes × Bytes :=
  let (key,_,value) := partition 58 line
  (lower key,strip isBlank value)

def defaultLines : List (Bytes × (Bytes × Bytes)) :=
  specEnumeratedLines.map fun line => (line,fieldPair line)

def lineCacheMax : ℕ := 64

def lineCacheMaxLine : ℕ := 1024

def lineCacheMaxBytes : ℕ := 8192

/-- The lines a connection has already validated, with the octets spent on them. -/
structure LineCache where
  entries : List (Bytes × (Bytes × Bytes)) := []
  bytes : ℕ := 0

namespace LineCache

def find (cache : LineCache) (line : Bytes) : Option (Bytes × Bytes) :=
  (cache.entries.find? fun entry => entry.1=line).map Prod.snd

/-- `cache[line] = pair`: a line that is there already keeps its place. -/
def insert (cache : LineCache) (line : Bytes) (pair : Bytes × Bytes) : LineCache where
  entries :=
    if cache.entries.any fun entry => entry.1=line then
      cache.entries.map fun entry => if entry.1=line then (line,pair) else entry
    else cache.entries++[(line,pair)]
  bytes := cache.bytes+line.length

def remember (cache : LineCache) (line : Bytes) (pair : Bytes × Bytes) : LineCache :=
  if line.length≤lineCacheMaxLine ∧ cache.entries.length<lineCacheMax ∧
      cache.bytes+line.length≤lineCacheMaxBytes then
    cache.insert line pair
  else cache

end LineCache

/-- The hit a line finds in the cache of its connection or in the shared table. -/
def lookupLine (doLookup : Bool) (cache : LineCache) (line : Bytes) : Option (Bytes × Bytes) :=
  if line.length≤lineCacheMaxLine then
    match if doLookup then cache.find line else none with
    | some pair => some pair
    | none => (defaultLines.find? fun entry => entry.1=line).map Prod.snd
  else none

/-- A Content-Length value: one space at most, then a decimal without leading zeros. -/
def clStrict (value : Bytes) : Bool :=
  let digits := match value with
    | 32::rest => rest
    | _ => value
  match digits with
  | [] => false
  | b::rest => (b=48 && rest.isEmpty) || (49≤b && b≤57 && rest.all isDigit)

def checkFieldLine (valuesNeedChecking : Bool) (line : Bytes) :
    Except ParseError (Bytes × Bytes) :=
  let (key,colon,value) := partition 58 line
  if line.head?.any isBlank then
    .error (.badRequest ("obsolete line folding rejected: " ++ reprBytes line))
  else if !colon || key.isEmpty then
    .error (.badRequest ("malformed header line: " ++ reprBytes line))
  else if !key.all isTchar then
    if key.getLast?.any isBlank then
      .error (.badRequest ("whitespace before colon (smuggling vector): " ++ reprBytes line))
    else .error (.badRequest ("invalid header name " ++ reprBytes key))
  else if lower key∈underscoreFramingNames then
    .error (.badRequest ("framing-confusable header name " ++ reprBytes key ++
      " (NORM-UNDERSCORE)"))
  else if lower key=ascii "content-length" && !clStrict value then
    .error (.badRequest ("ambiguous Content-Length value " ++ reprBytes value ++
      " (RFC 9110 §8.6)"))
  else if valuesNeedChecking && (strip isBlank value).any isControl then
    .error (.badRequest ("CTL in header value (smuggling / log-injection): " ++ reprBytes key ++
      ": " ++ reprBytes (strip isBlank value)))
  else .ok (fieldPair line)

/-- One field line: replayed from a table, or checked and admitted to the cache. -/
def fieldLine (valuesNeedChecking doLookup : Bool) (line : Bytes) :
    EStateM ParseError LineCache (Bytes × Bytes) := do
  match lookupLine doLookup (← get) line with
  | some pair => pure pair
  | none =>
    match checkFieldLine valuesNeedChecking line with
    | .error e => throw e
    | .ok pair =>
      modify (·.remember line pair)
      pure pair

def fieldLines (valuesNeedChecking doLookup : Bool) :
    List Bytes → EStateM ParseError LineCache HeaderList
  | [] => pure []
  | line::lines =>
    if line.isEmpty then fieldLines valuesNeedChecking doLookup lines
    else do
      let pair ← fieldLine valuesNeedChecking doLookup line
      let raw ← fieldLines valuesNeedChecking doLookup lines
      pure (pair::raw)

end HeadParser
end BlackBull
