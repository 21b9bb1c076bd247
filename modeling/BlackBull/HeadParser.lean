import BlackBull.FieldLines

/-!
# Parsing a request head

`HTTP1Actor._parse` and the checks on framing and host it makes on the way. The
parser keeps one thing between requests, the line cache of its connection, which
is the state of the computation.
-/

namespace BlackBull.HeadParser

open ByteString

/-- `repr` of a list of byte strings. -/
def reprList (texts : List Bytes) : String :=
  "[" ++ ", ".intercalate (texts.map reprBytes) ++ "]"

/-- The members of a Content-Length field, each without leading zeros. -/
def contentLengthValues (cls : HeaderList) : Except ParseError (List Bytes) :=
  (cls.flatMap fun pair => splitByte 44 pair.2).mapM fun v =>
    let v := strip isSpace v
    if isdigit v then
      let digits := lstrip (· = 48) v
      .ok (if digits.isEmpty then [48] else digits)
    else .error (.badRequest ("invalid Content-Length value " ++ reprBytes v))

/-- The order `sorted` puts byte strings in. -/
def bytesLe (a b : Bytes) : Bool := !decide (b<a)

def parseInt (digits : Bytes) : Except ParseError ℕ :=
  match int? digits with
  | some n => .ok n
  | none => .error .valueError

def declaredLengthOf (cls : HeaderList) : Except ParseError ℕ :=
  if cls.isEmpty then .ok 0
  else do
    let values := (← contentLengthValues cls).dedup
    match values with
    | [value] => parseInt value
    | _ => .error (.badRequest ("conflicting Content-Length values: " ++
        reprList (values.mergeSort bytesLe)))

/-- The transfer codings a message declares, in order. -/
def transferCodings (tes : HeaderList) : List Bytes :=
  tes.flatMap fun pair => (splitByte 44 pair.2).map fun c => lower (strip isSpace c)

def checkTransferCodings (codings : List Bytes) : Except ParseError Unit :=
  let chunked := ascii "chunked"
  if codings=[chunked] then .ok ()
  else if chunked∉codings then
    .error (.notImplementedFraming ("Transfer-Encoding " ++ reprList codings ++
      " is not implemented"))
  else if codings.getLast? ≠ some chunked ∨ codings.count chunked > 1 then
    .error (.badRequest ("Transfer-Encoding with chunked not the sole final coding: " ++
      reprList codings))
  else
    .error (.notImplementedFraming ("Transfer-Encoding " ++ reprList codings ++
      " applies an unimplemented content coding before chunked"))

/-- Reject the framing fields that are unsafe together; the declared body length otherwise. -/
def validateMessageFraming (headers : Headers) : Except ParseError ℕ := do
  let cls := headers.getlist (ascii "content-length")
  let tes := headers.getlist (ascii "transfer-encoding")
  if !cls.isEmpty && !tes.isEmpty then
    .error (.badRequest
      "Content-Length and Transfer-Encoding both present (smuggling vector)")
  else
    let declared ← declaredLengthOf cls
    if tes.isEmpty then .ok declared
    else
      checkTransferCodings (transferCodings tes)
      .ok declared

/-- The framing fields announce a body that is not empty. -/
def declaresContent (headers : Headers) : Bool :=
  if !(headers.getlist (ascii "transfer-encoding")).isEmpty then true
  else
    let cl := strip isSpace (headers.get (ascii "content-length") [])
    !cl.isEmpty && !(lstrip (· = 48) cl).isEmpty

def hostForbidden (b : UInt8) : Bool := b∈ascii "/?# \t@"

def validateHost (headers : Headers) : Except ParseError Unit :=
  match headers.getlist (ascii "host") with
  | [] => .ok ()
  | [(_,host)] =>
    let value := strip isBlank host
    if value.isEmpty then .error (.badRequest "empty Host header value")
    else if value.any hostForbidden then
      .error (.badRequest ("invalid Host authority " ++ reprBytes value ++
        ": contains delimiter / whitespace forbidden by RFC 3986 §3.2"))
    else .ok ()
  | hosts =>
    .error (.badRequest ("multiple Host headers (" ++ toString hosts.length ++
      " — smuggling vector)"))

/-- The text is UTF-8, so that `decode` accepts it. -/
def isUtf8 : Bytes → Bool
  | [] => true
  | a::rest =>
    if a<128 then isUtf8 rest
    else
      match rest with
      | b::rest =>
        if 194≤a && a≤223 then 128≤b && b≤191 && isUtf8 rest
        else
          match rest with
          | c::rest =>
            if 224≤a && a≤239 then
              (if a=224 then 160 else 128)≤b && b≤(if a=237 then 159 else 191) &&
                128≤c && c≤191 && isUtf8 rest
            else
              match rest with
              | d::rest =>
                240≤a && a≤244 && (if a=240 then 144 else 128)≤b &&
                  b≤(if a=244 then 143 else 191) && 128≤c && c≤191 && 128≤d &&
                  d≤191 && isUtf8 rest
              | [] => false
          | [] => false
      | [] => false

theorem isUtf8_append_cons {b : UInt8} (hb : b<128) (t r : Bytes) :
    isUtf8 (t++b::r)=(isUtf8 t && isUtf8 r) := by
  have hc : decide (128≤b)=false := decide_eq_false (UInt8.not_le.mpr hb)
  have hl (c : Prop) [Decidable c] (lead : UInt8) (h : 128≤lead) :
      decide ((if c then lead else 128)≤b)=false := by
    rw [decide_eq_false_iff_not,UInt8.not_le]
    split_ifs
    · exact UInt8.lt_of_lt_of_le hb h
    · exact hb
  fun_induction isUtf8 t with
  | case1 =>
    rw [List.nil_append,isUtf8.eq_def]
    simp [hb]
  | case2 a t ha ih =>
    rw [List.cons_append,isUtf8.eq_def]
    simp [ha,ih]
  | case3 a ha c t ht ih =>
    rw [List.cons_append,List.cons_append,isUtf8.eq_def]
    simp only [if_neg ha,if_pos ht,ih,Bool.and_assoc]
  | case4 a ha c ht d t hth ih =>
    rw [List.cons_append,List.cons_append,List.cons_append,isUtf8.eq_def]
    simp only [if_neg ha,if_neg ht,if_pos hth,ih,Bool.and_assoc]
  | case5 a ha c ht d hth e t ih =>
    rw [List.cons_append,List.cons_append,List.cons_append,List.cons_append,isUtf8.eq_def]
    simp only [if_neg ha,if_neg ht,if_neg hth,ih,Bool.and_assoc]
  | case6 a ha c ht d hth =>
    rw [List.cons_append,List.cons_append,List.cons_append,List.nil_append,isUtf8.eq_def]
    simp [ha,ht,hth,hc]
  | case7 a ha c ht =>
    rw [List.cons_append,List.cons_append,List.nil_append,isUtf8.eq_def]
    simp only [if_neg ha,if_neg ht,hc]
    cases r <;> simp
  | case8 a ha =>
    rw [List.cons_append,List.nil_append,isUtf8.eq_def]
    simp only [if_neg ha,hc]
    cases r with
    | nil => simp
    | cons c r =>
      have hth := hl (a=224) 160 (by decide)
      have hf := hl (a=240) 144 (by decide)
      cases r <;> simp [hth,hf]

def decodeUtf8 (text : Bytes) : Except ParseError Bytes :=
  if isUtf8 text then .ok text else .error .unicodeDecode

/-- `text.rpartition(sep)`, `none` when the separator does not occur. -/
def rpartition (sep : UInt8) (text : Bytes) : Option (Bytes × Bytes) :=
  match partition sep text.reverse with
  | (after,true,before) => some (before.reverse,after.reverse)
  | (_,false,_) => none

def hostAndPort (host port : Bytes) : Except ParseError (Bytes × ℕ) := do
  let host ← decodeUtf8 host
  let port ← parseInt port
  pure (host,port)

def parseHostHeader (value : Bytes) (defaultPort : ℕ) : Except ParseError (Bytes × ℕ) :=
  match value with
  | 91::inner =>
    match partition 93 inner with
    | (host,true,58::port) =>
      if isdigit port then hostAndPort host port
      else (decodeUtf8 host).map (·,defaultPort)
    | (host,true,_) => (decodeUtf8 host).map (·,defaultPort)
    | (_,false,_) => (decodeUtf8 value).map (·,defaultPort)
  | _ =>
    match rpartition 58 value with
    | some (host,port) =>
      if isdigit port then hostAndPort host port
      else (decodeUtf8 value).map (·,defaultPort)
    | none => (decodeUtf8 value).map (·,defaultPort)

structure RequestLine where
  method : Bytes
  target : Bytes
  version : Bytes

/-- `^HTTP/\d\.\d$`, whose dollar also matches before a final line feed. -/
def httpVersionMatches (version : Bytes) : Bool :=
  match version with
  | 72::84::84::80::47::major::46::minor::rest =>
    isDigit major && isDigit minor && (rest=[] || rest=[10])
  | _ => false

def parseRequestLine (requestLine : Bytes) : Except ParseError RequestLine :=
  match splitByte 32 requestLine with
  | [method,target,version] =>
    if method.isEmpty || !method.all isTchar then
      .error (.badRequest ("invalid method " ++ reprBytes method))
    else if !httpVersionMatches version then
      .error (.badRequest ("invalid HTTP-version " ++ reprBytes version))
    else if (version.drop 5).take 1≠[49] then
      .error (.unsupportedVersion ("HTTP version " ++ reprBytes version ++ " is not supported"))
    else .ok ⟨method,target,version⟩
  | parts =>
    .error (.badRequest ("request line must have exactly 3 SP-separated parts, got " ++
      toString parts.length ++ ": " ++ reprBytes requestLine))

/-- The cut of `target` at its first `://`. -/
def cutScheme : Bytes → Option (Bytes × Bytes)
  | [] => none
  | 58::47::47::rest => some ([],rest)
  | b::rest => (cutScheme rest).map fun (scheme,rest) => (b::scheme,rest)

/-- The parts of an absolute-form target: its authority, and the path that replaces it. -/
def absoluteForm (target : Bytes) : Option (Bytes × Bytes) :=
  match cutScheme target with
  | some (scheme,rest) =>
    if 47∈scheme then none
    else
      match partition 47 rest with
      | (authority,true,path) => some (authority,47::path)
      | (authority,false,_) => some (authority,[47])
  | none => none

/-- What the request target says, in the form the dispatcher wants. -/
structure Target where
  path : Bytes
  authorityOverride : Option Bytes
  asteriskForm : Bool

def targetAllowed (b : UInt8) : Bool := 33≤b && b≤126

def checkTarget (path : Bytes) (authorityOverride : Option Bytes) : Except ParseError Target :=
  if path.isEmpty || !path.all targetAllowed then
    .error (.badRequest ("invalid request-target " ++ reprBytes path))
  else .ok ⟨path,authorityOverride,false⟩

def parseTarget (line : RequestLine) : Except ParseError Target :=
  if line.method=ascii "CONNECT" then
    .error (.notImplementedFraming ("CONNECT (tunneling) is not implemented: " ++
      reprBytes line.target))
  else if line.target=[42] then
    if line.method≠ascii "OPTIONS" then
      .error (.badRequest ("asterisk-form request-target is valid only for OPTIONS, not " ++
        reprBytes line.method))
    else .ok ⟨[42],none,true⟩
  else
    match absoluteForm line.target with
    | some (authority,path) =>
      if authority.isEmpty then
        .error (.badRequest ("absolute-form request-target has empty authority: " ++
          reprBytes path))
      else checkTarget path (some authority)
    | none => checkTarget line.target none

/-- `unquote`, up to the UTF-8 decoding of its result. -/
def unquote : Bytes → Bytes
  | 37::hi::lo::rest =>
    if isHexDigit hi && isHexDigit lo then
      UInt8.ofNat (digitValue hi*16+digitValue lo)::unquote rest
    else 37::unquote (hi::lo::rest)
  | b::rest => b::unquote rest
  | [] => []

structure ParserConfig where
  /-- Zero for no limit. -/
  maxLine : ℕ := 8192
  ssl : Bool := false

inductive ConnType where
  | http
  | websocket
  deriving DecidableEq

/-- The request handed to the application. The path is the octets whose UTF-8 decoding the
application sees. -/
structure Connection where
  type : ConnType
  httpVersion : Bytes
  method : Bytes
  path : Bytes
  rawPath : Bytes
  queryString : Bytes
  headers : Headers
  server : Option (Bytes × ℕ)
  asteriskForm : Bool
  declaredBodyLen : ℕ

/-- For an absolute-form target its own authority replaces any Host field. -/
def overrideHost (authorityOverride : Option Bytes) (raw : HeaderList) : HeaderList :=
  match authorityOverride with
  | none => raw
  | some authority =>
    (raw.filter fun pair => pair.1≠ascii "host")++[(ascii "host",authority)]

/-- The lines from the request line on: one stray empty line before it is skipped. -/
def headLines (data : Bytes) : List Bytes :=
  match splitCrlf data with
  | []::lines => lines
  | lines => lines

def oversizedLine (config : ParserConfig) (data : Bytes) : Option Bytes :=
  if config.maxLine > 0 ∧ data.length > config.maxLine then
    (splitCrlf data).find? fun line => line.length > config.maxLine
  else none

/-- The checks on the fields as a whole, and where the request is addressed to. -/
def validateFields (config : ParserConfig) (version : Bytes) (headers : Headers) :
    Except ParseError (ℕ × Option (Bytes × ℕ)) := do
  if (headers.getlist (ascii "content-type")).length > 1 then
    throw (.badRequest "multiple Content-Type headers")
  let declared ← validateMessageFraming headers
  validateHost headers
  if (headers.getlist (ascii "host")).isEmpty then
    if version≠ascii "HTTP/1.0" then
      throw (.badRequest ("missing Host header on " ++
        String.ofList (version.map fun b => Char.ofNat b.toNat) ++ " request (RFC 9112 §3.2)"))
    else return (declared,none)
  else
    let server ← parseHostHeader (headers.get (ascii "host") []) (if config.ssl then 443 else 80)
    return (declared,some server)

def connectionOf (line : RequestLine) (target : Target) (headers : Headers) (declared : ℕ)
    (server : Option (Bytes × ℕ)) : Connection :=
  let (noFragment,_) := partition 35 target.path
  let (rawPath,_,query) := partition 63 noFragment
  let upgrade := lower (strip isSpace (headers.get (ascii "upgrade") []))
  { type:=if upgrade=ascii "websocket" then .websocket else .http
    httpVersion:=line.version.drop 5
    method:=line.method
    path:=unquote rawPath
    rawPath:=rawPath
    queryString:=query
    headers:=headers
    server:=server
    asteriskForm:=target.asteriskForm
    declaredBodyLen:=declared}

def parse (config : ParserConfig) (data : Bytes) : EStateM ParseError LineCache Connection := do
  match oversizedLine config data with
  | some line =>
    throw (.headerTooLarge ("header line " ++ toString line.length ++
      " bytes > BB_HEADER_MAX_LINE=" ++ toString config.maxLine))
  | none =>
    match headLines data with
    | [] => throw (.badRequest "empty request")
    | requestLine::lines =>
      let line ← MonadExcept.ofExcept (parseRequestLine requestLine)
      let target ← MonadExcept.ofExcept (parseTarget line)
      let cache ← get
      let raw ← fieldLines (!blockValuesAreClean data) (!cache.entries.isEmpty) lines
      let headers := Headers.fromLowered (overrideHost target.authorityOverride raw)
      let (declared,server) ←
        MonadExcept.ofExcept (validateFields config line.version headers)
      pure (connectionOf line target headers declared server)

end BlackBull.HeadParser
