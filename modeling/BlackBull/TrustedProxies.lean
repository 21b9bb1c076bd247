import BlackBull.HeadParser
import BlackBull.OrderedDict

/-!
# Forwarding headers

`TrustedProxy` rewrites the client, the scheme and the mount path of a connection from the headers a
reverse proxy sets, when the direct peer is trusted. Which texts are addresses, which networks hold
them and what `str.lower` does outside ASCII are the environment's.
-/

namespace BlackBull.Proxy

open ByteString HeadParser

/-- `ipaddress.ip_address`, with `none` for a `ValueError`, membership in a network, and
`str.lower`. -/
structure Library (Address Network : Type) where
  ipAddress : Bytes → Option Address
  contains : Network → Address → Bool
  lower : Bytes → Bytes

/-- The characters `str.strip` removes, in UTF-8. -/
def spaces : List Bytes :=
  [[9],[10],[11],[12],[13],[28],[29],[30],[31],[32],[194,133],[194,160],
    [225,154,128],[226,128,128],[226,128,129],[226,128,130],[226,128,131],
    [226,128,132],[226,128,133],[226,128,134],[226,128,135],[226,128,136],
    [226,128,137],[226,128,138],[226,128,168],[226,128,169],[226,128,175],
    [226,129,159],[227,128,128]]

def dropFront (patterns : List Bytes) : ℕ → Bytes → Bytes
  | 0,text => text
  | fuel+1,text =>
    match patterns.find? (·.isPrefixOf text) with
    | none => text
    | some space => dropFront patterns fuel (text.drop space.length)

def lstripText (text : Bytes) : Bytes := dropFront spaces text.length text

def rstripText (text : Bytes) : Bytes :=
  (dropFront (spaces.map List.reverse) text.length text.reverse).reverse

/-- `text.strip()`. -/
def stripText (text : Bytes) : Bytes := rstripText (lstripText text)

inductive ConnType
  | http | websocket | other
deriving DecidableEq

/-- What the middleware reads and writes of a connection. -/
structure Conn where
  type : ConnType
  client : Option (Bytes × ℕ)
  headers : Headers
  scheme : Bytes
  rootPath : Bytes

/-- `(client or [''])[0]`. -/
def Conn.clientIp (conn : Conn) : Bytes := (conn.client.map Prod.fst).getD []

structure UnicodeDecodeError where
  value : Bytes
deriving DecidableEq

def decode (value : Bytes) : Except UnicodeDecodeError Bytes :=
  if isUtf8 value then .ok value else .error ⟨value⟩

section

variable {Address Network : Type} (lib : Library Address Network) (networks : List Network)

/-- The parameters of the leftmost element of a Forwarded value. -/
def parseForwarded (value : Bytes) : Dict Bytes Bytes :=
  (splitByte 59 (partition 44 value).1).foldl
    (fun result part =>
      match partition 61 (stripText part) with
      | (key,true,val) =>
        result.set (lib.lower (stripText key)) (strip (· = 34) (stripText val))
      | (_,false,_) => result) []

def isTrusted (ip : Bytes) : Bool :=
  match lib.ipAddress ip with
  | none => false
  | some address => networks.any (lib.contains · address)

def entries (value : Bytes) : List Bytes := (splitByte 44 value).map stripText

def firstUntrusted (candidates : List Bytes) : Option Bytes :=
  candidates.find? fun candidate => !isTrusted lib networks candidate

/-- The client and the scheme to put on the connection, `none` where it keeps its own. -/
def forwardedOrigin (headers : Headers) :
    Except UnicodeDecodeError (Option Bytes × Option Bytes) := do
  let forwarded ← decode (headers.get (ascii "forwarded") [])
  if !forwarded.isEmpty then
    let parsed := parseForwarded lib forwarded
    pure ((parsed.get? (ascii "for")).map (lstrip (· = 91)),parsed.get? (ascii "proto"))
  else
    let xff ← decode (headers.get (ascii "x-forwarded-for") [])
    let client := if xff.isEmpty then none else firstUntrusted lib networks (entries xff)
    let xfp ← decode (headers.get (ascii "x-forwarded-proto") [])
    pure (client,if xfp.isEmpty then none else some (lib.lower (stripText xfp)))

def trustedProxy (conn : Conn) : Except UnicodeDecodeError Conn := do
  if conn.type=.other then pure conn
  else if !isTrusted lib networks conn.clientIp then pure conn
  else
    let (client,scheme) ← forwardedOrigin lib networks conn.headers
    -- The mount path is honoured behind the same gate.
    let mount ← decode (conn.headers.get (ascii "x-forwarded-prefix") [])
    pure {conn with
      client:=match client with
        | some address => some (address,0)
        | none => conn.client
      scheme:=scheme.getD conn.scheme
      rootPath:=if mount.isEmpty then conn.rootPath else rstrip (· = 47) mount}

end

end BlackBull.Proxy
