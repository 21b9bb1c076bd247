import BlackBull.OrderedDict
import Mathlib.Data.Finset.Lattice.Basic
import Mathlib.Tactic.Linarith

/-!
# The routing trie

`_RouteTrie` of `router.py`: registration, and the lookup with its three ways, the map of the static
paths, the walk with an explicit stack, and the recursive walk that collects the methods allowed. A
reference to a node is the list of the segments that lead to it from the root.
-/

namespace BlackBull.Routing

abbrev Text := List Char

/-- `'/'.join(segments)`. -/
def joined (segments : List Text) : Text := ['/'].intercalate segments

/-- `[s for s in path.split('/') if s]`. -/
def segmentsOf (path : Text) : List Text := (path.splitOn '/').filter (· ≠ [])

inductive Converter where
  | str
  | int
  | uuid
  deriving DecidableEq

/-- What the converters make of a text: `int` and `uuid.UUID` may raise `ValueError`. -/
structure Converters (ν : Type) where
  str : Text → ν
  int : Text → Option ν
  uuid : Text → Option ν

def Converters.convert {ν : Type} (converters : Converters ν) : Converter → Text → Option ν
  | .str,text => some (converters.str text)
  | .int,text => converters.int text
  | .uuid,text => converters.uuid text

/-- `_CONVERTERS.get(spec, (None, str))`. -/
def converterOf (spec : Text) : Converter :=
  if spec = "int".toList then .int else if spec = "uuid".toList then .uuid else .str

structure ParamSpec where
  name : Text
  converter : Converter
  isWildcard : Bool
  deriving DecidableEq

inductive Segment where
  | static (text : Text)
  | param (name : Text) (converter : Converter)
  | wildcard (name : Text)
  deriving DecidableEq

/-- `{name}`, `{name:converter}` and `{name:path}`; all else stands for itself. -/
def parseSegment (text : Text) : Segment :=
  if text.head? = some '{' ∧ text.getLast? = some '}' then
    let inner := text.tail.dropLast
    let name := inner.takeWhile (· ≠ ':')
    let given := (inner.dropWhile (· ≠ ':')).tail
    let spec := if given=[] then "str".toList else given
    if spec = "path".toList then .wildcard name else .param name (converterOf spec)
  else .static text

inductive Scheme where
  | http
  | websocket
  deriving DecidableEq

/-- The schemes a route is registered for; `_ANY_SCHEME` when none was given. -/
inductive SchemeKey where
  | any
  | schemes (values : List Scheme)
  deriving DecidableEq

def routeSchemeMatches (scheme : Scheme) : SchemeKey → Bool
  | .any => true
  | .schemes values => values.contains scheme

variable {η μ ν : Type}

structure Entry (η μ : Type) where
  methods : List μ
  scheme : SchemeKey
  handler : η
  paramSpecs : List ParamSpec

structure TrieNode (η μ : Type) where
  children : List (Text × TrieNode η μ) := []
  paramChild : Option (TrieNode η μ) := none
  wildcardChild : Option (TrieNode η μ) := none
  entries : List (Entry η μ) := []

namespace TrieNode

def child? (node : TrieNode η μ) (segment : Text) : Option (TrieNode η μ) :=
  Dict.get? node.children segment

def append (node : TrieNode η μ) (entry : Entry η μ) : TrieNode η μ :=
  {node with entries:=node.entries++[entry]}

def follow (node : TrieNode η μ) : List Text → Option (TrieNode η μ)
  | [] => some node
  | segment::rest => (node.child? segment).bind fun child => child.follow rest

end TrieNode

structure Registration (η μ : Type) where
  path : Text
  methods : List μ
  scheme : SchemeKey
  handler : η

inductive ConfigurationError where
  | wildcardNotLast (segment path : Text)
  deriving DecidableEq

/-- The loop of `insert` from one node on, with the specs so far; it gives all of them when the
entry stands at the end of the segments, and none when a wildcard took the rest. -/
def insertAt (route : Registration η μ) :
    List Text → List ParamSpec → TrieNode η μ →
      TrieNode η μ × Except ConfigurationError (Option (List ParamSpec))
  | [],specs,node =>
    (node.append ⟨route.methods,route.scheme,route.handler,specs⟩,.ok (some specs))
  | text::rest,specs,node =>
    match parseSegment text with
    | .wildcard name =>
      if rest≠[] then (node,.error (.wildcardNotLast text route.path))
      else
        let entry := ⟨route.methods,route.scheme,route.handler,specs++[⟨name,.str,true⟩]⟩
        ({node with wildcardChild:=some ((node.wildcardChild.getD {}).append entry)},
          .ok none)
    | .param name converter =>
      let inserted := insertAt route rest (specs++[⟨name,converter,false⟩])
        (node.paramChild.getD {})
      ({node with paramChild:=some inserted.1},inserted.2)
    | .static segment =>
      let inserted := insertAt route rest specs ((node.child? segment).getD {})
      ({node with children:=Dict.set node.children segment inserted.1},inserted.2)

structure RouteTrie (η μ : Type) where
  root : TrieNode η μ := {}
  /-- References to the nodes of the static paths. -/
  staticFull : Dict Text (List Text) := []

namespace RouteTrie

/-- `insert`: the trie it leaves, also when it raises. -/
def insert (trie : RouteTrie η μ) (route : Registration η μ) :
    RouteTrie η μ × Except ConfigurationError Unit :=
  let segments := segmentsOf route.path
  let inserted := insertAt route segments [] trie.root
  match inserted.2 with
  | .error e => ({trie with root:=inserted.1},.error e)
  | .ok (some []) =>
    ({ root:=inserted.1,
       staticFull:=(trie.staticFull.set route.path segments).set
         ('/' :: joined segments) segments},.ok ())
  | .ok _ => ({trie with root:=inserted.1},.ok ())

end RouteTrie

abbrev Params (ν : Type) := Dict Text ν

/-- `(handler, params, allowed_methods)`. -/
structure Found (η μ ν : Type) where
  handler : Option η
  params : Params ν
  allowed : Finset μ

/-- A place in the walk: a node, the segments that are left, and the captures. -/
structure Frame (η μ : Type) where
  node : TrieNode η μ
  remaining : List Text
  caps : List Text

/-- A bound on the turns that a frame can take. -/
def Frame.weight (frame : Frame η μ) : ℕ := 4^frame.remaining.length

namespace TrieNode

def paramFrames (node : TrieNode η μ) (segment : Text) (rest caps : List Text) :
    List (Frame η μ) :=
  (node.paramChild.map fun child => ⟨child,rest,caps++[segment]⟩).toList

def wildcardFrames (node : TrieNode η μ) (remaining caps : List Text) : List (Frame η μ) :=
  (node.wildcardChild.map fun child => ⟨child,[],caps++[joined remaining]⟩).toList

theorem weight_paramFrames (n : TrieNode η μ) (seg : Text) (r cp : List Text) :
    ((n.paramFrames seg r cp).map Frame.weight).sum≤4^r.length := by
  unfold paramFrames
  cases n.paramChild with
  | none => simp
  | some c => simp [Frame.weight]

theorem weight_wildcardFrames (n : TrieNode η μ) (r cp : List Text) :
    ((n.wildcardFrames r cp).map Frame.weight).sum≤1 := by
  unfold wildcardFrames
  cases n.wildcardChild with
  | none => simp
  | some c => simp [Frame.weight]

end TrieNode

section Lookup

variable [DecidableEq μ] (converters : Converters ν) (method : μ) (scheme : Scheme)

/-- `{name: conv(caps[j]) for j, (name, conv, _) in enumerate(param_specs)}`, entered into what is
there; nothing when a converter raises. There are as many captures as specs. -/
def convertAll : List ParamSpec → List Text → Params ν → Option (Params ν)
  | [],_,params => some params
  | _::_,[],_ => none
  | spec::specs,text::caps,params =>
    (converters.convert spec.converter text).bind fun value =>
      convertAll specs caps (params.set spec.name value)

/-- `_match_entries`: the first entry that accepts. -/
def matchEntries (entries : List (Entry η μ)) (caps : List Text) : Option (η × Params ν) :=
  entries.findSome? fun entry =>
    if entry.methods.contains method ∧ routeSchemeMatches scheme entry.scheme then
      (convertAll converters entry.paramSpecs caps []).map fun params => (entry.handler,params)
    else none

/-- The `while` loop of `lookup`. The frame at the head of the stack is the one pushed last. -/
def walk : Frame η μ → List (Frame η μ) → Option (η × Params ν)
  | ⟨node,[],caps⟩,stack =>
    match matchEntries converters method scheme node.entries caps with
    | some hit => some hit
    | none =>
      match stack with
      | [] => none
      | frame::stack => walk frame stack
  | ⟨node,segment::rest,caps⟩,stack =>
    let wildcards := node.wildcardFrames (segment::rest) caps
    match node.child? segment with
    | some child =>
      walk ⟨child,rest,caps⟩ (node.paramFrames segment rest caps++wildcards++stack)
    | none =>
      match node.paramChild with
      | some child => walk ⟨child,rest,caps++[segment]⟩ (wildcards++stack)
      | none =>
        match node.wildcardChild with
        | some child => walk ⟨child,[],caps++[joined (segment::rest)]⟩ stack
        | none =>
          match stack with
          | [] => none
          | frame::stack => walk frame stack
termination_by frame stack => ((frame::stack).map Frame.weight).sum
decreasing_by
  · simp [Frame.weight]
  all_goals
    have hone : 1≤4^rest.length := Nat.one_le_pow _ _ (by decide)
    have hparams := node.weight_paramFrames segment rest caps
    have hwildcards := node.weight_wildcardFrames (segment::rest) caps
    simp only [List.map_cons,List.map_append,List.sum_cons,List.sum_append,Frame.weight,
      List.length_cons,List.length_nil,pow_succ,pow_zero] at hparams hwildcards ⊢
    omega

/-- The loop of `_lookup` over the entries at the end of the path. -/
def lookupEntries (caps : List Text) : List (Entry η μ) → Finset μ → Found η μ ν
  | [],allowed => ⟨none,[],allowed⟩
  | entry::entries,allowed =>
    if routeSchemeMatches scheme entry.scheme then
      match convertAll converters entry.paramSpecs caps [] with
      | none => lookupEntries caps entries allowed
      | some params =>
        if entry.methods.contains method then ⟨some entry.handler,params,∅⟩
        else lookupEntries caps entries (allowed ∪ entry.methods.toFinset)
    else lookupEntries caps entries allowed

/-- One branch more: a handler found ends the search, and what a branch allows is added. -/
def Found.orBranch (sofar : Found η μ ν) (branch : Option (Found η μ ν)) : Found η μ ν :=
  if sofar.handler.isSome then sofar
  else
    match branch with
    | none => sofar
    | some found =>
      if found.handler.isSome then {found with allowed:=∅}
      else {sofar with allowed:=sofar.allowed ∪ found.allowed}

/-- `_lookup`: static child, then parameter, then wildcard, with the methods of all of them. -/
def lookupFrom : TrieNode η μ → List Text → List Text → Found η μ ν
  | node,[],caps => lookupEntries converters method scheme caps node.entries ∅
  | node,segment::rest,caps =>
    let miss : Found η μ ν := ⟨none,[],∅⟩
    let static := miss.orBranch ((node.child? segment).map fun child => lookupFrom child rest caps)
    let param := static.orBranch (node.paramChild.map fun child =>
      lookupFrom child rest (caps++[segment]))
    param.orBranch (node.wildcardChild.map fun child =>
      lookupEntries converters method scheme (caps++[joined (segment::rest)]) child.entries ∅)

def requestSegments (path : Text) : List Text :=
  if path=[] ∨ path.getLast? = some '/' ∨ ['/', '/'] <:+: path then segmentsOf path
  else if path.head? = some '/' then (path.splitOn '/').tail
  else path.splitOn '/'

def RouteTrie.lookup (trie : RouteTrie η μ) (path : Text) : Found η μ ν :=
  let static := ((trie.staticFull.get? path).bind trie.root.follow).bind fun node =>
    matchEntries converters method scheme node.entries []
  match static with
  | some hit => ⟨some hit.1,hit.2,∅⟩
  | none =>
    let segments := requestSegments path
    match walk converters method scheme ⟨trie.root,segments,[]⟩ [] with
    | some hit => ⟨some hit.1,hit.2,∅⟩
    | none => lookupFrom converters method scheme trie.root segments []

end Lookup

end BlackBull.Routing
