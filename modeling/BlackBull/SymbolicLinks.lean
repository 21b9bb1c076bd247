import BlackBull.ByteString
import BlackBull.OrderedDict

/-!
# Paths and symbolic links

A file system is the tree of its entries. The kernel walks a path one name after another and follows
at most forty symbolic links. `posixpath.realpath`, as it is before Python 3.13, walks it on its
own, and at a link that leads back to itself it returns the rest of the path unresolved.
-/

namespace BlackBull.Posix

open ByteString

abbrev Name := Bytes

def slash : UInt8 := 47

def curdir : Name := [46]

def pardir : Name := [46,46]

def names (path : Bytes) : List Name := splitByte slash path

def render : List Name → Bytes
  | [] => [slash]
  | path => path.flatMap (slash :: ·)

/-- The text of the rest of a path. -/
def text (rest : List Name) : Bytes := [slash].intercalate rest

/-- `posixpath.join(path, rest)`. -/
def join (path rest : Bytes) : Bytes :=
  if startsWith rest [slash] then rest
  else if path=[] ∨ endsWith path [slash] then path++rest
  else path++slash::rest

inductive Node
  | directory
  | file (modified : ℕ) (content : Bytes)
  | link (target : Bytes)
  deriving DecidableEq

/-- What stands at each path below the root directory. -/
structure FileSystem where
  entries : Dict (List Name) Node

namespace FileSystem

variable (fs : FileSystem)

def lookup (path : List Name) : Option Node :=
  if path=[] then some .directory else fs.entries.get? path

def start (path : List Name) (target : Bytes) : List Name :=
  if startsWith target [slash] then [] else path

/-- Walks up to the end of the path or to the next link; the names still to be walked. -/
def advance : List Name → List Name → Option (List Name × List Name)
  | path,[] => some (path,[])
  | path,name::rest =>
    if fs.lookup path=some .directory then
      if name=[] ∨ name=curdir then advance path rest
      else if name=pardir then advance path.dropLast rest
      else
        match fs.lookup (path++[name]) with
        | none => none
        | some (.link target) => some (start path target,names target++rest)
        | some _ => advance (path++[name]) rest
    else none

def resolveFrom (links : ℕ) (path rest : List Name) : Option (List Name) :=
  match fs.advance path rest with
  | none => none
  | some (path,[]) => some path
  | some (path,name::rest) =>
    match links with
    | 0 => none
    | links+1 => resolveFrom links path (name::rest)

def maxLinks : ℕ := 40

/-- The place an absolute path leads to. -/
def resolve (path : Bytes) : Option (List Name) := fs.resolveFrom maxLinks [] (names path)

def stat (path : Bytes) : Option Node := (fs.resolve path).bind fs.lookup

def isfile (path : Bytes) : Bool :=
  match fs.stat path with
  | some (.file _ _) => true
  | _ => false

def isdir (path : Bytes) : Bool := fs.stat path=some .directory

/-- `os.lstat` of a name below a path; a link is not followed. -/
def lstat (path : List Name) (name : Name) : Option Node :=
  match fs.resolveFrom maxLinks [] path with
  | some parent =>
    if fs.lookup parent=some .directory then fs.lookup (parent++[name]) else none
  | none => none

/-- Why the walk ends early: at a link that leads back to itself, with the path as it stands, or
with the `ValueError` of a name that holds a null. -/
inductive Stop
  | loop (path : Bytes)
  | embeddedNull
  deriving DecidableEq

/-- The links that were met; `none` while a link is being resolved. -/
abbrev Seen := Dict (List Name) (Option (List Name))

/-- `_joinrealpath`, with the call that resolves a link. -/
def joinWith (follow : List Name → List Name → Seen → Except Stop (List Name × Seen)) :
    List Name → List Name → Seen → Except Stop (List Name × Seen)
  | path,[],seen => .ok (path,seen)
  | path,name::rest,seen =>
    if name=[] ∨ name=curdir then joinWith follow path rest seen
    else if name=pardir then joinWith follow path.dropLast rest seen
    else if 0∈name then .error .embeddedNull
    else
      match fs.lstat path name with
      | some (.link target) =>
        match seen.get? (path++[name]) with
        | some (some resolved) => joinWith follow resolved rest seen
        | some none => .error (.loop (join (render (path++[name])) (text rest)))
        | none =>
          match follow (start path target) (names target) (seen.set (path++[name]) none) with
          | .ok (resolved,seen) =>
            joinWith follow resolved rest (seen.set (path++[name]) (some resolved))
          | .error (.loop unresolved) => .error (.loop (join unresolved (text rest)))
          | .error .embeddedNull => .error .embeddedNull
      | _ => joinWith follow (path++[name]) rest seen

/-- Links within links, to a depth. -/
def joinRealpath : ℕ → List Name → List Name → Seen → Except Stop (List Name × Seen)
  | 0 => fs.joinWith fun path rest _ => .error (.loop (join (render path) (text rest)))
  | depth+1 => fs.joinWith (joinRealpath depth)

/-- An absolute path without detours: its names, after one slash or two. -/
structure Normal where
  doubled : Bool
  path : List Name
  deriving DecidableEq

def Normal.text (normal : Normal) : Bytes :=
  if normal.doubled then slash::render normal.path else render normal.path

/-- `normpath` of an absolute path. Of the slashes it begins with, two are kept, but not more. -/
def normpath (path : Bytes) : Normal where
  doubled := startsWith path [slash,slash] && !startsWith path [slash,slash,slash]
  path := (names path).foldl (fun path name =>
    if name=[] ∨ name=curdir then path
    else if name=pardir then path.dropLast else path++[name]) []

/-- The walk of `realpath`. Every link within a link is another one, so the depth suffices. -/
def walk (path : Bytes) : Except Stop (List Name × Seen) :=
  fs.joinRealpath fs.entries.length [] (names path) []

/-- `posixpath.realpath` of an absolute path, none for the `ValueError`. -/
def realpath (path : Bytes) : Option Normal :=
  match fs.walk path with
  | .ok (path,_) => some ⟨false,path⟩
  | .error (.loop path) => some (normpath path)
  | .error .embeddedNull => none

def loops (path : Bytes) : Bool :=
  match fs.walk path with
  | .error (.loop _) => true
  | _ => false

section Walks

variable {fs : FileSystem} {n : ℕ} {path q : List Name} {name : Name}

theorem names_ne_nil (text : Bytes) : names text≠[] := splitByte_ne_nil slash text

/-- A walk of two parts comes to the second where the first ends, or to a link in the first. -/
theorem advance_append (fs : FileSystem) (path a l : List Name) :
    fs.advance path (a++l)=match fs.advance path a with
      | none => none
      | some (path,[]) => fs.advance path l
      | some (path,name::rest) => some (path,name::rest++l) := by
  induction a generalizing path with
  | nil => rfl
  | cons name a ih =>
    rw [List.cons_append,advance,advance]
    split_ifs
    · exact ih path
    · exact ih path.dropLast
    · cases fs.lookup (path++[name]) with
      | none => rfl
      | some node =>
        cases node with
        | directory | file m content => exact ih (path++[name])
        | link t =>
          obtain ⟨first,rest,ht⟩ := List.exists_cons_of_ne_nil (names_ne_nil t)
          simp [ht]
    · rfl

theorem resolveFrom_append {a l : List Name} (h : fs.resolveFrom n path (a++l)=some q) :
    ∃ k mid,fs.resolveFrom n path a=some mid ∧ fs.resolveFrom k mid l=some q := by
  induction n generalizing path a with
  | zero =>
    rw [resolveFrom,advance_append] at h
    rw [resolveFrom]
    generalize fs.advance path a=walked at h ⊢
    rcases walked with _ | ⟨mid,_ | ⟨name,rest⟩⟩
    · cases h
    · exact ⟨0,mid,rfl,by rw [resolveFrom]; exact h⟩
    · cases h
  | succ n ih =>
    rw [resolveFrom,advance_append] at h
    rw [resolveFrom]
    generalize fs.advance path a=walked at h ⊢
    rcases walked with _ | ⟨mid,_ | ⟨name,rest⟩⟩
    · cases h
    · exact ⟨n+1,mid,rfl,by rw [resolveFrom]; exact h⟩
    · exact ih h

theorem resolveFrom_concat (hp : ¬ (name=[] ∨ name=curdir)) (hc : name≠pardir)
    (h : fs.resolveFrom n [] (path++[name])=some q) :
    ∃ pr node,fs.resolveFrom n [] path=some pr ∧
      fs.lookup pr=some .directory ∧ fs.lookup (pr++[name])=some node ∧
      ((∀ t,node≠.link t) → q=pr++[name]) := by
  obtain ⟨k,pr,hpr,hq⟩ := resolveFrom_append h
  rw [resolveFrom.eq_def,advance,if_neg hp,if_neg hc] at hq
  split_ifs at hq with hd
  cases hn : fs.lookup (pr++[name]) with
  | none => simp [hn] at hq
  | some node =>
    refine ⟨pr,node,hpr,hd,hn,fun hl => ?_⟩
    cases node with
    | link t => exact absurd rfl (hl t)
    | directory | file m content => simpa [hn,advance,eq_comm] using hq

end Walks

end FileSystem
end BlackBull.Posix
