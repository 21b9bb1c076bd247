import BlackBull.ByteString

/-!
# The header store

An ordered multi-map of fields. Each field is filed under a key: its name in lower
case, or, for `fromLowered`, the name as it is, which the caller promises is in
lower case already.
-/

namespace BlackBull

open ByteString

abbrev HeaderList := List (Bytes × Bytes)

/-- An entity tag without the mark of a weak one. -/
def strongTag (tag : Bytes) : Bytes := if startsWith tag (ascii "W/") then tag.drop 2 else tag

structure Headers where
  /-- The fields in order, each with the key it is filed under. -/
  entries : List (Bytes × (Bytes × Bytes))

namespace Headers

def ofPairs (pairs : HeaderList) : Headers := ⟨pairs.map fun pair => (lower pair.1,pair)⟩

def fromLowered (pairs : HeaderList) : Headers := ⟨pairs.map fun pair => (pair.1,pair)⟩

def toList (headers : Headers) : HeaderList := headers.entries.map Prod.snd

def lookup (headers : Headers) (key : Bytes) : HeaderList :=
  (headers.entries.filter fun entry => entry.1=key).map Prod.snd

def getlist (headers : Headers) (name : Bytes) : HeaderList :=
  match headers.lookup name with
  | [] => headers.lookup (lower name)
  | pairs => pairs

def get (headers : Headers) (name default : Bytes) : Bytes :=
  match headers.getlist name with
  | [] => default
  | pair::_ => pair.2

def contains (headers : Headers) (name : Bytes) : Bool := !(headers.getlist name).isEmpty

@[simp] theorem toList_fromLowered (ps : HeaderList) : (fromLowered ps).toList=ps := by
  simp [fromLowered,toList,Function.comp_def]

end Headers
end BlackBull
