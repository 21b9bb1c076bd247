import BlackBull.RouteTrie
import BlackBull.TransitionRuns

/-!
# The lookup cache of the router

`Router` remembers what a lookup found in a `_LookupCache` that every registration clears. The
entries agree with the table of routes; their number keeps to `cache_max` unless a lower limit is
set later.
-/

namespace BlackBull.Routing

structure Key (μ : Type) where
  path : Text
  method : μ
  scheme : Scheme
  deriving DecidableEq

/-- What a lookup raises. -/
inductive Miss (μ : Type) where
  | methodNotApplicable (allowed : Finset μ)
  | pathNotRegistered (path : Text)

/-- The key and the value of `__setitem__`: a string path, or a `re.Pattern`. -/
inductive Assignment (η μ π : Type) where
  | path (registration : Registration η μ)
  | pattern (pattern : π) (methods : List μ) (scheme : SchemeKey) (handler : η)

/-- What the converters, the patterns and the checks of a registration say. -/
structure Texts (η μ ν π : Type) where
  converters : Converters ν
  groups : π → Text → Option (Params ν)
  refuses : Assignment η μ π → Bool

structure Router (η μ ν π : Type) where
  trie : RouteTrie η μ := {}
  rawRegex : Dict (π × List μ × SchemeKey) η := []
  frozen : Bool := false
  cacheMax : ℤ := 2048
  store : Dict (Key μ) (η × Params ν) := []

inductive Operation (η μ π : Type) where
  | register (route : Assignment η μ π)
  | freeze
  | retune (cacheMax : ℤ)
  | lookup (key : Key μ)

variable {η μ ν π : Type} [DecidableEq μ] (texts : Texts η μ ν π)

/-- The scan of the raw patterns in `_resolve`, with the methods allowed so far. -/
def scanRegex (key : Key μ) :
    Dict (π × List μ × SchemeKey) η → Finset μ → Except (Miss μ) (η × Params ν)
  | [],allowed =>
    .error (if allowed = ∅ then .pathNotRegistered key.path else .methodNotApplicable allowed)
  | ((pattern,methods,scheme),handler)::rest,allowed =>
    match texts.groups pattern key.path with
    | none => scanRegex key rest allowed
    | some groups =>
      if !routeSchemeMatches key.scheme scheme then scanRegex key rest allowed
      else if methods.contains key.method then .ok (handler,groups)
      else scanRegex key rest (allowed ∪ methods.toFinset)

namespace Router

def resolve (r : Router η μ ν π) (key : Key μ) : Except (Miss μ) (η × Params ν) :=
  let found := r.trie.lookup texts.converters key.method key.scheme key.path
  match found.handler with
  | some handler => .ok (handler,found.params)
  | none => scanRegex texts key r.rawRegex found.allowed

def cacheGet (r : Router η μ ν π) (key : Key μ) : Option (η × Params ν) × Router η μ ν π :=
  match r.store.get? key with
  | some result =>
    (some result,if r.cacheMax≤r.store.length then
      {r with store:=r.store.moveToEnd key} else r)
  | none => (none,r)

def cacheSet (r : Router η μ ν π) (key : Key μ) (result : η × Params ν) : Router η μ ν π :=
  if r.cacheMax≤0 then r
  else
    let store := if r.cacheMax≤r.store.length then r.store.tail else r.store
    {r with store:=Dict.set store key result}

def getItem (r : Router η μ ν π) (key : Key μ) :
    Except (Miss μ) (η × Params ν) × Router η μ ν π :=
  match r.cacheGet key with
  | (some result,r) => (.ok result,r)
  | (none,r) =>
    match r.resolve texts key with
    | .ok result => (.ok result,r.cacheSet key result)
    | .error miss => (.error miss,r)

section Registering

variable [DecidableEq π]

/-- The router `__setitem__` leaves, also when it raises: nothing happens to a frozen one, and
the checks come after the cache is cleared. -/
def setItem (r : Router η μ ν π) (route : Assignment η μ π) : Router η μ ν π :=
  if r.frozen then r
  else if texts.refuses route then {r with store:=[]}
  else
    match route with
    | .path registration => {r with store:=[],trie:=(r.trie.insert registration).1}
    | .pattern pattern methods scheme handler =>
      {r with store:=[],rawRegex:=r.rawRegex.set (pattern,methods,scheme) handler}

def step (r : Router η μ ν π) : Operation η μ π → Router η μ ν π
  | .register route => r.setItem texts route
  | .freeze => {r with frozen:=true}
  | .retune cacheMax => {r with cacheMax:=cacheMax}
  | .lookup key => (r.getItem texts key).2

end Registering

/-- A lookup answers as the table of routes does. -/
def Answers (r : Router η μ ν π) (operation : Operation η μ π) : Prop :=
  ∀ key,operation=.lookup key → (r.getItem texts key).1=r.resolve texts key

def Fits (r : Router η μ ν π) : Prop := (r.store.length : ℤ) ≤ max r.cacheMax 0

/-- A lookup leaves no more entries than the limit. -/
def Bounded (r : Router η μ ν π) (operation : Operation η μ π) : Prop :=
  ∀ key,operation=.lookup key → (r.getItem texts key).2.Fits

/-- A lookup finds no more entries than the limit. -/
def Roomy (r : Router η μ ν π) (operation : Operation η μ π) : Prop :=
  ∀ key,operation=.lookup key → r.Fits

/-- One entry for a key, and each is what the table of routes says. -/
structure Fresh (r : Router η μ ν π) : Prop where
  keys : (r.store.map Prod.fst).Nodup
  agree : ∀ item∈r.store,r.resolve texts item.1=.ok item.2

variable {texts} {r : Router η μ ν π}

theorem Fresh.of_nil (h : r.store=[]) : Fresh texts r := ⟨by simp [h],by simp [h]⟩

theorem Fresh.cacheSet {key : Key μ} {res : η × Params ν} (h : Fresh texts r)
    (hr : r.resolve texts key=.ok res) : Fresh texts (r.cacheSet key res) := by
  unfold Router.cacheSet
  split
  · exact h
  · dsimp only
    generalize hst : (if r.cacheMax≤r.store.length then r.store.tail else r.store)=store
    have hsub : store.Sublist r.store := by
      rw [← hst]
      split
      · exact List.tail_sublist r.store
      · exact .refl _
    refine ⟨Dict.nodup_set key res (h.keys.sublist (hsub.map Prod.fst)),fun i hi => ?_⟩
    rcases Dict.mem_set hi with rfl | hi
    · exact hr
    · exact h.agree i (hsub.subset hi)

/-- A new entry takes the place of the oldest one when the cache is full. -/
theorem fits_cacheSet {key : Key μ} (res : η × Params ν) (hn : r.store.get? key=none) :
    (r.cacheSet key res).Fits ↔ r.Fits := by
  unfold Router.cacheSet Fits
  split
  · rfl
  · next hpos =>
    have hlen (store : Dict (Key μ) (η × Params ν)) (h : store.get? key=none) :
        (store.set key res).length=store.length+1 := by
      simp [Dict.set_of_get?_eq_none res h]
    dsimp only
    split
    · next hfull =>
      have ht : Dict.get? r.store.tail key=none := by
        by_contra hne
        simpa [hn] using Dict.isSome_get?_of_tail (Option.isSome_iff_ne_none.mpr hne)
      rw [hlen _ ht,List.length_tail]
      omega
    · next hroom =>
      rw [hlen _ hn]
      omega

theorem getItem_spec (h : Fresh texts r) (key : Key μ) :
    (r.getItem texts key).1=r.resolve texts key ∧ Fresh texts (r.getItem texts key).2 ∧
      ((r.getItem texts key).2.Fits ↔ r.Fits) := by
  unfold getItem cacheGet
  cases hg : r.store.get? key with
  | some res =>
    have hp := Dict.moveToEnd_perm key h.keys
    refine ⟨(h.agree _ (Dict.mem_of_get? hg)).symm,?_⟩
    dsimp only
    split
    · refine ⟨⟨(hp.map Prod.fst).nodup_iff.mpr h.keys,fun i hi => ?_⟩,?_⟩
      · exact h.agree i (hp.subset hi)
      · rw [Fits,hp.length_eq,Fits]
    · exact ⟨h,.rfl⟩
  | none =>
    dsimp only
    cases hr : r.resolve texts key with
    | ok res => exact ⟨rfl,h.cacheSet hr,fits_cacheSet res hg⟩
    | error m => exact ⟨rfl,h,.rfl⟩

theorem fresh_step [DecidableEq π] (h : Fresh texts r) (o : Operation η μ π) :
    Fresh texts (r.step texts o) := by
  cases o with
  | register route =>
    unfold step setItem
    dsimp only
    split_ifs
    · exact h
    · exact .of_nil rfl
    · cases route <;> exact .of_nil rfl
  | freeze | retune cm => exact ⟨h.keys,h.agree⟩
  | lookup key => exact (getItem_spec h key).2.1

theorem cached_run [DecidableEq π] (h : Fresh texts r) (ope : List (Operation η μ π)) :
    Along (step texts) (Answers texts) r ope ∧ (Along (step texts) (Bounded texts) r ope ↔
        Along (step texts) Roomy r ope) := by
  induction ope generalizing r with
  | nil => simp
  | cons o ope ih =>
    obtain ⟨ha,hb⟩ := ih (fresh_step h o)
    refine ⟨⟨fun key _ => (getItem_spec h key).1,ha⟩,and_congr ?_ hb⟩
    exact forall₂_congr fun key _ => (getItem_spec h key).2.2

end Router

/-- The route cache is transparent, and it keeps to its limit exactly as long as no lookup finds
it over the limit. -/
theorem route_cache_transparent_iff [DecidableEq π] (texts : Texts η μ ν π) (cacheMax : ℤ)
    (operations : List (Operation η μ π)) :
    Along (Router.step texts) (Router.Answers texts) {cacheMax} operations ∧
      (Along (Router.step texts) (Router.Bounded texts) {cacheMax} operations ↔
        Along (Router.step texts) Router.Roomy {cacheMax} operations) :=
  Router.cached_run (.of_nil rfl) operations

def plainTexts : Texts ℕ ℕ Text ℕ where
  converters := ⟨id,some,some⟩
  groups _ _ := none
  refuses _ := false

def getRoot (path : String) : Key ℕ := ⟨path.toList,0,.http⟩

/-- Two entries are held when the limit goes down to one, and a lookup leaves both. -/
theorem lowered_limit_exceeded :
    ¬ Along (Router.step plainTexts) (Router.Bounded plainTexts) {cacheMax:=2}
      [.register (.path ⟨"/a".toList,[0],.any,1⟩),.register (.path ⟨"/b".toList,[0],.any,2⟩),
        .lookup (getRoot "/a"),.lookup (getRoot "/b"),.retune 1,.lookup (getRoot "/a")] := by
  rintro ⟨-,-,-,-,-,h,-⟩
  exact absurd (h _ rfl) (by unfold Router.Fits; decide +kernel)

end BlackBull.Routing
