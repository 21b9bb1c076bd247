import BlackBull.RouteEntries

/-!
# The branches of a walk

The edges that a path may take through a trie, in the order in which they are tried, each with the
texts captured on the way. The walk with the stack stops at the first entry that accepts; the
recursive walk does the same, and when none accepts it has gone through all of them.
-/

namespace BlackBull.Routing

variable {η μ ν : Type}

/-- The ways through the segments with what they capture, static before parameter before
wildcard. -/
def branches : List Text → List (List Edge × List Text)
  | [] => [([],[])]
  | segment::rest =>
    (branches rest).map (Prod.map (Edge.static segment :: ·) id) ++
      (branches rest).map (Prod.map (Edge.param :: ·) (segment :: ·)) ++
        [([.wildcard],[joined (segment::rest)])]

theorem head?_branches (s : List Text) : (branches s).head? = some (s.map Edge.static,[]) := by
  induction s with
  | nil => rfl
  | cons seg rest ih =>
    obtain ⟨o,ho⟩ := List.head?_eq_some_iff.mp ih
    simp [branches,ho]

section Walks

variable [DecidableEq μ] (converters : Converters ν) (method : μ) (scheme : Scheme)

/-- The first entry that accepts, over all ways from a frame on. -/
def searchFrame (frame : Frame η μ) : Option (η × Params ν) :=
  (branches frame.remaining).findSome? fun branch =>
    matchEntries converters method scheme (frame.node.entriesAt branch.1)
      (frame.caps++branch.2)

variable {converters method scheme}

theorem matchEntries_nil (c : List Text) :
    matchEntries converters method scheme ([] : List (Entry η μ)) c=none := rfl

variable (n : TrieNode η μ)

theorem searchFrame_nil (c : List Text) : searchFrame converters method scheme ⟨n,[],c⟩ =
      matchEntries converters method scheme n.entries c := by
  simp [searchFrame,branches,TrieNode.entriesAt]

/-- One segment further: the static child, then the parameter, then the wildcard. -/
theorem searchFrame_cons (seg : Text) (r cp : List Text) :
    searchFrame converters method scheme ⟨n,seg::r,cp⟩=((n.child? seg).bind fun c =>
          searchFrame converters method scheme ⟨c,r,cp⟩).or ((n.paramChild.bind fun c =>
          searchFrame converters method scheme ⟨c,r,cp++[seg]⟩).or
        (n.wildcardChild.bind fun c => searchFrame converters method scheme
            ⟨c,[],cp++[joined (seg::r)]⟩)) := by
  have hb (e : Edge) (g : List Text → List Text) (o : Option (TrieNode η μ)) (cp' : List Text)
      (hg : ∀ c,cp++g c=cp'++c)
      (hn : ∀ p,n.entriesAt (e::p)=(o.map (·.entriesAt p)).getD []) :
      ((branches r).map (Prod.map (e :: ·) g)).findSome?
        (fun b => matchEntries converters method scheme (n.entriesAt b.1) (cp++b.2)) =
      o.bind fun c => searchFrame converters method scheme ⟨c,r,cp'⟩ := by
    rw [List.findSome?_map]
    cases o with
    | none => simp [List.findSome?_eq_none_iff,hn,matchEntries_nil]
    | some c => simp [searchFrame,hn,hg,Function.comp_def]
  have hw : matchEntries converters method scheme (n.entriesAt [.wildcard])
        (cp++[joined (seg::r)]) =
      n.wildcardChild.bind fun c =>
        searchFrame converters method scheme ⟨c,[],cp++[joined (seg::r)]⟩ := by
    cases hc : n.wildcardChild with
    | none => simp [TrieNode.entriesAt,hc,matchEntries_nil]
    | some c => simp [TrieNode.entriesAt,hc,searchFrame_nil]
  rw [← hb (.static seg) id _ cp (fun _ => rfl) fun _ => rfl,
    ← hb .param (seg :: ·) _ (cp++[seg]) (by simp) fun _ => rfl,← hw]
  simp [searchFrame,branches,List.findSome?_append]

theorem findSome?_paramFrames (seg : Text) (r cp : List Text) :
    (n.paramFrames seg r cp).findSome? (searchFrame converters method scheme) =
      n.paramChild.bind fun c =>
        searchFrame converters method scheme ⟨c,r,cp++[seg]⟩ := by
  unfold TrieNode.paramFrames
  cases n.paramChild with
  | none => rfl
  | some c => simp

theorem findSome?_wildcardFrames (r cp : List Text) :
    (n.wildcardFrames r cp).findSome? (searchFrame converters method scheme) =
      n.wildcardChild.bind fun c =>
        searchFrame converters method scheme ⟨c,[],cp++[joined r]⟩ := by
  unfold TrieNode.wildcardFrames
  cases n.wildcardChild with
  | none => rfl
  | some c => simp

theorem findSome?_cons_or {α β : Type} (f : α → Option β) (a : α) (l : List α) :
    (a::l).findSome? f=(f a).or (l.findSome? f) := by
  rw [List.findSome?_cons]
  cases f a <;> rfl

/-- The walk with the stack tries the frames from the top on. -/
theorem walk_eq (f : Frame η μ) (s : List (Frame η μ)) : walk converters method scheme f s =
      (f::s).findSome? (searchFrame converters method scheme) := by
  induction f,s using walk.induct converters method scheme
  all_goals rw [walk.eq_def,findSome?_cons_or]
  case case1 n cp s hit hh => simp only [searchFrame_nil,hh,Option.some_or]
  case case2 n cp hm => simp only [searchFrame_nil,hm,List.findSome?_nil,Option.or_none]
  case case3 n cp hm f s ih => simp only [searchFrame_nil,hm,ih,Option.none_or]
  all_goals rw [searchFrame_cons]
  case case4 n seg rest cp s w c hc ih =>
    simp only [hc,ih,w,findSome?_cons_or,List.findSome?_append,
      findSome?_paramFrames,findSome?_wildcardFrames,Option.bind_some,Option.or_assoc]
  case case5 n seg rest cp s w hc c hp ih =>
    simp only [hc,hp,ih,w,findSome?_cons_or,List.findSome?_append,
      findSome?_wildcardFrames,Option.bind_some,Option.bind_none,Option.none_or,Option.or_assoc]
  case case6 n seg rest cp s hc hp c hw ih =>
    simp only [hc,hp,hw,ih,findSome?_cons_or,Option.bind_some,Option.bind_none,Option.none_or]
  case case7 n seg rest cp hc hp hw =>
    simp only [hc,hp,hw,List.findSome?_nil,Option.bind_none,Option.or_none]
  case case8 n seg rest cp hc hp hw f s ih =>
    simp only [hc,hp,hw,ih,Option.bind_none,Option.none_or]

variable (converters scheme) in
/-- An entry that the scheme and the captures fit, whatever the method. -/
def Entry.Fits (entry : Entry η μ) (caps : List Text) : Prop :=
  routeSchemeMatches scheme entry.scheme=true ∧
    (convertAll converters entry.paramSpecs caps []).isSome=true

variable (converters scheme) in
def AllowedAt (entries : List (Entry η μ)) (caps : List Text) (method : μ) : Prop :=
  ∃ entry∈entries,entry.Fits converters scheme caps ∧ method∈entry.methods

/-- A lookup that found no handler, with the methods that it reports. -/
structure Found.Missed (found : Found η μ ν) (allowed : μ → Prop) : Prop where
  handler_eq : found.handler=none
  params_eq : found.params=[]
  mem_allowed : ∀ method,method∈found.allowed ↔ allowed method

omit [DecidableEq μ] in
theorem Found.Missed.congr {f : Found η μ ν} {a a' : μ → Prop}
    (h : f.Missed a) (heq : ∀ method,a method ↔ a' method) : f.Missed a' :=
  ⟨h.handler_eq,h.params_eq,fun method => (h.mem_allowed method).trans (heq method)⟩

omit [DecidableEq μ] in
theorem Found.Missed.eq {f : Found η μ ν} {a : Finset μ}
    (h : f.Missed fun method => method∈a) : f=⟨none,[],a⟩ := by
  obtain ⟨handler,ps,m⟩ := f
  obtain ⟨rfl,rfl,hm⟩ := h
  obtain rfl : m=a := Finset.ext hm
  rfl

/-- A child that is visited adds its methods; where there is none, there are none to add. -/
theorem Found.Missed.orChild {s : Found η μ ν} {a : μ → Prop}
    (hs : s.Missed a) (c : Option (TrieNode η μ)) {v : TrieNode η μ → Found η μ ν} {m : μ → Prop}
    (hv : ∀ n,c=some n → (v n).Missed m) (hn : c=none → ∀ method,¬ m method) :
    (s.orBranch (c.map v)).Missed fun method => a method ∨ m method := by
  unfold Found.orBranch
  rw [if_neg (by simp [hs.handler_eq])]
  cases c with
  | none => exact hs.congr fun method => by simp [hn rfl method]
  | some n =>
    have hf := hv n rfl
    rw [Option.map_some]
    dsimp only
    rw [if_neg (by simp [hf.handler_eq])]
    refine ⟨hs.handler_eq,hs.params_eq,fun method => ?_⟩
    rw [Finset.mem_union,hs.mem_allowed,hf.mem_allowed]

omit [DecidableEq μ] in
theorem not_allowedAt_nil (c : List Text) (method : μ) :
    ¬ AllowedAt converters scheme ([] : List (Entry η μ)) c method := by
  simp [AllowedAt]

theorem missed_lookupEntries {es : List (Entry η μ)} {c : List Text}
    (h : matchEntries converters method scheme es c=none) (a : Finset μ) :
    (lookupEntries converters method scheme c es a).Missed fun method =>
      method∈a ∨ AllowedAt converters scheme es c method := by
  induction es generalizing a with
  | nil => exact ⟨rfl,rfl,by simp [lookupEntries,AllowedAt]⟩
  | cons e es ih =>
    unfold matchEntries at h
    rw [findSome?_cons_or,Option.or_eq_none_iff] at h
    obtain ⟨he,hen⟩ := h
    unfold lookupEntries
    by_cases hs : routeSchemeMatches scheme e.scheme=true
    · rw [if_pos hs]
      cases hc : convertAll converters e.paramSpecs c [] with
      | none =>
        refine (ih hen a).congr fun method => ?_
        simp [AllowedAt,Entry.Fits,hc]
      | some p =>
        have hm : ¬ e.methods.contains method=true := fun hm => by
          rw [if_pos ⟨hm,hs⟩,hc] at he
          exact absurd he (by simp)
        dsimp only
        rw [if_neg hm]
        refine (ih hen _).congr fun method => ?_
        simp [AllowedAt,Entry.Fits,hc,hs,or_assoc]
    · rw [if_neg hs]
      refine (ih hen a).congr fun method => ?_
      simp [AllowedAt,Entry.Fits,hs]

/-- When no way ends in an entry that accepts, the recursive walk reports the methods of all
entries that fit. -/
theorem missed_lookupFrom {n : TrieNode η μ} {k cp : List Text}
    (h : searchFrame converters method scheme ⟨n,k,cp⟩=none) :
    (lookupFrom converters method scheme n k cp).Missed fun method =>
      ∃ b∈branches k,
        AllowedAt converters scheme (n.entriesAt b.1) (cp++b.2) method := by
  induction k generalizing n cp with
  | nil =>
    rw [searchFrame_nil] at h
    refine (missed_lookupEntries h ∅).congr fun method => ?_
    simp [branches,TrieNode.entriesAt]
  | cons seg rest ih =>
    rw [searchFrame_cons,Option.or_eq_none_iff,Option.or_eq_none_iff] at h
    obtain ⟨hs,hp,hw⟩ := h
    -- What each kind of child adds, one after the other.
    let s (method : μ) : Prop := ∃ b∈branches rest,AllowedAt converters scheme
      (n.entriesAt (.static seg::b.1)) (cp++b.2) method
    let p (method : μ) : Prop := ∃ b∈branches rest,AllowedAt converters scheme
      (n.entriesAt (.param::b.1)) (cp++seg::b.2) method
    let w (method : μ) : Prop := AllowedAt converters scheme
      (n.entriesAt [.wildcard]) (cp++[joined (seg::rest)]) method
    have hm : (⟨none,[],∅⟩ : Found η μ ν).Missed fun _ => False := ⟨rfl,rfl,by simp⟩
    have hst : ∀ c,n.child? seg=some c →
        (lookupFrom converters method scheme c rest cp).Missed s := by
      intro c hc
      rw [hc] at hs
      simpa [s,TrieNode.entriesAt,hc] using ih hs
    have hpa : ∀ c,n.paramChild=some c →
        (lookupFrom converters method scheme c rest (cp++[seg])).Missed p := by
      intro c hc
      rw [hc] at hp
      simpa [p,TrieNode.entriesAt,hc] using ih hp
    have hwi : ∀ c,n.wildcardChild=some c →
        (lookupEntries converters method scheme (cp++[joined (seg::rest)])
          c.entries ∅).Missed w := by
      intro c hc
      rw [hc,Option.bind_some,searchFrame_nil] at hw
      simpa [w,TrieNode.entriesAt,hc] using missed_lookupEntries hw ∅
    have ha := ((hm.orChild _ hst ?noStatic).orChild _ hpa ?noParam).orChild _ hwi ?noWildcard
    · unfold lookupFrom
      refine ha.congr fun method => ?_
      simp [branches,s,p,w,or_and_right,exists_or,or_assoc]
    case noStatic => simp +contextual [s,TrieNode.entriesAt,not_allowedAt_nil]
    case noParam => simp +contextual [p,TrieNode.entriesAt,not_allowedAt_nil]
    case noWildcard => simp +contextual [w,TrieNode.entriesAt,not_allowedAt_nil]

end Walks

end BlackBull.Routing
