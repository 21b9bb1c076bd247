import BlackBull.RouteReference
import BlackBull.PathSegments

/-!
# What registration leaves in the trie

A node of the trie is reached by edges. A registration adds one entry, at the edges of its pattern,
and changes the entries nowhere else. So at every place the trie holds the routes of that pattern,
in the order of registration.
-/

namespace BlackBull.Routing

variable {η μ : Type}

inductive Edge where
  | static (segment : Text)
  | param
  | wildcard
  deriving DecidableEq

def Segment.edge : Segment → Edge
  | .static text => .static text
  | .param _ _ => .param
  | .wildcard _ => .wildcard

def Segment.spec? : Segment → Option ParamSpec
  | .static _ => none
  | .param name converter => some ⟨name,converter,false⟩
  | .wildcard name => some ⟨name,.str,true⟩

namespace Route

def edges (route : Route η μ) : List Edge := route.pattern.map Segment.edge

def entry (route : Route η μ) : Entry η μ :=
  ⟨route.methods,route.scheme,route.handler,route.pattern.filterMap Segment.spec?⟩

end Route

namespace TrieNode

def entriesAt : TrieNode η μ → List Edge → List (Entry η μ)
  | node,[] => node.entries
  | node,.static segment::edges =>
    ((node.child? segment).map fun child => child.entriesAt edges).getD []
  | node,.param::edges => (node.paramChild.map fun child => child.entriesAt edges).getD []
  | node,.wildcard::edges => (node.wildcardChild.map fun child => child.entriesAt edges).getD []

theorem entriesAt_empty (e : List Edge) : ({} : TrieNode η μ).entriesAt e=[] := by
  cases e with
  | nil => rfl
  | cons edge e => cases edge <;> rfl

theorem entriesAt_getD (c : Option (TrieNode η μ)) (e : List Edge) :
    (c.getD {}).entriesAt e=(c.map fun c => c.entriesAt e).getD [] := by
  cases c with
  | none => exact entriesAt_empty e
  | some c => rfl

theorem entriesAt_append (node : TrieNode η μ) (e : Entry η μ) (ed : List Edge) :
    (node.append e).entriesAt ed=node.entriesAt ed++if ed=[] then [e] else [] := by
  cases ed with
  | nil => rfl
  | cons edge ed =>
    rw [if_neg (by simp),List.append_nil]
    cases edge <;> rfl

end TrieNode

/-- The entry that a registration makes behind the specs of the segments before. -/
def Registration.entry (registration : Registration η μ) (specs : List ParamSpec) :
    Entry η μ :=
  ⟨registration.methods,registration.scheme,registration.handler,specs⟩

/-- A registration adds one entry at its own place and leaves all others. -/
theorem entriesAt_insertAt (registration : Registration η μ) (t : List Text)
    (s : List ParamSpec) (node : TrieNode η μ) (e : List Edge) :
    (insertAt registration t s node).1.entriesAt e=node.entriesAt e ++
        if wildcardLast (t.map parseSegment) ∧ e=(t.map parseSegment).map Segment.edge then
          [registration.entry (s++(t.map parseSegment).filterMap Segment.spec?)]
        else [] := by
  induction t generalizing s node e with
  | nil => simpa [insertAt,wildcardLast,Registration.entry] using node.entriesAt_append _ e
  | cons text rest ih =>
    unfold insertAt
    cases hs : parseSegment text with
    | static seg =>
      simp only [List.map_cons,hs,wildcardLast,Segment.edge,List.filterMap_cons,Segment.spec?]
      cases e with
      | nil => simp [TrieNode.entriesAt]
      | cons edge e =>
        cases edge with
        | param => simp [TrieNode.entriesAt]
        | wildcard => simp [TrieNode.entriesAt]
        | static o =>
          simp only [TrieNode.entriesAt,TrieNode.child?,Dict.get?_set,List.cons.injEq,
            Edge.static.injEq]
          by_cases ho : seg=o
          · subst ho
            simpa [TrieNode.entriesAt_getD,TrieNode.child?] using ih s ((node.child? seg).getD {}) e
          · simp [ho,Ne.symm ho]
    | param name c =>
      simp only [List.map_cons,hs,wildcardLast,Segment.edge,List.filterMap_cons,Segment.spec?]
      cases e with
      | nil => simp [TrieNode.entriesAt]
      | cons edge e =>
        cases edge with
        | static o => simp [TrieNode.entriesAt,TrieNode.child?]
        | wildcard => simp [TrieNode.entriesAt]
        | param =>
          have hc := ih (s++[⟨name,c,false⟩]) (node.paramChild.getD {}) e
          rw [List.append_assoc,List.singleton_append,TrieNode.entriesAt_getD] at hc
          simpa [TrieNode.entriesAt] using hc
    | wildcard name =>
      simp only [List.map_cons,hs,wildcardLast,Segment.edge,List.filterMap_cons,Segment.spec?]
      by_cases hr : rest=[]
      · subst hr
        cases e with
        | nil => simp [TrieNode.entriesAt]
        | cons edge e =>
          cases edge with
          | static o => simp [TrieNode.entriesAt,TrieNode.child?]
          | param => simp [TrieNode.entriesAt]
          | wildcard =>
            simp [TrieNode.entriesAt,TrieNode.entriesAt_append,TrieNode.entriesAt_getD,
              Registration.entry]
      · simp [hr]

theorem parseSegment_static {t seg : Text} (h : parseSegment t=.static seg) : seg=t := by
  unfold parseSegment at h
  dsimp only at h
  split_ifs at h
  exact (Segment.static.inj h).symm

variable {registration : Registration η μ} {tx : List Text} {sp : List ParamSpec}
  {n : TrieNode η μ}

theorem isSome_follow_insertAt {s : List Text} (h : (n.follow s).isSome=true) :
    ((insertAt registration tx sp n).1.follow s).isSome=true := by
  induction tx generalizing s sp n with
  | nil =>
    cases s with
    | nil => rfl
    | cons seg s => exact h
  | cons text rest ih =>
    cases s with
    | nil => rfl
    | cons a s =>
      unfold insertAt
      split
      · split
        · exact h
        · exact h
      · exact h
      · rename_i seg hs
        simp only [TrieNode.follow,TrieNode.child?,Dict.get?_set] at h ⊢
        by_cases hf : seg=a
        · subst hf
          obtain ⟨c,hc⟩ : ∃ c,Dict.get? n.children seg=some c := by
            cases hc : Dict.get? n.children seg with
            | none =>
              rw [hc] at h
              exact absurd h (by simp)
            | some c => exact ⟨c,rfl⟩
          rw [hc] at h ⊢
          simpa using ih h
        · simpa [hf] using h

theorem specs_of_insertAt {s' : List ParamSpec}
    (h : (insertAt registration tx sp n).2=.ok (some s')) : sp.length ≤ s'.length := by
  induction tx generalizing sp n with
  | nil =>
    obtain rfl := Option.some.inj (Except.ok.inj h)
    exact le_rfl
  | cons text rest ih =>
    unfold insertAt at h
    split at h
    · split at h <;> simp at h
    · have hl := ih h
      rw [List.length_append,List.length_singleton] at hl
      omega
    · exact ih h

/-- An entry without specs stands where the segments of its path lead to. -/
theorem isSome_follow_of_static (h : (insertAt registration tx sp n).2=.ok (some [])) :
    ((insertAt registration tx sp n).1.follow tx).isSome=true := by
  induction tx generalizing sp n with
  | nil => rfl
  | cons text rest ih =>
    unfold insertAt at h ⊢
    split at h
    · split at h <;> simp at h
    · have hl := specs_of_insertAt h
      simp at hl
    · rename_i seg hs
      obtain rfl := parseSegment_static hs
      simpa [TrieNode.follow,TrieNode.child?,Dict.get?_set] using ih h

namespace RouteTrie

def register (registrations : List (Registration η μ)) : RouteTrie η μ :=
  registrations.foldl (fun trie registration => (trie.insert registration).1) {}

variable (rg : List (Registration η μ))

theorem register_append (registration : Registration η μ) :
    register (rg++[registration]) =
      ((register rg).insert registration).1 := by
  simp [register]

theorem root_insert (t : RouteTrie η μ) (registration : Registration η μ) :
    (t.insert registration).1.root =
      (insertAt registration (segmentsOf registration.path) [] t.root).1 := by
  unfold insert
  dsimp only
  split <;> rfl

theorem entriesAt_insert (t : RouteTrie η μ) (registration : Registration η μ) (e : List Edge) :
    (t.insert registration).1.root.entriesAt e=t.root.entriesAt e ++
      (registration.route?.toList.filter (·.edges=e)).map Route.entry := by
  rw [root_insert,entriesAt_insertAt]
  congr 1
  unfold Registration.route?
  dsimp only
  by_cases hl : wildcardLast ((segmentsOf registration.path).map parseSegment)=true
  · rw [if_pos hl]
    by_cases he : e=((segmentsOf registration.path).map parseSegment).map Segment.edge
    · rw [if_pos ⟨hl,he⟩]
      simp [he,Route.edges,Route.entry,Registration.entry]
    · rw [if_neg fun h => he h.2]
      rw [List.map_map] at he
      simpa [Route.edges] using Ne.symm he
  · rw [if_neg hl,if_neg fun h => hl h.1]
    rfl

/-- At every place the trie holds the routes of that pattern, in the order of registration. -/
theorem entriesAt_register (e : List Edge) : (register rg).root.entriesAt e =
      ((rg.filterMap Registration.route?).filter (·.edges=e)).map Route.entry := by
  induction rg using List.reverseRecOn with
  | nil => exact TrieNode.entriesAt_empty e
  | append_singleton rg registration ih =>
    rw [register_append,entriesAt_insert,ih]
    cases hr : registration.route? with
    | none => simp [hr]
    | some r => simp [hr,List.filter_append]

/-- A reference stands for the segments of the path it is kept under, and leads to a node. -/
def StaticPaths (trie : RouteTrie η μ) : Prop :=
  ∀ item∈trie.staticFull,
    item.2=segmentsOf item.1 ∧ (trie.root.follow item.2).isSome=true

theorem StaticPaths.insert {t : RouteTrie η μ} (h : t.StaticPaths)
    (registration : Registration η μ) : (t.insert registration).1.StaticPaths := by
  have hk : ∀ i∈t.staticFull,i.2=segmentsOf i.1 ∧
      ((insertAt registration (segmentsOf registration.path) [] t.root).1.follow i.2).isSome=true :=
    fun i hi => ⟨(h i hi).1,isSome_follow_insertAt (h i hi).2⟩
  unfold RouteTrie.insert
  dsimp only
  split
  · exact hk
  · rename_i hs
    have hf := isSome_follow_of_static hs
    intro i hi
    rcases Dict.mem_set hi with rfl | hi
    · exact ⟨(segmentsOf_joined registration.path).symm,hf⟩
    · rcases Dict.mem_set hi with rfl | hi
      · exact ⟨rfl,hf⟩
      · exact hk i hi
  · exact hk

theorem staticPaths_register : (register rg).StaticPaths := by
  induction rg using List.reverseRecOn with
  | nil => simp [register,StaticPaths]
  | append_singleton rg registration ih =>
    rw [register_append]
    exact ih.insert registration

theorem entries_follow {n f : TrieNode η μ} {s : List Text} (h : n.follow s=some f) :
    f.entries=n.entriesAt (s.map Edge.static) := by
  induction s generalizing n with
  | nil =>
    obtain rfl := Option.some.inj h
    rfl
  | cons seg s ih =>
    obtain ⟨c,hc,hf⟩ := Option.bind_eq_some_iff.mp h
    simp [TrieNode.entriesAt,hc,ih hf]

end RouteTrie

end BlackBull.Routing
