import BlackBull.RouteBranches

/-!
# The trie looks up what the list of routes says

The ways of a walk come in increasing rank, and a route matches a path exactly when its edges are
one of these ways. So the first entry that accepts belongs to the route that the list puts first;
the probe of the static paths only takes the first way ahead of the walk.
-/

namespace BlackBull.Routing

variable {η μ ν : Type}

variable {ss : List Text} {p : List Segment} {cs : List (Text × Converter × Text)}

/-- Induction along a pattern that matches. -/
@[elab_as_elim]
theorem capture_induction {m : List Segment → List Text → List (Text × Converter × Text) →
    Prop} (nil : m [] [] []) (st : ∀ text p rest cs,m p rest
    cs → m (.static text::p) (text::rest) cs) (pm : ∀ name c
    p s rest cs,m p rest cs → m (.param name c ::
    p) (s::rest) ((name,c,s)::cs)) (w : ∀ name s
    rest,m [.wildcard name] (s::rest) [(name,.str,joined (s::rest))]) (hl :
    wildcardLast p=true) (h : capture p ss=some cs) : m p ss cs := by
  induction p generalizing ss cs with
  | nil =>
    cases ss with
    | nil =>
      obtain rfl := Option.some.inj h
      exact nil
    | cons s rest => exact absurd h (by simp [capture])
  | cons a p ih =>
    cases ss with
    | nil => cases a <;> exact absurd h (by simp [capture])
    | cons s rest =>
      cases a with
      | static text =>
        simp only [capture] at h
        split_ifs at h with ht
        exact ht ▸ st _ _ _ _ (ih hl h)
      | param name c =>
        obtain ⟨o,ho,rfl⟩ := Option.map_eq_some_iff.mp h
        exact pm _ _ _ _ _ _ (ih hl ho)
      | wildcard name =>
        obtain rfl : p=[] := by simpa [wildcardLast] using hl
        obtain rfl := Option.some.inj h
        exact w _ _ _

/-- A pattern that matches takes one of the ways, with the texts that it captures. -/
theorem mem_branches_of_capture (hl : wildcardLast p=true) (h : capture p ss=some cs) :
    (p.map Segment.edge,cs.map (·.2.2))∈branches ss := by
  refine capture_induction ?_ (fun _ _ _ _ ih => ?_) (fun _ _ _ _ _ _ ih => ?_) ?_ hl h
  · simp [branches]
  · simpa [branches,Segment.edge] using ih
  · simpa [branches,Segment.edge] using ih
  · simp [branches,Segment.edge]

/-- A pattern whose edges are one of the ways matches, and captures the texts of that way. -/
theorem exists_capture_of_mem_branches {cp : List Text} (h : (p.map Segment.edge,cp)∈branches ss) :
    ∃ cs,capture p ss=some cs ∧ cs.map (·.2.2)=cp := by
  induction ss generalizing p cp with
  | nil =>
    obtain ⟨hp,rfl⟩ : p=[] ∧ cp=[] := by simpa [branches] using h
    exact ⟨[],by simp [hp,capture],rfl⟩
  | cons s rest ih =>
    cases p with
    | nil => exact absurd h (by simp [branches])
    | cons a p =>
      cases a with
      | static text =>
        obtain ⟨hr,rfl⟩ : (p.map Segment.edge,cp)∈branches rest ∧ s=text := by
          simpa [branches,Segment.edge] using h
        simpa [capture] using ih hr
      | param name c =>
        obtain ⟨o,hr,rfl⟩ : ∃ o,(p.map Segment.edge,o)∈branches rest ∧ s::o=cp := by
          simpa [branches,Segment.edge] using h
        obtain ⟨cs,hc,rfl⟩ := ih hr
        exact ⟨(name,c,s)::cs,by simp [capture,hc],rfl⟩
      | wildcard name =>
        obtain ⟨rfl,rfl⟩ : p=[] ∧ cp=[joined (s::rest)] := by simpa [branches,Segment.edge] using h
        exact ⟨[(name,.str,joined (s::rest))],rfl,rfl⟩

theorem convertAll_capture (cn : Converters ν) (hl : wildcardLast p=true)
    (h : capture p ss=some cs) (ps : Params ν) :
    convertAll cn (p.filterMap Segment.spec?) (cs.map (·.2.2)) ps = (cs.mapM fun capture =>
        (cn.convert capture.2.1 capture.2.2).map (Prod.mk capture.1)).map
          (List.foldl (fun ps pr => ps.set pr.1 pr.2) ps) := by
  revert ps
  refine capture_induction (fun _ => rfl) (fun _ _ _ _ ih => ih) ?_ ?_ hl h
  · intro name c p s rest cs ih ps
    cases hc : cn.convert c s with
    | none => simp [Segment.spec?,convertAll,hc]
    | some v => simpa [Segment.spec?,convertAll,hc,ih,Function.comp_def] using Option.map_eq_bind
  · simp [Segment.spec?,convertAll,Converters.convert]

def Edge.precedence : Edge → ℕ
  | .static _ => 0
  | .param => 1
  | .wildcard => 2

/-- The rank of a way, as that of the routes that take it. -/
def rankOf (edges : List Edge) : List ℕ := edges.map Edge.precedence

theorem rankOf_edges (rt : Route η μ) : rankOf rt.edges=rt.rank := by
  unfold rankOf Route.edges Route.rank
  rw [List.map_map]
  refine List.map_congr_left fun seg _ => ?_
  cases seg <;> rfl

theorem branches_sorted (ss : List Text) :
    ((branches ss).map fun b => rankOf b.1).Pairwise (· < ·) := by
  induction ss with
  | nil => simp [branches]
  | cons seg rest ih =>
    have hc : ∀ n : ℕ,(((branches rest).map fun b => rankOf b.1).map
        (List.cons n)).Pairwise (· < ·) := by
      intro n
      rw [List.pairwise_map]
      exact ih.imp fun hlt => List.cons_lt_cons_iff.mpr (.inr ⟨rfl,hlt⟩)
    have hr : (branches (seg::rest)).map (fun b => rankOf b.1) =
        ((branches rest).map fun b => rankOf b.1).map (List.cons 0) ++
          ((branches rest).map fun b => rankOf b.1).map (List.cons 1)++[[2]] := by
      simp [branches,rankOf,Edge.precedence,Function.comp_def]
    rw [hr]
    refine List.pairwise_append.mpr ⟨List.pairwise_append.mpr ⟨hc 0,hc 1,?_⟩,by simp,?_⟩
    · intro a hf s hs
      obtain ⟨rank,-,rfl⟩ := List.mem_map.mp hf
      obtain ⟨rn,-,rfl⟩ := List.mem_map.mp hs
      exact List.cons_lt_cons_iff.mpr (.inl (by decide))
    · intro a hf s hs
      obtain rfl := List.mem_singleton.mp hs
      rcases List.mem_append.mp hf with hf | hf
      · obtain ⟨rank,-,rfl⟩ := List.mem_map.mp hf
        exact List.cons_lt_cons_iff.mpr (.inl (by decide))
      · obtain ⟨rank,-,rfl⟩ := List.mem_map.mp hf
        exact List.cons_lt_cons_iff.mpr (.inl (by decide))

theorem branch_eq_of_rank {b b' : List Edge × List Text} (h : b∈branches ss)
    (h' : b'∈branches ss) (hr : rankOf b.1=rankOf b'.1) : b=b' :=
  List.inj_on_of_nodup_map ((branches_sorted ss).imp ne_of_lt) h h' hr

section Lookup

variable {cv : Converters ν} {sc : Scheme}

variable {ss : List Text} {rs : List (Route η μ)} {r : Route η μ}

theorem convertAll_entry (hl : wildcardLast r.pattern=true) {c : List Text}
    (h : (r.edges,c)∈branches ss) : convertAll cv r.entry.paramSpecs c []=r.params? cv ss := by
  obtain ⟨cs,hc,rfl⟩ := exists_capture_of_mem_branches h
  unfold Route.params?
  rw [hc]
  exact convertAll_capture cv hl hc []

theorem exists_branch_of_params (hl : wildcardLast r.pattern=true)
    (h : (r.params? cv ss).isSome=true) :
    ∃ c,(r.edges,c)∈branches ss := by
  obtain ⟨p,hp⟩ := Option.isSome_iff_exists.mp h
  obtain ⟨cs,hc,-⟩ := Option.bind_eq_some_iff.mp hp
  exact ⟨_,mem_branches_of_capture hl hc⟩

variable [DecidableEq μ] {me : μ}

theorem params_of_serve (h : (r.serve? cv me sc ss).isSome=true) :
    (r.params? cv ss).isSome=true := by
  unfold Route.serve? at h
  split_ifs at h with hs
  · simpa using h
  · exact absurd h (by simp)

theorem matchEntries_routes (hl : ∀ r∈rs,wildcardLast r.pattern=true)
    {b : List Edge × List Text} (h : b∈branches ss) : matchEntries cv me sc
        ((rs.filter (·.edges=b.1)).map Route.entry) b.2 = (rs.filter (·.rank=rankOf b.1)).findSome?
        (Route.serve? cv me sc ss) := by
  unfold matchEntries
  rw [List.findSome?_map]
  induction rs with
  | nil => rfl
  | cons r rs ih =>
    obtain ⟨hr,hro⟩ := List.forall_mem_cons.mp hl
    have ih := ih hro
    rw [List.filter_cons,List.filter_cons]
    by_cases he : r.edges=b.1
    · have hra : r.rank=rankOf b.1 := by rw [← he,rankOf_edges]
      have hb : (r.edges,b.2)∈branches ss := by rwa [he]
      rw [if_pos (by simpa using he),if_pos (by simpa using hra),findSome?_cons_or,
        findSome?_cons_or,ih]
      congr 1
      unfold Route.serve?
      rw [← convertAll_entry hr hb]
      rfl
    · rw [if_neg (by simpa using he)]
      by_cases hra : r.rank=rankOf b.1
      · -- A route of this rank with other edges does not match the path.
        have hn : r.serve? cv me sc ss=none := by
          by_contra hs
          obtain ⟨c,hc⟩ := exists_branch_of_params hr
            (params_of_serve (Option.isSome_iff_ne_none.mpr hs))
          have hsa := branch_eq_of_rank hc h (by rw [rankOf_edges,hra])
          exact he (congrArg Prod.fst hsa)
        rw [if_pos (by simpa using hra),findSome?_cons_or,hn,Option.none_or,ih]
      · rw [if_neg (by simpa using hra),ih]

/-- The search through the ways finds the answer of the route that the list puts first. -/
theorem searchFrame_eq_leastRanked {rt : TrieNode η μ} (hl : ∀ r∈rs,wildcardLast
    r.pattern=true) (hr : ∀ e,rt.entriesAt e=(rs.filter (·.edges=e)).map
    Route.entry) (ss : List Text) : searchFrame cv me sc ⟨rt,ss,[]⟩ =
      leastRanked Route.rank (Route.serve? cv me sc ss) rs := by
  have hk : ∀ r∈rs,(r.serve? cv me sc ss).isSome=true →
        r.rank∈(branches ss).map fun b => rankOf b.1 := by
    intro r hro hs
    obtain ⟨c,hc⟩ := exists_branch_of_params (hl r hro) (params_of_serve hs)
    exact List.mem_map.mpr ⟨_,hc,rankOf_edges r⟩
  rw [← findSome?_eq_leastRanked (branches_sorted ss) hk,List.findSome?_map]
  unfold searchFrame
  have hw : ∀ b∈branches ss,matchEntries cv me sc (rt.entriesAt b.1) ([]++b.2) =
        (rs.filter (·.rank=rankOf b.1)).findSome? (Route.serve? cv me sc ss) := by
    intro b hb
    rw [hr,List.nil_append,matchEntries_routes hl hb]
  rw [← List.head?_filterMap,List.filterMap_congr hw,List.head?_filterMap]
  rfl

theorem mem_allowedMethods_iff {me : μ} :
    me∈allowedMethods cv sc rs ss ↔
      ∃ r∈rs,routeSchemeMatches sc r.scheme=true ∧
        (r.params? cv ss).isSome=true ∧ me∈r.methods := by
  unfold allowedMethods
  induction rs with
  | nil => simp
  | cons r rs ih =>
    rw [List.filter_cons]
    by_cases hm : (routeSchemeMatches sc r.scheme && (r.params? cv ss).isSome)=true
    · simp_all
    · rw [if_neg hm,ih]
      have hm : routeSchemeMatches sc r.scheme=true →
          (r.params? cv ss).isSome=false := by simpa using hm
      simp +contextual [hm]

/-- The methods of the entries over all ways are those of the routes that match. -/
theorem mem_allowedMethods {rt : TrieNode η μ} (hl : ∀ r∈rs,wildcardLast r.pattern
    = true) (hr : ∀ e,rt.entriesAt e=(rs.filter (·.edges=e)).map Route.entry) (ss :
    List Text) (me : μ) : (∃ b∈branches ss,AllowedAt cv sc (rt.entriesAt b.1) ([]++b.2) me) ↔
      me∈allowedMethods cv sc rs ss := by
  rw [mem_allowedMethods_iff]
  constructor
  · rintro ⟨⟨e,c⟩,hb,entry,he,⟨hs,hc⟩,hm⟩
    rw [hr] at he
    obtain ⟨r,hf,rfl⟩ := List.mem_map.mp he
    obtain ⟨hro,hed⟩ : r∈rs ∧ r.edges=e := by simpa using hf
    subst hed
    rw [List.nil_append,convertAll_entry (hl r hro) hb] at hc
    exact ⟨r,hro,hs,hc,hm⟩
  · rintro ⟨r,hro,hs,hp,hm⟩
    obtain ⟨c,hb⟩ := exists_branch_of_params (hl r hro) hp
    refine ⟨(r.edges,c),hb,r.entry,?_,⟨hs,?_⟩,hm⟩
    · rw [hr]
      exact List.mem_map_of_mem (List.mem_filter.mpr ⟨hro,by simp⟩)
    · rwa [List.nil_append,convertAll_entry (hl r hro) hb]

/-- The probe of the static paths finds what the walk would find. -/
theorem searchFrame_of_static {t : RouteTrie η μ} (hs : t.StaticPaths) {pt : Text} {hit : η
    × Params ν} (h : (((t.staticFull.get? pt).bind t.root.follow).bind fun node =>
    matchEntries cv me sc node.entries [])=some hit) :
    searchFrame cv me sc ⟨t.root,segmentsOf pt,[]⟩=some hit := by
  obtain ⟨node,hn,hh⟩ := Option.bind_eq_some_iff.mp h
  obtain ⟨ss,hse,hf⟩ := Option.bind_eq_some_iff.mp hn
  obtain rfl : ss=segmentsOf pt := (hs _ (Dict.mem_of_get? hse)).1
  obtain ⟨o,ho⟩ := List.head?_eq_some_iff.mp (head?_branches (segmentsOf pt))
  unfold searchFrame
  dsimp only
  rw [ho,findSome?_cons_or,List.nil_append,← RouteTrie.entries_follow hf,hh]
  rfl

end Lookup

theorem wildcardLast_of_route? {r : Registration η μ} {rt : Route η μ}
    (h : r.route? = some rt) : wildcardLast rt.pattern=true := by
  unfold Registration.route? at h
  dsimp only at h
  split_ifs at h with hl
  obtain rfl := Option.some.inj h
  exact hl

/-- After any registrations, the lookup gives what the list of the routes gives. -/
theorem lookup_eq_naiveLookup [DecidableEq μ] (converters : Converters ν)
    (registrations : List (Registration η μ)) (path : Text) (method : μ) (scheme : Scheme) :
    (RouteTrie.register registrations).lookup converters method scheme path =
      naiveLookup converters method scheme (registrations.filterMap Registration.route?) path := by
  generalize hr : registrations.filterMap Registration.route? = routes
  have hl : ∀ route∈routes,wildcardLast route.pattern=true := by
    intro route hro
    rw [← hr] at hro
    obtain ⟨registration,-,hro⟩ := List.mem_filterMap.mp hro
    exact wildcardLast_of_route? hro
  have hroo : ∀ edges,(RouteTrie.register registrations).root.entriesAt edges =
      (routes.filter (·.edges=edges)).map Route.entry := by
    intro edges
    rw [RouteTrie.entriesAt_register,hr]
  have hs := RouteTrie.staticPaths_register registrations
  generalize RouteTrie.register registrations=trie at hroo hs
  have hse : searchFrame converters method scheme ⟨trie.root,segmentsOf path,[]⟩=_ :=
    searchFrame_eq_leastRanked hl hroo (segmentsOf path)
  unfold RouteTrie.lookup naiveLookup
  rw [requestSegments_eq]
  dsimp only
  rw [← hse]
  split
  · rename_i hit hp
    rw [searchFrame_of_static hs hp]
  · rw [walk_eq,List.findSome?_singleton]
    cases hf : searchFrame converters method scheme ⟨trie.root,segmentsOf path,[]⟩ with
    | some hit => rfl
    | none => exact ((missed_lookupFrom hf).congr (mem_allowedMethods hl hroo (segmentsOf path))).eq

end BlackBull.Routing
