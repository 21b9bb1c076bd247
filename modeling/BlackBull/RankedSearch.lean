import Mathlib.Data.List.MinMax

/-!
# Searching by rank

Of the elements that a search accepts, take those of least rank, and of these the first. It comes
to the same to go through the ranks in increasing order and to stop at the first accepted element
of one.
-/

namespace BlackBull

variable {α β κ : Type} [LinearOrder κ] [DecidableEq κ]

/-- When an element has the least key there can be, the first such element is chosen. -/
theorem argmin_eq_find? {f : α → κ} {l : List α} {k : κ} (hle : ∀ a∈l,k≤f a)
    (hm : ∃ a∈l,f a=k) : l.argmin f=l.find? fun a => f a=k := by
  induction l with
  | nil =>
    obtain ⟨a,ha,-⟩ := hm
    exact absurd ha (by simp)
  | cons a l ih =>
    obtain ⟨ha,hl⟩ := List.forall_mem_cons.mp hle
    rw [List.argmin_cons]
    by_cases hk : f a=k
    · rw [List.find?_cons_of_pos (by simpa using hk)]
      cases hmi : l.argmin f with
      | none => rfl
      | some c =>
        have hc : k≤f c := hl c (List.argmin_mem hmi)
        exact if_neg (by rw [hk]; exact not_lt.mpr hc)
    · obtain ⟨b,hb,hbk⟩ := hm
      have hb : b∈l := by
        rcases List.mem_cons.mp hb with rfl | hb
        · exact absurd hbk hk
        · exact hb
      rw [List.find?_cons_of_neg (by simpa using hk),ih hl ⟨b,hb,hbk⟩]
      cases hf : l.find? fun a => f a=k with
      | none => exact absurd hbk (by simpa using List.find?_eq_none.mp hf b hb)
      | some c =>
        have hc : f c=k := by simpa using List.find?_some hf
        exact if_pos (by rw [hc]; exact lt_of_le_of_ne ha (Ne.symm hk))

section Ranked

variable {ι : Type} (key : α → ι) (accept : α → Option β)

def ranked (items : List α) : List (ι × β) :=
  items.filterMap fun a => (accept a).map (Prod.mk (key a))

variable {key accept}

theorem mem_ranked {its : List α} {k : ι} {b : β} :
    (k,b)∈ranked key accept its ↔ ∃ a∈its,accept a=some b ∧ key a=k := by
  simp only [ranked,List.mem_filterMap,Option.map_eq_some_iff,Prod.mk.injEq]
  constructor
  · rintro ⟨a,ha,b',hb,hk,rfl⟩
    exact ⟨a,ha,hb,hk⟩
  · rintro ⟨a,ha,hb,hk⟩
    exact ⟨a,ha,b,hb,hk,rfl⟩

variable [DecidableEq ι]

theorem find?_ranked (its : List α) (k : ι) :
    (ranked key accept its).find? (fun p => p.1=k) =
      ((its.filter (key · = k)).findSome? accept).map (Prod.mk k) := by
  induction its with
  | nil => rfl
  | cons a its ih =>
    cases hb : accept a with
    | none =>
      have hc : ranked key accept (a::its)=ranked key accept its := by simp [ranked,hb]
      rw [hc,ih,List.filter_cons]
      split_ifs
      · rw [List.findSome?_cons,hb]
      · rfl
    | some b =>
      have hc : ranked key accept (a::its)=(key a,b)::ranked key accept its := by simp [ranked,hb]
      rw [hc,List.filter_cons]
      by_cases hk : key a=k
      · rw [List.find?_cons_of_pos (by simpa using hk),if_pos (by simpa using hk),
          List.findSome?_cons,hb,hk]
        rfl
      · rw [List.find?_cons_of_neg (by simpa using hk),if_neg (by simpa using hk),ih]

end Ranked

variable {key : α → κ} {ac : α → Option β} {xs : List α}

def leastRanked (key : α → κ) (accept : α → Option β) (items : List α) : Option β :=
  ((ranked key accept items).argmin Prod.fst).map Prod.snd

/-- The search through the ranks finds what is accepted first among the least. -/
theorem findSome?_eq_leastRanked {ks : List κ} (hs : ks.Pairwise (· < ·))
    (hke : ∀ a∈xs,(ac a).isSome → key a∈ks) :
    ks.findSome? (fun k => (xs.filter (key · = k)).findSome? ac) =
      leastRanked key ac xs := by
  unfold leastRanked
  induction ks with
  | nil =>
    have hn : ranked key ac xs=[] := by
      rw [List.eq_nil_iff_forall_not_mem]
      rintro ⟨k,b⟩ hp
      obtain ⟨a,ha,hb,-⟩ := mem_ranked.mp hp
      exact absurd (hke a ha (by simp [hb])) (by simp)
    rw [hn]
    rfl
  | cons k ks ih =>
    obtain ⟨hk,hs⟩ := List.pairwise_cons.mp hs
    rw [List.findSome?_cons]
    cases hf : (xs.filter (key · = k)).findSome? ac with
    | some b =>
      have hfi : (ranked key ac xs).find? (fun p => p.1=k)=some (k,b) := by
        rw [find?_ranked,hf]
        rfl
      have hle : ∀ p∈ranked key ac xs,k≤p.1 := by
        rintro ⟨k',b'⟩ hp
        obtain ⟨a,ha,hb,rfl⟩ := mem_ranked.mp hp
        rcases List.mem_cons.mp (hke a ha (by simp [hb])) with hka | hka
        · exact hka.ge
        · exact (hk _ hka).le
      have hm : (k,b)∈ranked key ac xs := List.mem_of_find?_eq_some hfi
      rw [argmin_eq_find? hle ⟨_,hm,rfl⟩,hfi]
      rfl
    | none =>
      refine ih hs fun a ha hso => ?_
      refine (List.mem_cons.mp (hke a ha hso)).resolve_left fun hka => ?_
      have hno := List.findSome?_eq_none_iff.mp hf a (List.mem_filter.mpr ⟨ha,by simpa using hka⟩)
      rw [hno] at hso
      exact absurd hso (by simp)

end BlackBull
