import BlackBull.RouteTrie

/-!
# The segments of a path

A lookup does not filter the segments of a canonical path, which comes to the same as filtering
them: the one empty segment is the one in front of a leading slash. And a path rebuilt from
segments has these segments.
-/

namespace BlackBull.Routing

theorem splitOn_cons (c : Char) (p : Text) : List.splitOn '/' (c::p) =
      if c = '/' then []::p.splitOn '/' else (p.splitOn '/').modifyHead (List.cons c) := by
  rw [List.splitOn_cons_eq_if_modifyHead]
  simp

theorem exists_splitOn (p : Text) : ∃ a o,p.splitOn '/' = a::o := by
  cases h : p.splitOn '/' with
  | nil => exact absurd h (List.splitOn_ne_nil _ _)
  | cons a o => exact ⟨a,o,rfl⟩

theorem slash_notMem_of_mem_splitOn {p seg : Text} (h : seg∈p.splitOn '/') : '/' ∉ seg := by
  induction p generalizing seg with
  | nil =>
    rw [List.splitOn_nil,List.mem_singleton] at h
    simp [h]
  | cons c p ih =>
    rw [splitOn_cons] at h
    split_ifs at h with hc
    · rcases List.mem_cons.mp h with rfl | h
      · simp
      · exact ih h
    · obtain ⟨a,o,hs⟩ := exists_splitOn p
      rw [hs] at ih h
      rcases List.mem_cons.mp h with rfl | h
      · have hf := ih (List.mem_cons_self : a∈a::o)
        simpa [Ne.symm hc] using hf
      · exact ih (List.mem_cons_of_mem _ h)

/-- Without a slash at the end and without two in a row, only the first segment may be empty: in
front of a leading slash, or when the path is. -/
theorem splitOn_canonical {p : Text} (hl : p.getLast? ≠ some '/')
    (hdo : ¬ ['/','/'] <:+: p) : (∀ seg∈(p.splitOn '/').tail,seg≠[]) ∧
      ((p.splitOn '/').head? = some [] → p=[] ∨ p.head? = some '/') := by
  induction p with
  | nil => simp
  | cons c p ih =>
    have hi : ¬ ['/','/'] <:+: p := fun h => hdo (h.trans (List.suffix_cons c p).isInfix)
    rw [splitOn_cons]
    split_ifs with hc
    · subst hc
      -- What follows the slash is not empty and begins with another character.
      cases p with
      | nil => exact absurd rfl hl
      | cons d p =>
        have hd : d ≠ '/' := by
          rintro rfl
          exact hdo ⟨[],p,rfl⟩
        obtain ⟨ht,hh⟩ := ih (by simpa using hl) hi
        refine ⟨fun seg hs => ?_,fun _ => .inr rfl⟩
        obtain ⟨a,o,hsp⟩ := exists_splitOn (d::p)
        rw [List.tail_cons,hsp] at hs
        rw [hsp] at ht hh
        rcases List.mem_cons.mp hs with rfl | hs
        · rintro rfl
          simpa [hd] using hh rfl
        · exact ht seg hs
    · obtain ⟨a,o,hsp⟩ := exists_splitOn p
      refine ⟨?_,by simp [hsp]⟩
      cases p with
      | nil => simp
      | cons d p =>
        obtain ⟨ht,-⟩ := ih (by simpa using hl) hi
        rw [hsp] at ht ⊢
        exact ht

theorem requestSegments_eq (p : Text) : requestSegments p=segmentsOf p := by
  unfold requestSegments segmentsOf
  split_ifs with hf hs
  · rfl
  · simp only [not_or] at hf
    obtain ⟨ht,-⟩ := splitOn_canonical hf.2.1 hf.2.2
    obtain ⟨rest,rfl⟩ := List.head?_eq_some_iff.mp hs
    rw [splitOn_cons,if_pos rfl,List.tail_cons] at ht ⊢
    rw [List.filter_cons_of_neg (by simp),List.filter_eq_self.mpr (by simpa using ht)]
  · simp only [not_or] at hf
    obtain ⟨ht,hh⟩ := splitOn_canonical hf.2.1 hf.2.2
    obtain ⟨a,o,hsp⟩ := exists_splitOn p
    rw [hsp] at ht hh ⊢
    have hfi : a≠[] := by
      rintro rfl
      exact (hh rfl).elim hf.1 hs
    refine (List.filter_eq_self.mpr fun seg hse => ?_).symm
    rcases List.mem_cons.mp hse with rfl | hse
    · simpa using hfi
    · simpa using ht seg hse

theorem segmentsOf_joined (p : Text) : segmentsOf ('/' :: joined (segmentsOf p))=segmentsOf p := by
  by_cases hn : segmentsOf p=[]
  · rw [hn]
    decide
  · have hs : ∀ seg∈segmentsOf p, '/' ∉ seg := fun seg hse =>
      slash_notMem_of_mem_splitOn (List.mem_of_mem_filter hse)
    have hsp : List.splitOn '/' (joined (segmentsOf p))=segmentsOf p :=
      List.splitOn_intercalate '/' hs hn
    have hne : (segmentsOf p).filter (· ≠ [])=segmentsOf p := by
      unfold segmentsOf
      rw [List.filter_filter]
      simp
    change (List.splitOn '/' ('/' :: joined (segmentsOf p))).filter (· ≠ [])=_
    rw [splitOn_cons,if_pos rfl,hsp,List.filter_cons_of_neg (by simp),hne]

end BlackBull.Routing
