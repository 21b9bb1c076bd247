import Mathlib

/-!
# Dictionaries in insertion order

A Python dictionary as the list of its items. Assigning to a key that is there
keeps the place of the item, a new key goes to the end.
-/

namespace BlackBull

abbrev Dict (κ α : Type) := List (κ × α)

namespace Dict

variable {κ α : Type} [DecidableEq κ]

def get? : Dict κ α → κ → Option α
  | [],_ => none
  | (k,v)::items,key => if k=key then some v else get? items key

def set : Dict κ α → κ → α → Dict κ α
  | [],key,value => [(key,value)]
  | (k,v)::items,key,value =>
    if k=key then (key,value)::items else (k,v)::set items key value

def pop (items : Dict κ α) (key : κ) : Dict κ α := items.filter fun item => item.1≠key

/-- `move_to_end`, for a key that is there. -/
def moveToEnd (items : Dict κ α) (key : κ) : Dict κ α :=
  match items.get? key with
  | some value => items.pop key++[(key,value)]
  | none => items

/-- `popitem(last=False)` while there are too many. -/
def keepLast (items : Dict κ α) (size : ℕ) : Dict κ α := items.drop (items.length - size)

@[simp] theorem get?_nil (key : κ) : get? ([] : Dict κ α) key=none := rfl

theorem get?_set (its : Dict κ α) (key o : κ) (v : α) :
    (its.set key v).get? o=if key=o then some v else its.get? o := by
  induction its with
  | nil => rfl
  | cons item its ih =>
    rw [set]
    split
    · grind [get?]
    · simp only [get?,ih]
      grind

theorem get?_pop (its : Dict κ α) (key o : κ) :
    (its.pop key).get? o=if key=o then none else its.get? o := by
  induction its with
  | nil => simp [pop]
  | cons item its ih =>
    rw [pop,List.filter_cons]
    split
    · simp only [get?,← pop.eq_1,ih]
      grind
    · grind [get?,pop]

theorem get?_map {β : Type} (its : Dict κ α) (f : α → β) (key : κ) :
    get? (its.map fun item => (item.1,f item.2)) key=(its.get? key).map f := by
  induction its with
  | nil => rfl
  | cons item its ih =>
    simp only [List.map_cons,get?,ih]
    split <;> rfl

variable {xs : Dict κ α} {key : κ} {i : κ × α}

theorem isSome_get?_of_tail (h : (get? xs.tail key).isSome=true) : (xs.get? key).isSome=true := by
  cases xs with
  | nil => exact h
  | cons i xs =>
    rw [get?]
    split
    · rfl
    · exact h

theorem mem_of_get? {v : α} (h : xs.get? key=some v) : (key,v)∈xs := by
  induction xs with
  | nil => simp at h
  | cons i xs ih =>
    rw [get?] at h
    split at h
    · next hk =>
      obtain rfl := Option.some.inj h
      exact hk ▸ List.mem_cons_self
    · exact List.mem_cons_of_mem i (ih h)

theorem mem_set {v : α} (h : i∈xs.set key v) : i=(key,v) ∨ i∈xs := by
  induction xs with
  | nil => exact .inl (List.mem_singleton.mp h)
  | cons a xs ih =>
    rw [set] at h
    split at h
    · rcases List.mem_cons.mp h with rfl | h
      · exact .inl rfl
      · exact .inr (List.mem_cons_of_mem a h)
    · rcases List.mem_cons.mp h with rfl | h
      · exact .inr List.mem_cons_self
      · exact (ih h).imp id (List.mem_cons_of_mem a)

theorem get?_eq_none_iff : xs.get? key=none ↔ key∉xs.map Prod.fst := by
  induction xs with
  | nil => simp
  | cons i xs ih =>
    rw [get?,List.map_cons,List.mem_cons,not_or,← ih]
    by_cases hk : i.1=key
    · simp [hk]
    · simp [hk,Ne.symm hk]

theorem set_of_get?_eq_none (v : α) (h : xs.get? key=none) : xs.set key v=xs++[(key,v)] := by
  induction xs with
  | nil => rfl
  | cons i xs ih =>
    rw [get?] at h
    split at h
    · cases h
    · next hk => rw [set,if_neg hk,ih h,List.cons_append]

theorem set_append_singleton (v v' : α) (h : xs.get? key=none) :
    set (xs++[(key,v)]) key v'=xs++[(key,v')] := by
  induction xs with
  | nil => simp [set]
  | cons i xs ih =>
    rw [get?] at h
    split at h
    · cases h
    · next hk => rw [List.cons_append,set,if_neg hk,ih h,List.cons_append]

theorem get?_append_singleton (v : α) (h : xs.get? key=none) : get? (xs++[(key,v)]) key=some v := by
  rw [← set_of_get?_eq_none v h,get?_set,if_pos rfl]

theorem keys_set (xs : Dict κ α) (key : κ) (v : α) : (xs.set key v).map Prod.fst =
      if key∈xs.map Prod.fst then xs.map Prod.fst else xs.map Prod.fst++[key] := by
  induction xs with
  | nil => simp [set]
  | cons i xs ih =>
    rw [set]
    by_cases hk : i.1=key
    · simp [hk]
    · rw [if_neg hk,List.map_cons,ih]
      simp only [List.map_cons,List.mem_cons,Ne.symm hk,false_or]
      split <;> simp

theorem set_self {v : α} (h : xs.get? key=some v) : xs.set key v=xs := by
  induction xs with
  | nil => cases h
  | cons i xs ih =>
    rw [get?] at h
    rw [set]
    split at h
    · next hk =>
      obtain rfl := Option.some.inj h
      rw [if_pos hk,← hk]
    · next hk => rw [if_neg hk,ih h]

theorem map_set {β : Type} (xs : Dict κ α) (f : α → β) (key : κ) (v : α) :
    (xs.set key v).map (fun i => (i.1,f i.2)) =
      set (xs.map fun i => (i.1,f i.2)) key (f v) := by
  induction xs with
  | nil => rfl
  | cons i xs ih =>
    simp only [set,List.map_cons]
    split
    · rfl
    · rw [List.map_cons,ih]

theorem nodup_set (key : κ) (v : α) (h : (xs.map Prod.fst).Nodup) :
    ((xs.set key v).map Prod.fst).Nodup := by
  rw [keys_set]
  split
  · exact h
  · next hk => exact List.nodup_append'.mpr ⟨h,List.nodup_singleton key,by simpa using hk⟩

theorem nodup_pop (key : κ) (h : (xs.map Prod.fst).Nodup) : ((xs.pop key).map Prod.fst).Nodup :=
  h.sublist (List.filter_sublist.map Prod.fst)

theorem mem_pop (h : i∈xs.pop key) : i∈xs := List.mem_of_mem_filter h

theorem mem_moveToEnd (h : i∈xs.moveToEnd key) : i∈xs := by
  unfold moveToEnd at h
  split at h
  · next v hv =>
    rcases List.mem_append.mp h with h | h
    · exact mem_pop h
    · rw [List.mem_singleton.mp h]
      exact mem_of_get? hv
  · exact h

theorem moveToEnd_perm (key : κ) (hk : (xs.map Prod.fst).Nodup) : (xs.moveToEnd key).Perm xs := by
  unfold moveToEnd
  split
  · next v hv =>
    induction xs with
    | nil => cases hv
    | cons i xs ih =>
      rw [List.map_cons,List.nodup_cons] at hk
      rw [get?] at hv
      split at hv
      · next heq =>
        obtain rfl := Option.some.inj hv
        have hne : pop xs key=xs := List.filter_eq_self.mpr fun o ho => by
          have ho' : o.1∈xs.map Prod.fst := List.mem_map_of_mem ho
          grind
        rw [pop,List.filter_cons_of_neg (by simpa using heq),← pop.eq_1,hne,← heq]
        exact List.perm_append_singleton i xs
      · next hne =>
        rw [pop,List.filter_cons_of_pos (by simpa using hne)]
        exact (ih hk.2 hv).cons i
  · exact .refl _

omit [DecidableEq κ] in
theorem mem_keepLast {size : ℕ} (h : i∈xs.keepLast size) : i∈xs := List.mem_of_mem_drop h

theorem foldl_pop (xs : Dict κ α) (ks : List κ) : ks.foldl pop xs=xs.filter fun i => i.1∉ks := by
  induction ks generalizing xs with
  | nil => simp
  | cons key ks ih =>
    rw [List.foldl_cons,ih,pop,List.filter_filter]
    refine List.filter_congr fun i _ => ?_
    simp [Bool.and_comm]

theorem get?_of_mem {v : α} (hk : (xs.map Prod.fst).Nodup) (h : (key,v)∈xs) :
    xs.get? key=some v := by
  induction xs with
  | nil => cases h
  | cons i xs ih =>
    rw [List.map_cons,List.nodup_cons] at hk
    rw [get?]
    rcases List.mem_cons.mp h with rfl | hm
    · exact if_pos rfl
    · have hne : i.1≠key := fun heq => hk.1 (heq ▸ List.mem_map_of_mem hm)
      rw [if_neg hne]
      exact ih hk.2 hm

end Dict
end BlackBull
