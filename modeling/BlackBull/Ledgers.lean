import Mathlib

/-!
# Ledgers

A ledger is a list of entries under keys. `total` adds up what the entries weigh and
`on` what the entries of one key weigh.
-/

namespace BlackBull

abbrev Ledger (κ α : Type) := List (κ × α)

namespace Ledger

variable {κ α : Type} {w : α → ℕ}

def total (weight : α → ℕ) (entries : Ledger κ α) : ℕ :=
  (entries.map fun entry => weight entry.2).sum

@[simp] theorem total_nil : total w ([] : Ledger κ α)=0 := rfl

@[simp] theorem total_cons (e : κ × α) (es : Ledger κ α) : total w (e::es)=w e.2+total w es := rfl

@[simp] theorem total_append (a l : Ledger κ α) : total w (a++l)=total w a+total w l := by
  simp [total]

@[simp] theorem total_map_pair (key : κ) (v : List α) : total w (v.map (key,·))=(v.map w).sum := by
  simp [total,Function.comp_def]

theorem sum_eraseIdx {es : Ledger κ α} {i : ℕ} {e : κ × α} (h : es[i]? = some e) (f : κ × α → ℕ) :
    (es.map f).sum=f e+((es.eraseIdx i).map f).sum := by
  obtain ⟨hi,rfl⟩ := List.getElem?_eq_some_iff.mp h
  exact ((List.getElem_cons_eraseIdx_perm hi).map f).sum_eq.symm

theorem total_eraseIdx {es : Ledger κ α} {i : ℕ} {e : κ × α} (h : es[i]? = some e) :
    total w es=w e.2+total w (es.eraseIdx i) :=
  sum_eraseIdx h _

variable [DecidableEq κ]

def on (weight : α → ℕ) (key : κ) (entries : Ledger κ α) : ℕ :=
  (entries.map fun entry => if entry.1=key then weight entry.2 else 0).sum

@[simp] theorem on_nil (key : κ) : on w key ([] : Ledger κ α)=0 := rfl

@[simp] theorem on_cons (key : κ) (e : κ × α) (es : Ledger κ α) :
    on w key (e::es)=(if e.1=key then w e.2 else 0)+on w key es := rfl

@[simp] theorem on_append (key : κ) (a l : Ledger κ α) : on w key (a++l)=on w key a+on w key l := by
  simp [on]

@[simp] theorem on_map_pair (key o : κ) (v : List α) :
    on w o (v.map (key,·))=if key=o then (v.map w).sum else 0 := by
  by_cases h : key=o <;> simp [on,h,Function.comp_def]

theorem on_le_total (key : κ) (es : Ledger κ α) : on w key es≤total w es := by
  induction es with
  | nil => simp
  | cons e es ih =>
    rw [on_cons,total_cons]
    split <;> omega

theorem on_eraseIdx {es : Ledger κ α} {i : ℕ} {e : κ × α} (h : es[i]? = some e) (key : κ) :
    on w key es=(if e.1=key then w e.2 else 0)+on w key (es.eraseIdx i) :=
  sum_eraseIdx h _

end Ledger
end BlackBull
