import Mathlib

/-!
# Runs of a deterministic transition system

A run is the list of actions taken and its end is a left fold. `Along` restricts a run to the
actions that meet a condition on the state they are taken in, and `Along.invariant` is the induction
every safety result uses.
-/

namespace BlackBull

variable {σ α : Type} {step : σ → α → σ} {guard : σ → α → Prop}

def run (step : σ → α → σ) (s : σ) (actions : List α) : σ := actions.foldl step s

/-- Every action of the run meets the condition in the state it is taken in. -/
def Along (step : σ → α → σ) (guard : σ → α → Prop) : σ → List α → Prop
  | _,[] => True
  | s,a::actions => guard s a ∧ Along step guard (step s a) actions

variable {ac : List α} (s : σ)

@[simp] theorem run_nil : run step s []=s := rfl

@[simp] theorem run_cons (a : α) (ac : List α) : run step s (a::ac)=run step (step s a) ac := rfl

theorem run_append (a l : List α) : run step s (a++l)=run step (run step s a) l := List.foldl_append

@[simp] theorem along_nil : Along step guard s [] := trivial

@[simp] theorem along_cons (a : α) (ac : List α) :
    Along step guard s (a::ac) ↔ guard s a ∧ Along step guard (step s a) ac :=
  Iff.rfl

theorem along_append (f l : List α) : Along step guard s (f++l) ↔
      Along step guard s f ∧ Along step guard (run step s f) l := by
  induction f generalizing s with
  | nil => simp
  | cons a f ih => simp [ih,and_assoc]

theorem along_of_forall (h : ∀ a∈ac,∀ s,guard s a) : Along step guard s ac := by
  induction ac generalizing s with
  | nil => exact trivial
  | cons a ac ih =>
    exact ⟨h a List.mem_cons_self s,ih (step s a) fun b hb => h b (List.mem_cons_of_mem a hb)⟩

/-- What holds at the start and is preserved by every permitted step holds at the end of
every permitted run. -/
theorem Along.invariant {inv : σ → Prop} (p : ∀ s a,inv s → guard s a → inv (step s a))
    {s : σ} (al : Along step guard s ac) (i : inv s) : inv (run step s ac) := by
  induction ac generalizing s with
  | nil => exact i
  | cons a ac ih => exact ih al.2 (p s a i al.1)

theorem Along.mono {g' : σ → α → Prop} (h : ∀ s a,guard s a → g' s a) {s : σ}
    (al : Along step guard s ac) : Along step g' s ac := by
  induction ac generalizing s with
  | nil => exact trivial
  | cons a ac ih => exact ⟨h s a al.1,ih al.2⟩

theorem Along.and_mem {all : List α} {s : σ} (al : Along step guard s ac)
    (h : ∀ a∈ac,a∈all) : Along step (fun s a => guard s a ∧ a∈all) s ac := by
  induction ac generalizing s with
  | nil => exact trivial
  | cons a ac ih =>
    exact ⟨⟨al.1,h a List.mem_cons_self⟩,ih al.2 fun b hb => h b (List.mem_cons_of_mem a hb)⟩

/-- Where the condition is exactly what a step needs to keep the invariant, the invariant holds
all along a run if and only if every step meets the condition. -/
theorem always_iff_along {aux inv : σ → Prop} (k : ∀ s a,aux s → aux (step s a))
    (p : ∀ s a,aux s → inv s → (guard s a ↔ inv (step s a))) {s : σ} (ha : aux s) (i : inv s) :
    (∀ n,inv (run step s (ac.take n))) ↔ Along step guard s ac := by
  induction ac generalizing s with
  | nil => simpa using i
  | cons a ac ih =>
    constructor
    · intro h
      have h1 : inv (step s a) := h 1
      exact ⟨(p s a ha i).mpr h1,(ih (k s a ha) h1).mp fun n => h (n+1)⟩
    · rintro ⟨g,al⟩ (_ | n)
      · exact i
      · exact (ih (k s a ha) ((p s a ha i).mp g)).mpr al n

/-- Two systems that take the same actions: what relates them at the start and is preserved by
every permitted step relates them at the end of every permitted run. -/
theorem Along.simulation {ρ : Type} {st : ρ → α → ρ} {R : σ → ρ → Prop}
    (p : ∀ s r a,R s r → guard s a → R (step s a) (st r a)) {s : σ} {r : ρ}
    (al : Along step guard s ac) (i : R s r) : R (run step s ac) (run st r ac) := by
  induction ac generalizing s r with
  | nil => exact i
  | cons a ac ih => exact ih al.2 (p s r a i al.1)

instance Along.decidable [∀ s a,Decidable (guard s a)] (s : σ) (actions : List α) :
    Decidable (Along step guard s actions) :=
  match actions with
  | [] => isTrue trivial
  | a::actions =>
    have := Along.decidable (step s a) actions
    inferInstanceAs (Decidable (guard s a ∧ Along step guard (step s a) actions))

end BlackBull
