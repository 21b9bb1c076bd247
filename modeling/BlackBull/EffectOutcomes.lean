import Mathlib

/-!
# Outcomes of computations with state and exceptions

A computation in `EStateM` keeps the state it had reached when it raises. `Ensures` says in which
value or exception, and in which state, it may end; the rules push it through the constructors of
the monad. `Moves` is the case of a relation between the first state and the last that every step
keeps.
-/

namespace BlackBull

variable {ε σ α β : Type}

/-- Started in `s`, the computation ends in a value satisfying `value` or raises
an exception satisfying `raised`. -/
def Ensures (x : EStateM ε σ α) (s : σ) (value : α → σ → Prop) (raised : ε → σ → Prop) :
    Prop :=
  match x s with
  | .ok a s' => value a s'
  | .error e s' => raised e s'

/-- The computation returns, with a value satisfying `value`. -/
abbrev Succeeds (x : EStateM ε σ α) (s : σ) (value : α → σ → Prop) : Prop :=
  Ensures x s value fun _ _ => False

/-- If the computation returns, it is with a value satisfying `value`. -/
abbrev OnSuccess (x : EStateM ε σ α) (s : σ) (value : α → σ → Prop) : Prop :=
  Ensures x s value fun _ _ => True

namespace Ensures

variable {s : σ} {v : α → σ → Prop} {r : ε → σ → Prop}

variable {x : EStateM ε σ α} {s' : σ}

theorem of_ok {a : α} (hx : x s=.ok a s') (h : v a s') : Ensures x s v r := by
  simpa only [Ensures,hx] using h

theorem of_error {e : ε} (hx : x s=.error e s') (h : r e s') : Ensures x s v r := by
  simpa only [Ensures,hx] using h

theorem mono {v' : α → σ → Prop} {r' : ε → σ → Prop} (h : Ensures x s v r)
    (hv : ∀ a s',v a s' → v' a s') (hr : ∀ e s',r e s' → r' e s') : Ensures x s v' r' := by
  unfold Ensures at *
  cases hx : x s with
  | ok a s' =>
    rw [hx] at h
    exact hv a s' h
  | error e s' =>
    rw [hx] at h
    exact hr e s' h

theorem imp {v' : α → σ → Prop} (h : Ensures x s v r)
    (hv : ∀ a s',v a s' → v' a s') : Ensures x s v' r :=
  h.mono hv fun _ _ => id

theorem total {v' : α → σ → Prop} (h : Succeeds x s v)
    (hv : ∀ a s',v a s' → v' a s') : Ensures x s v' r :=
  h.mono hv fun _ _ => False.elim

theorem partly {v' : α → σ → Prop} (h : Ensures x s v r)
    (hv : ∀ a s',v a s' → v' a s') : OnSuccess x s v' :=
  h.mono hv fun _ _ _ => trivial

theorem and {v' : α → σ → Prop} {r' : ε → σ → Prop} (h : Ensures x s v r) (h' : Ensures x s v' r') :
    Ensures x s (fun a t => v a t ∧ v' a t) (fun e t => r e t ∧ r' e t) := by
  unfold Ensures at *
  cases hx : x s with
  | ok a s' | error e s' => simp only [hx] at h h' ⊢; exact ⟨h,h'⟩

theorem ok (h : Ensures x s v r) {a : α} (hx : x s=.ok a s') : v a s' := by
  simpa only [Ensures,hx] using h

theorem error (h : Ensures x s v r) {e : ε} (hx : x s=.error e s') : r e s' := by
  simpa only [Ensures,hx] using h

end Ensures

theorem ensures_error_iff {x : EStateM ε σ α} {s : σ} {ra : ε → σ → Prop} :
    Ensures x s (fun _ _ => True) ra ↔ ∀ e s',x s=.error e s' → ra e s' := by
  unfold Ensures
  cases x s with
  | ok a s' | error e s' => simp

variable {s : σ} {val : α → σ → Prop} {rs : ε → σ → Prop}

@[simp] theorem ensures_pure (a : α) : Ensures (pure a) s val rs ↔ val a s := Iff.rfl

@[simp] theorem ensures_throw (e : ε) :
    Ensures (throw e : EStateM ε σ α) s val rs ↔ rs e s := Iff.rfl

@[simp] theorem ensures_get {val : σ → σ → Prop} :
    Ensures (get : EStateM ε σ σ) s val rs ↔ val s s := Iff.rfl

@[simp] theorem ensures_modify (f : σ → σ) {val : PUnit → σ → Prop} :
    Ensures (modify f : EStateM ε σ PUnit) s val rs ↔ val ⟨⟩ (f s) := Iff.rfl

@[simp] theorem ensures_bind (x : EStateM ε σ β) (f : β → EStateM ε σ α) :
    Ensures (x >>= f) s val rs ↔
      Ensures x s (fun b t => Ensures (f b) t val rs) rs := by
  simp only [Ensures,bind,EStateM.bind]
  cases x s <;> rfl

@[simp] theorem ensures_map (f : β → α) (x : EStateM ε σ β) :
    Ensures (f <$> x) s val rs ↔ Ensures x s (fun b t => val (f b) t) rs := by
  simp only [Ensures,Functor.map,EStateM.map]
  cases x s <;> rfl

@[simp] theorem ensures_tryCatch (x : EStateM ε σ α) (handler : ε → EStateM ε σ α) :
    Ensures (tryCatch x handler) s val rs ↔
      Ensures x s val (fun e t => Ensures (handler e) t val rs) := by
  simp only [Ensures,tryCatch,tryCatchThe,MonadExceptOf.tryCatch,EStateM.tryCatch]
  cases x s <;> rfl

@[simp] theorem ensures_ite (c : Prop) [Decidable c] (x y : EStateM ε σ α) :
    Ensures (if c then x else y) s val rs ↔
      (c → Ensures x s val rs) ∧ (¬ c → Ensures y s val rs) := by
  by_cases hc : c <;> simp [hc]

/-- The state a computation leaves behind, whether it returns or raises. -/
def leaving (x : EStateM ε σ α) (s : σ) : σ :=
  match x s with
  | .ok _ t => t
  | .error _ t => t

theorem Ensures.leaving {x : EStateM ε σ α} {holds : σ → Prop}
    (h : Ensures x s (fun _ => holds) (fun _ => holds)) : holds (leaving x s) := by
  unfold BlackBull.leaving
  cases hx : x s with
  | ok a t => exact h.ok hx
  | error e t => exact h.error hx

@[simp] theorem ensures_ofExcept (x : Except ε α) :
    Ensures (MonadExcept.ofExcept x : EStateM ε σ α) s val rs ↔ match x with
      | .ok a => val a s
      | .error e => rs e s := by
  cases x <;> exact Iff.rfl

/-- The computation returns a value satisfying `value` or raises an exception satisfying
`raised`. -/
def Concludes (x : Except ε α) (value : α → Prop) (raised : ε → Prop) : Prop :=
  (∀ a,x=.ok a → value a) ∧ ∀ e,x=.error e → raised e

section Concludes

variable {val : α → Prop} {rs : ε → Prop}

@[simp] theorem concludes_ok (a : α) : Concludes (.ok a) val rs ↔ val a := by simp [Concludes]

@[simp] theorem concludes_error (e : ε) : Concludes (.error e : Except ε α) val rs ↔ rs e := by
  simp [Concludes]

@[simp] theorem concludes_ite (c : Prop) [Decidable c] (x y : Except ε α) :
    Concludes (if c then x else y) val rs ↔
      (c → Concludes x val rs) ∧ (¬ c → Concludes y val rs) := by
  by_cases hc : c <;> simp [hc]

@[simp] theorem concludes_bind (x : Except ε β) (f : β → Except ε α) :
    Concludes (x >>= f) val rs ↔
      Concludes x (fun b => Concludes (f b) val rs) rs := by
  cases x <;> simp [bind,Except.bind]

theorem Concludes.mono {x : Except ε α} {v' : α → Prop} (h : Concludes x val rs)
    (hv : ∀ a,val a → v' a) : Concludes x v' rs :=
  ⟨fun a ha => hv a (h.1 a ha),h.2⟩

end Concludes

theorem bind_eq_ok_iff {x : Except ε α} {f : α → Except ε β} {b : β} :
    x >>= f=.ok b ↔ ∃ a,x=.ok a ∧ f a=.ok b := by
  cases x with
  | ok a | error e => simp [bind,Except.bind]

theorem map_eq_ok_iff {x : Except ε α} {f : α → β} {b : β} :
    f <$> x=.ok b ↔ ∃ a,x=.ok a ∧ f a=b := by
  cases x with
  | ok a | error e => simp [Functor.map,Except.map]

/-- However it ends, the computation moves the state along the relation. -/
def Moves (R : σ → σ → Prop) (x : EStateM ε σ α) : Prop :=
  ∀ s,Ensures x s (fun _ => R s) (fun _ => R s)

namespace Moves

variable {R : σ → σ → Prop}

variable {x : EStateM ε σ α}

theorem modify {f : σ → σ} (hf : ∀ s,R s (f s)) : Moves R (modify f : EStateM ε σ PUnit) := hf

theorem map (f : α → β) (hx : Moves R x) : Moves R (f <$> x) := by
  intro s
  rw [ensures_map]
  exact hx s

theorem ite {c : Prop} [Decidable c] {y : EStateM ε σ α} (hx : Moves R x) (hy : Moves R y) :
    Moves R (if c then x else y) := by
  intro s
  rw [ensures_ite]
  exact ⟨fun _ => hx s,fun _ => hy s⟩

theorem leaving (hx : Moves R x) (s : σ) : R s (leaving x s) := (hx s).leaving

variable [IsPreorder σ R]

theorem pure {a : α} : Moves R (Pure.pure a : EStateM ε σ α) := refl_of R

theorem throw {e : ε} : Moves R (MonadExcept.throw e : EStateM ε σ α) := refl_of R

theorem get : Moves R (MonadState.get : EStateM ε σ σ) := refl_of R

theorem ofExcept {x : Except ε α} : Moves R (MonadExcept.ofExcept x : EStateM ε σ α) := by
  intro s
  rw [ensures_ofExcept]
  cases x <;> exact refl_of R s

theorem bind {f : α → EStateM ε σ β} (hx : Moves R x) (hf : ∀ a,Moves R (f a)) :
    Moves R (x >>= f) := by
  intro s
  rw [ensures_bind]
  refine (hx s).mono (fun a t ht => ?_) fun _ _ ht => ht
  exact (hf a t).mono (fun _ _ hu => trans_of R ht hu) fun _ _ hu => trans_of R ht hu

theorem tryCatch {handler : ε → EStateM ε σ α} (hx : Moves R x) (hh : ∀ e,Moves R (handler e)) :
    Moves R (tryCatch x handler) := by
  intro s
  rw [ensures_tryCatch]
  refine (hx s).mono (fun _ _ ht => ht) fun e t ht => ?_
  exact (hh e t).mono (fun _ _ hu => trans_of R ht hu) fun _ _ hu => trans_of R ht hu

end Moves

/-- The computation returns, and moves the state along the relation. -/
def Returns (R : σ → σ → Prop) (x : EStateM ε σ α) : Prop :=
  ∀ s,Ensures x s (fun _ => R s) (fun _ _ => False)

namespace Returns

variable {R : σ → σ → Prop}

theorem moves {x : EStateM ε σ α} (hx : Returns R x) : Moves R x :=
  fun s => (hx s).mono (fun _ _ h => h) fun _ _ => False.elim

theorem ite {c : Prop} [Decidable c] {x y : EStateM ε σ α} (hx : Returns R x)
    (hy : Returns R y) : Returns R (if c then x else y) := by
  intro s
  rw [ensures_ite]
  exact ⟨fun _ => hx s,fun _ => hy s⟩

variable [IsPreorder σ R]

theorem pure {a : α} : Returns R (Pure.pure a : EStateM ε σ α) := refl_of R

theorem get : Returns R (MonadState.get : EStateM ε σ σ) := refl_of R

theorem ofExcept {x : Except ε α} (h : ∃ a,x=.ok a) :
    Returns R (MonadExcept.ofExcept x : EStateM ε σ α) := by
  obtain ⟨a,rfl⟩ := h
  exact refl_of R

theorem bind {x : EStateM ε σ α} {f : α → EStateM ε σ β} (hx : Returns R x)
    (hf : ∀ a,Returns R (f a)) : Returns R (x >>= f) := by
  intro s
  rw [ensures_bind]
  refine (hx s).imp fun a t ht => ?_
  exact (hf a t).imp fun _ _ hu => trans_of R ht hu

end Returns

/-- Started where the invariant holds, the computation returns with it, and moves the state along
the relation. -/
def Sustains (inv : σ → Prop) (R : σ → σ → Prop) (x : EStateM ε σ α) : Prop :=
  ∀ s,inv s → Ensures x s (fun _ t => inv t ∧ R s t) (fun _ _ => False)

namespace Sustains

variable {inv : σ → Prop} {R : σ → σ → Prop}

variable {x : EStateM ε σ α}

theorem mono {S : σ → σ → Prop} (hx : Sustains inv R x) (h : ∀ s t,R s t → S s t) :
    Sustains inv S x :=
  fun s hs => (hx s hs).imp fun _ t ht => ⟨ht.1,h s t ht.2⟩

theorem modify {f : σ → σ} (hf : ∀ s,inv s → inv (f s) ∧ R s (f s)) :
    Sustains inv R (modify f : EStateM ε σ PUnit) := hf

theorem ite {c : Prop} [Decidable c] {y : EStateM ε σ α} (hx : Sustains inv R x)
    (hy : Sustains inv R y) : Sustains inv R (if c then x else y) := by
  intro s hs
  rw [ensures_ite]
  exact ⟨fun _ => hx s hs,fun _ => hy s hs⟩

theorem get_bind {f : σ → EStateM ε σ α}
    (hf : ∀ s,inv s → Succeeds (f s) s fun _ t => inv t ∧ R s t) :
    Sustains inv R (MonadState.get >>= f) := by
  intro s hs
  rw [ensures_bind,ensures_get]
  exact hf s hs

variable [IsPreorder σ R]

theorem pure {a : α} : Sustains inv R (Pure.pure a : EStateM ε σ α) := fun s hs => ⟨hs,refl_of R s⟩

theorem ofExcept {x : Except ε α} (h : ∃ a,x=.ok a) :
    Sustains inv R (MonadExcept.ofExcept x : EStateM ε σ α) := by
  obtain ⟨a,rfl⟩ := h
  exact pure

theorem after {f : α → EStateM ε σ β} {s : σ} (hx : Succeeds x s fun _ t => inv t ∧ R s t)
    (hf : ∀ a,Sustains inv R (f a)) :
    Succeeds (x >>= f) s fun _ t => inv t ∧ R s t := by
  simp only [ensures_bind]
  refine hx.imp fun a t ht => ?_
  exact (hf a t ht.1).imp fun _ u hu => ⟨hu.1,trans_of R ht.2 hu.2⟩

theorem bind {f : α → EStateM ε σ β} (hx : Sustains inv R x) (hf : ∀ a,Sustains inv R (f a)) :
    Sustains inv R (x >>= f) :=
  fun s hs => after (hx s hs) hf

end Sustains

end BlackBull
