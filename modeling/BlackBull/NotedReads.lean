import Mathlib

/-!
# Reads that take notes

A computation that can fail and notes what it reads, without judging it. `judged` is the same
computation with every note judged when it is taken. `Traces` says that a computation is a judged
one, and what the other failures can be.
-/

namespace BlackBull

structure Noted (ν ε α : Type) where
  notes : List ν
  result : Except ε α

namespace Noted

variable {ν ε α β : Type}

def bind (x : Noted ν ε α) (f : α → Noted ν ε β) : Noted ν ε β :=
  match x.result with
  | .ok a => ⟨x.notes++(f a).notes,(f a).result⟩
  | .error e => ⟨x.notes,.error e⟩

instance : Monad (Noted ν ε) where
  pure a := ⟨[],.ok a⟩
  bind := bind

def lift (x : Except ε α) : Noted ν ε α := ⟨[],x⟩

def note (n : ν) (a : α) : Noted ν ε α := ⟨[n],.ok a⟩

def judged (fine : ν → Bool) (failure : ε) (x : Noted ν ε α) : Except ε α :=
  if x.notes.all fine then x.result else .error failure

theorem judged_bind (fine : ν → Bool) (fai : ε) (x : Noted ν ε α) (f : α → Noted ν ε β) :
    (x >>= f).judged fine fai =
      x.judged fine fai >>= fun a => (f a).judged fine fai := by
  have hb : x >>= f=x.bind f := rfl
  rw [hb]
  unfold judged bind
  cases hn : x.notes.all fine with
  | true | false => cases x.result <;> simp [hn] <;> rfl

end Noted

theorem expected_of_bind {ε α β : Type} {expected : ε → Prop} {x : Except ε α}
    {f : α → Except ε β} (hx : ∀ e,x=.error e → expected e)
    (hf : ∀ a e,f a=.error e → expected e) (e : ε) (h : x >>= f=.error e) : expected e := by
  cases x with
  | error e' =>
    cases h
    exact hx e rfl
  | ok a => exact hf a e h

/-- `y` is `x` with its notes judged; the other failures are expected. -/
structure Traces {ν ε α : Type} (fine : ν → Bool) (failure : ε) (expected : ε → Prop)
    (x : Noted ν ε α) (y : Except ε α) : Prop where
  judged : y=x.judged fine failure
  expected : ∀ e,x.result=.error e → expected e

namespace Traces

variable {ν ε α β : Type} {fn : ν → Bool} {fl : ε} {xp : ε → Prop}

theorem pure {a : α} : Traces fn fl xp (Pure.pure a) (Except.ok a) where
  judged := rfl
  expected := fun _ h => by cases h

theorem lift {x : Except ε α} (h : ∀ e,x=.error e → xp e) : Traces fn fl xp (Noted.lift x) x where
  judged := rfl
  expected := h

variable {y : Except ε α}

theorem bind {x : Noted ν ε α} {f : α → Noted ν ε β} {g : α → Except ε β}
    (hx : Traces fn fl xp x y) (hf : ∀ a,Traces fn fl xp (f a) (g a)) :
    Traces fn fl xp (x >>= f) (y >>= g) where
  judged := by
    rw [Noted.judged_bind,hx.judged]
    congr 1
    funext a
    exact (hf a).judged
  expected := by
    intro e he
    have hb : (x >>= f).result=(x.bind f).result := rfl
    rw [hb,Noted.bind] at he
    cases hr : x.result with
    | error e' =>
      rw [hr] at he
      cases he
      exact hx.expected e hr
    | ok a =>
      rw [hr] at he
      exact (hf a).expected e he

theorem ite {c : Prop} [Decidable c] {x x' : Noted ν ε α} {y' : Except ε α}
    (hx : Traces fn fl xp x y) (hx' : Traces fn fl xp x' y') :
    Traces fn fl xp (if c then x else x') (if c then y else y') := by
  split
  · exact hx
  · exact hx'

theorem note {n : ν} {a : α} (h : y=if fn n then .ok a else .error fl) :
    Traces fn fl xp (Noted.note n a) y where
  judged := by
    rw [h,Noted.judged,Noted.note]
    simp
  expected := fun _ h => by cases h

end Traces

/-- `y` is `x` with its notes judged, and goes on with its result. -/
structure TracesThen {ν ε α β : Type} (fine : ν → Bool) (failure : ε) (expected : ε → Prop)
    (next : α → Except ε β) (x : Noted ν ε α) (y : Except ε β) : Prop where
  judged : y=x.judged fine failure >>= next
  expected : ∀ e,x.result=.error e → expected e

namespace TracesThen

variable {ν ε α β γ : Type} {fi : ν → Bool} {fa : ε} {ex : ε → Prop}
  {next : β → Except ε γ}

theorem pure {b : β} : TracesThen fi fa ex next (Pure.pure b) (next b) where
  judged := rfl
  expected := fun _ h => by cases h

theorem raise {e : ε} (h : ex e) : TracesThen fi fa ex next (Noted.lift (.error e)) (.error e) where
  judged := rfl
  expected := by
    intro e' he
    cases he
    exact h

theorem bind {x : Noted ν ε α} {y : Except ε α} {f : α → Noted ν ε β} {g : α → Except ε γ}
    (hx : Traces fi fa ex x y) (hf : ∀ a,TracesThen fi fa ex next (f a) (g a)) :
    TracesThen fi fa ex next (x >>= f) (y >>= g) where
  judged := by
    rw [Noted.judged_bind,hx.judged,bind_assoc]
    congr 1
    funext a
    exact (hf a).judged
  expected := (Traces.bind (g := fun a => (f a).judged fi fa) hx
    fun a => ⟨rfl,(hf a).expected⟩).expected

theorem ite {c : Prop} [Decidable c] {x x' : Noted ν ε β} {y y' : Except ε γ}
    (hx : TracesThen fi fa ex next x y)
    (hx' : TracesThen fi fa ex next x' y') :
    TracesThen fi fa ex next (if c then x else x') (if c then y else y') := by
  split
  · exact hx
  · exact hx'

end TracesThen

end BlackBull
