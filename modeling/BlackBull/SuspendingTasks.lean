import Mathlib

/-!
# Tasks that suspend

A cooperative task is a list of instructions on a shared state. An instruction is done, or it
produces output and suspends the task with instructions of its own still to do, or it fails and the
task is over.
-/

namespace BlackBull

inductive Outcome (σ ι ω : Type) where
  | done (state : σ)
  | pause (state : σ) (output : List ω) (more : List ι)
  | fail (state : σ)

/-- What a task does until it suspends or ends: no instruction is left when it has ended. -/
structure Turn (σ ι ω : Type) where
  state : σ
  output : List ω
  todo : List ι

variable {σ ι ω : Type}

def advance (exec : σ → ι → Outcome σ ι ω) : σ → List ι → Turn σ ι ω
  | s,[] => ⟨s,[],[]⟩
  | s,i::rest =>
    match exec s i with
    | .done s' => advance exec s' rest
    | .pause s' output more => ⟨s',output,more++rest⟩
    | .fail s' => ⟨s',[],[]⟩

variable {ex : σ → ι → Outcome σ ι ω}

/-- What a turn does, from what an instruction does. -/
theorem advance_induction {P : σ → List ι → Turn σ ι ω → Prop} (nil : ∀ s,P s [] ⟨s,[],[]⟩)
    (d : ∀ s i rest s' turn,ex s i=.done s' → P s' rest turn → P s (i::rest) turn)
    (p : ∀ s i rest s' output m,ex s i=.pause s' output m → P s (i::rest) ⟨s',output,m++rest⟩)
    (fail : ∀ s i rest s',ex s i=.fail s' → P s (i::rest) ⟨s',[],[]⟩)
    (s : σ) (td : List ι) : P s td (advance ex s td) := by
  induction td generalizing s with
  | nil => exact nil s
  | cons i rest ih =>
    unfold advance
    cases he : ex s i with
    | done s' => exact d s i rest s' _ he (ih s')
    | pause s' output m => exact p s i rest s' output m he
    | fail s' => exact fail s i rest s' he

/-- The instructions are carried out in one go, with this output: nothing else runs while the
task is suspended. -/
inductive Straight (exec : σ → ι → Outcome σ ι ω) : σ → List ι → List ω → σ → Prop
  | nil (s : σ) : Straight exec s [] [] s
  | done {s s' t : σ} {i : ι} {rest : List ι} {out : List ω} (h : exec s i=.done s')
      (hrest : Straight exec s' rest out t) : Straight exec s (i::rest) out t
  | pause {s s' t : σ} {i : ι} {rest more : List ι} {output out : List ω}
      (h : exec s i=.pause s' output more) (hrest : Straight exec s' (more++rest) out t) :
      Straight exec s (i::rest) (output++out) t

variable {s t : σ} {out : List ω}

theorem straight_nil : Straight ex s [] out t ↔ out=[] ∧ t=s := by
  constructor
  · rintro ⟨⟩
    exact ⟨rfl,rfl⟩
  · rintro ⟨rfl,rfl⟩
    exact .nil t

theorem straight_cons {i : ι} {r : List ι} :
    Straight ex s (i::r) out t ↔
      match ex s i with
      | .done s' => Straight ex s' r out t
      | .pause s' o m => ∃ l,Straight ex s' (m++r) l t ∧ out=o++l
      | .fail _ => False := by
  constructor
  · rintro (- | ⟨h,hr⟩ | ⟨h,hr⟩)
    · simpa [h] using hr
    · simpa [h] using hr
  · intro h
    split at h
    · next he => exact .done he h
    · next he =>
      obtain ⟨l,hr,rfl⟩ := h
      exact .pause he hr
    · exact h.elim

theorem Straight.append {m : σ} {a l : List ι} {o : List ω}
    (h : Straight ex s a out m) (h' : Straight ex m l o t) : Straight ex s (a++l) (out++o) t := by
  induction h with
  | nil => exact h'
  | done h _ ih => exact .done h (ih h')
  | pause h _ ih =>
    rw [List.append_assoc]
    exact .pause h (by simpa using ih h')

theorem straight_append {a l : List ι} :
    Straight ex s (a++l) out t ↔ ∃ m f b,Straight ex s a f m ∧
      Straight ex m l b t ∧ out=f++b := by
  refine ⟨fun h => ?_,fun ⟨m,f,b,hf,hl,heq⟩ => heq ▸ hf.append hl⟩
  generalize ht : a++l=todo at h
  induction h generalizing a with
  | nil s =>
    obtain ⟨rfl,rfl⟩ := List.append_eq_nil_iff.mp ht
    exact ⟨s,[],[],.nil s,.nil s,rfl⟩
  | @done s s' t i rest out h hr ih =>
    cases a with
    | nil =>
      obtain rfl : l=i::rest := ht
      exact ⟨s,[],out,.nil s,.done h hr,rfl⟩
    | cons j a =>
      obtain ⟨rfl,rfl⟩ := List.cons.inj ht
      obtain ⟨m,f,b,hf,hl,rfl⟩ := ih rfl
      exact ⟨m,f,b,.done h hf,hl,rfl⟩
  | @pause s s' t i rest mr o out h hr ih =>
    cases a with
    | nil =>
      obtain rfl : l=i::rest := ht
      exact ⟨s,[],o++out,.nil s,.pause h hr,rfl⟩
    | cons j a =>
      obtain ⟨rfl,rfl⟩ := List.cons.inj ht
      obtain ⟨m,f,b,hf,hl,rfl⟩ := ih (List.append_assoc mr a l)
      exact ⟨m,o++f,b,.pause h hf,hl,by simp⟩

end BlackBull
