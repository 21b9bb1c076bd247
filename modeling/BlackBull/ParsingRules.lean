import BlackBull.EffectOutcomes

/-!
# Parsers and meanings

A parser is a computation on what is left of its text. `Derives` says that whatever it takes has the
meaning of the value it gives, and in which ways alone it fails; `Takes` is what it makes of one
given text. Both have a rule for each way of putting parsers together.
-/

namespace BlackBull

variable {κ ε α β : Type}

/-- What the parser takes from the input has the meaning it gives, and it fails in these ways
only. -/
def Derives (fails : ε → Prop) (means : List κ → α → Prop) (p : EStateM ε (List κ) α)
    (input : List κ) : Prop :=
  Ensures p input (fun a rest => ∃ text,input=text++rest ∧ means text a) fun e _ => fails e

namespace Derives

variable {fl : ε → Prop} {M : List κ → α → Prop} {i : List κ}

theorem pure {a : α} (h : M [] a) : Derives fl M (Pure.pure a : EStateM ε (List κ) α) i :=
  ⟨[],rfl,h⟩

theorem throw {e : ε} (h : fl e) : Derives fl M (MonadExcept.throw e : EStateM ε (List κ) α) i := h

variable {p : EStateM ε (List κ) α}

theorem ite {c : Prop} [Decidable c] {q : EStateM ε (List κ) α} (hp : c → Derives fl M p i)
    (hq : ¬ c → Derives fl M q i) : Derives fl M (if c then p else q) i := by
  split_ifs with h
  · exact hp h
  · exact hq h

/-- A meaning may also be weakened by what the text is the beginning of. -/
theorem mono_taken {N : List κ → α → Prop} (h : Derives fl M p i)
    (hi : ∀ text a,text <+: i → M text a → N text a) : Derives fl N p i :=
  Ensures.mono h (fun a rest ⟨text,hin,hm⟩ => ⟨text,hin,hi text a ⟨rest,hin.symm⟩ hm⟩) fun _ _ => id

theorem mono {N : List κ → α → Prop} (h : Derives fl M p i)
    (hi : ∀ text a,M text a → N text a) : Derives fl N p i :=
  h.mono_taken fun text a _ => hi text a

/-- One parser after the other: the meaning is of the texts they take together. -/
theorem bind {w : List κ → β → Prop} {f : α → EStateM ε (List κ) β} (hp : Derives fl M p i)
    (hf : ∀ text rest a,i=text++rest → M text a → Derives fl (fun t b => w (text ++
    t) b) (f a) rest) : Derives fl w (p >>= f) i := by
  unfold Derives
  rw [ensures_bind]
  refine Ensures.mono hp (fun a rest ⟨text,hi,hm⟩ => ?_) fun _ _ => id
  refine Ensures.mono (hf text rest a hi hm) (fun b res ⟨t,hr,hw⟩ => ?_) fun _ _ => id
  exact ⟨text++t,by rw [hi,hr,List.append_assoc],hw⟩

theorem map {f : α → β} {w : List κ → β → Prop} (hp : Derives fl M p i)
    (hf : ∀ text a,M text a → w text (f a)) : Derives fl w (f <$> p) i := by
  unfold Derives
  rw [ensures_map]
  exact Ensures.mono hp (fun a rest ⟨text,hi,hm⟩ => ⟨text,hi,hf text a hm⟩) fun _ _ => id

theorem get {f : List κ → EStateM ε (List κ) α} (h : Derives fl M (f i) i) :
    Derives fl M (MonadState.get >>= f) i := by
  unfold Derives
  rw [ensures_bind,ensures_get]
  exact h

end Derives

theorem takeWhile_append_of_stop {p : κ → Bool} {t rest : List κ}
    (ht : ∀ c∈t,p c=true) (hr : ∀ c∈rest.head?,p c=false) :
    (t++rest).takeWhile p=t ∧ (t++rest).dropWhile p=rest := by
  induction t with
  | nil =>
    cases rest with
    | nil => exact ⟨rfl,rfl⟩
    | cons c rest =>
      have hc : p c=false := hr c rfl
      simp [hc]
  | cons c t ih =>
    obtain ⟨hc,ht⟩ := List.forall_mem_cons.mp ht
    obtain ⟨hta,hd⟩ := ih ht
    simp [hc,hta,hd]

/-- On this input the parser gives this value and leaves the rest. -/
def Takes (p : EStateM ε (List κ) α) (input : List κ) (a : α) (rest : List κ) : Prop :=
  p input=.ok a rest

namespace Takes

variable {p q : EStateM ε (List κ) α} {inp r rs : List κ} {a : α} {b : β}

theorem pure {a : α} {inp : List κ} : Takes (Pure.pure a : EStateM ε (List κ) α) inp a inp := rfl

theorem bind {f : α → EStateM ε (List κ) β} (hp : Takes p inp a r)
    (hf : Takes (f a) r b rs) : Takes (p >>= f) inp b rs := by
  change EStateM.bind p f inp=.ok b rs
  unfold Takes at hp
  simp only [EStateM.bind,hp]
  exact hf

theorem map {f : α → β} (hp : Takes p inp a r) : Takes (f <$> p) inp (f a) r := by
  change EStateM.map f p inp=.ok (f a) r
  unfold Takes at hp
  simp only [EStateM.map,hp]

theorem get {f : List κ → EStateM ε (List κ) α} (h : Takes (f inp) inp a r) :
    Takes (MonadState.get >>= f) inp a r := h

theorem ite_pos {c : Prop} [Decidable c] (hc : c) (h : Takes p inp a r) :
    Takes (if c then p else q) inp a r := by
  rwa [if_pos hc]

theorem ite_neg {c : Prop} [Decidable c] (hc : ¬ c) (h : Takes q inp a r) :
    Takes (if c then p else q) inp a r := by
  rwa [if_neg hc]

end Takes

end BlackBull
