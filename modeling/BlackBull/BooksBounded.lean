import BlackBull.FrameBooks

/-!
# Bounded bookkeeping

A connection whose header blocks are all accepted, and whose priority hints name no stream that is
over, keeps nodes, senders and recipients for its live streams and for a bounded number of hints. A
block that is refused leaves the node and the sender of its stream behind.
-/

namespace BlackBull.H2

variable {τ : Type} {lib : Library τ} {limits : Limits} {s : Actor τ}

structure Booked (τ : Type) where
  actor : Actor τ
  gone : List ℕ := []

namespace Booked

/-- The streams that a step ends: the peer resets one, or its handler is done. -/
def leaves (s t : Actor τ) : Action → List ℕ
  | .frame raw _ => departed s raw t
  | .done streamId isWs => if s.running.contains (streamId,isWs) then [streamId] else []
  | _ => []

variable (lib limits)

def step (w : Booked τ) (action : Action) : Booked τ :=
  let t := w.actor.step lib limits action
  ⟨t,w.gone++leaves w.actor t action⟩

/-- Frames keep to `Tended`, and nothing is pushed. -/
def Regular (w : Booked τ) : Action → Prop
  | .frame raw _ => Tended lib limits w.actor raw
  | .push _ => False
  | _ => True

instance (w : Booked τ) : (action : Action) → Decidable (w.Regular lib limits action)
  | .frame raw _ => inferInstanceAs (Decidable (Tended lib limits w.actor raw))
  | .push _ => inferInstanceAs (Decidable False)
  | .eof => inferInstanceAs (Decidable True)
  | .done _ _ => inferInstanceAs (Decidable True)
  | .fail _ _ _ => inferInstanceAs (Decidable True)
  | .debit _ _ => inferInstanceAs (Decidable True)
  | .giveUp _ => inferInstanceAs (Decidable True)

/-- While the connection is read its books are in order. -/
def InOrder (w : Booked τ) : Prop := w.actor.ending=none → Tidy limits none w.gone w.actor

theorem initial_inOrder (t : τ) : InOrder limits ⟨Actor.initial limits t,[]⟩ := by
  intro _
  refine ⟨nofun,fun id he => ?_,?_,nofun,fun ids _ hi => ?_,le_rfl,Nat.zero_le _⟩
  · exact absurd he (by simp [Actor.Equips,Actor.initial])
  · rintro id ⟨iw,hm⟩
    cases hm
  · cases ids with
    | nil => exact Nat.zero_le _
    | cons id ids => exact absurd (hi id List.mem_cons_self).1 (by simp [Actor.initial])

theorem step_inOrder (w : Booked τ) (a : Action) (h : InOrder limits w)
    (hr : w.Regular lib limits a) : InOrder limits (w.step lib limits a) := by
  have hs {t : Actor τ} (ht : Touches none w.actor t)
      (he : t.ending=w.actor.ending) : t.ending=none → Tidy limits none (w.gone++[]) t := by
    intro hn
    rw [List.append_nil]
    exact (h (he ▸ hn)).touch ht (by simp)
  cases a with
  | frame raw m =>
    unfold InOrder step
    dsimp only [leaves]
    rw [Actor.step]
    split_ifs with hen
    · intro hn
      rw [hn] at hen
      cases hen
    · have hn : w.actor.ending=none := by simpa using hen
      have htu := turn_tidy m (h hn) hr
      exact handle_of_ensures (P := Balanced limits w.gone w.actor raw)
        (htu.mono (fun _ _ => id) fun _ _ _ _ hn => absurd hn (by simp))
  | eof =>
    unfold InOrder step
    dsimp only [leaves,Actor.step]
    split_ifs with hen
    · intro hn
      rw [hn] at hen
      cases hen
    · intro hn
      cases hn
  | done si iw =>
    unfold InOrder step
    dsimp only [leaves,Actor.step]
    simp only [List.contains_iff_mem]
    split_ifs with hru
    · intro hn
      refine (h ?_).taskDone hru
      rw [← hn]
      unfold Actor.taskDone
      dsimp only
      split <;> rfl
    · rw [List.append_nil]
      exact h
  | push psi => exact hr.elim
  | fail si code m =>
    exact hs (voices_touches.resetStream.moves.leaving w.actor)
      (voices_speaks.resetStream.moves.leaving w.actor).ending
  | debit si n =>
    refine hs (touches_windows fun id _ hso => ?_) rfl
    rw [← isSome_creditStream si w.actor.windows (-n) id]
    exact hso
  | giveUp code => exact hs ((voices_touches : Voices _ 0).goaway code w.actor) rfl

/-- What the books amount to: what is kept belongs to live streams or is the node of a hint, its
identifiers are bounded in number, and a stream that is over is treated as closed. -/
structure Settled (w : Booked τ) : Prop where
  belongs : ∀ id,w.actor.Holds id → w.actor.Live id ∨
    ∃ stream,w.actor.children.get? id=some stream ∧ stream.Hint ∧ ¬ w.actor.Equips id
  bounded : ∀ ids : List ℕ,ids.Nodup → (∀ id∈ids,w.actor.Holds id) →
    ids.length≤limits.maxConcurrentStreams+(limits.maxConcurrentStreams+1)
  closed : ∀ id∈w.gone,w.actor.children.get? id=none ∧
    ∀ type,∃ viaRst,w.actor.streamRefusal type id=lateFrame type viaRst

variable {lib limits}

variable {gn ids : List ℕ}

theorem belongs_of_tidy (h : Tidy limits none gn s) {id : ℕ} (hid : s.Holds id) :
    s.Live id ∨ ∃ st,s.children.get? id=some st ∧ st.Hint ∧ ¬ s.Equips id := by
  by_cases hl : s.Live id
  · exact .inl hl
  · have hd : ¬ s.LiveOr none id := fun hor => hl (hor.resolve_right nofun)
    have he : ¬ s.Equips id := fun he => hd (h.equips id he)
    obtain ⟨st,hs⟩ := Option.isSome_iff_exists.mp (hid.resolve_right he)
    exact .inr ⟨st,hs,(h.node id st hs).resolve_left hd,he⟩

theorem served_le (h : Tidy limits none gn s) (hn : ids.Nodup)
    (hi : ∀ id∈ids,s.Serves id) : ids.length≤limits.maxConcurrentStreams := by
  have hs : ids ⊆ s.running.map Prod.fst := by
    intro id hid
    obtain ⟨iw,hm⟩ := hi id hid
    exact List.mem_map_of_mem hm
  calc ids.length≤(s.running.map Prod.fst).length := (hn.subperm hs).length_le
    _=s.running.length := List.length_map _
    _ ≤ s.activeStreamCount := h.counted
    _≤limits.maxConcurrentStreams := h.limit

theorem opening_le (hn : ids.Nodup) (hi : ∀ id∈ids,∃ f,s.openBlock=some f ∧ f.streamId=id) :
    ids.length≤1 := by
  have hs : ids ⊆ (s.openBlock.map HeadersFrame.streamId).toList := by
    intro id hid
    obtain ⟨f,hf,rfl⟩ := hi id hid
    simp [hf]
  refine (hn.subperm hs).length_le.trans ?_
  cases s.openBlock <;> simp

theorem bounded_of_tidy (h : Tidy limits none gn s) (hn : ids.Nodup) (hi : ∀ id∈ids,s.Holds id) :
    ids.length≤limits.maxConcurrentStreams+(limits.maxConcurrentStreams+1) := by
  classical
  -- the streams served, then the one whose block is open, then the hints
  let served := ids.filter fun id => decide (s.Serves id)
  let ot := ids.filter fun id => !decide (s.Serves id)
  let o := ot.filter fun id => decide (s.Live id)
  let hints := ot.filter fun id => !decide (s.Live id)
  have ho : ot.Nodup := hn.filter _
  have hs : served.length≤limits.maxConcurrentStreams :=
    served_le h (hn.filter _) fun id hid => by simpa using (List.mem_filter.mp hid).2
  have hope : o.length≤1 := by
    refine opening_le (s := s) (ho.filter _) fun id hid => ?_
    obtain ⟨hot,hl⟩ := List.mem_filter.mp hid
    have hu : ¬ s.Serves id := by simpa using (List.mem_filter.mp hot).2
    have hl : s.Live id := by simpa using hl
    exact hl.resolve_left hu
  have hh : hints.length≤limits.maxConcurrentStreams := by
    refine h.hints hints (ho.filter _) fun id hid => ?_
    obtain ⟨hot,hd⟩ := List.mem_filter.mp hid
    have hd : ¬ s.Live id := by simpa using hd
    obtain ⟨st,hst,-⟩ := (belongs_of_tidy h (hi id (List.mem_filter.mp hot).1)).resolve_left hd
    exact ⟨by rw [hst]; rfl,fun hor => hd (hor.resolve_right nofun)⟩
  have hsp : ids.length=served.length+ot.length := List.length_eq_length_filter_add _
  have hs' : ot.length=o.length+hints.length := List.length_eq_length_filter_add _
  omega

theorem closed_of_tidy (h : Tidy limits none gn s) {id : ℕ} (hid : id∈gn) :
    s.children.get? id=none ∧ ∀ type,∃ vr,s.streamRefusal type id=lateFrame type vr := by
  obtain ⟨hn,hp,-⟩ := h.closed id hid
  obtain ⟨vr,hv⟩ := Option.ne_none_iff_exists'.mp (closedVia_isSome h hid)
  refine ⟨hn,fun type => ⟨vr,?_⟩⟩
  unfold Actor.streamRefusal
  rw [if_neg hp.ne',hn]
  dsimp only
  rw [hv]

variable (lib limits)

/-- On a run whose frames keep to `Tended`, as long as the connection is read, its books are
settled. -/
theorem books_settled (table : τ) (actions : List Action)
    (h : Along (step lib limits) (Regular lib limits) ⟨.initial limits table,[]⟩ actions)
    (hread : (run (step lib limits) ⟨.initial limits table,[]⟩ actions).actor.ending=none) :
    Settled limits (run (step lib limits) ⟨.initial limits table,[]⟩ actions) := by
  have ht := h.invariant (step_inOrder lib limits) (initial_inOrder limits table) hread
  exact ⟨fun _ => belongs_of_tidy ht,fun _ => bounded_of_tidy ht,fun _ => closed_of_tidy ht⟩

/-- Streams 1 and 3 are opened and served, stream 1 is done, and a late WINDOW_UPDATE comes for it;
stream 9 has a hint. -/
theorem books_settled_two :
    let w := run (step plainLibrary {}) ⟨.initial {} [],[]⟩
      [.quiet 1 5 1 [0x82,0x86,0x84,0x41,1,97],.quiet 1 5 3 [0x82,0x86,0x84,0x41,1,97],
        .done 1 false,.quiet 8 0 1 [0,0,0,1],.quiet 16 0 0 [0,0,0,9]]
    w.actor.ending=none ∧ w.gone=[1] ∧ Settled {} w := by
  intro w
  have hr : Along (step plainLibrary {}) (Regular plainLibrary {}) ⟨.initial {} [],[]⟩
      [.quiet 1 5 1 [0x82,0x86,0x84,0x41,1,97],.quiet 1 5 3 [0x82,0x86,0x84,0x41,1,97],
        .done 1 false,.quiet 8 0 1 [0,0,0,1],.quiet 16 0 0 [0,0,0,9]] := by
    decide +kernel
  have hre : w.actor.ending=none := by decide +kernel
  exact ⟨hre,by decide +kernel,books_settled plainLibrary {} [] _ hr hre⟩

/-- Four requests without `:path` are refused on a connection for one stream at a time: four
nodes and four senders stay. And a hint makes stream 1 idle again once it is over. -/
theorem books_unsettled :
    let limits : Limits := {maxConcurrentStreams:=1}
    let w := run (step plainLibrary limits) ⟨.initial limits [],[]⟩
      [.quiet 1 5 1 [0x82,0x86],.quiet 1 5 3 [0x82,0x86],.quiet 1 5 5 [0x82,0x86],
        .quiet 1 5 7 [0x82,0x86]]
    let w' := run (step plainLibrary {}) ⟨.initial {} [],[]⟩
      [.quiet 1 5 1 [0x82,0x86,0x84,0x41,1,97],.done 1 false,.quiet 16 0 0 [0,0,0,1]]
    w.actor.ending=none ∧ ¬ Settled limits w ∧ w'.actor.ending=none ∧ 1∈w'.gone ∧
        (w'.actor.children.get? 1).map Stream.state=some .idle := by
  intro limits w w'
  refine ⟨by decide +kernel,fun hs => ?_,by decide +kernel,by decide +kernel,by decide +kernel⟩
  have hh : ∀ id∈[1,3,5,7],w.actor.Holds id := by
    have ha : ∀ id∈[1,3,5,7],(w.actor.children.get? id).isSome=true := by decide +kernel
    exact fun id hid => .inl (ha id hid)
  have hb := hs.bounded [1,3,5,7] (by decide) hh
  exact absurd hb (by decide)

end Booked
end BlackBull.H2
