import BlackBull.HeaderBlocks

/-!
# Where requests come from

Whatever the peer sends, a request is given to the application only for a block of its own that the
decoder has taken and the checks have passed.
-/

namespace BlackBull.H2

open scoped List

variable {τ : Type} (lib : Library τ) (limits : Limits)

/-- A request is read from a block of the stream that its HEADERS frame opened; a CONTINUATION frame
may have had it dispatched on another. -/
def Dispatch.ReadFrom (request : Dispatch) : ℕ × Bytes → Prop :=
  Dispatch.From lib {request with streamId:=request.frame.streamId}

/-- Every request has passed the checks and is read from a block of its own among those decoded, in
order; a block that is being gathered has no fields yet. -/
structure Earned (s : Actor τ) : Prop where
  checked : ∀ request∈s.dispatched,parseHeaders lib request.frame=.ok (.ok request.request)
  blocks : ∃ blocks,blocks <+ s.decoded ∧
    List.Forall₂ (Dispatch.ReadFrom lib) s.dispatched blocks
  gathered : s.ended=false → ∀ frame∈s.openBlock,frame.withFields .blank=frame

section Step

variable {lib limits} {s t : Actor τ}

theorem Earned.decode (h : Earned lib s) (hi : t.dispatched=s.dispatched) {b : List (ℕ × Bytes)}
    (hd : t.decoded=s.decoded++b)
    (ho : t.ended=false → ∀ f∈t.openBlock,f.withFields .blank=f) : Earned lib t := by
  obtain ⟨bs,hb,hf⟩ := h.blocks
  exact ⟨hi ▸ h.checked,⟨bs,hd ▸ hb.trans (List.sublist_append_left ..),hi ▸ hf⟩,ho⟩

theorem Earned.same (h : Earned lib s) (hi : t.dispatched=s.dispatched) (hd : t.decoded=s.decoded)
    (ho : t.ended=false → ∀ f∈t.openBlock,f.withFields .blank=f) : Earned lib t :=
  h.decode (b:=[]) hi (by simp [hd]) ho

theorem Earned.keep (h : Earned lib s) (hk : Keeps s t) : Earned lib t := by
  refine h.same hk.dispatched hk.decoded fun he f hf => ?_
  refine h.gathered ?_ f (hk.openBlock ▸ hf)
  by_contra hs
  simp [hk.ended (by simpa using hs)] at he

theorem Earned.give (h : Earned lib s) {f f' : HeadersFrame} {tb : τ} {b : Bytes} {q : Request}
    {sid : ℕ} (hr : f.Reads lib tb b f') (hb : f.withFields .blank=f)
    (hp : parseHeaders lib f'=.ok (.ok q)) (hd : t.decoded=s.decoded++f.decodes)
    (hi : t.dispatched=s.dispatched++[⟨sid,f',q⟩]) (ho : t.openBlock=none) : Earned lib t := by
  have hf := hr.from hb hp f'.streamId
  obtain ⟨hbl,_,_,-,ha⟩ := hr
  have hde : f.decodes=[(f'.streamId,b)] := by
    obtain ⟨_,_,_,rfl⟩ := addFields_parsed ha
    simp [HeadersFrame.decodes,hbl]
  obtain ⟨bs,hbs,hfs⟩ := h.blocks
  refine ⟨?_,⟨bs++[(f'.streamId,b)],?_,?_⟩,by simp [ho]⟩
  · rw [hi]
    exact List.forall_mem_append.mpr ⟨h.checked,by simpa using hp⟩
  · rw [hd,hde]
    exact hbs.append (.refl _)
  · rw [hi]
    exact List.rel_append hfs (.cons hf .nil)

theorem earned_step (h : Earned lib s) (a : Action) : Earned lib (s.step lib limits a) := by
  by_cases hf : ∃ raw m,a=.frame raw m
  case neg => exact h.keep (step_environment lib limits s fun raw m he => hf ⟨raw,m,he⟩).1
  obtain ⟨raw,m,rfl⟩ := hf
  cases he : s.ended with
  | true => exact h.keep (step_of_ended lib limits m raw he)
  | false =>
    rw [step_of_live lib limits m raw he]
    -- a connection that has failed gathers nothing more
    have hfa {t : Actor τ} (ht : t.Failed) (hl : t.ended=false) :
        ∀ f∈t.openBlock,f.withFields .blank=f := by simp [ht.ended] at hl
    by_cases hh : raw.type=some .headers
    · cases handle_headers lib limits m hh he with
      | closed fl hd hi => exact hd.elim (h.same hi · (hfa fl)) (h.decode hi · (hfa fl))
      | refused _ ho ad hi => exact h.decode hi ad.1 (by simp [ho])
      | opened _ _ ho ad hi =>
        refine h.decode hi ad.1 fun _ f hf => ?_
        obtain rfl := Option.some.inj (ho.symm.trans hf)
        rfl
      | given _ _ ho ad hl _ _ hr _ hp hi => exact h.give hr rfl hp (hl ▸ ad.1) hi ho
    by_cases hc : raw.type=some .continuation
    · rcases handle_continuation lib limits m hc he with hou | ⟨fl,_,_,_,_,hd,hi,-⟩
      · have hb {f : HeadersFrame} (hf : s.openBlock=some f) :
            (f.extend raw.payload).withFields .blank=f.extend raw.payload := by
          rw [← h.gathered he f hf]
          rfl
        cases hou with
        | closed _ k => exact h.keep k
        | reset _ sp => exact h.keep sp.toKeeps
        | dropped _ _ _ _ ho sp => exact h.same sp.dispatched sp.decoded (by simp [ho])
        | extended f hf _ _ ho sp =>
          refine h.same sp.dispatched sp.decoded fun _ f' hf' => ?_
          obtain rfl := Option.some.inj (ho.symm.trans hf')
          exact hb hf
        | completed f hf _ _ _ c =>
          rcases c.dispatched with hi | ⟨_,_,_,hr,hp,hi⟩
          · exact h.decode hi c.decoded (by simp [c.openBlock])
          · exact h.give hr (hb hf) hp c.decoded hi c.openBlock
      · exact h.decode hi hd (hfa fl)
    · exact h.keep (handle_other lib limits m hh hc he).1

end Step

/-- On every connection, however the peer frames its blocks, each request has passed the checks and
is read from a block of its own, in the order of the blocks. -/
theorem requests_earned (table : τ) (actions : List Action) :
    Earned lib (run (Actor.step lib limits) (.initial limits table) actions) := by
  induction actions using List.reverseRecOn with
  | nil => exact ⟨by simp [Actor.initial],⟨[],.slnil,.nil⟩,by simp [Actor.initial]⟩
  | append_singleton actions a ih =>
    rw [run_append]
    exact earned_step ih a

end BlackBull.H2
