import BlackBull.HeaderBlocks

/-!
# Header blocks are contiguous

Between a HEADERS frame that leaves its block open and the frame that ends it, only CONTINUATION
frames on the same stream may come. The loop does not compare the stream of a CONTINUATION frame
with that of the open block, so this needs a condition on what is sent.
-/

namespace BlackBull.H2

open scoped List

variable {τ : Type} (lib : Library τ) (limits : Limits)

/-- What a frame must keep to. HEADERS: its fields fit, and a frame that leaves its block open
has no padding and is not on a half-closed stream. CONTINUATION: it is on the stream of the open
block or on one the tree does not know, and a block that goes on stays within the limit. -/
def Orderly (s : Actor τ) : Action → Prop
  | .frame raw _ =>
    (raw.type=some .headers → raw.WellFramed ∧ (raw.endHeaders=false →
      raw.padLength=0 ∧
        ∀ stream∈s.children.get? raw.streamId,stream.state≠.halfClosedRemote)) ∧
    (raw.type=some .continuation → ∀ frame∈s.openBlock,
      (raw.streamId=frame.streamId ∨ s.children.get? raw.streamId=none) ∧
        (raw.endHeaders=false →
          frame.rawBlock.length+raw.payload.length≤limits.headerMaxTotal))
  | _ => True

instance (s : Actor τ) : (action : Action) → Decidable (Orderly limits s action)
  | .frame _ _ => inferInstanceAs (Decidable (_ ∧ _))
  | .eof | .done _ _ | .push _ | .fail _ _ _ | .debit _ _ | .giveUp _ => isTrue trivial

/-- The open block of the loop is that of the wire. -/
inductive SameOpen (s : Actor τ) (w : Wire) : Prop
  | none (openBlock : s.openBlock=none) (openOn : w.openOn=none)
  | some (frame : HeadersFrame) (octets : Bytes) (openBlock : s.openBlock=some frame)
      (openOn : w.openOn=some (frame.streamId,octets)) (gathers : Gathers frame octets)
      (state : ∀ stream,s.children.get? frame.streamId=some stream →
        stream.state≠.halfClosedRemote)

/-- What has been decoded and dispatched are blocks of the wire, in order. -/
structure FromWire (s : Actor τ) (w : Wire) : Prop where
  decoded : s.decoded <+ w.complete
  dispatched : ∃ blocks,blocks <+ w.complete ∧ List.Forall₂ (Dispatch.From lib) s.dispatched blocks
  sameOpen : s.ended=false → SameOpen s w

section Step

variable {lib limits} {s t : Actor τ} {w : Wire} {raw : RawFrame} {m : Moment}

variable {w' : Wire}

theorem FromWire.of_complete (h : FromWire lib s w) (hw : w.complete <+ w'.complete)
    (hd : t.decoded=s.decoded) (hdi : t.dispatched=s.dispatched)
    (ho : t.ended=false → SameOpen t w') : FromWire lib t w' := by
  obtain ⟨b,hb,hf⟩ := h.dispatched
  exact ⟨hd ▸ h.decoded.trans hw,⟨b,hb.trans hw,hdi ▸ hf⟩,ho⟩

theorem FromWire.of_decoded (h : FromWire lib s w) {b new : List (ℕ × Bytes)} (hw : w'.complete =
    w.complete++new) (hd : t.decoded=s.decoded++b) (hb : b <+ new) (hdi : t.dispatched =
    s.dispatched) (ho : t.ended=false → SameOpen t w') : FromWire lib t w' := by
  obtain ⟨g,hg,hf⟩ := h.dispatched
  refine ⟨?_,⟨g,?_,hdi ▸ hf⟩,ho⟩
  · rw [hd,hw]
    exact h.decoded.append hb
  · rw [hw]
    exact hg.trans (List.sublist_append_left _ _)

theorem FromWire.of_dispatched (h : FromWire lib s w) {b : List (ℕ × Bytes)} {bl : ℕ × Bytes} {q :
    Dispatch} (hw : w'.complete=w.complete++[bl]) (hd : t.decoded=s.decoded++b) (hb : b <+
    [bl]) (hdi : t.dispatched=s.dispatched++[q]) (hf : q.From lib bl) (ho : t.ended=false →
    SameOpen t w') : FromWire lib t w' := by
  obtain ⟨g,hg,hgi⟩ := h.dispatched
  refine ⟨?_,⟨g++[bl],?_,?_⟩,ho⟩
  · rw [hd,hw]
    exact h.decoded.append hb
  · rw [hw]
    exact hg.append (.refl _)
  · rw [hdi]
    exact List.rel_append hgi (.cons hf .nil)

theorem fromWire_headers (h : FromWire lib s w) (ht : raw.type=some .headers)
    (ho : Orderly limits s (.frame raw m)) (htu : HeadersTurn lib s raw t) :
    FromWire lib t (w.receive (.frame raw m)) := by
  obtain ⟨hf,hu⟩ := ho.1 ht
  have hc := receive_complete_headers w m ht
  cases htu with
  | closed f d di lp =>
    have he : t.ended=false → SameOpen t (w.receive (.frame raw m)) := by simp [f.ended]
    rcases d with d | d
    · exact h.of_complete (complete_receive w _) d di he
    · exact h.of_decoded hc d (loaded_blocks hf) di he
  | refused free ob a di lp ha =>
    refine h.of_decoded hc a.1 (loaded_blocks hf) di fun _ => ?_
    cases hen : raw.endHeaders with
    | true =>
      refine .none ob ?_
      rw [receive_headers w m ht,hen,gather_finished]
    | false =>
      obtain ⟨st,hs,hst⟩ := ha hen
      exact absurd hst ((hu hen).2 st hs)
  | opened free uf ob a di lp ad sta =>
    refine h.of_decoded hc a.1 (List.nil_sublist _) di fun _ => ?_
    refine .some _ raw.fragment ob ?_ (gathers_ofRaw hf (hu uf).1) sta
    rw [receive_headers w m ht,uf,gather_unfinished]
    rfl
  | given free finished ob a l b fr r q p di =>
    have hb : raw.blocks=[(raw.streamId,raw.fragment)] := by rw [RawFrame.blocks,if_pos finished]
    have hfr : b=raw.fragment := by
      have hr := r.1
      rw [headerBlock_ofRaw hf] at hr
      split_ifs at hr
      cases hr
      rfl
    rw [hb] at hc
    refine h.of_dispatched hc a.1 (hb ▸ loaded_blocks hf) di
      (hfr ▸ r.from rfl p raw.streamId) fun _ => .none ob ?_
    rw [receive_headers w m ht,finished,gather_finished]

theorem fromWire_continuation {f : HeadersFrame} {o : Bytes} (h : FromWire lib s w) (ht :
    raw.type=some .continuation) (ho : s.openBlock=some f) (hope : w.openOn=some
    (f.streamId,o)) (hg : Gathers f o) (hs : ∀ stream,s.children.get?
    f.streamId=some stream → stream.state≠.halfClosedRemote) (hid : raw.streamId =
    f.streamId) (hsh : raw.endHeaders=false → f.rawBlock.length+raw.payload.length ≤
    limits.headerMaxTotal) (htu : ContinuationTurn lib limits s raw t) :
    FromWire lib t (w.receive (.frame raw m)) := by
  have hr := receive_continuation w m ht (hid ▸ hope)
  have hga := hg.extend raw.payload
  have hf (he : raw.endHeaders=true) : w.receive (.frame raw m) =
      {openOn:=none,complete:=w.complete++[(raw.streamId,o++raw.payload)]} := by
    rw [hr,he,gather_finished]
  have hde : (f.extend raw.payload).decodes <+ [(raw.streamId,o++raw.payload)] := hid ▸ hga.decodes
  have hfr {ot : HeadersFrame} (hot : s.openBlock=some ot) : ot=f :=
    Option.some.inj (hot.symm.trans ho)
  rcases htu with hou | ⟨failed,hra⟩
  · cases hou with
    | closed failed k =>
      exact h.of_complete (complete_receive w _) k.decoded k.dispatched (by simp [failed.ended])
    | reset ob sp ha =>
      obtain ⟨stream,hst,hc⟩ := ha
      exact absurd hc (hs stream (hid ▸ hst))
    | dropped ot ob live l none sp =>
      obtain rfl := hfr ob
      refine h.of_complete (complete_receive w _) sp.decoded sp.dispatched fun _ => ?_
      cases he : raw.endHeaders with
      | true => exact .none none (by rw [hf he])
      | false =>
        have hl := hsh he
        simp only [HeadersFrame.extend,List.length_append] at l
        omega
    | extended ot ob live uf e sp =>
      obtain rfl := hfr ob
      refine h.of_complete (complete_receive w _) sp.decoded sp.dispatched fun _ => ?_
      have hch : t.children=s.children := sp.children
      refine .some _ _ e ?_ hga ?_
      · rw [hr,uf,gather_unfinished,hid]
        rfl
      · rw [hch]
        exact hs
    | completed ot ob live finished sh completes =>
      obtain rfl := hfr ob
      have hn : t.ended=false → SameOpen t (w.receive (.frame raw m)) := fun _ =>
        .none completes.openBlock (by rw [hf finished])
      have hco := congrArg Wire.complete (hf finished)
      rcases completes.dispatched with hdi | ⟨block,f',req,hre,hp,hd⟩
      · exact h.of_decoded hco completes.decoded hde hdi hn
      · refine h.of_dispatched hco completes.decoded hde hd ?_ hn
        rw [← hga.headerBlock hre.1]
        exact hre.from hga.blank hp raw.streamId
  · obtain ⟨ot,ob,live,finished,hdec,hdi,-⟩ := hra
    obtain rfl := hfr ob
    exact h.of_decoded (congrArg Wire.complete (hf finished)) hdec hde hdi (by simp [failed.ended])

/-- The loop and the wire stay in step. -/
theorem fromWire_step (h : FromWire lib s w) {a : Action} (ho : Orderly limits s a) :
    FromWire lib (s.step lib limits a) (w.receive a) := by
  by_cases hf : ∃ raw m,a=.frame raw m
  case neg =>
    have hot : ∀ raw m,a≠.frame raw m := fun raw m heq => hf ⟨raw,m,heq⟩
    obtain ⟨hk,hc⟩ := step_environment lib limits s hot
    rw [receive_environment w hot]
    refine h.of_complete (.refl _) hk.decoded hk.dispatched fun hl => ?_
    have hs : s.ended=false := by
      by_contra he
      simp [hk.ended (by simpa using he)] at hl
    cases h.sameOpen hs with
    | none ob oo => exact .none (hk.openBlock.trans ob) oo
    | some f bs ob oo g st =>
      exact .some f bs (hk.openBlock.trans ob) oo g fun str hst => st str (hc _ _ hst)
  obtain ⟨raw,m,rfl⟩ := hf
  cases he : s.ended with
  | true =>
    have hk := step_of_ended lib limits m raw he
    exact h.of_complete (complete_receive w _) hk.decoded hk.dispatched (by simp [hk.ended he])
  | false =>
    rw [step_of_live lib limits m raw he]
    by_cases hh : raw.type=some .headers
    · exact fromWire_headers h hh ho (handle_headers lib limits m hh he)
    by_cases hco : raw.type=some .continuation
    · have ht := handle_continuation lib limits m hco he
      cases h.sameOpen he with
      | none ob oo =>
        obtain ⟨hfa,hk⟩ := ht.failed (.inl ob)
        exact h.of_complete (complete_receive w _) hk.decoded hk.dispatched (by simp [hfa.ended])
      | some f bs ob oo g st =>
        obtain ⟨hid | hn,hsh⟩ := ho.2 hco f ob
        · exact fromWire_continuation h hco ob oo g st hid hsh ht
        · obtain ⟨hfa,hk⟩ := ht.failed (.inr hn)
          exact h.of_complete (complete_receive w _) hk.decoded hk.dispatched (by simp [hfa.ended])
    · obtain ⟨hk,hfat⟩ := handle_other lib limits m hh hco he
      refine h.of_complete (complete_receive w _) hk.decoded hk.dispatched fun hl => ?_
      cases hope : s.openBlock with
      | none =>
        refine .none (hk.openBlock.trans hope) ?_
        rw [receive_other w m hh hco]
      | some f => simp [(hfat (by simp [hope])).ended] at hl

theorem failed_of_interruption (h : FromWire lib s w) (hl : s.ended=false) {id : ℕ}
    {bs : Bytes} (ho : w.openOn=some (id,bs)) (hor : Orderly limits s (.frame raw m))
    (hot : ¬ (raw.type=some .continuation ∧ raw.streamId=id)) :
    (s.step lib limits (.frame raw m)).Failed := by
  rw [step_of_live lib limits m raw hl]
  cases h.sameOpen hl with
  | none ob oo => simp [oo] at ho
  | some f bs' ob oo g st =>
    obtain ⟨rfl,-⟩ : f.streamId=id ∧ bs'=bs := by simpa [oo] using ho
    by_cases hh : raw.type=some .headers
    · cases handle_headers lib limits m hh hl with
      | closed fa => exact fa
      | refused fr => simp [ob] at fr
      | opened fr => simp [ob] at fr
      | given fr => simp [ob] at fr
    by_cases hc : raw.type=some .continuation
    · obtain ⟨hid | hn,-⟩ := hor.2 hc f ob
      · exact absurd ⟨hc,hid⟩ hot
      · have ht := handle_continuation lib limits m hc hl
        exact (ht.failed (.inr hn)).1
    · exact (handle_other lib limits m hh hc hl).2 (by simp [ob])

end Step

theorem fromWire_initial (ta : τ) : FromWire lib (Actor.initial limits ta) {} :=
  ⟨.refl _,⟨[],.refl _,.nil⟩,fun _ => .none rfl rfl⟩

theorem fromWire_run (ta : τ) {a : List Action}
    (al : Along (Actor.step lib limits) (Orderly limits) (.initial limits ta) a) :
    FromWire lib (run (Actor.step lib limits) (.initial limits ta) a) (run Wire.receive {} a) := by
  refine al.simulation (R := FromWire lib) ?_ (fromWire_initial lib limits ta)
  exact fun s w ac h ho => fromWire_step h ho

/-- On an orderly connection what is decoded and dispatched are blocks gathered on one stream, and
while a block is open any frame but a CONTINUATION on its stream ends the connection. -/
theorem header_blocks_contiguous (table : τ) {actions : List Action}
    (along : Along (Actor.step lib limits) (Orderly limits) (.initial limits table) actions) :
    let s := run (Actor.step lib limits) (.initial limits table) actions
    let w := run Wire.receive {} actions
    s.decoded <+ w.complete ∧ (∃ blocks,blocks <+ w.complete ∧
        List.Forall₂ (Dispatch.From lib) s.dispatched blocks) ∧
      ∀ streamId octets raw moment,s.ended=false → w.openOn=some (streamId,octets) →
        Orderly limits s (.frame raw moment) →
        ¬ (raw.type=some .continuation ∧ raw.streamId=streamId) →
        (s.step lib limits (.frame raw moment)).Failed := by
  have h := fromWire_run lib limits table along
  exact ⟨h.decoded,h.dispatched,fun _ _ _ _ hl ho hor hot => failed_of_interruption h hl ho hor hot⟩

/-- A request in two frames, and a second block that PING interrupts. -/
theorem header_blocks_contiguous_split :
    let actions := [.quiet 1 0 1 [0x82,0x86],.quiet 9 4 1 [0x84,0x41,1,97],
      .quiet 1 0 3 [0x82]]
    let s := run (Actor.step plainLibrary {}) (.initial {} []) actions
    s.decoded=[(1,[0x82,0x86,0x84,0x41,1,97])] ∧
      s.decoded <+ (run Wire.receive {} actions).complete ∧ s.dispatched.length=1 ∧
      (s.step plainLibrary {} (.quiet 6 0 0 [1,2,3,4,5,6,7,8])).Failed := by
  have along : Along (Actor.step plainLibrary {}) (Orderly {}) (.initial {} [])
      [.quiet 1 0 1 [0x82,0x86],.quiet 9 4 1 [0x84,0x41,1,97],.quiet 1 0 3 [0x82]] := by
    decide +kernel
  have h := header_blocks_contiguous plainLibrary {} [] along
  refine ⟨by decide +kernel,h.1,by decide +kernel,?_⟩
  exact h.2.2 3 [0x82] _ _ (by decide +kernel) (by decide +kernel) (by decide +kernel)
    (by decide +kernel)

/-- Each part of the condition is needed. A CONTINUATION frame on another live stream ends the
block of stream 3 and has it dispatched on stream 1. PING is answered although a block is open on
a half-closed stream, or on one whose block has passed the limit. Padding of a HEADERS frame that
is continued ends up in the block. -/
theorem header_blocks_mixed :
    (let actions := [.quiet 1 4 1 [0x82,0x86,0x84,0x41,1,97],.quiet 1 0 3 [0x82,0x86],
        .quiet 9 4 1 [0x84,0x41,1,98]]
      let s := run (Actor.step plainLibrary {}) (.initial {} []) actions
      s.ended=false ∧ s.dispatched.map Dispatch.streamId=[1,1] ∧
        s.decoded=[(1,[0x82,0x86,0x84,0x41,1,97]),(3,[0x82,0x86,0x84,0x41,1,98])] ∧
        (run Wire.receive {} actions).complete=[(1,[0x82,0x86,0x84,0x41,1,97])]) ∧
    (let actions := [.quiet 1 5 1 [0x82,0x86,0x84,0x41,1,97],.quiet 1 0 1 [0x82,0x86]]
      let s := run (Actor.step plainLibrary {}) (.initial {} []) actions
      (run Wire.receive {} actions).openOn=some (1,[0x82,0x86]) ∧
        (s.step plainLibrary {} (.quiet 6 0 0 [1,2,3,4,5,6,7,8])).ended=false) ∧
    (let limits : Limits := {headerMaxTotal:=3}
      let actions := [.quiet 1 0 1 [0x82,0x86],.quiet 9 0 1 [0x84,0x41]]
      let s := run (Actor.step plainLibrary limits) (.initial limits []) actions
      (run Wire.receive {} actions).openOn=some (1,[0x82,0x86,0x84,0x41]) ∧
        (s.step plainLibrary limits (.quiet 6 0 0 [1,2,3,4,5,6,7,8])).ended=false) ∧
    (let actions := [.quiet 1 8 1 [1,0x82,0x86,0x84],.quiet 9 4 1 [0x41,1,97,0x84]]
      let s := run (Actor.step plainLibrary {}) (.initial {} []) actions
      s.dispatched.map Dispatch.streamId=[1] ∧ s.decoded=[(1,[0x82,0x86,0x84,0x41,1,97])] ∧
        (run Wire.receive {} actions).complete=[(1,[0x82,0x86,0x41,1,97,0x84])]) := by
  decide +kernel

end BlackBull.H2
