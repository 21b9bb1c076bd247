import BlackBull.HeaderBlocks

/-!
# The decoder keeps step with the peer

The dynamic table of HPACK is a function of the blocks decoded so far, so every complete block has
to reach the decoder. The loop skips the block of a frame it finds malformed before decoding and of
a block it finds too long.
-/

namespace BlackBull.H2

variable {τ : Type} (lib : Library τ) (limits : Limits)

/-- What a frame must keep to. HEADERS: its fields fit, its stream does not depend on itself, a
block of one frame is not empty and a block of several has no padding. CONTINUATION: it is on the
stream of the open block or on one the tree does not know, and a block that ends is within the
limit. -/
def Decodable (s : Actor τ) : Action → Prop
  | .frame raw _ =>
    (raw.type=some .headers → raw.WellFramed ∧ ¬ raw.SelfDependent ∧
      (if raw.endHeaders then raw.payload≠[] else raw.padLength=0)) ∧
    (raw.type=some .continuation → ∀ frame∈s.openBlock,
      (raw.streamId=frame.streamId ∨ s.children.get? raw.streamId=none) ∧
        (raw.endHeaders=true →
          frame.rawBlock.length+raw.payload.length≤limits.headerMaxTotal))
  | _ => True

instance (s : Actor τ) (action : Action) : Decidable (Decodable limits s action) := by
  cases action <;> unfold Decodable <;> infer_instance

/-- Whatever ends the block of the frame, the decoder is given these octets and the rest. -/
def StandsFor (frame : HeadersFrame) (octets : Bytes) : Prop :=
  ∀ more,(frame.extend more).decodes=[(frame.streamId,octets++more)]

theorem standsFor_ofRaw {raw : RawFrame} (hf : raw.WellFramed) (hs : ¬ raw.SelfDependent)
    (hp : raw.padLength=0) : StandsFor (.ofRaw raw) raw.fragment := by
  intro mr
  rw [HeadersFrame.decodes,headerBlock_extend hf (.inl hp),if_neg hs]
  rfl

theorem StandsFor.extend {f : HeadersFrame} {bs : Bytes} (h : StandsFor f bs)
    (p : Bytes) : StandsFor (f.extend p) (bs++p) := by
  intro mr
  rw [HeadersFrame.extend_extend,h,List.append_assoc]
  rfl

/-- The decoder has been given the complete blocks, and the open block is that of the wire. -/
structure Synced (table : τ) (s : Actor τ) (w : Wire) : Prop where
  decoded : s.decoded=w.complete
  decodes : decodeBlocks lib table w.complete=some s.table
  openBlock : ∀ frame,s.openBlock=some frame →
    (∃ octets,w.openOn=some (frame.streamId,octets) ∧ StandsFor frame octets) ∧
      ∀ stream,s.children.get? frame.streamId=some stream → stream.state≠.halfClosedRemote

section Step

variable {lib limits} {tb : τ} {s t : Actor τ} {w : Wire} {raw : RawFrame} {m : Moment}

theorem Synced.advance (h : Synced lib tb s w) {w' : Wire} {b : List (ℕ × Bytes)} (hw :
    w'.complete=w.complete++b) (ha : Advances lib b s t) (ho : ∀ f,t.openBlock=some f → (∃
    bs,w'.openOn=some (f.streamId,bs) ∧ StandsFor f bs) ∧ ∀ st,t.children.get? f.streamId =
    some st → st.state≠.halfClosedRemote) : Synced lib tb t w' := by
  refine ⟨?_,?_,ho⟩
  · rw [ha.1,hw,h.decoded]
  · rw [hw,decodeBlocks_append,h.decodes]
    exact ha.2

theorem Synced.same (h : Synced lib tb s w) {w' : Wire} (hw : w'.complete=w.complete) (hd :
    t.decoded=s.decoded) (ht : t.table=s.table) (ho : ∀ f,t.openBlock=some f → (∃ bs,
    w'.openOn=some (f.streamId,bs) ∧ StandsFor f bs) ∧ ∀ st,t.children.get? f.streamId=some st
    → st.state≠.halfClosedRemote) : Synced lib tb t w' :=
  h.advance (hw.trans (List.append_nil _).symm)
    ⟨hd.trans (List.append_nil _).symm,congrArg some ht.symm⟩ ho

/-- A frame that keeps to the condition is decoded whole as it is loaded. -/
theorem loaded_eq_blocks (ht : raw.type=some .headers) (hf : raw.WellFramed)
    (hs : ¬ raw.SelfDependent) (he : raw.endHeaders=true → raw.payload≠[]) :
    loaded raw=raw.blocks := by
  cases hen : raw.endHeaders with
  | false => rw [loaded_of_unfinished hen,RawFrame.blocks,if_neg (by simp [hen])]
  | true =>
    have hl : 0<raw.payload.length := List.length_pos_iff.mpr (he hen)
    rw [loaded,if_pos ⟨ht,hl,hen⟩,decodes_ofRaw hf,if_neg hs,RawFrame.blocks,if_pos hen]

theorem synced_headers (h : Synced lib tb s w) (ht : raw.type=some .headers)
    (hd : Decodable limits s (.frame raw m)) (htu : HeadersTurn lib s raw t)
    (hl : t.ended=false) : Synced lib tb t (w.receive (.frame raw m)) := by
  obtain ⟨hf,hs,hsh⟩ := hd.1 ht
  have hc := receive_complete_headers w m ht
  have hlo : loaded raw=raw.blocks := loaded_eq_blocks ht hf hs fun he => by simpa [he] using hsh
  cases htu with
  | closed f => simp [f.ended] at hl
  | refused free ob a => exact h.advance hc (hlo ▸ a) (by simp [ob])
  | given free fi ob a => exact h.advance hc (hlo ▸ a) (by simp [ob])
  | opened free uf ob a d lp ad st =>
    have hb : raw.blocks=[] := by rw [RawFrame.blocks,if_neg (by simp [uf])]
    have hp : raw.padLength=0 := by simpa [uf] using hsh
    refine h.advance hc (hb ▸ a) fun fr hfr => ?_
    obtain rfl : HeadersFrame.ofRaw raw=fr := Option.some.inj (ob.symm.trans hfr)
    refine ⟨⟨raw.fragment,?_,standsFor_ofRaw hf hs hp⟩,st⟩
    rw [receive_headers w m ht,uf,gather_unfinished]
    rfl

theorem synced_continuation (h : Synced lib tb s w) (ht : raw.type=some .continuation)
    (hd : Decodable limits s (.frame raw m))
    (htu : ContinuationTurn lib limits s raw t) (hl : t.ended=false) :
    Synced lib tb t (w.receive (.frame raw m)) := by
  cases ho : s.openBlock with
  | none => simp [(htu.failed (.inl ho)).1.ended] at hl
  | some frame =>
    obtain ⟨hid | hn,hs⟩ := hd.2 ht frame ho
    case inr => simp [(htu.failed (.inr hn)).1.ended] at hl
    obtain ⟨⟨octets,hope,hst⟩,hsta⟩ := h.openBlock frame ho
    have hr := receive_continuation w m ht (hid ▸ hope)
    have hf {o : HeadersFrame} (hot : s.openBlock=some o) : o=frame :=
      Option.some.inj (hot.symm.trans ho)
    rcases htu with hou | ⟨failed,-⟩
    case raised => simp [failed.ended] at hl
    cases hou with
    | closed failed => simp [failed.ended] at hl
    | reset ob sp ha =>
      obtain ⟨stream,hstr,hc⟩ := ha
      exact absurd hc (hsta stream (hid ▸ hstr))
    | dropped o ob live l none sp =>
      obtain rfl := hf ob
      cases he : raw.endHeaders with
      | true =>
        have hle := hs he
        simp only [HeadersFrame.extend,List.length_append] at l
        omega
      | false =>
        refine h.same ?_ sp.decoded sp.table (by simp [none])
        rw [hr,he,gather_unfinished]
    | extended o ob live uf e sp =>
      obtain rfl := hf ob
      rw [hr,uf,gather_unfinished]
      refine h.same rfl sp.decoded sp.table fun f' hf' => ?_
      obtain rfl : o.extend raw.payload=f' := Option.some.inj (e.symm.trans hf')
      have hch : t.children=s.children := sp.children
      exact ⟨⟨_,by rw [hid]; rfl,hst.extend raw.payload⟩,hch ▸ hsta⟩
    | completed o ob live finished sh completes =>
      obtain rfl := hf ob
      have hde := hst raw.payload
      rw [← hid] at hde
      have had : Advances lib [(raw.streamId,octets++raw.payload)] s t :=
        ⟨hde ▸ completes.decoded,hde ▸ completes.table⟩
      rw [hr,finished,gather_finished]
      exact h.advance rfl had (by simp [completes.openBlock])

/-- As long as the connection is open the decoder keeps step with the wire. -/
theorem synced_step (h : s.ended=false → Synced lib tb s w) {a : Action}
    (hd : Decodable limits s a) (hl : (s.step lib limits a).ended=false) :
    Synced lib tb (s.step lib limits a) (w.receive a) := by
  have hs {t : Actor τ} (hk : Keeps s t) (ht : t.ended=false) : s.ended=false := by
    by_contra he
    simp [hk.ended (by simpa using he)] at ht
  by_cases hf : ∃ raw m,a=.frame raw m
  case neg =>
    have ho : ∀ raw m,a≠.frame raw m := fun raw m heq => hf ⟨raw,m,heq⟩
    obtain ⟨hk,hc⟩ := step_environment lib limits s ho
    have hsy := h (hs hk hl)
    rw [receive_environment w ho]
    refine hsy.same rfl hk.decoded hk.table fun f hope => ?_
    obtain ⟨hst,hsta⟩ := hsy.openBlock f (hk.openBlock ▸ hope)
    exact ⟨hst,fun st hstr => hsta st (hc _ _ hstr)⟩
  obtain ⟨raw,m,rfl⟩ := hf
  cases he : s.ended with
  | true =>
    have hk := step_of_ended lib limits m raw he
    simp [hs hk hl] at he
  | false =>
    rw [step_of_live lib limits m raw he] at hl ⊢
    by_cases hh : raw.type=some .headers
    · exact synced_headers (h he) hh hd (handle_headers lib limits m hh he) hl
    by_cases hco : raw.type=some .continuation
    · exact synced_continuation (h he) hco hd (handle_continuation lib limits m hco he) hl
    · obtain ⟨hk,hfa⟩ := handle_other lib limits m hh hco he
      rw [receive_other w m hh hco]
      refine (h he).same rfl hk.decoded hk.table fun f hope => ?_
      have hfai := hfa (by simp [← hk.openBlock,hope])
      simp [hfai.ended] at hl

end Step

theorem synced_run (ta : τ) {a : List Action}
    (al : Along (Actor.step lib limits) (Decodable limits) (.initial limits ta) a)
    (hl : (run (Actor.step lib limits) (.initial limits ta) a).ended=false) :
    Synced lib ta (run (Actor.step lib limits) (.initial limits ta) a)
      (run Wire.receive {} a) := by
  refine al.simulation (R := fun s w => s.ended=false → Synced lib ta s w) ?_ ?_ hl
  · exact fun s w ac h hd hl => synced_step h hd hl
  · exact fun _ => ⟨rfl,rfl,nofun⟩

/-- Tables that follow the blocks, as the table of an encoder does that sends them. -/
def Follows (peer : List Bytes → τ) : Prop :=
  ∀ blocks block fields table,lib.decode (peer blocks) block=some (fields,table) →
    table=peer (blocks++[block])

variable {lib} in
theorem decodeBlocks_follows {p : List Bytes → τ} (hp : Follows lib p)
    {sn : List Bytes} {b : List (ℕ × Bytes)} {ta : τ}
    (h : decodeBlocks lib (p sn) b=some ta) : ta=p (sn++b.map Prod.snd) := by
  induction b generalizing sn with
  | nil =>
    cases h
    simp
  | cons bl b ih =>
    unfold decodeBlocks at h
    cases hd : lib.decode (p sn) bl.2 with
    | none => simp [hd] at h
    | some r =>
      have hn := hp sn bl.2 r.1 r.2 hd
      simp only [hd,hn] at h
      simpa using ih h

/-- As long as the connection is open every complete block has been decoded once, in the order of
the wire, and the table of the decoder is that of the peer. -/
theorem decoder_synchronised {peer : List Bytes → τ} (hpeer : Follows lib peer)
    {actions : List Action}
    (along : Along (Actor.step lib limits) (Decodable limits) (.initial limits (peer [])) actions)
    (hlive : (run (Actor.step lib limits) (.initial limits (peer [])) actions).ended=false) :
    let s := run (Actor.step lib limits) (.initial limits (peer [])) actions
    let w := run Wire.receive {} actions
    s.decoded=w.complete ∧ s.table=peer (w.complete.map Prod.snd) := by
  have h := synced_run lib limits (peer []) along hlive
  exact ⟨h.decoded,by simpa using decodeBlocks_follows hpeer h.decodes⟩

/-- The table of a peer that encodes what the decoder reads. -/
def tableAfter (table : τ) (blocks : List Bytes) : τ :=
  blocks.foldl (fun table block => ((lib.decode table block).map Prod.snd).getD table) table

theorem follows_tableAfter (ta : τ) : Follows lib (tableAfter lib ta) := by
  intro b bl fs a hd
  simp only [tableAfter,List.foldl_append,List.foldl_cons,List.foldl_nil]
  rw [show b.foldl _ ta=tableAfter lib ta b from rfl,hd]
  rfl

/-- A request, and a block in two frames that repeats a pseudo-header. -/
theorem decoder_synchronised_malformed :
    let actions := [.quiet 1 4 1 [0x82,0x86,0x84,0x41,1,97],.quiet 1 0 3 [0x82,0x82],
      .quiet 9 4 3 [0x41,1,98]]
    let s := run (Actor.step plainLibrary {}) (.initial {} []) actions
    s.decoded=(run Wire.receive {} actions).complete ∧ s.dispatched.length=1 ∧
      s.table=tableAfter plainLibrary [] ((run Wire.receive {} actions).complete.map Prod.snd) := by
  have along : Along (Actor.step plainLibrary {}) (Decodable {}) (.initial {} [])
      [.quiet 1 4 1 [0x82,0x86,0x84,0x41,1,97],.quiet 1 0 3 [0x82,0x82],
        .quiet 9 4 3 [0x41,1,98]] := by
    decide +kernel
  have h := decoder_synchronised plainLibrary {} (follows_tableAfter plainLibrary []) along
    (by decide +kernel)
  exact ⟨h.1,by decide +kernel,h.2⟩

/-- Complete blocks that are not given to the decoder as they are, on a connection that stays
open: of a stream that depends on itself, over the limit, and padded and continued. -/
theorem blocks_left_undecoded :
    (let actions := [.quiet 1 0x24 1 [0,0,0,1,0,0x82,0x86,0x84,0x41,1,97]]
      let s := run (Actor.step plainLibrary {}) (.initial {} []) actions
      s.ended=false ∧ s.decoded=[] ∧ s.table=[] ∧
        (run Wire.receive {} actions).complete=[(1,[0x82,0x86,0x84,0x41,1,97])] ∧
        tableAfter plainLibrary [] [[0x82,0x86,0x84,0x41,1,97]]≠[]) ∧
    (let limits : Limits := {headerMaxTotal:=3}
      let actions := [.quiet 1 0 1 [0x82,0x86],.quiet 9 4 1 [0x84,0x41,1,97]]
      let s := run (Actor.step plainLibrary limits) (.initial limits []) actions
      s.ended=false ∧ s.decoded=[] ∧
        (run Wire.receive {} actions).complete=[(1,[0x82,0x86,0x84,0x41,1,97])]) ∧
    (let actions := [.quiet 1 8 1 [1,0x82,0x86,0x84],.quiet 9 4 1 [0x41,1,97,0x84]]
      let s := run (Actor.step plainLibrary {}) (.initial {} []) actions
      s.ended=false ∧ s.decoded=[(1,[0x82,0x86,0x84,0x41,1,97])] ∧
        (run Wire.receive {} actions).complete=[(1,[0x82,0x86,0x41,1,97,0x84])]) := by
  decide +kernel

end BlackBull.H2
