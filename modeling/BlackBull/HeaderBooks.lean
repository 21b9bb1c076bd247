import BlackBull.BlockGrants

/-!
# The books and header blocks

HEADERS and CONTINUATION open a stream: its node and its sender come first, and the block
decides whether a handler follows. The books are in order again afterwards if it does, or if
the stream was served before.
-/

namespace BlackBull.H2

open ByteString

variable {τ : Type} {lib : Library τ} {lim : Limits} {granted : Prop} {sid : ℕ}
  {s : Actor τ}

variable {gn : List ℕ} {t : Actor τ} {frame : HeadersFrame} (m : Moment)

theorem touches_onTrailers (es : Bool) :
    Moves (Touches (some sid)) (onTrailers m sid es : ActorM τ Unit) := by
  refine .ite voices_touches.resetStream.moves (.bind (touches_modifyStream _ _) fun _ =>
    .bind .get fun s => ?_)
  cases s.recipients.get? sid with
  | none => exact .pure
  | some rc => exact .ite .throw (touches_tellRecipient _ _)

theorem Tidy.resolved (h : Tidy lim (some sid) gn s) (hid : sid≠0)
    (hn : (s.children.get? sid).isSome=true)
    (hr : Resolved lim granted sid s t) (hs : s.Serves sid ∨ granted) :
    Tidy lim (some sid) gn t ∧ t.Serves sid ∧ t.openBlock=s.openBlock := by
  cases hr with
  | refused tou not =>
    refine ⟨h.touch tou fun id hsa => .inr hsa,?_,tou.openBlock⟩
    obtain ⟨iw,hm⟩ := hs.resolve_right not
    exact ⟨iw,tou.running ▸ hm⟩
  | served r u iw d tou eq =>
    subst eq
    have hu := h.touch tou fun id hsa => .inr hsa
    refine ⟨hu.serve hid ?_ (tou.active.trans_lt r),⟨iw,by simp⟩,tou.openBlock⟩
    exact (tou.nodes sid).trans hn

theorem live_congr (h : Touches (some sid) s t) (hl : s.Live sid) : t.Live sid :=
  ((liveOr_congr none h.running h.openBlock sid).mpr (.inl hl)).resolve_right nofun

theorem handleHeaders_tidy (h : Tidy lim (some sid) gn s) (hid : sid≠0) (hn :
    (s.children.get? sid).isSome=true) (hf : s.openBlock=none) (hfr : frame.streamId =
    sid) (htr : s.hasRequest sid=true → s.Live sid) (hs : frame.endHeaders=true →
    s.Serves sid ∨ Granted lib lim (Welcome lim s) s frame) :
    OnSuccess (handleHeaders lib lim m sid frame) s fun _ => Tidy lim none gn := by
  unfold handleHeaders onHeadersFrame
  rw [OnSuccess,ensures_bind,ensures_get,ensures_ite]
  refine ⟨fun hb => ?_,fun _ => ?_⟩
  · refine (touches_onTrailers m frame.endStream s).partly fun _ t ht => ?_
    exact (h.touch ht fun id hsa => .inr hsa).settle (live_congr ht (htr hb.1))
  · rw [ensures_bind,ensures_modify]
    have hse := touches_makeSender sid s
    have hti := h.touch hse fun id hsa => .inr hsa
    rw [ensures_bind,ensures_ite]
    refine ⟨fun _ => ?_,fun he => ?_⟩
    · -- the block goes on: the stream is live while it does
      rw [ensures_pure,ensures_ite,ensures_modify]
      refine ⟨by rintro ⟨⟩,fun _ => (hti.setBlock (by simp [hf]) (some frame)).settle ?_⟩
      exact .inr ⟨frame,rfl,hfr⟩
    · rw [ensures_bind]
      have he : frame.endHeaders=true := by simpa using he
      refine (onRequestHeaders_resolved m frame).partly fun _ t ht => ?_
      have hgr := (hs he).imp_right fun hg =>
        (⟨hg.room,fun answer hp => (hg.request answer hp).imp fun req hr =>
          ⟨hr.1,hr.2.websocket,hr.2.http⟩⟩ : Granted lib lim (Welcome lim
            {s with windows:=s.windows.makeSender sid})
              {s with windows:=s.windows.makeSender sid} frame)
      obtain ⟨ht,hser,-⟩ := hti.resolved hid hn ht hgr
      rw [ensures_pure,ensures_ite,ensures_pure]
      exact ⟨fun _ => ht.settle (.inl hser),fun hfa => absurd rfl hfa⟩

theorem touches_decodes {b : List (ℕ × Bytes)} {sc : Option ℕ} (h : Decodes b s t) :
    Touches sc s t := by
  rw [h.same]
  exact ⟨fun _ => rfl,fun _ _ => rfl,fun _ _ => id,rfl,rfl,rfl,rfl⟩

theorem Tidy.touched {x : ActorM τ Unit} (h : Tidy lim (some sid) gn s)
    (hx : Moves (Touches (some sid)) x) :
    OnSuccess x s fun _ t => Tidy lim (some sid) gn t ∧ Touches (some sid) s t :=
  (hx s).partly fun _ _ ht => ⟨h.touch ht fun _ hs => .inr hs,ht⟩

/-- The books while a block is awaited, and when no more is. -/
structure Awaited (limits : Limits) (streamId : ℕ) (gone : List ℕ) (complete : Bool)
    (s : Actor τ) : Prop where
  tidy : Tidy limits (some streamId) gone s
  block : ∀ frame,s.openBlock=some frame → frame.streamId=streamId
  live : s.Live streamId
  serves : complete=true → s.Serves streamId

theorem onContinuationFrame_awaited {eh : Bool} {p : Bytes} (h : Tidy lim (some sid) gn s)
    (hid : sid≠0) (hn : (s.children.get? sid).isSome=true) (ho : s.openBlock=some
    frame) (hf : frame.streamId=sid) (hs : s.Serves sid ∨ (frame.extend
    p).rawBlock.length≤lim.headerMaxTotal ∧ (eh=true → Accepts lib lim (¬ Oversized lim
    ·) s (frame.extend p))) :
    OnSuccess (onContinuationFrame lib lim m sid frame eh p) s fun c => Awaited lim sid gn c := by
  have hti := h.setBlock (by simp [ho,hf]) (some (frame.extend p))
  have hb : ∀ o,some (frame.extend p)=some o → o.streamId=sid := by
    rintro o hsa
    cases hsa
    exact hf
  unfold onContinuationFrame
  dsimp only
  rw [OnSuccess,ensures_bind,ensures_modify,ensures_ite]
  generalize hu : ({s with openBlock:=some (frame.extend p)} : Actor τ)=u at hti ⊢
  have hl : u.Live sid := by
    rw [← hu]
    exact .inr ⟨_,rfl,hf⟩
  have hb' : ∀ o,u.openBlock=some o → o.streamId=sid := by
    rw [← hu]
    exact hb
  refine ⟨fun hlo => ?_,fun _ => ?_⟩
  · -- the block is dropped, on a stream that is served
    obtain ⟨iw,hm⟩ := hs.resolve_right fun h => h.1.not_gt hlo
    rw [ensures_bind]
    refine (hti.touched voices_touches.resetStream.moves).imp fun _ t ht => ?_
    have hse : t.Serves sid := by
      refine ⟨iw,?_⟩
      rw [ht.2.running,← hu]
      exact hm
    exact ⟨ht.1,ht.2.openBlock ▸ hb',.inl hse,fun _ => hse⟩
  · rw [ensures_ite]
    refine ⟨fun _ => ⟨hti,hb',hl,by rintro ⟨⟩⟩,fun he => ?_⟩
    have he : eh=true := by simpa using he
    have hp : OnSuccess (parsePayload lib (frame.extend p)) u
        fun pa t => Decodes (frame.extend p).decodes u t ∧
          (u.Serves sid ∨ Granted lib lim (¬ Oversized lim ·) t pa) := by
      have hd := parsePayload_ensures lib (frame.extend p) u
      rcases hs with hse | ⟨-,ha⟩
      · refine hd.partly fun _ _ h => ⟨h.2.2.1,.inl ?_⟩
        rw [← hu]
        exact hse
      · have ha := ha he
        refine (hd.and (parsePayload_reads ha.block u)).partly ?_
        rintro pa t ⟨⟨-,-,hd,-⟩,block,hr⟩
        refine ⟨hd,.inr ?_⟩
        subst hu
        have hg := ha.granted block pa hr
        rw [hd.same]
        exact ⟨hg.room,hg.request⟩
    rw [ensures_bind]
    refine hp.imp ?_
    rintro pa t ⟨hd,hs⟩
    have hto : Touches (some sid) u t := touches_decodes hd
    have hn' : (t.children.get? sid).isSome=true := by
      rw [hto.nodes,← hu]
      exact hn
    have hs' : t.Serves sid ∨ Granted lib lim (¬ Oversized lim ·) t pa :=
      hs.imp_left (.imp fun _ hm => hto.running ▸ hm)
    rw [ensures_bind]
    refine (onBlockEnd_resolved m pa).imp fun _ v hv => ?_
    obtain ⟨ht',hse,hsa⟩ := (hti.touch hto fun _ hsa => .inr hsa).resolved hid hn' hv hs'
    exact ⟨ht',(hsa.trans hto.openBlock) ▸ hb',.inl hse,fun _ => hse⟩

theorem handleContinuation_tidy {eh : Bool} {p : Bytes} (h : Tidy lim none gn s) (hid :
    sid≠0) (hn : (s.children.get? sid).isSome=true) (ho : s.openBlock=some frame)
    (hf : frame.streamId=sid) (hse : s.Serves sid ∨ (frame.extend p).rawBlock.length ≤
    lim.headerMaxTotal ∧ (eh=true → Accepts lib lim (¬ Oversized lim ·) s (frame.extend p))) :
    OnSuccess (handleContinuation lib lim m sid eh p) s fun _ => Tidy lim none gn := by
  have hsen := (h.open sid).touch (touches_makeSender sid s) fun id hsa => .inr hsa
  unfold handleContinuation
  rw [OnSuccess,ensures_bind,ensures_modify,ensures_bind,ensures_get]
  dsimp only
  rw [ho,ensures_bind]
  refine (onContinuationFrame_awaited m hsen hid hn ho hf ?_).imp ?_
  · refine hse.imp_right fun hs => ⟨hs.1,fun he => ⟨(hs.2 he).block,?_⟩⟩
    intro b pa hr
    have hg := (hs.2 he).granted b pa hr
    exact ⟨hg.room,hg.request⟩
  · intro c t ht
    rw [ensures_ite]
    refine ⟨fun hc => ?_,fun _ => ht.tidy.settle ht.live⟩
    exact (ht.tidy.setBlock ht.block none).settle (.inl (ht.serves hc))

end BlackBull.H2
