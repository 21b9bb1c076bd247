import BlackBull.TameFrames

/-!
# Containment of errors

An exception anywhere in the loading or the handling of a frame ends the connection without a
word to the peer. While the frames are tame the loop ends at the end of its input, after a
GOAWAY, or not at all, and a frame that is malformed is answered.
-/

namespace BlackBull.H2

open ByteString HeadParser

variable {τ : Type} (lib : Library τ) (limits : Limits)

def HeadersFrame.PaddingFits (frame : HeadersFrame) : Prop :=
  frame.padded=true → ofBigEndian (frame.rawBlock.take 1)<frame.length

inductive Malformed (s : Actor τ) (raw : RawFrame) : Prop
  | rstStream (type : raw.type=some .rstStream) (length : raw.payload.length≠4)
  | ping (type : raw.type=some .ping) (length : raw.payload.length≠8)
  | priority (type : raw.type=some .priority) (length : raw.payload.length≠5)
  | windowUpdate (type : raw.type=some .windowUpdate) (length : raw.payload.length≠4)
  | settings (type : raw.type=some .settings)
      (length : raw.payload.length % 6 ≠ 0 ∨ raw.ack = true ∧ raw.payload.length ≠ 0)
  | data (type : raw.type=some .data) (padding : ¬ raw.PaddingFits)
  | headers (type : raw.type=some .headers) (finished : raw.endHeaders=true)
      (padding : ¬ raw.PaddingFits)
  | continuation (type : raw.type=some .continuation) (finished : raw.endHeaders=true)
      (frame : HeadersFrame) (openBlock : s.openBlock=some frame)
      (padding : ¬ (frame.extend raw.payload).PaddingFits)
  | block (frame : HeadersFrame) (parsed : s.parsedFrame raw=some frame) (octets : Bytes)
      (block : frame.headerBlock=.ok octets) (unreadable : ¬ Readable lib s.table octets)

/-- Every frame that is still read is tame. -/
def Contained (s : Actor τ) : Action → Prop
  | .frame raw moment => s.ended=true ∨ Tame lib s raw moment
  | _ => True

def Answered (s : Actor τ) : Action → Prop
  | .frame raw moment => s.ended=false → Malformed lib s raw →
      Replies s (s.step lib limits (.frame raw moment))
  | _ => True

variable {lib limits} {s : Actor τ} {f : HeadersFrame} {raw : RawFrame} {a : Action}
  {moment : Moment}

theorem headerBlock_of_padding (h : ¬ f.PaddingFits) : f.headerBlock=.error .padLength := by
  unfold HeadersFrame.PaddingFits at h
  push Not at h
  simp only [HeadersFrame.headerBlock,HeadersFrame.cutPadding,h.1,if_true,ge_iff_le,if_pos h.2]
  rfl

theorem parsePayload_padding (h : ¬ f.PaddingFits) (s : Actor τ) :
    parsePayload lib f s=.ok (f.markMalformed .padLength) s := by
  simp only [parsePayload,headerBlock_of_padding h]
  rfl

theorem onRequestHeaders_replies (id : ℕ) {d : Defect}
    (h : parseHeaders lib f=.ok (.error d)) (s : Actor τ) :
    Succeeds (onRequestHeaders lib limits moment id f) s fun _ => Replies s := by
  simp only [onRequestHeaders,ensures_bind,ensures_get,ensures_ite,ensures_ofExcept,h]
  exact ⟨fun _ => resetStream_replies moment id _ s,fun _ => resetStream_replies moment id _ s⟩

theorem handleHeaders_replies (si : ℕ) {d : Defect} (hp : parseHeaders lib f=.ok (.error d))
    (he : f.endHeaders=true) (hr : s.hasRequest si=false) :
    Succeeds (handleHeaders lib limits moment si f) s fun _ => Replies s := by
  unfold Actor.hasRequest at hr
  simp only [handleHeaders,onHeadersFrame,he,hr,Bool.false_eq_true,false_and,if_false,
    Bool.not_true,ensures_bind,ensures_get,ensures_modify,ensures_pure,ensures_ite]
  refine ⟨False.elim,fun _ => ?_⟩
  refine (onRequestHeaders_replies si hp _).imp ?_
  exact fun _ t ht => ⟨fun _ => ht.of_sent rfl,fun h => absurd trivial h⟩

theorem handleContinuation_replies (si : ℕ) {p : Bytes}
    (ho : s.openBlock=some f) (hp : ¬ (f.extend p).PaddingFits) :
    Succeeds (handleContinuation lib limits moment si true p) s fun _ => Replies s := by
  have hr (s' : Actor τ) (hs' : s'.sent=s.sent) (code : ErrorCode) :
      Succeeds (resetStream moment si code) s' fun _ t =>
        Replies s {t with openBlock:=none} :=
    (resetStream_replies moment si code s').imp fun _ _ h => h.of_sent hs'
  have hpa : Succeeds (parsePayload lib (f.extend p)) {s with
        windows:=s.windows.makeSender si,openBlock:=some (f.extend p)}
      fun f' t => f'=(f.extend p).markMalformed .padLength ∧ t.sent=s.sent :=
    .of_ok (parsePayload_padding hp _) ⟨rfl,rfl⟩
  simp only [handleContinuation,onContinuationFrame,ensures_bind,ensures_modify,ensures_get,
    ho,ensures_ite,ensures_pure,Bool.not_true,Bool.false_eq_true,if_false]
  refine ⟨fun _ => ?_,fun _ => hpa.imp ?_⟩
  · exact (hr _ (by rfl) _).imp fun _ _ h => ⟨fun _ => h,fun hne => absurd trivial hne⟩
  · rintro _ t ⟨rfl,ht⟩
    have he : Succeeds (onBlockEnd lib limits moment si ((f.extend p).markMalformed .padLength)) t
        fun _ u => Replies s {u with openBlock:=none} :=
      hr t ht .protocolError
    exact he.imp fun _ _ h => ⟨fun _ => h,fun hne => absurd trivial hne⟩

theorem streamRefusal_ignore {ty : FrameType} {id : ℕ}
    (h : s.streamRefusal ty id=some .ignore) : ty=.windowUpdate ∨ ty=.rstStream := by
  unfold Actor.streamRefusal at h
  cases ty <;> simp_all [validateStreamState,lateFrame]
  all_goals
    repeat' split at h
    all_goals simp_all

theorem frameRefusal_ne_ignore (bo : Bool) (ty : FrameType) (id n : ℕ) :
    frameRefusal bo ty id n≠some .ignore := by
  unfold frameRefusal
  split_ifs <;> simp

theorem handleFrame_replies {ty : FrameType} {c : Content} (ht : raw.type=some
    ty) (hl : s.goawaySent=false) (hh : s.streamRefusal ty raw.streamId≠some .ignore) (hha :
    ∀ ms,frameRefusal s.openBlock.isSome ty raw.streamId raw.payload.length=none → Succeeds
    (handleContent lib limits moment raw.streamId raw.payload.length c) (Actor.openStream {s with
    meters:=ms} ty raw.streamId) fun _ => Replies (Actor.openStream { s with meters :=
    ms} ty raw.streamId)) :
    Succeeds (handleFrame lib limits moment raw c) s fun _ => Replies s := by
  refine handleFrame_of_checks ht (fun ms an hr => ?_) fun ms _ hf _ => ?_
  · have ha : an≠.ignore := by
      rintro rfl
      cases hr with
      | frame h => exact frameRefusal_ne_ignore _ _ _ _ h
      | stream _ h => exact hh h
    exact (perform_replies moment raw.streamId (s := {s with meters:=ms}) hl
      ha).imp fun _ _ h => h.of_sent rfl
  · refine (hha ms hf).imp fun _ _ h => h.of_sent ?_
    unfold Actor.openStream
    split_ifs <;> rfl

theorem load_padding (ht : raw.type=some .headers) (hp : ¬ raw.PaddingFits) (s : Actor τ) :
    Succeeds (load lib raw) s fun c t => t=s ∧ ∃ f d,c=.headers f ∧
        f.endHeaders=raw.endHeaders ∧ parseHeaders lib f=.ok (.error d) := by
  simp only [load,ensures_bind,ensures_ofExcept,loadContent,ht,ensures_ite,ensures_pure]
  have hf : ¬ (HeadersFrame.ofRaw raw).PaddingFits := hp
  refine ⟨fun _ => ?_,fun _ => ⟨trivial,.ofRaw raw,.missingMethod,rfl,rfl,rfl⟩⟩
  exact .of_ok (parsePayload_padding hf s) ⟨rfl,_,.padLength,rfl,rfl,rfl⟩

theorem handleContent_windowUpdate_replies {id n i : ℕ} (hl : n≠4) (hli : s.goawaySent=false) :
    Succeeds (handleContent lib limits moment id n (.windowUpdate i)) s fun _ => Replies s := by
  have hw : s.windows.windowUpdate id n i =
      (.connectionError .frameSizeError,s.windows) := if_pos hl
  simp only [handleContent,ensures_bind,ensures_get,ensures_modify,hw]
  exact connectionError_replies .frameSizeError hli

theorem handleContent_settings_replies {id n : ℕ} {ack : Bool} {cfg : Settings}
    (hl : n % 6 ≠ 0 ∨ ack = true ∧ n ≠ 0) (hli : s.goawaySent = false) :
    Succeeds (handleContent lib limits moment id n (.settings ack cfg)) s fun _ => Replies s := by
  have hc (code : ErrorCode) := connectionError_replies code hli
  cases ack with
  | true =>
    have hn : n≠0 := by omega
    simp only [handleContent,onSettings,ensures_ite,if_true,hn,ne_eq,not_false_eq_true]
    exact ⟨fun _ => hc _,fun _ => hc _⟩
  | false =>
    have ho : n % 6 ≠ 0 := by simpa using hl
    have hw : s.windows.applySettings n cfg =
        (.connectionError .frameSizeError,s.windows) := if_pos ho
    simp only [handleContent,onSettings,ensures_ite,ensures_bind,ensures_get,ensures_modify,
      hw,Bool.false_eq_true,if_false]
    exact ⟨fun _ => hc _,fun _ => ⟨by rintro ⟨⟩,fun _ => hc .frameSizeError⟩⟩

theorem turn_replies (hl : s.goawaySent=false)
    (ht : Tame lib s raw moment) (hm : Malformed lib s raw) :
    Succeeds (turn lib limits moment raw) s fun _ => Replies s := by
  have hh {type : FrameType} (hw : type≠.windowUpdate) (hr : type≠.rstStream) :
      s.streamRefusal type raw.streamId≠some .ignore :=
    fun h => (streamRefusal_ignore h).elim hw hr
  refine turn_of_load hl ?_ ?_
  · rw [Succeeds,ensures_bind]
    exact (connectionError_replies _ hl).imp fun _ _ h => h
  cases hm with
  | rstStream type n => exact absurd (ht.rstStream type) n
  | ping type n => exact absurd (ht.ping type) n
  | data type p => exact absurd (ht.data type) p
  | block f pr octets block u => exact absurd (ht.block f pr octets block) u
  | priority type n =>
    have hlo : loadContent raw = .ok (.priority (ofBigEndian (raw.payload.take 4) % 2^31)) := by
      simp [loadContent,type]
    refine .of_ok (load_of_content hlo (by simp [Content.type]) s) ?_
    refine handleFrame_replies type hl (hh (by decide) (by decide)) ?_
    -- the length is checked before the frame reaches its handler
    intro ms hf
    unfold frameRefusal at hf
    split_ifs at hf with _ _ _ _ hle
    exact absurd ⟨rfl,n⟩ hle
  | windowUpdate type n =>
    have hlo : loadContent raw=.ok (.windowUpdate (ofBigEndian raw.payload)) := by
      simp [loadContent,type]
    refine .of_ok (load_of_content hlo (by simp [Content.type]) s) ?_
    refine handleFrame_replies type hl
      ((ht.windowUpdate type).resolve_left n) fun ms _ => ?_
    rw [openStream_of_ne _ (by decide)]
    exact handleContent_windowUpdate_replies n hl
  | settings type n =>
    have hlo : loadContent raw=.ok (.settings raw.ack (.ofPayload raw.payload {})) := by
      simp [loadContent,type]
    refine .of_ok (load_of_content hlo (by simp [Content.type]) s) ?_
    refine handleFrame_replies type hl (hh (by decide) (by decide)) fun ms _ => ?_
    rw [openStream_of_ne _ (by decide)]
    exact handleContent_settings_replies n hl
  | headers type finished p =>
    have hre : s.hasRequest raw.streamId=false :=
      Bool.eq_false_iff.mpr fun h => p (ht.trailers type finished h)
    refine (load_padding type p s).imp ?_
    rintro _ _ ⟨rfl,f,d,rfl,he,hp⟩
    refine handleFrame_replies type hl (hh (by decide) (by decide)) fun ms _ => ?_
    refine handleHeaders_replies _ hp (he.trans finished) ?_
    exact (openStream_hasRequest _ _ _).trans hre
  | continuation type finished f ob p =>
    have hlo : loadContent raw=.ok (.continuation true raw.payload) := by
      simp [loadContent,type,finished]
    refine .of_ok (load_of_content hlo (by simp [Content.type]) s) ?_
    refine handleFrame_replies type hl (hh (by decide) (by decide)) fun ms _ => ?_
    rw [openStream_of_ne _ (by decide)]
    exact handleContinuation_replies _ ob p

/-- An open block stays blank until it is complete. -/
theorem blankBlock_step (h : s.ended=false → s.BlankBlock) (a : Action) :
    (s.step lib limits a).ended=false → (s.step lib limits a).BlankBlock := by
  have hk {t : Actor τ} (hst : Keeps s t) (ht : t.ended=false) : t.BlankBlock := by
    have hs : s.ended=false := Bool.eq_false_iff.mpr fun hs => by simp [hst.ended hs] at ht
    unfold Actor.BlankBlock
    rw [hst.openBlock]
    exact h hs
  have hn {t : Actor τ} (ht : t.openBlock=none) : t.BlankBlock := by simp [Actor.BlankBlock,ht]
  by_cases hf : ∃ raw moment,a=.frame raw moment
  case neg =>
    exact hk (step_environment lib limits s fun raw moment heq => hf ⟨raw,moment,heq⟩).1
  obtain ⟨raw,moment,rfl⟩ := hf
  cases he : s.ended with
  | true => exact hk (step_of_ended lib limits moment raw he)
  | false =>
    rw [step_of_live lib limits moment raw he]
    intro hl
    by_cases hh : raw.type=some .headers
    · cases handle_headers lib limits moment hh he with
      | closed failed => simp [failed.ended] at hl
      | refused fr ob => exact hn ob
      | opened fr uf ob =>
        intro f hf
        rw [ob] at hf
        cases hf
        rfl
      | given fr finished ob => exact hn ob
    by_cases hc : raw.type=some .continuation
    · rcases handle_continuation lib limits moment hc he with ho | ⟨failed,-⟩
      · cases ho with
        | closed failed => simp [failed.ended] at hl
        | reset ob sp => exact hk sp.toKeeps hl
        | dropped f ob live l none => exact hn none
        | extended f ob live uf e =>
          intro f' hf'
          rw [e] at hf'
          cases hf'
          exact h he f ob
        | completed f ob live finished sh completes => exact hn completes.openBlock
      · simp [failed.ended] at hl
    · exact hk (handle_other lib limits moment hh hc he).1 hl

/-- The loop has not raised, and it has ended only at the end of its input or after a GOAWAY. -/
structure Sound (atEnd : Prop) (s : Actor τ) : Prop where
  truthful : s.Truthful
  ending : ∀ e,s.ending=some e → e=.returned ∧ (s.Announced ∨ atEnd)
  blank : s.ended=false → s.BlankBlock

theorem reports_environment (s : Actor τ) (hf : ∀ raw moment,a≠.frame raw moment)
    (he : a≠.eof) : Reports s (s.step lib limits a) := by
  have hl {x : ActorM τ Unit} (hx : Returns Reports x) : Reports s (leaving x s) :=
    ((hx s).total fun _ _ h => h).leaving
  cases a with
  | frame raw moment => exact absurd rfl (hf raw moment)
  | eof => exact absurd rfl he
  | done id iw =>
    unfold Actor.step Actor.taskDone
    dsimp only
    split_ifs <;> exact .of_sent List.prefix_rfl rfl rfl
  | push psi => exact .of_sent ⟨_,rfl⟩ rfl rfl
  | fail id code moment => exact hl handles_reports.resetStream
  | debit id n => exact .of_sent List.prefix_rfl rfl rfl
  | giveUp code => exact (handles_reports : Handles _ 0).goaway code s

theorem reports_frame (hb : s.ended=false → s.BlankBlock)
    (h : Contained lib s (.frame raw moment)) :
    Reports s (s.step lib limits (.frame raw moment)) := by
  rw [Actor.step]
  split_ifs with he
  · exact refl_of Reports s
  · refine handle_of_ensures
      ((turn_tame ?_).total fun _ _ h => h)
    cases hg : s.goawaySent with
    | true => exact .inl rfl
    | false =>
      have hl : s.ended=false := by simp_all [Actor.ended]
      exact .inr ⟨h.resolve_left (by simp [hl]),hb hl⟩

theorem Reports.sound {ae : Prop} {t : Actor τ} (h : Reports s t) (hs : Sound ae s)
    (hb : t.ended=false → t.BlankBlock) : Sound ae t := by
  refine ⟨h.truthful hs.truthful,fun e he => ?_,hb⟩
  rcases h.ending hs.truthful with hsa | ⟨hr,ha⟩
  · obtain ⟨hr,hen⟩ := hs.ending e (hsa ▸ he)
    exact ⟨hr,hen.imp_left fun ha => ha.mono h.sent⟩
  · rw [hr] at he
    cases he
    exact ⟨rfl,.inl ha⟩

theorem sound_step {ae : Prop} (hs : Sound ae s) (hc : Contained lib s a)
    (heo : a=.eof → ae) : Sound ae (s.step lib limits a) := by
  have hb := @blankBlock_step _ lib limits _ hs.blank a
  cases a with
  | frame raw moment => exact (reports_frame hs.blank hc).sound hs hb
  | eof =>
    rw [Actor.step] at hb ⊢
    split_ifs at hb ⊢ with hen
    · exact hs
    · refine ⟨hs.truthful,fun e he => ?_,hb⟩
      cases he
      exact ⟨rfl,.inr (heo rfl)⟩
  | _ => exact (reports_environment s (by simp) (by simp)).sound hs hb

theorem answered_of_contained (h : Contained lib s a) : Answered lib limits s a := by
  cases a with
  | frame raw moment =>
    intro hl hm
    rw [step_of_live lib limits moment raw hl]
    have hg : s.goawaySent=false := by simp_all [Actor.ended]
    have ht : Tame lib s raw moment := h.resolve_left (by simp [hl])
    exact handle_of_ensures ((turn_replies hg ht hm).total fun _ _ h => h)
  | _ => trivial

variable (lib limits)

/-- On a connection whose frames are tame the loop never raises, it ends only at the end of its
input or after a GOAWAY, and every malformed frame is answered. -/
theorem errors_contained (table : τ) {actions : List Action}
    (along : Along (Actor.step lib limits) (Contained lib) (.initial limits table) actions) :
    let s := run (Actor.step lib limits) (.initial limits table) actions
    (∀ e,s.ending≠some (.raised e)) ∧ (s.ending.isSome → s.Announced ∨ Action.eof∈actions) ∧
      Along (Actor.step lib limits) (Answered lib limits) (.initial limits table) actions := by
  have hi : Sound (Action.eof∈actions) (Actor.initial limits table) :=
    ⟨by rintro ⟨⟩,by rintro _ ⟨⟩,by rintro - _ ⟨⟩⟩
  have hst (s : Actor τ) (a : Action) (hs : Sound (Action.eof∈actions) s)
      (ha : Contained lib s a ∧ a∈actions) :
      Sound (Action.eof∈actions) (s.step lib limits a) :=
    sound_step hs ha.1 fun heo => heo ▸ ha.2
  have hso := (along.and_mem fun _ h => h).invariant hst hi
  refine ⟨fun e he => ?_,fun hsom => ?_,?_⟩
  · cases (hso.ending _ he).1
  · obtain ⟨e,he⟩ := Option.isSome_iff_exists.mp hsom
    exact (hso.ending e he).2
  · exact along.mono fun _ _ h => answered_of_contained h

/-- A request, and a WINDOW_UPDATE that is too short. -/
theorem errors_contained_short :
    let actions : List Action :=
      [.quiet 1 5 1 [0x82,0x86,0x84,0x41,1,97],.quiet 8 0 1 [0,0,1]]
    let s := run (Actor.step plainLibrary {}) (.initial {} []) actions
    s.sent=[.goaway 1 .frameSizeError] ∧ (∀ e,s.ending≠some (.raised e)) ∧
      Along (Actor.step plainLibrary {}) (Answered plainLibrary {}) (.initial {} []) actions := by
  have hr : Contained plainLibrary (.initial {} []) (.quiet 1 5 1 [0x82,0x86,0x84,0x41,1,97]) := by
    refine .inr ⟨by decide,by decide,by rintro ⟨⟩,by decide,?_,by rintro - - ⟨⟩,
      by rintro - - - _ ⟨⟩,by decide,rfl⟩
    rintro _ ⟨⟩ _ ⟨⟩
    exact ⟨[(ascii ":method",ascii "GET"),(ascii ":scheme",ascii "http"),
      (ascii ":path",ascii "/"),(ascii ":authority",ascii "a")],
      [(ascii ":authority",ascii "a")],by decide +kernel,by decide +kernel,by decide +kernel⟩
  have hs (s : Actor HeaderList) (h : s.streamRefusal .windowUpdate 1≠some .ignore) :
      Contained plainLibrary s (.quiet 8 0 1 [0,0,1]) :=
    .inr ⟨by decide,by decide,by rintro ⟨⟩,by decide,by rintro _ ⟨⟩,by rintro ⟨⟩,
      by rintro ⟨⟩,fun _ => .inr h,rfl⟩
  have along : Along (Actor.step plainLibrary {}) (Contained plainLibrary) (.initial {} [])
      [.quiet 1 5 1 [0x82,0x86,0x84,0x41,1,97],.quiet 8 0 1 [0,0,1]] :=
    ⟨hr,hs _ (by decide +kernel),trivial⟩
  have h := errors_contained plainLibrary {} [] along
  exact ⟨by decide +kernel,h.1,h.2.2⟩

/-- A PING of seven octets, DATA with more padding than payload and a block the decoder rejects
each end the loop without a word. -/
theorem errors_escape :
    let after (actions : List Action) :=
      run (Actor.step plainLibrary {}) (.initial {} []) actions
    ((after [.quiet 6 0 0 [0,0,0,0,0,0,0]]).ending=some (.raised .frameSize) ∧
        (after [.quiet 6 0 0 [0,0,0,0,0,0,0]]).sent=[]) ∧
      ((after [.quiet 1 4 1 [0x82,0x86,0x84,0x41,1,97],
          .quiet 0 8 1 [9,0]]).ending=some (.raised .dataPadding) ∧
        (after [.quiet 1 4 1 [0x82,0x86,0x84,0x41,1,97],.quiet 0 8 1 [9,0]]).sent=[]) ∧
      ((after [.quiet 1 5 1 [0xff]]).ending=some (.raised .hpack) ∧
        (after [.quiet 1 5 1 [0xff]]).sent=[]) := by
  decide +kernel

end BlackBull.H2
