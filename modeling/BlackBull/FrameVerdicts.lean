import BlackBull.EffectOutcomes
import BlackBull.FrameViolations

/-!
# What the read side makes of a frame

The checks of the read side against what can be wrong with a frame: `verdict` says that
every frame passes, closes the connection, or is refused with the close code of
something that is wrong with it.
-/

namespace BlackBull.WebSocket

open ByteString
open Mqtt (utf8?)

section

variable {σ : Type} (config : Config) (inflater : Inflater σ) (meter : RateWindow)
  (clock : ℕ → ℕ)

def Refused (before : List Frame) (f : Frame) (error : ProtocolError) : Prop :=
  ∃ v,Violates config inflater meter clock before f v ∧ v.closeCode=error.closeCode

structure HeaderFine (before : List Frame) (f : Frame) : Prop where
  fragmentedControl : ¬ Violates config inflater meter clock before f .fragmentedControl
  longControl : ¬ Violates config inflater meter clock before f .longControl
  controlRate : ¬ Violates config inflater meter clock before f .controlRate
  rsv2 : f.rsv2=false
  rsv3 : f.rsv3=false
  rsv1 : f.rsv1=true → config.deflate=true ∧ f.opcode.isControl=false

/-- The frame has passed the checks before its payload is looked at. -/
structure Admitted (before : List Frame) (f : Frame) : Prop extends
    HeaderFine config inflater meter clock before f where
  size : ¬ config.maxFramePayload<f.payload.length
  masked : ¬ (config.requireMasked=true ∧ f.mask=none)

def wholeOf (group : List Frame) : Fragments := ⟨kind group,joined group,isCompressed group⟩

def assemblerOf (fragments : List Frame) : Option Fragments :=
  if fragments=[] then none else some (wholeOf fragments)

structure FeedFine (before : List Frame) (f : Frame) : Prop where
  opener : f.opcode=.continuation ↔ (transcript before).fragments≠[]
  rsv1 : f.opcode=.continuation → f.rsv1=false
  size : 2≤(groupOf before f).length ∨ f.fin=false →
    overSize config (joined (groupOf before f)).length=false

def fed (before : List Frame) (f : Frame) : Option Fragments × Option Fragments :=
  if f.fin then (some (wholeOf (groupOf before f)),none)
  else (none,assemblerOf (groupOf before f))

def nextState (before : List Frame) (f : Frame) : σ :=
  stateAfter config inflater (stateOf config inflater (transcript before).messages)
    (groupOf before f)

structure Tracks (wire : Wire σ) (before : List Frame) : Prop where
  assembler : wire.assembler=assemblerOf (transcript before).fragments
  inflater : wire.inflater=stateOf config inflater (transcript before).messages
  meter : wire.meter=meterAfter meter clock before
  frames : wire.frames=before.length

def Reaction.message? : Reaction → Option Message
  | .message content => some content
  | _ => none

inductive Verdict (wire : Wire σ) (before : List Frame) (f : Frame) : Progress σ → Prop
  | raises {error : ProtocolError} {wire' : Wire σ}
      (refused : Refused config inflater meter clock before f error) :
    Verdict wire before f (.raises error wire')
  | refuses {v : Violation} {wire' : Wire σ}
      (violates : Violates config inflater meter clock before f v) (code : v.closeCode=1002) :
    Verdict wire before f (.done (.close 1002) wire')
  | closes {wire' : Wire σ} (opcode : f.opcode=.close)
      (clean : ∀ v,¬ Violates config inflater meter clock before f v) :
    Verdict wire before f (.done (.close (closeCodeOf f.payload)) wire')
  | passes {reaction : Reaction} {wire' : Wire σ} (opcode : f.opcode≠.close)
      (clean : ∀ v,¬ Violates config inflater meter clock before f v)
      (tracks : Tracks config inflater meter clock wire' (before++[f]))
      (buffer : wire'.buffer=wire.buffer) (eof : wire'.eof=wire.eof)
      (continues : ∀ code,reaction≠.close code)
      (messages : sentMessages config inflater (before++[f]) =
        sentMessages config inflater before++reaction.message?.toList) :
    Verdict wire before f (.done reaction wire')

variable {config inflater meter clock}

@[simp] theorem header_opcode (f : Frame) : f.header.opcode=f.opcode := rfl

@[simp] theorem header_fin (f : Frame) : f.header.fin=f.fin := rfl

theorem long_iff (f : Frame) : 125<f.header.length ↔ f.form≠.short := by
  have hb := f.length_payload
  cases hf : f.form with
  | short =>
    rw [hf] at hb
    have hs : f.payload.length<126 := hb
    simp [Frame.header,hf,LengthForm.code]
    omega
  | medium | long => simp [Frame.header,hf,LengthForm.code]

theorem checkHeader_concludes (bf : List Frame) (f : Frame) {c : Bool × RateWindow}
    (hc : c=countControl (meterAfter meter clock bf) f.header (clock bf.length)) :
    Concludes (checkHeader config f.header c.1 c.2)
      (fun _ => HeaderFine config inflater meter clock bf f)
      (Refused config inflater meter clock bf f) := by
  have hr (hf : ¬ (f.opcode.isControl && !f.fin)=true)
      (hl : ¬ (f.opcode.isControl && decide (125<f.header.length))=true) :
      (f.opcode.isControl && c.1)=true ↔
        Violates config inflater meter clock bf f .controlRate := by
    rw [hc,Violates,Bool.and_eq_true,countControl]
    refine and_congr_right fun hco => ?_
    simp_all [Frame.header]
  simp only [checkHeader,concludes_ite,concludes_error,concludes_ok]
  refine ⟨fun h => ⟨.fragmentedControl,by simpa [Violates] using h,rfl⟩,fun hf =>
    ⟨fun h => ⟨.longControl,by simpa [Violates,long_iff] using h,rfl⟩,fun hl =>
    ⟨fun h => ⟨.controlRate,(hr hf hl).mp h,rfl⟩,fun hfl =>
    ⟨fun h => ⟨.reservedBits,?_,rfl⟩,fun hre =>
    ⟨fun h => ⟨.reservedBits,?_,rfl⟩,fun hcom => ?_⟩⟩⟩⟩⟩
  · exact (Bool.or_eq_true_iff.mp h).imp_right .inl
  · obtain ⟨hrs,h⟩ := Bool.and_eq_true_iff.mp h
    exact .inr (.inr ⟨hrs,(Bool.or_eq_true_iff.mp h).imp (by simp) .inl⟩)
  · refine ⟨by simpa [Violates] using hf,by simpa [Violates,long_iff] using hl,
      mt (hr hf hl).mpr hfl,?_,?_,fun hrs => ?_⟩ <;> simp_all [Frame.header]

theorem wholeOf_concat {fr : List Frame} (h : fr≠[]) (f : Frame) :
    wholeOf (fr++[f]) =
      {wholeOf fr with buf:=(wholeOf fr).buf++f.payload} := by
  cases fr with
  | nil => exact absurd rfl h
  | cons a fr => simp [wholeOf,kind,isCompressed,joined]

theorem assemblerOf_concat (fr : List Frame) (f : Frame) :
    assemblerOf (fr++[f])=some (wholeOf (fr++[f])) :=
  if_neg (by simp)

theorem refused_of_overSize {bf : List Frame} {f : Frame} (hd : f.opcode.isData=true)
    (hp : 2≤(groupOf bf f).length ∨ f.fin=false)
    (ho : overSize config (joined (groupOf bf f)).length=true) (p : ℕ) :
    Refused config inflater meter clock bf f
      (.messageTooLarge p config.maxMessageSize) := by
  by_cases hc : isCompressed (groupOf bf f)=true
  · exact ⟨.fragmentsTooBig,⟨hd,hc,hp,ho⟩,rfl⟩
  · refine ⟨.messageTooBig,⟨hd,?_⟩,rfl⟩
    rw [if_neg hc]
    exact ho

theorem feed_continuation (bf : List Frame) (f : Frame) (hc : f.opcode=.continuation) :
    Concludes (feed config (assemblerOf (transcript bf).fragments) f.opcode f.payload f.fin
        f.rsv1) (fun out => out=fed bf f ∧ FeedFine config bf f)
      (Refused config inflater meter clock bf f) := by
  unfold feed
  rw [if_pos hc]
  by_cases hf : (transcript bf).fragments=[]
  · rw [assemblerOf,if_pos hf]
    exact (concludes_error _).mpr ⟨.noOpener,⟨hc,hf⟩,rfl⟩
  have hl : 2≤(groupOf bf f).length := by
    have hp := List.length_pos_iff.mpr hf
    simp [groupOf]
    omega
  have hj : (wholeOf (transcript bf).fragments).buf.length+f.payload.length =
      (joined (groupOf bf f)).length := by
    simp [groupOf,wholeOf,joined_concat]
  rw [assemblerOf,if_neg hf]
  simp only [concludes_ite,concludes_error,concludes_ok,hj,← wholeOf_concat hf]
  refine ⟨fun hr => ⟨.reservedBits,.inr (.inr ⟨hr,.inr (.inr hc)⟩),rfl⟩,
    fun hr => ⟨fun ho => ?_,fun ho => ?_⟩⟩
  · exact refused_of_overSize (by rw [hc]; rfl) (.inl hl) ho _
  · have hfi : FeedFine config bf f := ⟨by simp [hc,hf],
      fun _ => by simpa using hr,fun _ => by simpa using ho⟩
    exact ⟨fun hfin => ⟨by simp [fed,hfin,groupOf],hfi⟩,
      fun hfin => ⟨by simp [fed,hfin,groupOf,assemblerOf_concat],hfi⟩⟩

theorem feed_opener (bf : List Frame) (f : Frame) (hd : f.opcode.isData=true)
    (ho : f.opcode≠.continuation) :
    Concludes (feed config (assemblerOf (transcript bf).fragments) f.opcode f.payload f.fin
        f.rsv1) (fun out => out=fed bf f ∧ FeedFine config bf f)
      (Refused config inflater meter clock bf f) := by
  unfold feed
  rw [if_neg ho]
  by_cases hf : (transcript bf).fragments=[]
  · have hg : groupOf bf f=[f] := by simp [groupOf,hf]
    have hw : wholeOf [f]=⟨f.opcode,f.payload,f.rsv1⟩ := by simp [wholeOf,kind,joined,isCompressed]
    rw [assemblerOf,if_pos hf]
    simp only [concludes_ite,concludes_error,concludes_ok]
    refine ⟨fun hfi => ⟨?_,?_⟩,fun hfi => ⟨fun hov => ?_,fun hov => ⟨?_,?_⟩⟩⟩
    · simp [fed,hfi,hg,hw]
    · exact ⟨by simp [ho,hf],fun h => absurd h ho,by simp [hg,hfi]⟩
    · exact refused_of_overSize hd (.inr (by simpa using hfi))
        (by simpa [hg,joined] using hov) _
    · simp [fed,hfi,hg,hw,assemblerOf]
    · exact ⟨by simp [ho,hf],fun h => absurd h ho,fun _ => by simpa [hg,joined] using hov⟩
  · rw [assemblerOf,if_neg hf]
    refine (concludes_error _).mpr ⟨.openerInside,⟨?_,hf⟩,rfl⟩
    cases hopc : f.opcode <;> simp_all [Opcode.isData]

theorem expand_concludes (bf : List Frame) (f : Frame) (hd : f.opcode.isData=true)
    (hf : f.fin=true) :
    Concludes (expand config inflater (stateOf config inflater (transcript bf).messages)
        (wholeOf (groupOf bf f))) (fun out =>
        out=((contentOf config inflater bf f).1,nextState config inflater bf f) ∧
        ¬ Violates config inflater meter clock bf f .messageTooBig ∧
        ¬ Violates config inflater meter clock bf f .corruptData)
      (Refused config inflater meter clock bf f) := by
  unfold expand nextState stateAfter
  by_cases hc : isCompressed (groupOf bf f)=true
  · have hco : inflated inflater (stateOf config inflater (transcript bf).messages)
        (groupOf bf f)=contentOf config inflater bf f := rfl
    have hi : inflater.inflate (stateOf config inflater (transcript bf).messages)
        (joined (groupOf bf f)++deflateTail)=contentOf config inflater bf f :=
      (if_pos hc).symm
    simp only [wholeOf,hc,if_true,decompress,hi,hco,concludes_ite,
      concludes_error,Violates,hd,hf,true_and]
    refine ⟨fun ho => ⟨.messageTooBig,by simpa [Violates,hd,hc,hf],rfl⟩,fun ho => ?_⟩
    cases hn : (contentOf config inflater bf f).2 with
    | none => exact (concludes_error _).mpr ⟨.corruptData,⟨hd,hf,hn⟩,rfl⟩
    | some next => simp [ho]
  · have hp : contentOf config inflater bf f =
        (joined (groupOf bf f),some (stateOf config inflater (transcript bf).messages)) :=
      if_neg hc
    simp only [wholeOf,hc,Bool.false_eq_true,if_false,concludes_ite,concludes_error,
      concludes_ok,Violates,hd,hf,hp,true_and]
    refine ⟨fun ho => ⟨.messageTooBig,by simpa [Violates,hd,hc],rfl⟩,fun ho => ?_⟩
    simp [ho]

theorem complete_concludes (bf : List Frame) (f : Frame) (hd : f.opcode.isData=true)
    (hf : f.fin=true) :
    Concludes (complete config inflater (stateOf config inflater (transcript bf).messages)
        (wholeOf (groupOf bf f))) (fun out => out.2=nextState config inflater bf f ∧
        messageOf (groupOf bf f) (contentOf config inflater bf f).1=some out.1 ∧
        ¬ Violates config inflater meter clock bf f .messageTooBig ∧
        ¬ Violates config inflater meter clock bf f .corruptData ∧
        ¬ Violates config inflater meter clock bf f .invalidUtf8)
      (Refused config inflater meter clock bf f) := by
  simp only [complete,concludes_bind]
  refine (expand_concludes bf f hd hf).mono ?_
  rintro _ ⟨rfl,hb,hc⟩
  simp only [decodeMessage,concludes_ite,concludes_ok,true_and,
    show (wholeOf (groupOf bf f)).opcode=kind (groupOf bf f) from rfl]
  refine ⟨fun ht => ?_,fun ht => ⟨by simp [messageOf,ht],hb,hc,fun hi => ht hi.2.2.1⟩⟩
  cases hu : utf8? (contentOf config inflater bf f).1 with
  | none => exact (concludes_error _).mpr ⟨.invalidUtf8,⟨hd,hf,ht,hu⟩,rfl⟩
  | some text =>
    exact (concludes_ok _).mpr ⟨by simp [messageOf,ht,hu],hb,hc,
      fun hi => by simpa [hu] using hi.2.2.2⟩

theorem Admitted.not_violates {bf : List Frame} {f : Frame}
    (h : Admitted config inflater meter clock bf f)
    (hk : (f.opcode.isControl || f.opcode.isData)=true)
    (hr : f.opcode=.continuation → f.rsv1=false) {v : Violation}
    (hv : v∈[.fragmentedControl,.longControl,.controlRate,.reservedBits,.unmasked,.frameTooBig,
      .unknownOpcode]) : ¬ Violates config inflater meter clock bf f v := by
  fin_cases hv
  · exact h.fragmentedControl
  · exact h.longControl
  · exact h.controlRate
  · rintro (hb | hb | ⟨hb,hd | hc | hc⟩)
    · simp [h.rsv2] at hb
    · simp [h.rsv3] at hb
    · simp [(h.rsv1 hb).1] at hd
    · simp [(h.rsv1 hb).2] at hc
    · simp [hr hc] at hb
  · exact h.masked
  · exact h.size
  · rintro ⟨hd,hc⟩
    simp [hd,hc] at hk

theorem not_violates_control {bf : List Frame} {f : Frame}
    (ha : Admitted config inflater meter clock bf f) (hc : f.opcode.isControl=true)
    (hcl : ¬ Violates config inflater meter clock bf f .invalidClose) (v : Violation) :
    ¬ Violates config inflater meter clock bf f v := by
  have hd : f.opcode.isData=false := by
    cases ho : f.opcode <;> simp_all [Opcode.isData,Opcode.isControl]
  cases v with
  | noOpener =>
    rintro ⟨h,-⟩
    simp [h,Opcode.isData] at hd
  | openerInside => rintro ⟨h | h,-⟩ <;> simp [h,Opcode.isData] at hd
  | messageTooBig | fragmentsTooBig | corruptData | invalidUtf8 => simp [Violates,hd]
  | invalidClose => exact hcl
  | _ =>
    exact ha.not_violates (by simp [hc]) (fun h => by simp [h,Opcode.isControl] at hc) (by simp)

theorem not_violates_data {bf : List Frame} {f : Frame}
    (ha : Admitted config inflater meter clock bf f)
    (hd : f.opcode.isData=true) (hfe : FeedFine config bf f)
    (hb : ¬ Violates config inflater meter clock bf f .messageTooBig)
    (hc : ¬ Violates config inflater meter clock bf f .corruptData)
    (hu : ¬ Violates config inflater meter clock bf f .invalidUtf8) (v : Violation) :
    ¬ Violates config inflater meter clock bf f v := by
  cases v with
  | noOpener => exact fun h => hfe.opener.mp h.1 h.2
  | openerInside =>
    rintro ⟨h | h,hfr⟩
    · simpa [h] using hfe.opener.mpr hfr
    · simpa [h] using hfe.opener.mpr hfr
  | messageTooBig => exact hb
  | fragmentsTooBig =>
    rintro ⟨-,-,hp,hov⟩
    simp [hfe.size hp] at hov
  | corruptData => exact hc
  | invalidUtf8 => exact hu
  | invalidClose =>
    rintro ⟨h,-⟩
    simp [h,Opcode.isData] at hd
  | _ => exact ha.not_violates (by simp [hd]) hfe.rsv1 (by simp)

theorem parseClosePayload_of_wellFormed {p : Bytes} (h : WellFormedClose p) :
    parseClosePayload p=(closeCodeOf p,true) := by
  unfold parseClosePayload closeCodeOf
  rcases h with rfl | ⟨hl,hc,hr⟩
  · rfl
  · have hne : p≠[] := by
      rintro rfl
      simp at hl
    have ho : p.length≠1 := by omega
    simp [hne,ho,hc,hr]

theorem parseClosePayload_of_malformed {p : Bytes} (h : ¬ WellFormedClose p) :
    parseClosePayload p=(1002,false) := by
  unfold parseClosePayload
  simp only [WellFormedClose,not_or,not_and] at h
  obtain ⟨hne,hb⟩ := h
  rw [if_neg hne]
  by_cases ho : p.length=1
  · rw [if_pos ho]
  rw [if_neg ho]
  have hp : 0<p.length := List.length_pos_iff.mpr hne
  by_cases hc : isValidCloseCode (ofBigEndian (p.take 2))=true
  · have hr : utf8? (p.drop 2)=none := not_not.mp (hb (by omega) hc)
    have hl : 2<p.length := by
      by_contra hs
      have he : p.drop 2=[] := List.drop_eq_nil_of_le (by omega)
      have hn : utf8? []=some [] := congrArg (Option.map Array.toList) ByteArray.utf8Decode?_empty
      simp [he,hn] at hr
    simp [hc,hr,hl]
  · simp [hc]

theorem handle_data (wire : Wire σ) {h : FrameHeader} (hd : h.opcode.isData=true) (p : Bytes) :
    handle config inflater wire h p=handleDataFrame config inflater wire h p := by
  unfold handle
  cases ho : h.opcode <;> simp_all [Opcode.isData]

variable {t : Transcript}

theorem add_of_control {f : Frame} (h : f.opcode.isData=false) : t.add f=t := by
  simp [Transcript.add,h]

theorem add_of_last {f : Frame} (h : f.opcode.isData=true) (hf : f.fin=true) :
    t.add f=⟨t.messages++[t.fragments++[f]],[]⟩ := by
  simp [Transcript.add,h,hf]

theorem add_of_part {f : Frame} (h : f.opcode.isData=true) (hf : f.fin=false) :
    t.add f={t with fragments:=t.fragments++[f]} := by
  simp [Transcript.add,h,hf]

variable {wi : Wire σ} {b : List Frame} {f : Frame}

def counted (clock : ℕ → ℕ) (wire : Wire σ) (f : Frame) : Wire σ :=
  {wire with
    meter:=(countControl wire.meter f.header (clock wire.frames)).2
    frames:=wire.frames+1}

theorem Tracks.concat (h : Tracks config inflater meter clock wi b) {a : Option Fragments} {i : σ}
    (ht : (transcript b).add f=t) (ha : a=assemblerOf t.fragments)
    (hi : i=stateOf config inflater t.messages) : Tracks config inflater meter clock
      {counted clock wi f with assembler:=a,inflater:=i} (b++[f]) where
  assembler := by rw [transcript_concat,ht]; exact ha
  inflater := by rw [transcript_concat,ht]; exact hi
  meter := by rw [meterAfter_concat,← h.meter,← h.frames]; rfl
  frames := by simp [counted,h.frames]

theorem sentMessages_of_last (hd : f.opcode.isData=true) (hf : f.fin=true) :
    sentMessages config inflater (b++[f])=sentMessages config inflater b ++
        (messageOf (groupOf b f) (contentOf config inflater b f).1).toList := by
  unfold sentMessages
  rw [transcript_concat,add_of_last hd hf,sent_concat]
  rfl

theorem sentMessages_of_part (hd : f.opcode.isData=true) (hf : f.fin=false) :
    sentMessages config inflater (b++[f])=sentMessages config inflater b := by
  unfold sentMessages
  rw [transcript_concat,add_of_part hd hf]

theorem sentMessages_of_control (hd : f.opcode.isData=false) :
    sentMessages config inflater (b++[f])=sentMessages config inflater b := by
  unfold sentMessages
  rw [transcript_concat,add_of_control hd]

/-- What the handling of a frame comes to, once it has passed the checks before. -/
theorem Verdict.ofReaction {x : Except ProtocolError (Reaction × Wire σ)} {w : Wire σ}
    (h : Concludes x (fun out => Verdict config inflater meter clock wi b f (.done out.1 out.2))
      (Refused config inflater meter clock b f)) :
    Verdict config inflater meter clock wi b f (.ofReaction w x) := by
  cases x with
  | error error => exact .raises ((concludes_error error).mp h)
  | ok out => exact (concludes_ok out).mp h

theorem verdict_data (h : Tracks config inflater meter clock wi b)
    (ha : Admitted config inflater meter clock b f) (hd : f.opcode.isData=true) :
    Verdict config inflater meter clock wi b f (.ofReaction (counted clock wi f)
      (handle config inflater (counted clock wi f) f.header f.payload)) := by
  have hfe : Concludes (feed config wi.assembler f.opcode f.payload f.fin f.rsv1)
      (fun out => out=fed b f ∧ FeedFine config b f)
      (Refused config inflater meter clock b f) := by
    rw [h.assembler]
    by_cases hc : f.opcode=.continuation
    · exact feed_continuation b f hc
    · exact feed_opener b f hd hc
  have hcl : f.opcode≠.close := by
    intro hcl
    simp [hcl,Opcode.isData] at hd
  rw [handle_data _ hd]
  refine .ofReaction ((concludes_bind _ _).mpr (hfe.mono ?_))
  rintro _ ⟨rfl,hfi⟩
  cases hfin : f.fin with
  | false =>
    simp only [fed,hfin,Bool.false_eq_true,↓reduceIte,deliver,concludes_ok]
    have hs := hfi.size (.inr hfin)
    refine .passes hcl (not_violates_data ha hd hfi ?_ ?_ ?_)
      (h.concat (add_of_part hd hfin) rfl h.inflater) rfl rfl (fun _ => Reaction.noConfusion) ?_
    · simp [Violates,hfin,hs]
    · simp [Violates,hfin]
    · simp [Violates,hfin]
    · simp [sentMessages_of_part hd hfin,Reaction.message?]
  | true =>
    simp only [fed,hfin,↓reduceIte,deliver,concludes_bind,concludes_ok]
    rw [show (counted clock wi f).inflater=_ from h.inflater]
    refine (complete_concludes b f hd hfin).mono ?_
    rintro ⟨m,next⟩ ⟨rfl,hme,hb,hcor,hu⟩
    refine .passes hcl (not_violates_data ha hd hfi hb hcor hu)
      (h.concat (add_of_last hd hfin) rfl (stateOf_concat ..).symm) rfl rfl
      (fun _ => Reaction.noConfusion) ?_
    rw [sentMessages_of_last hd hfin,hme]
    rfl

theorem verdict_control (h : Tracks config inflater meter clock wi b)
    (ha : Admitted config inflater meter clock b f) (hd : f.opcode.isData=false) :
    Verdict config inflater meter clock wi b f (.ofReaction (counted clock wi f)
      (handle config inflater (counted clock wi f) f.header f.payload)) := by
  -- PING and PONG are answered, or not, and nothing else.
  have hp (r : Reaction) (hc : f.opcode≠.close)
      (hco : f.opcode.isControl=true) (hcon : ∀ code,r≠.close code)
      (hme : r.message? = none) :
      Verdict config inflater meter clock wi b f (.done r (counted clock wi f)) :=
    .passes hc (not_violates_control ha hco fun hb => hc hb.1)
      (h.concat (add_of_control hd) h.assembler h.inflater) rfl rfl hcon
      (by simp [sentMessages_of_control hd,hme])
  unfold handle
  rw [header_opcode]
  cases hcod : f.opcode with
  | text | binary | continuation => simp [hcod,Opcode.isData] at hd
  | reserved code => exact .refuses (v := .unknownOpcode) ⟨hd,by rw [hcod]; rfl⟩ rfl
  | close =>
    by_cases hw : WellFormedClose f.payload
    · rw [parseClosePayload_of_wellFormed hw]
      exact .closes hcod (not_violates_control ha (by rw [hcod]; rfl) fun hb => hb.2 hw)
    · rw [parseClosePayload_of_malformed hw]
      exact .refuses (v := .invalidClose) ⟨hcod,hw⟩ rfl
  | ping | pong => exact hp _ (by simp [hcod]) (by rw [hcod]; rfl) (fun _ => nofun) rfl

/-- Every frame passes, closes the connection, or is refused for something that is wrong. -/
theorem verdict (h : Tracks config inflater meter clock wi b) :
    Verdict config inflater meter clock wi b f
      (f.outcome config inflater wi (clock wi.frames)) := by
  have hc : countControl wi.meter f.header (clock wi.frames) =
      countControl (meterAfter meter clock b) f.header (clock b.length) := by
    rw [h.meter,h.frames]
  unfold Frame.outcome
  dsimp only
  cases hche : checkHeader config f.header (countControl wi.meter f.header
      (clock wi.frames)).1 (countControl wi.meter f.header (clock wi.frames)).2 with
  | error error => exact .raises ((checkHeader_concludes b f hc).2 error hche)
  | ok _ =>
    dsimp only
    split_ifs with hf
    · exact .raises ⟨.frameTooBig,hf,rfl⟩
    unfold Frame.ending
    split_ifs with hm
    · exact .raises ⟨.unmasked,by simpa [Violates] using hm,rfl⟩
    have ha : Admitted config inflater meter clock b f :=
      ⟨(checkHeader_concludes b f hc).1 _ hche,hf,by simpa using hm⟩
    cases hd : f.opcode.isData with
    | true => exact verdict_data h ha hd
    | false => exact verdict_control h ha hd

end

end BlackBull.WebSocket
