import BlackBull.BodyHandlers

/-!
# Completeness of request bodies

A DATA frame that ends the stream is compared with the declared length; HEADERS and trailers that
end it are not, and a length that is no number or is declared twice is not noticed. While the peer
keeps to the rest, a body that is complete has exactly the length declared.
-/

namespace BlackBull.H2

open ByteString HeadParser

variable {τ : Type} (lib : Library τ) (limits : Limits)

def Actor.requestOf (s : Actor τ) (raw : RawFrame) : Option Request := do
  let frame ← s.parsedFrame raw
  let block ← frame.headerBlock.toOption
  let (fields,_) ← lib.decode s.table block
  let frame ← (frame.addFields false fields).toOption
  let result ← (parseHeaders lib frame).toOption
  result.toOption

/-- The lengths a request declares are numbers that agree; HEADERS end the stream of a request
only without a body, and trailers only when the body is all there. -/
def Measured (s : Actor τ) : Action → Prop
  | .frame raw moment => Fresh s (.frame raw moment) ∧
    (∀ request∈s.requestOf lib raw,request.Consistent ∧
      (raw.type=some .headers → raw.endStream=true → request.LengthFits 0)) ∧
    (raw.type=some .headers → raw.endStream=true →
      ∀ stream∈s.children.get? raw.streamId,∀ n∈stream.expectedContentLength,
        n=stream.receivedDataBytes)
  | _ => True

instance (s : Actor τ) : (action : Action) → Decidable (Measured lib s action)
  | .frame _ _ => inferInstanceAs (Decidable (_ ∧ _ ∧ _))
  | .eof | .done _ _ | .push _ | .fail _ _ _ | .debit _ _ | .giveUp _ => isTrue trivial

variable {lib limits} {s : Actor τ}

theorem requestOf_of_reads {raw : RawFrame} {f f' : HeadersFrame} {b : Bytes}
    {q : Request} (hp : s.parsedFrame raw=some f) (hr : f.Reads lib s.table b f')
    (hpa : parseHeaders lib f'=.ok (.ok q)) : s.requestOf lib raw=some q := by
  obtain ⟨hb,fs,tb,hd,hf⟩ := hr
  simp [Actor.requestOf,hp,hb,hd,hf,hpa,Except.toOption]

section Turns

variable {s : Actor τ} {ta : ℕ → ℕ} {raw : RawFrame} {m : Moment}

theorem handle_large_holds (hl : s.ended=false)
    (hla : defaultMaxFrameSize<raw.payload.length) (ta : ℕ → ℕ) :
    Holds s ta (s.handle lib limits m raw) := by
  have hg : s.goawaySent=false := by simp_all [Actor.ended]
  have hs : Still s (s.handle lib limits m raw) := by
    refine handle_of_ensures ?_
    have hm : Moves Still (do connectionError .frameSizeError; finish : ActorM τ Unit) :=
      .bind still_connectionError fun _ => still_finish
    unfold turn
    rw [ensures_bind,ensures_get,ensures_ite,ensures_ite]
    refine ⟨fun h => absurd h (by simp [hg]),fun _ => ⟨fun _ => ?_,fun h => ?_⟩⟩
    · refine (hm s).mono (fun _ _ h => h) fun _ t h e => trans_of Still h ?_
      exact ⟨rfl,rfl,rfl,rfl,rfl,rfl,fun _ => id,fun _ => by simp [Actor.ended]⟩
    · exact absurd hla h
  exact ((told_self ta s).still hs).holds (by simp [Actor.ended,(turn_large hl hla).2])

theorem perform_holds {old : Actor τ} (h : Holds old ta s) (m : Moment) (id1 : ℕ)
    (an : Answer) : Ensures (an.perform m id1) s (fun _ => Holds old ta) (fun _ => Told old ta) :=
  (h.moves voices_still.perform.moves).mono (fun _ _ h => h) fun _ _ h => h.told

variable {sid : ℕ}

theorem streamRefusal_data {an : Answer} (hr : s.streamRefusal .data sid=some an) :
    (∃ code,an=.connectionError code) ∨ (∀ st,s.children.get? sid=some st → ¬ st.receiving) ∧
        ((s.children.get? sid).isSome=true ∨ (s.closedVia sid).isSome=true) := by
  unfold Actor.streamRefusal at hr
  by_cases hid : sid=0
  · simp [hid] at hr
  rw [if_neg hid] at hr
  cases hn : s.children.get? sid with
  | some st =>
    simp only [hn] at hr
    cases hs : st.state with
    | idle =>
      simp only [validateStreamState,hs] at hr
      simp at hr
      exact .inl ⟨_,hr.symm⟩
    | «open» | halfClosedLocal => simp [validateStreamState,hs] at hr
    | halfClosedRemote | closed =>
      refine .inr ⟨fun o ho => ?_,.inl rfl⟩
      obtain rfl := Option.some.inj ho
      simp [Stream.receiving,hs]
  | none =>
    simp only [hn] at hr
    cases hv : s.closedVia sid with
    | some vr => exact .inr ⟨by rintro _ ⟨⟩,.inr rfl⟩
    | none =>
      simp only [hv,Option.some.injEq] at hr
      exact .inl ⟨_,hr.symm⟩

theorem streamRefusal_data_none (hid : sid≠0) (hr : s.streamRefusal .data sid=none) :
    ∃ st,s.children.get? sid=some st ∧ st.state≠.idle := by
  unfold Actor.streamRefusal at hr
  rw [if_neg hid] at hr
  cases hn : s.children.get? sid with
  | some st =>
    refine ⟨st,rfl,fun hi => ?_⟩
    simp [hn,validateStreamState,hi] at hr
  | none => cases hv : s.closedVia sid <;> simp [hn,hv,lateFrame] at hr

theorem Accounted.le_of_closedVia (h : Accounted ta s)
    (hv : (s.closedVia sid).isSome=true) : sid ≤ s.closedHighWater := by
  unfold Actor.closedVia at hv
  cases hc : s.closedStreams.get? sid with
  | some vr => exact h.closed sid (by simp [hc])
  | none =>
    simp only [hc] at hv
    split_ifs at hv with hle
    · exact hle.2
    · simp at hv

theorem handleFrame_data_holds (h : Accounted ta s) (hty : raw.type=some .data)
    (hs : raw.payload.length≤defaultMaxFrameSize) {p : Bytes} (hp : dataPayload raw=.ok p) :
    Ensures (handleFrame lib limits m raw (.data raw.endStream p)) s
      (fun _ => Holds s (tallyData ta (.frame raw m)))
      (fun _ => Told s (tallyData ta (.frame raw m))) := by
  have ho (o : ℕ) (hne : o≠raw.streamId) : tallyData ta (.frame raw m) o=ta o := by
    simp [tallyData,Function.update_of_ne hne]
  have hta : tallyData ta (.frame raw m) raw.streamId = ta raw.streamId+p.length := by
    simp [tallyData,RawFrame.dataOctets,hty,hp]
  generalize tallyData ta (.frame raw m)=tally' at *
  have hto := told_self tally' s
  have hf (ms : MeterKind → RateWindow) (code : ErrorCode) :
      Ensures (connectionError code) {s with meters:=ms} (fun _ => Holds s tally')
        (fun _ => Told s tally') := by
    refine ((connectionError_ensures code _).and (still_connectionError _)).mono ?_
      fun _ _ h => h.1.elim
    rintro _ t ⟨⟨-,hc⟩,hst⟩
    have ht : Told s tally' {s with meters:=ms} := hto
    exact (ht.still hst).holds (by simp [Actor.ended,hc])
  refine handleFrame_of_checks hty (fun ms answer hr => ?_) fun ms hb hfr hstr => ?_
  · cases hr with
    | fatal code => exact hf ms code
    | frame hfr =>
      have hco : ∃ code,answer=.connectionError code := by
        unfold frameRefusal at hfr
        rw [if_neg hs.not_gt] at hfr
        split_ifs at hfr with hz
        · exact ⟨_,(Option.some.inj hfr).symm⟩
        all_goals simp_all
      obtain ⟨code,rfl⟩ := hco
      exact hf ms code
    | stream hb hstr =>
      rcases streamRefusal_data hstr with ⟨code,rfl⟩ | ⟨hn,hk⟩
      · exact hf ms code
      · have hope := openBlock_of_ne hb (by decide)
        have hr : Accounted tally' s := h.refuse hope ho hn (hk.imp id h.le_of_closedVia)
        have hh : Holds s tally' {s with meters:=ms} :=
          ⟨fun _ => hr.still ⟨rfl,rfl,rfl,rfl,rfl,rfl,fun _ => id,id⟩,hto⟩
        exact perform_holds hh m raw.streamId answer
  · have hope := openBlock_of_ne hb (by decide)
    have hid : raw.streamId≠0 := by
      intro hz
      simp [frameRefusal,hs.not_gt,hz,streamOnlyFrameTypes] at hfr
    rw [openStream_of_ne _ (by decide)]
    obtain ⟨stream,hn,hsta⟩ := streamRefusal_data_none hid hstr
    have hcou : Accounted ta {s with meters:=ms} := h.still ⟨rfl,rfl,rfl,rfl,rfl,rfl,fun _ => id,id⟩
    exact (onDataFrame_holds hcou hope hto hn hsta
      (receiving_of_refusal hid hn hstr (.inr (.inr rfl))) m raw.payload.length
      raw.endStream p ho hta).mono (fun _ _ h => h) fun _ _ h => h.told

theorem handleFrame_headers_holds (h : Accounted ta s) (hd : Disciplined s) (hm : Measured lib s
    (.frame raw m)) (ht : raw.type=some .headers) {f : HeadersFrame} {t : Actor τ} (hl :
    LoadedHeaders lib s.table raw f) (hde : Decodes (loaded raw) s t) :
    Ensures (handleFrame lib limits m raw (.headers f)) t (fun _ => Holds s ta)
      (fun _ => Told s ta) := by
  obtain ⟨hf,hr,htr⟩ := hm
  have he : f.endHeaders=raw.endHeaders := hl.parsed.endHeaders
  have hs : f.endStream=raw.endStream ∧ f.streamId=raw.streamId := by
    obtain ⟨_,_,_,rfl⟩ := hl.parsed
    exact ⟨rfl,rfl⟩
  have hst (ms : MeterKind → RateWindow) : Still s {t with meters:=ms} := by
    rw [hde.same]
    exact ⟨rfl,rfl,rfl,rfl,rfl,rfl,fun _ => id,id⟩
  have hla : t.lastPeerStreamId=s.lastPeerStreamId := by rw [hde.same]
  have hto (ms : MeterKind → RateWindow) := (told_self ta s).still (hst ms)
  have ha (ms : MeterKind → RateWindow) := h.still (hst ms)
  refine handleFrame_of_checks ht (fun ms an _ => ?_) fun ms hb hfr hre => ?_
  · exact perform_holds ⟨fun _ => ha ms,hto ms⟩ m raw.streamId an
  · have hid : raw.streamId≠0 := by
      rcases frameRefusal_headers t.openBlock.isSome raw.streamId raw.payload.length with
        ⟨code,hc⟩ | ⟨-,hid⟩
      · simp [hfr] at hc
      · exact hid
    refine handleHeaders_holds lib limits (ha ms) (hto ms)
      (openBlock_of_ne hb (by decide)) hid hre ?_ m hs.2 ?_ ?_ ?_
    · intro g hme
      have hme : g∈s.dispatched := (hst ms).dispatched ▸ hme
      exact hla ▸ hd.bounded _ (List.mem_map_of_mem hme)
    · rw [(hst ms).children,he]
      exact hf.1 ht
    · rw [(hst ms).children,hs.1]
      exact htr ht
    · intro q hp
      obtain ⟨hlo,block,hrea⟩ :=
        hl.reads (parseHeaders_valid lib hp).1 (parseHeaders_valid lib hp).2
      have hpa : s.parsedFrame raw=some (.ofRaw raw) := by
        rw [HeadersFrame.decodes,hrea.1,loaded] at hlo
        split_ifs at hlo with hp
        simp [Actor.parsedFrame,hp]
      obtain ⟨hco,hfi⟩ := hr q (requestOf_of_reads hpa hrea hp)
      exact ⟨hco,hs.1 ▸ hfi ht⟩

theorem handleFrame_continuation_holds (h : Accounted ta s) (hd : Disciplined s) (hl : s.ended =
    false) (hm : Measured lib s (.frame raw m)) (ht : raw.type=some .continuation) :
    Ensures (handleFrame lib limits m raw (.continuation raw.endHeaders raw.payload)) s
      (fun _ => Holds s ta) (fun _ => Told s ta) := by
  obtain ⟨hf,hr,-⟩ := hm
  have ha (ms : MeterKind → RateWindow) : Accounted ta {s with meters:=ms} :=
    h.still ⟨rfl,rfl,rfl,rfl,rfl,rfl,fun _ => id,id⟩
  have hto := told_self ta s
  refine handleFrame_of_checks ht (fun ms an _ => ?_) fun ms _ hfr hre => ?_
  · exact perform_holds ⟨fun _ => ha ms,hto⟩ m raw.streamId an
  · obtain ⟨hid,ho⟩ : raw.streamId≠0 ∧ s.openBlock.isSome=true := by
      rcases frameRefusal_continuation s.openBlock.isSome raw.streamId raw.payload.length with
        ⟨code,hc⟩ | ⟨-,hid,ho⟩
      · simp [hfr] at hc
      · exact ⟨hid,ho⟩
    obtain ⟨f,ho⟩ := Option.isSome_iff_exists.mp ho
    obtain ⟨stream,hn⟩ : ∃ stream,s.children.get? raw.streamId=some stream := by
      rcases streamRefusal_continuation s hid with ⟨code,h⟩ | ⟨stream,code,h,-⟩ | ⟨-,stream,hn,-⟩
      · simp [hre] at h
      · simp [hre] at h
      · exact ⟨stream,hn⟩
    have hs : raw.streamId=f.streamId := by
      rcases hf.2 ht f ho with hs | hno
      · exact hs
      · simp [hn] at hno
    rw [openStream_of_ne _ (by decide)]
    refine handleContinuation_holds lib limits (ha ms) hto ho hs hn ?_
      m raw.endHeaders raw.payload ?_
    · intro g hme
      rw [hs]
      exact ((hd.openBlock hl f ho).2.2 _ (List.mem_map_of_mem hme)).ne
    · intro b f' q he hrea hp
      have hpa : s.parsedFrame raw=some (f.extend raw.payload) := by
        simp [Actor.parsedFrame,he,ht,ho]
      exact (hr q (requestOf_of_reads hpa hrea hp)).1

theorem handleFrame_other_holds (h : Accounted ta s) {c : Content} (hc : c.type=raw.type) (hh :
    raw.type≠some .headers) (hco : raw.type≠some .continuation) (hd : raw.type≠some .data) :
    Ensures (handleFrame lib limits m raw c) s (fun _ => Holds s ta)
      (fun _ => Told s ta) := by
  have hho (ms : MeterKind → RateWindow) : Holds s ta {s with meters:=ms} :=
    ⟨fun _ => h.still ⟨rfl,rfl,rfl,rfl,rfl,rfl,fun _ => id,id⟩,told_self ta s⟩
  cases ht : raw.type with
  | none =>
    simp only [handleFrame,ensures_bind,ensures_get,ensures_ite,ht,ensures_pure]
    exact ⟨fun _ => perform_holds (hho s.meters) m raw.streamId (.connectionError _),
      fun _ => hho s.meters⟩
  | some type =>
    refine handleFrame_of_checks ht
      (fun ms an _ => perform_holds (hho ms) m raw.streamId an)
      fun ms hb _ _ => ?_
    rw [ht] at hh hco
    rw [openStream_of_ne _ (by simpa using hh)]
    exact handleContent_holds lib limits (hho ms) (openBlock_of_ne hb (by simpa using hco)) m _ _
      (by rw [hc,ht]; exact hh) (by rw [hc,ht]; exact hco)
      (by rw [hc]; exact hd)

theorem handle_holds (h : Accounted ta s) (hd : Disciplined s) (hli : s.ended=false)
    (hm : Measured lib s (.frame raw m)) :
    Holds s (tallyData ta (.frame raw m)) (s.handle lib limits m raw) := by
  by_cases hs : raw.payload.length≤defaultMaxFrameSize
  case neg => exact handle_large_holds hli (not_le.mp hs) _
  have hlo {t' : ℕ → ℕ} {c : Content} {t : Actor τ} (hf : Ensures (handleFrame lib limits m raw c) t
        (fun _ => Holds s t') (fun _ => Told s t')) :
      Ensures (handleFrame lib limits m raw c) t (fun _ => Holds s t')
        (fun _ u => ∀ e,Holds s t' {u with ending:=some (.raised e)}) :=
    hf.mono (fun _ _ h => h) fun _ _ ht e => .raised ht e
  by_cases hda : raw.type=some .data
  · refine handle_of_load hli hs ?_
    cases hp : dataPayload raw with
    | error e =>
      have hloa : load lib raw s=.error e s := by
        simp [load,loadContent,hda,hp]
        rfl
      exact .of_error hloa fun e => .raised (told_self _ s) e
    | ok p =>
      have hc : loadContent raw=.ok (.data raw.endStream p) := by
        simp [loadContent,hda,hp,Except.map]
      exact .of_ok (load_of_content hc (by simp [Content.type]) s)
        (hlo (handleFrame_data_holds h hda hs hp))
  rw [tallyData_of_ne hda]
  refine handle_of_load hli hs ?_
  by_cases hh : raw.type=some .headers
  · refine (load_ensures lib raw s).mono ?_ ?_
    · rintro c t ⟨hl,hde,-⟩
      obtain ⟨f,rfl⟩ := hl.eq_headers hh
      exact hlo (handleFrame_headers_holds h hd hm hh (hl.headers f rfl) hde)
    · rintro _ t (hde | rfl) e
      · refine .raised ((told_self ta s).still ?_) e
        rw [hde.same]
        exact ⟨rfl,rfl,rfl,rfl,rfl,rfl,fun _ => id,id⟩
      · exact .raised (told_self ta t) e
  · refine (load_other hh s).mono ?_ ?_
    · rintro c t ⟨hl,rfl⟩
      by_cases hco : raw.type=some .continuation
      · obtain rfl := hl.eq_continuation hco
        exact hlo (handleFrame_continuation_holds h hd hli hm hco)
      · exact hlo (handleFrame_other_holds h hl.type hh hco hda)
    · rintro _ t rfl e
      exact .raised (told_self ta t) e

end Turns

section Steps

variable (lib limits) {s : Actor τ} {t : ℕ → ℕ}

theorem still_of_ended (he : s.ended=true) (raw : RawFrame) (mo : Moment) :
    Still s (s.step lib limits (.frame raw mo)) := by
  rw [Actor.step]
  split_ifs with hen
  · exact refl_of Still s
  · have hg : s.goawaySent=true := by simp_all [Actor.ended]
    refine handle_of_ensures ?_
    unfold turn
    rw [ensures_bind,ensures_get,ensures_ite]
    exact ⟨fun _ => still_signalRecipients s _ fun _ => rfl,fun h => absurd hg h⟩

theorem environment_holds (h : s.ended=false → Accounted t s) (hd : Disciplined s)
    (hp : s.nextPushStreamId % 2 = 0) {a : Action}
    (ha : ∀ raw mo,a≠.frame raw mo) : Holds s t (s.step lib limits a) := by
  have hs : Holds s t s := ⟨h,told_self t s⟩
  cases a with
  | frame raw mo => exact absurd rfl (ha raw mo)
  | eof =>
    rw [Actor.step]
    split_ifs
    · exact hs
    · exact hs.still (still_signalRecipients s _ fun _ => rfl)
  | done id1 iw =>
    rw [Actor.step]
    split_ifs
    · unfold Actor.taskDone
      dsimp only
      by_cases hn : (s.children.get? id1).isSome=true
      · rw [if_pos hn]
        exact (hs.close id1 false (s.windows.dropSender id1)).still
          ⟨rfl,rfl,rfl,rfl,rfl,rfl,fun _ => id,id⟩
      · rw [if_neg hn]
        refine hs.still ⟨rfl,rfl,rfl,rfl,rfl,rfl,fun o ht => ?_,id⟩
        simp only [Actor.toldComplete,Dict.get?_pop] at ht ⊢
        split_ifs at ht
        · simp at ht
        · exact ht
    · exact hs
  | push psi =>
    refine ⟨fun hl => ?_,fun o hold ht g hm hid => ?_,?_⟩
    · obtain ⟨hi,hc,hk,hb,hg,he,hcl⟩ := h hl
      exact ⟨hi,hc,hk,hb,hg,he,hcl⟩
    · have ho : g.streamId % 2 = 1 := hd.odd _ (List.mem_map_of_mem hm)
      simp only [Actor.step,Actor.push,Actor.toldComplete,Dict.get?_set] at ht
      split_ifs at ht with hot
      · omega
      · exact hs.told.1 o hold ht g hm hid
    · simp [Actor.step,Actor.push]
  | fail id1 code mo => exact hs.still (voices_still.resetStream.moves.leaving s)
  | debit id1 n => exact hs.still ⟨rfl,rfl,rfl,rfl,rfl,rfl,fun _ => id,id⟩
  | giveUp code => exact hs.still ((voices_still : Voices _ 0).goaway code s)

theorem step_holds (h : s.ended=false → Accounted t s) (hd : Disciplined s)
    (hp : s.nextPushStreamId % 2 = 0) {a : Action} (hm : Measured lib s a) :
    Holds s (tallyData t a) (s.step lib limits a) := by
  by_cases hf : ∃ raw mo,a=.frame raw mo
  case neg =>
    have ha (raw : RawFrame) (mo : Moment) : a≠.frame raw mo := fun heq => hf ⟨raw,mo,heq⟩
    have ht : tallyData t a=t := by
      cases a with
      | frame raw mo => exact absurd rfl (ha raw mo)
      | _ => rfl
    rw [ht]
    exact environment_holds lib limits h hd hp ha
  obtain ⟨raw,mo,rfl⟩ := hf
  cases he : s.ended with
  | true =>
    have hs := still_of_ended lib limits he raw mo
    exact ((told_self _ s).still hs).holds (hs.ended he)
  | false =>
    rw [step_of_live lib limits mo raw he]
    exact handle_holds (h he) hd he hm

end Steps

variable (lib limits)

theorem Measured.fresh {a : Action} (h : Measured lib s a) : Fresh s a := by
  cases a with
  | frame raw mo => exact h.1
  | _ => trivial

structure Kept (s : Actor τ) (tally : ℕ → ℕ) : Prop where
  disciplined : Disciplined s
  accounted : s.ended=false → Accounted tally s
  push : s.nextPushStreamId % 2 = 0

theorem kept_initial (t : τ) : Kept (.initial limits t) fun _ => 0 :=
  ⟨⟨by rintro _ ⟨⟩,.nil,by rintro _ ⟨⟩,by rintro - _ ⟨⟩⟩,
    fun _ => ⟨by rintro _ _ ⟨⟩,by rintro _ _ ⟨⟩,by simp,by rintro _ ⟨⟩,by rintro _ ⟨⟩,
      by rintro _ _ _ ⟨⟩,by rintro _ ⟨⟩⟩,by simp [Actor.initial]⟩

theorem kept_step {tl : ℕ → ℕ} {a : Action} (h : Kept s tl)
    (hm : Measured lib s a) : Kept (s.step lib limits a) (tallyData tl a) := by
  have hh := step_holds lib limits h.accounted h.disciplined h.push hm
  exact ⟨disciplined_step h.disciplined hm.fresh,hh.accounted,hh.told.2.trans h.push⟩

/-- On a connection whose frames are measured, the step that tells the application that a body is
complete completes a body of exactly the length declared. -/
theorem bodies_complete (table : τ) {before : List Action} {action : Action}
    (along : Along (Actor.step lib limits) (Measured lib) (.initial limits table)
      (before++[action])) (streamId : ℕ) :
    let s := run (Actor.step lib limits) (.initial limits table) before
    let t := s.step lib limits action
    s.toldComplete streamId=false → t.toldComplete streamId=true →
      ∀ given∈t.dispatched,given.streamId=streamId → given.request.LengthFits
          (run tallyData (fun _ => 0) (before++[action]) streamId) := by
  obtain ⟨hb,hm,-⟩ := (along_append _ before [action]).mp along
  have hs (s : Actor τ) (tally : ℕ → ℕ) (a : Action) (h : Kept s tally)
      (hm : Measured lib s a) : Kept (s.step lib limits a) (tallyData tally a) :=
    kept_step lib limits h hm
  have h := hb.simulation hs (kept_initial limits table)
  have hh := step_holds lib limits h.accounted h.disciplined h.push hm
  rw [run_append]
  exact hh.told.1 streamId

/-- The plain library with the name `content-length`, entry 28 of the static table, for the last
field of a block. -/
def lengthLibrary : Library HeaderList where
  decode table block := do
    let (fields,table) ← plainLibrary.decode table (block.takeWhile (· ≠ 0x5c))
    match block.dropWhile (· ≠ 0x5c) with
    | _::length::rest =>
      let field := (ascii "content-length",rest.take length.toNat)
      pure (fields++[field],field::table)
    | _ => pure (fields,table)
  urlsplit := plainLibrary.urlsplit

/-- Five octets in two DATA frames, and trailers. -/
theorem bodies_complete_five :
    let before : List Action :=
      [.quiet 1 4 1 [0x83,0x86,0x84,0x41,1,97,0x5c,1,53],.quiet 0 0 1 [1,2,3],.quiet 0 0 1 [4,5]]
    let s := run (Actor.step lengthLibrary {}) (.initial {} []) before
    let t := s.step lengthLibrary {} (.quiet 1 5 1 [])
    t.toldComplete 1=true ∧
      ∀ given∈t.dispatched,given.streamId=1 → given.request.LengthFits 5 := by
  have along : Along (Actor.step lengthLibrary {}) (Measured lengthLibrary) (.initial {} [])
      ([.quiet 1 4 1 [0x83,0x86,0x84,0x41,1,97,0x5c,1,53],.quiet 0 0 1 [1,2,3],
        .quiet 0 0 1 [4,5]]++[.quiet 1 5 1 []]) := by
    decide +kernel
  have hn : (run (Actor.step lengthLibrary {}) (.initial {} [])
      ([.quiet 1 4 1 [0x83,0x86,0x84,0x41,1,97,0x5c,1,53],.quiet 0 0 1 [1,2,3],
        .quiet 0 0 1 [4,5]]++[.quiet 1 5 1 []])).toldComplete 1=true := by
    decide +kernel
  exact ⟨hn,bodies_complete lengthLibrary {} [] along 1 (by decide +kernel) hn⟩

/-- A length of five is declared, and the stream ends with the HEADERS or with trailers after two
octets; and a length that is no number. -/
theorem bodies_incomplete :
    let after (actions : List Action) :=
      run (Actor.step lengthLibrary {}) (.initial {} []) actions
    let short (actions : List Action) :=
      (after actions).toldComplete 1=true ∧ ∃ given∈(after actions).dispatched,
        given.streamId=1 ∧ ¬ given.request.LengthFits (run tallyData (fun _ => 0) actions 1)
    short [.quiet 1 5 1 [0x83,0x86,0x84,0x41,1,97,0x5c,1,53]] ∧
      short [.quiet 1 4 1 [0x83,0x86,0x84,0x41,1,97,0x5c,1,53],.quiet 0 0 1 [1,2],.quiet 1 5 1 []] ∧
      short [.quiet 1 4 1 [0x83,0x86,0x84,0x41,1,97,0x5c,1,120],.quiet 0 1 1 [1,2]] := by
  decide +kernel

end BlackBull.H2
