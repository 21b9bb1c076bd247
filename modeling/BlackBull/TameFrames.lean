import BlackBull.ErrorReports

/-!
# Frames that raise nothing

A block that can be read is one the decoder takes, whose pseudo-headers are text and whose path
`urlsplit` takes. `Tame` adds what the constructors of the frames check by raising: the fixed
lengths and the paddings.
-/

namespace BlackBull.H2

open ByteString HeadParser

variable {τ : Type} (lib : Library τ) (lim : Limits)

/-- The decoder takes the block, and its pseudo-headers are text with a path `urlsplit` takes. -/
def Readable (table : τ) (block : Bytes) : Prop :=
  ∃ fields table',lib.decode table block=some (fields,table') ∧
    (∀ field∈fields,field.1.head? = some 58 → isUtf8 field.2=true) ∧
    ∀ field∈fields,field.1=ascii ":path" → field.2=[] ∨ (lib.urlsplit field.2).isSome

/-- `parse_headers` can take the path of the frame apart. -/
def HeadersFrame.PathReadable (frame : HeadersFrame) : Prop :=
  ∀ value,(PseudoHeader.path,value)∈frame.pseudoHeaders →
    value=[] ∨ (lib.urlsplit value).isSome

variable {lib lim}

theorem ofName_path {n : Bytes} (h : PseudoHeader.ofName n=some .path) : n=ascii ":path" := by
  unfold PseudoHeader.ofName at h
  split_ifs at h with hm hp
  all_goals first
    | exact hp
    | cases h

variable {s : Actor τ} {m : Moment} {raw : RawFrame} {frame : HeadersFrame}

theorem addFields_readable {fs : HeaderList} (sr : Bool) (hf : frame.PathReadable lib) (ht : ∀ f ∈
    fs,f.1.head? = some 58 → isUtf8 f.2=true) (hp : ∀ f∈fs,f.1=ascii ":path" → f.2=[] ∨
    (lib.urlsplit f.2).isSome) :
    ∃ f',frame.addFields sr fs=.ok f' ∧ f'.PathReadable lib := by
  induction fs generalizing sr frame with
  | nil => exact ⟨frame,rfl,hf⟩
  | cons f fs ih =>
    obtain ⟨name,v⟩ := f
    rw [List.forall_mem_cons] at ht hp
    have hr {seen : Bool} {next : HeadersFrame} (hn : next.PathReadable lib) :
        ∃ f',next.addFields seen fs=.ok f' ∧ f'.PathReadable lib :=
      ih seen hn ht.2 hp.2
    unfold HeadersFrame.addFields
    -- a marked frame keeps the pseudo-headers it had
    repeat' split
    all_goals first
      | exact ⟨_,rfl,hf⟩
      | exact hr hf
      | skip
    case h_2.isFalse.isTrue key hk _ _ =>
      refine hr fun p hm => ?_
      rcases List.mem_append.mp hm with hm | hm
      · exact hf p hm
      · obtain ⟨rfl,rfl⟩ := Prod.mk.inj (List.mem_singleton.mp hm)
        exact hp.1 (ofName_path hk)
    case h_2.isFalse.isFalse hc _ _ _ _ _ hb => exact absurd (ht.1 hc) hb

theorem requestPath_readable (h : frame.PathReadable lib) : ∃ p,requestPath lib frame=.ok p := by
  unfold requestPath
  cases hp : frame.pseudo .path with
  | none => exact ⟨_,rfl⟩
  | some v =>
    obtain ⟨e,hf,rfl⟩ := Option.map_eq_some_iff.mp hp
    have hk : e.1=.path := by simpa using List.find?_some hf
    have hm : (PseudoHeader.path,e.2)∈frame.pseudoHeaders := hk ▸ List.mem_of_find?_eq_some hf
    rcases h e.2 hm with he | hs
    · rw [he]
      exact ⟨_,rfl⟩
    · obtain ⟨p,hpa⟩ := Option.isSome_iff_exists.mp hs
      cases hv : e.2 with
      | nil => exact ⟨_,rfl⟩
      | cons b rest =>
        rw [hv] at hpa
        exact ⟨_,by simp only [splitH2Path,hpa]; rfl⟩

theorem parseHeaders_readable (h : frame.PathReadable lib) :
    ∃ r,parseHeaders lib frame=.ok r := by
  obtain ⟨⟨p,rp,qs⟩,hp⟩ := requestPath_readable h
  unfold parseHeaders
  cases frame.malformed with
  | some d => exact ⟨_,rfl⟩
  | none =>
    dsimp only
    cases requestMethod frame with
    | error d => exact ⟨_,rfl⟩
    | ok m =>
      simp only [hp]
      by_cases hc : m=ascii "CONNECT" ∧ frame.pseudo .protocol=some (ascii "websocket")
      · exact ⟨_,by simp only [bind,Except.bind,if_pos hc]; rfl⟩
      · exact ⟨_,by simp only [bind,Except.bind,if_neg hc]; rfl⟩

theorem Decodes.reports {b : List (ℕ × Bytes)} {t : Actor τ} (h : Decodes b s t) : Reports s t := by
  rw [h.same]
  exact .of_sent List.prefix_rfl rfl rfl

theorem parsePayload_readable (hb : frame.pseudoHeaders=[])
    (hr : ∀ b,frame.headerBlock=.ok b → Readable lib s.table b) :
    Succeeds (parsePayload lib frame) s fun f' t =>
      f'.PathReadable lib ∧ Decodes frame.decodes s t := by
  have hf : frame.PathReadable lib := by simp [HeadersFrame.PathReadable,hb]
  unfold parsePayload HeadersFrame.decodes
  cases hbl : frame.headerBlock with
  | error d => exact ⟨hf,rfl,(List.append_nil _).symm⟩
  | ok b =>
    obtain ⟨fs,tb,hd,ht,hp⟩ := hr b hbl
    obtain ⟨f',hfi,hre⟩ := addFields_readable false hf ht hp
    simp only [ensures_bind,ensures_modify,ensures_get,hd,ensures_ofExcept,hfi]
    exact ⟨hre,rfl,rfl⟩

section Requests

variable {m : Moment} (hstalled : m.stalled=false)

include hstalled

variable {f : HeadersFrame} {s : Actor τ} (sid : ℕ)

theorem returns_refuseOversizedDeclaredBody (req : Request) : Returns Reports
      (refuseOversizedDeclaredBody lim m sid req : ActorM τ Bool) := by
  unfold refuseOversizedDeclaredBody
  rw [hstalled]
  have h : Handles (Reports (τ := τ)) sid := handles_reports
  exact .ite (.bind (h.say nofun) fun _ => .bind h.resetStream fun _ => .pure) .pure

theorem returns_onHttpRequest (f : HeadersFrame) (req : Request) :
    Returns Reports (onHttpRequest lim m sid f req : ActorM τ Unit) :=
  .bind (returns_refuseOversizedDeclaredBody hstalled _ _) fun _ => .ite .pure <|
    .bind (returns_update fun _ => rfl) fun _ => .bind handles_reports.modifyStream fun _ =>
      returns_update fun _ => rfl

omit hstalled in
theorem returns_onWebsocketRequest (f : HeadersFrame) (req : Request) :
    Returns Reports (onWebsocketRequest lim m sid f req : ActorM τ Unit) :=
  .ite handles_reports.resetStream <| .bind handles_reports.modifyStream fun _ =>
    .bind .get fun _ => .ite handles_reports.resetStream <|
      .bind (returns_update fun _ => rfl) fun _ => returns_update fun _ => rfl

theorem returns_onRequestHeaders (hp : f.PathReadable lib) :
    Returns Reports (onRequestHeaders lib lim m sid f) := by
  refine .bind .get fun _ => .ite handles_reports.resetStream <|
    .bind (.ofExcept (parseHeaders_readable hp)) fun r => ?_
  cases r with
  | error d => exact handles_reports.resetStream
  | ok req =>
    exact .bind handles_reports.modifyStream fun _ =>
      .ite (returns_onWebsocketRequest _ _ _) (returns_onHttpRequest hstalled _ _ _)

theorem returns_onBlockEnd (hp : f.PathReadable lib) :
    Returns Reports (onBlockEnd lib lim m sid f) := by
  refine .bind (.ofExcept (parseHeaders_readable hp)) fun r => ?_
  cases r with
  | error d => exact handles_reports.resetStream
  | ok req =>
    exact .bind handles_reports.modifyStream fun _ => .bind .get fun _ =>
      .ite handles_reports.resetStream <| .bind handles_reports.modifyStream fun _ =>
        .bind (returns_refuseOversizedDeclaredBody hstalled _ _) fun _ =>
          .ite .pure <| .bind (returns_update fun _ => rfl) fun _ => returns_update fun _ => rfl

omit hstalled in
theorem onTrailers_reports {sid : ℕ} {es : Bool}
    (hws : es=true → ∀ rc,s.recipients.get? sid=some rc → rc.websocket=false) :
    Succeeds (onTrailers m sid es) s fun _ => Reports s := by
  cases es with
  | false => exact handles_reports.resetStream s
  | true =>
    simp only [onTrailers,Bool.not_true,Bool.false_eq_true,if_false,ensures_bind,
      ensures_modify,ensures_get]
    have hm : Reports s (s.modifyStream sid fun st => {st with state:=.halfClosedRemote}) :=
      handles_reports.modifyStream s
    rw [modifyStream_same] at hm ⊢
    cases hr : s.recipients.get? sid with
    | none => exact hm
    | some rc =>
      simp only [hws rfl rc hr,Bool.false_eq_true,if_false]
      exact (handles_reports.tellRecipient _).imp fun _ _ h => trans_of Reports hm h

theorem handleHeaders_reports {sid : ℕ} (hp : f.PathReadable lib) (hws : f.endHeaders =
    true → f.endStream=true → ∀ rc,s.recipients.get? sid=some rc → rc.websocket = false) :
    Succeeds (handleHeaders lib lim m sid f) s fun _ => Reports s := by
  unfold handleHeaders
  rw [Succeeds,ensures_bind,ensures_get,ensures_ite]
  refine ⟨fun h => onTrailers_reports fun he => hws h.2 he,fun _ => ?_⟩
  have hr : Returns Reports (do
      modify fun s => {s with windows:=s.windows.makeSender sid}
      if ← onHeadersFrame lib lim m sid f then pure ()
      else modify fun s => {s with openBlock:=some f} : ActorM τ Unit) :=
    .bind (returns_update fun _ => rfl) fun _ =>
      .bind (.ite .pure (.bind (returns_onRequestHeaders hstalled _ hp)
        fun _ => .pure)) fun _ => .ite .pure (returns_update fun _ => rfl)
  exact hr s

theorem onContinuationFrame_reports {sid : ℕ} {eh : Bool} {p : Bytes} (hb : f.pseudoHeaders
    = []) (hr : eh=true → ∀ b,(f.extend p).headerBlock=.ok b → Readable lib s.table b) :
    Succeeds (onContinuationFrame lib lim m sid f eh p) s fun _ => Reports s := by
  have he : Reports s {s with openBlock:=some (f.extend p)} := .of_sent List.prefix_rfl rfl rfl
  simp only [onContinuationFrame,ensures_bind,ensures_modify,ensures_ite,ensures_pure]
  refine ⟨fun _ => ?_,fun _ => ⟨fun _ => he,fun hen => ?_⟩⟩
  · exact (handles_reports.resetStream _).imp fun _ _ ht => trans_of Reports he ht
  · have hp : Succeeds (parsePayload lib (f.extend p)) {s with openBlock:=some (f.extend p)}
        fun f' t => f'.PathReadable lib ∧ Decodes (f.extend p).decodes _ t :=
      parsePayload_readable hb (hr (by simpa using hen))
    refine hp.imp ?_
    rintro f' t ⟨hpa,hd⟩
    have ht := trans_of Reports he hd.reports
    exact (returns_onBlockEnd hstalled sid hpa t).imp fun _ _ hu => trans_of Reports ht hu

theorem handleContinuation_reports {sid : ℕ} {eh : Bool} {p : Bytes} (hb : ∀ f,s.openBlock
    = some f → f.pseudoHeaders=[]) (hr : ∀ f,s.openBlock=some f → eh=true → ∀
    b,(f.extend p).headerBlock=.ok b → Readable lib s.table b) :
    Succeeds (handleContinuation lib lim m sid eh p) s fun _ => Reports s := by
  have hs : Reports s {s with windows:=s.windows.makeSender sid} := .of_sent List.prefix_rfl rfl rfl
  unfold handleContinuation
  rw [Succeeds,ensures_bind,ensures_modify,ensures_bind,ensures_get]
  split
  · exact ((handles_reports : Handles _ 0).connectionError _).imp fun _ _ h =>
      trans_of Reports hs h
  · next f ho =>
    have hc (d : Bool) : Returns Reports
        (if d then modify fun s => {s with openBlock:=none} else pure () : ActorM τ Unit) :=
      .ite (returns_update fun _ => rfl) .pure
    rw [ensures_bind]
    refine (onContinuationFrame_reports hstalled
      (s := {s with windows:=s.windows.makeSender sid}) (hb f ho)
      (hr f ho)).imp fun d t ht => ?_
    exact (hc d t).imp fun _ _ hu => trans_of Reports hs (trans_of Reports ht hu)

end Requests

theorem turn_of_load {P : Actor τ → Prop} (hl : s.goawaySent=false)
    (hla : Succeeds (do connectionError .frameSizeError; finish) s fun _ => P)
    (h : Succeeds (load lib raw) s fun c t => Succeeds (handleFrame lib lim m raw c) t fun _ => P) :
    Succeeds (turn lib lim m raw) s fun _ => P := by
  unfold turn
  rw [Succeeds,ensures_bind,ensures_get,ensures_ite,ensures_ite,ensures_bind (load lib raw)]
  exact ⟨fun hg => absurd hg (by simp [hl]),fun _ => ⟨fun _ => hla,fun _ => h⟩⟩

theorem openStream_recipients (s : Actor τ) (ty : FrameType) (id1 : ℕ) :
    (s.openStream ty id1).recipients=s.recipients := by
  unfold Actor.openStream
  split_ifs <;> rfl

theorem openStream_of_ne (s : Actor τ) {ty : FrameType} (h : ty≠.headers) (id1 : ℕ) :
    s.openStream ty id1=s :=
  if_neg fun ho => h ho.1

theorem reports_openStream (s : Actor τ) (ms : MeterKind → RateWindow) (ty : FrameType)
    (id1 : ℕ) : Reports s (Actor.openStream {s with meters:=ms} ty id1) := by
  unfold Actor.openStream
  split_ifs <;> exact .of_sent List.prefix_rfl rfl rfl

def RawFrame.PaddingFits (raw : RawFrame) : Prop :=
  raw.padded=true → ofBigEndian (raw.payload.take 1)<raw.payload.length

/-- The frame whose block `parse_payload` takes when this frame arrives. -/
def Actor.parsedFrame (s : Actor τ) (raw : RawFrame) : Option HeadersFrame :=
  if raw.endHeaders then
    match raw.type with
    | some .headers => if 0<raw.payload.length then some (.ofRaw raw) else none
    | some .continuation => s.openBlock.map (·.extend raw.payload)
    | _ => none
  else none

/-- The stream has its request, so that HEADERS with END_HEADERS are its trailers. -/
def Actor.hasRequest (s : Actor τ) (streamId : ℕ) : Bool :=
  ((s.children.get? streamId).bind Stream.request).isSome

variable (lib) in
/-- What a frame keeps to for the loop to go on, or to end with a GOAWAY. -/
structure Tame (s : Actor τ) (raw : RawFrame) (moment : Moment) : Prop where
  rstStream : raw.type=some .rstStream → raw.payload.length=4
  ping : raw.type=some .ping → raw.payload.length=8
  data : raw.type=some .data → raw.PaddingFits
  pushPromise : raw.type≠some .pushPromise
  block : ∀ frame,s.parsedFrame raw=some frame → ∀ block,frame.headerBlock=.ok block →
    Readable lib s.table block
  trailers : raw.type=some .headers → raw.endHeaders=true →
    s.hasRequest raw.streamId=true → raw.PaddingFits
  websocket : raw.type=some .headers → raw.endHeaders=true → raw.endStream=true →
    ∀ recipient,s.recipients.get? raw.streamId=some recipient → recipient.websocket=false
  windowUpdate : raw.type=some .windowUpdate → raw.payload.length=4 ∨
    s.streamRefusal .windowUpdate raw.streamId≠some .ignore
  stalled : moment.stalled=false

theorem openStream_hasRequest (s : Actor τ) (ty : FrameType) (id1 : ℕ) :
    (s.openStream ty id1).hasRequest id1=s.hasRequest id1 := by
  unfold Actor.openStream
  split_ifs with ho
  · have hn : s.children.get? id1=none := by simpa using ho.2
    simp [Actor.hasRequest,hn,Dict.get?_set]
  · rfl

theorem loadContent_tame (h : Tame lib s raw m) : ∃ c,loadContent raw=.ok c := by
  unfold loadContent
  split
  case h_2 ht =>
    by_cases hp : raw.padded=true
    · have hs := (h.data ht hp).not_ge
      exact ⟨_,by simp only [dataPayload,hp,if_true,ge_iff_le,if_neg hs]; rfl⟩
    · exact ⟨_,by simp only [dataPayload,if_neg hp]; rfl⟩
  case h_5 ht => exact ⟨_,if_pos (h.rstStream ht)⟩
  case h_8 ht => exact ⟨_,if_pos (h.ping ht)⟩
  all_goals exact ⟨_,rfl⟩

theorem load_tame (h : Tame lib s raw m) : Succeeds (load lib raw) s
      fun c _ => ∀ frame,c=.headers frame → frame.PathReadable lib := by
  obtain ⟨c,hc⟩ := loadContent_tame h
  simp only [load,ensures_bind,ensures_ofExcept,hc]
  cases c with
  | headers frame =>
    have ht : raw.type=some .headers := (loadContent_loaded lib s.table hc).type.symm
    obtain rfl : frame=.ofRaw raw := by
      simp only [loadContent,ht,Except.ok.injEq,Content.headers.injEq] at hc
      exact hc.symm
    simp only [ensures_ite,ensures_bind,ensures_pure]
    refine ⟨fun hp => ?_,fun _ frame hf => ?_⟩
    · have hpa : s.parsedFrame raw=some (.ofRaw raw) := by
        have he : raw.endHeaders=true := hp.2
        have hl : 0<raw.payload.length := hp.1
        simp only [Actor.parsedFrame,he,if_true,ht,if_pos hl]
      refine (parsePayload_readable rfl (h.block _ hpa)).imp ?_
      rintro frame t ⟨hpat,-⟩ f' ⟨⟩
      exact hpat
    · cases hf
      simp [HeadersFrame.PathReadable,HeadersFrame.ofRaw]
  | _ => simp

/-- The fields of an open block are not parsed yet. -/
def Actor.BlankBlock (s : Actor τ) : Prop :=
  ∀ frame,s.openBlock=some frame → frame.pseudoHeaders=[]

theorem handleFrame_tame {t : Actor τ} {c : Content} (h : Tame lib s raw m) (hb : s.BlankBlock)
    (hl : Loaded lib s.table raw c) (hd : Decodes (loaded raw) s t) (ht : decodeBlocks lib s.table
    (loaded raw)=some t.table) (hp : ∀ frame,c=.headers frame → frame.PathReadable lib) :
    Succeeds (handleFrame lib lim m raw c) t fun _ => Reports t := by
  have ho : t.openBlock=s.openBlock := by rw [hd.same]
  have hr : t.recipients=s.recipients := by rw [hd.same]
  cases hty : raw.type with
  | none =>
    simp only [handleFrame,ensures_bind,ensures_get,ensures_ite,hty,ensures_pure]
    exact ⟨fun _ => (handles_reports : Handles _ 0).connectionError t,fun _ => refl_of Reports t⟩
  | some type =>
    have hc (ms : MeterKind → RateWindow) : Reports t {t with meters:=ms} :=
      .of_sent List.prefix_rfl rfl rfl
    refine handleFrame_of_checks hty
      (fun ms an _ => (handles_reports.perform _).imp fun _ _ h => trans_of Reports (hc ms) h)
      fun ms _ _ _ => ?_
    have hope := reports_openStream t ms type raw.streamId
    suffices hh : Succeeds (handleContent lib lim m raw.streamId raw.payload.length c)
        (Actor.openStream {t with meters:=ms} type raw.streamId)
        (fun _ => Reports (Actor.openStream {t with meters:=ms} type raw.streamId)) from
      hh.imp fun _ _ h => trans_of Reports hope h
    cases c with
    | headers frame =>
      have hhe : raw.type=some .headers := hl.type.symm
      obtain ⟨_,_,_,rfl⟩ := (hl.headers frame rfl).parsed
      refine handleHeaders_reports h.stalled (hp _ rfl) ?_
      rw [openStream_recipients]
      exact fun he hs => hr ▸ h.websocket hhe he hs
    | continuation eh p =>
      obtain ⟨rfl,rfl⟩ := hl.continuation _ _ rfl
      have hco : raw.type=some .continuation := hl.type.symm
      obtain rfl : type=.continuation := by simpa [hty] using hco
      have hsa : s.table=t.table := by simpa [loaded,hty,decodeBlocks] using ht
      rw [openStream_of_ne _ (by decide)]
      refine handleContinuation_reports h.stalled (ho ▸ hb) ?_
      intro frame hf he b hbl
      have hpa : s.parsedFrame raw=some (frame.extend raw.payload) := by
        simp [Actor.parsedFrame,he,hty,← ho,show t.openBlock=some frame from hf]
      exact hsa ▸ h.block _ hpa b hbl
    | pushPromise => exact absurd hl.type.symm h.pushPromise
    | _ =>
      refine handles_reports.handleContent lib lim m _ ?_ ?_ ?_ _
      all_goals simp [Content.type]

theorem turn_tame (h : s.goawaySent=true ∨ Tame lib s raw m ∧ s.BlankBlock) :
    Succeeds (turn lib lim m raw) s fun _ => Reports s := by
  cases hg : s.goawaySent with
  | true =>
    unfold turn
    rw [Succeeds,ensures_bind,ensures_get,ensures_ite]
    exact ⟨fun _ => finish_reports hg,fun hn => absurd hg hn⟩
  | false =>
    obtain ⟨hta,hb⟩ := h.resolve_left (by simp [hg])
    refine turn_of_load hg ?_ ?_
    · rw [Succeeds,ensures_bind]
      refine ((connectionError_ensures _ s).and
        ((handles_reports : Handles _ 0).connectionError s)).mono ?_ fun _ _ h => h.1
      rintro - t ⟨⟨-,hc⟩,ht⟩
      exact (finish_reports hc).imp fun _ _ hu => trans_of Reports ht hu
    · refine ((load_ensures lib raw s).and (load_tame hta)).mono ?_ fun _ _ h => h.2
      rintro c t ⟨⟨hl,hd,htab⟩,hp⟩
      exact (handleFrame_tame hta hb hl hd htab hp).imp fun _ _ hu =>
        trans_of Reports hd.reports hu

end BlackBull.H2
