import BlackBull.FrameEffects

/-!
# Turns of the frame loop, by type of frame

What one turn can do, said once: a HEADERS frame may be refused, open a block or give a request to
the application, a CONTINUATION frame may extend or complete the open block, every other frame
leaves header blocks alone.
-/

namespace BlackBull.H2

variable {τ : Type} (lib : Library τ) (limits : Limits)

/-- The connection ends over an error: GOAWAY has been sent or the loop has raised. -/
def Actor.Failed (s : Actor τ) : Prop :=
  s.goawaySent=true ∨ ∃ e,s.ending=some (.raised e)

/-- The stream a HEADERS frame is let through on: live, or new with a fresh odd identifier. -/
def Admitted (s : Actor τ) (streamId : ℕ) (frame : HeadersFrame) (t : Actor τ) : Prop :=
  (∃ stream,s.children.get? streamId=some stream ∧
    (stream.request=none ∨ frame.endHeaders=false)) ∨
  (s.children.get? streamId = none ∧ streamId % 2 = 1 ∧ s.lastPeerStreamId < streamId ∧
    streamId≤t.lastPeerStreamId)

inductive HeadersOutcome (s : Actor τ) (streamId : ℕ) (frame : HeadersFrame) (t : Actor τ) : Prop
  | closed (failed : t.goawaySent=true) (keeps : Keeps s t)
  | refused (free : s.openBlock=none) (keeps : Keeps s t)
      (halfClosed : frame.endHeaders=false → ∃ stream,
        s.children.get? streamId=some stream ∧ stream.state=.halfClosedRemote)
  | opened (free : s.openBlock=none) (unfinished : frame.endHeaders=false)
      (openBlock : t.openBlock=some frame) (keeps : Keeps s {t with openBlock:=s.openBlock})
      (admitted : Admitted s streamId frame t)
      (state : ∀ stream,t.children.get? streamId=some stream →
        stream.state≠.halfClosedRemote)
  | given (free : s.openBlock=none) (finished : frame.endHeaders=true) (request : Request)
      (parse : parseHeaders lib frame=.ok (.ok request))
      (gives : Gives ⟨streamId,frame,request⟩ s t) (admitted : Admitted s streamId frame t)

inductive ContinuationOutcome (s : Actor τ) (raw : RawFrame) (t : Actor τ) : Prop
  | closed (failed : t.Failed) (keeps : Keeps s t)
  | reset (openBlock : s.openBlock.isSome) (speaks : Speaks s t) (halfClosed : ∃ stream,
      s.children.get? raw.streamId=some stream ∧ stream.state=.halfClosedRemote)
  | dropped (frame : HeadersFrame) (openBlock : s.openBlock=some frame)
      (live : (s.children.get? raw.streamId).isSome)
      (long : limits.headerMaxTotal<(frame.extend raw.payload).rawBlock.length)
      (none : t.openBlock=none) (speaks : Speaks s {t with openBlock:=s.openBlock})
  | extended (frame : HeadersFrame) (openBlock : s.openBlock=some frame)
      (live : (s.children.get? raw.streamId).isSome) (unfinished : raw.endHeaders=false)
      (extended : t.openBlock=some (frame.extend raw.payload))
      (speaks : Speaks s {t with openBlock:=s.openBlock})
  | completed (frame : HeadersFrame) (openBlock : s.openBlock=some frame)
      (live : (s.children.get? raw.streamId).isSome) (finished : raw.endHeaders=true)
      (short : ¬ limits.headerMaxTotal<(frame.extend raw.payload).rawBlock.length)
      (completes : Completes lib raw.streamId (frame.extend raw.payload) s t)

/-- An exception comes from parsing the block that ends. -/
def ContinuationRaises (s : Actor τ) (raw : RawFrame) (t : Actor τ) : Prop :=
  ∃ frame,s.openBlock=some frame ∧ (s.children.get? raw.streamId).isSome ∧
    raw.endHeaders=true ∧ t.decoded=s.decoded++(frame.extend raw.payload).decodes ∧
    t.dispatched=s.dispatched ∧ s.lastPeerStreamId≤t.lastPeerStreamId

def Advances (blocks : List (ℕ × Bytes)) (s t : Actor τ) : Prop :=
  t.decoded=s.decoded++blocks ∧ decodeBlocks lib s.table blocks=some t.table

inductive HeadersTurn (s : Actor τ) (raw : RawFrame) (t : Actor τ) : Prop
  | closed (failed : t.Failed)
      (decoded : t.decoded=s.decoded ∨ t.decoded=s.decoded++loaded raw)
      (dispatched : t.dispatched=s.dispatched)
      (lastPeer : s.lastPeerStreamId≤t.lastPeerStreamId)
  | refused (free : s.openBlock=none) (openBlock : t.openBlock=none)
      (advances : Advances lib (loaded raw) s t) (dispatched : t.dispatched=s.dispatched)
      (lastPeer : s.lastPeerStreamId≤t.lastPeerStreamId)
      (halfClosed : raw.endHeaders=false → ∃ stream,
        s.children.get? raw.streamId=some stream ∧ stream.state=.halfClosedRemote)
  | opened (free : s.openBlock=none) (unfinished : raw.endHeaders=false)
      (openBlock : t.openBlock=some (.ofRaw raw)) (advances : Advances lib [] s t)
      (dispatched : t.dispatched=s.dispatched)
      (lastPeer : s.lastPeerStreamId≤t.lastPeerStreamId)
      (admitted : Admitted s raw.streamId (.ofRaw raw) t)
      (state : ∀ stream,t.children.get? raw.streamId=some stream →
        stream.state≠.halfClosedRemote)
  | given (free : s.openBlock=none) (finished : raw.endHeaders=true)
      (openBlock : t.openBlock=none) (advances : Advances lib (loaded raw) s t)
      (loads : loaded raw=(HeadersFrame.ofRaw raw).decodes) (block : Bytes)
      (frame : HeadersFrame) (reads : (HeadersFrame.ofRaw raw).Reads lib s.table block frame)
      (request : Request) (parse : parseHeaders lib frame=.ok (.ok request))
      (dispatched : t.dispatched=s.dispatched++[⟨raw.streamId,frame,request⟩])
      (lastPeer : s.lastPeerStreamId≤t.lastPeerStreamId)
      (admitted : Admitted s raw.streamId (.ofRaw raw) t)

inductive ContinuationTurn (s : Actor τ) (raw : RawFrame) (t : Actor τ) : Prop
  | outcome (h : ContinuationOutcome lib limits s raw t)
  | raised (failed : t.Failed) (h : ContinuationRaises s raw t)

variable {lib limits} {s : Actor τ} {raw : RawFrame} {sid : ℕ} {c : Content} {t : Actor τ}
  {ty : FrameType} {P : Actor τ → Prop} {s' : Actor τ} {m : Moment}

theorem Actor.Failed.ended (h : s.Failed) : s.ended=true := by
  rcases h with h | ⟨e,h⟩ <;> simp [Actor.ended,h]

/-- HEADERS on a stream: refused with the connection, refused on a half-closed stream, or let
through on a live or a new stream. -/
theorem streamRefusal_headers (s : Actor τ) (hid : sid≠0) :
    (∃ code,s.streamRefusal .headers sid=some (.connectionError code)) ∨
    (∃ st code,s.streamRefusal .headers sid=some (.resetStream code) ∧
      s.children.get? sid=some st ∧ st.state=.halfClosedRemote) ∨
    (s.streamRefusal .headers sid=none ∧
      ((∃ st,s.children.get? sid=some st ∧ st.state≠.halfClosedRemote) ∨
        (s.children.get? sid = none ∧ sid % 2 = 1 ∧ s.lastPeerStreamId < sid))) := by
  unfold Actor.streamRefusal
  rw [if_neg hid]
  cases hn : s.children.get? sid with
  | some st =>
    dsimp only
    cases hs : st.state with
    | idle | «open» | halfClosedLocal => exact .inr (.inr ⟨rfl,.inl ⟨st,rfl,by simp [hs]⟩⟩)
    | halfClosedRemote => exact .inr (.inl ⟨st,_,rfl,rfl,hs⟩)
    | closed => exact .inl ⟨_,rfl⟩
  | none =>
    cases s.closedVia sid with
    | some vr => exact .inl ⟨_,rfl⟩
    | none =>
      dsimp only
      split
      · exact .inl ⟨_,rfl⟩
      · next h =>
        push Not at h
        exact .inr (.inr ⟨rfl,.inr ⟨rfl,by omega,h.2⟩⟩)

theorem streamRefusal_continuation (s : Actor τ) (hid : sid≠0) :
    (∃ code,s.streamRefusal .continuation sid=some (.connectionError code)) ∨
    (∃ stream code,s.streamRefusal .continuation sid=some (.resetStream code) ∧
      s.children.get? sid=some stream ∧ stream.state=.halfClosedRemote) ∨
    (s.streamRefusal .continuation sid=none ∧
      ∃ stream,s.children.get? sid=some stream ∧ stream.state≠.halfClosedRemote) := by
  unfold Actor.streamRefusal
  rw [if_neg hid]
  cases hn : s.children.get? sid with
  | some stream =>
    dsimp only
    cases hs : stream.state with
    | idle | «open» | halfClosedLocal => exact .inr (.inr ⟨rfl,stream,rfl,by simp [hs]⟩)
    | halfClosedRemote => exact .inr (.inl ⟨stream,_,rfl,rfl,hs⟩)
    | closed => exact .inl ⟨_,rfl⟩
  | none => cases s.closedVia sid <;> exact .inl ⟨_,rfl⟩

/-- HEADERS passes the checks that do not look at the stream, or the connection ends. -/
theorem frameRefusal_headers (bo : Bool) (sid n : ℕ) :
    (∃ code,frameRefusal bo .headers sid n=some (.connectionError code)) ∨
      (frameRefusal bo .headers sid n=none ∧ sid≠0) := by
  unfold frameRefusal
  split_ifs <;> simp_all [frameSizeConnectionErrorTypes,streamOnlyFrameTypes]

theorem frameRefusal_continuation (bo : Bool) (sid n : ℕ) :
    (∃ code,frameRefusal bo .continuation sid n=some (.connectionError code)) ∨
      (frameRefusal bo .continuation sid n=none ∧ sid≠0 ∧ bo=true) := by
  unfold frameRefusal
  split_ifs <;> simp_all [frameSizeConnectionErrorTypes,streamOnlyFrameTypes]

inductive RefusedWith (s : Actor τ) (type : FrameType) (raw : RawFrame) : Answer → Prop
  | fatal (code : ErrorCode) : RefusedWith s type raw (.connectionError code)
  | frame {answer : Answer} (h : frameRefusal s.openBlock.isSome type raw.streamId
      raw.payload.length=some answer) : RefusedWith s type raw answer
  | stream {answer : Answer} (block : s.openBlock.isSome=true → type=.continuation)
      (h : s.streamRefusal type raw.streamId=some answer) : RefusedWith s type raw answer

theorem openBlock_of_ne (hb : s.openBlock.isSome=true → ty=.continuation)
    (hne : ty≠.continuation) : s.openBlock=none :=
  Option.not_isSome_iff_eq_none.mp fun hs => hne (hb hs)

/-- A loaded frame is refused, or it passes every check and is handled. -/
theorem handleFrame_of_checks {Q : Raised → Actor τ → Prop} (ht : raw.type=some
    ty) (hr : ∀ ms an,RefusedWith s ty raw an → Ensures (an.perform m raw.streamId) {
    s with meters:=ms} (fun _ => P) Q) (hh : ∀ ms,(s.openBlock.isSome=true → ty =
    .continuation) → frameRefusal s.openBlock.isSome ty raw.streamId raw.payload.length=none →
    s.streamRefusal ty raw.streamId=none → Ensures (handleContent lib limits m raw.streamId
    raw.payload.length c) (Actor.openStream {s with meters:=ms} ty raw.streamId) (fun _ => P) Q) :
    Ensures (handleFrame lib limits m raw c) s (fun _ => P) Q := by
  have hf (ms : MeterKind → RateWindow) (code : ErrorCode) :
      Ensures (connectionError code) {s with meters:=ms} (fun _ => P) Q :=
    hr ms _ (.fatal code)
  have hc (hb : s.openBlock.isSome=true → ty=.continuation) (ms : MeterKind → RateWindow) :
      Ensures (handleCounted lib limits m ty raw c) {s with meters:=ms} (fun _ => P) Q := by
    simp only [handleCounted,ensures_bind,ensures_get]
    cases hfr : frameRefusal s.openBlock.isSome ty raw.streamId raw.payload.length with
    | some an => exact hr ms an (.frame hfr)
    | none =>
      cases hs : Actor.streamRefusal {s with meters:=ms} ty raw.streamId with
      | some an => exact hr ms an (.stream hb hs)
      | none => exact hh ms hb hfr hs
  simp only [handleFrame,ensures_bind,ensures_get,ensures_ite,ht,meterFrame]
  refine ⟨fun _ => hf s.meters _,fun ho => ?_⟩
  have hb (h : s.openBlock.isSome=true) : ty=.continuation := by
    by_contra hne
    exact ho ⟨h,fun heq => hne (Option.some.inj heq)⟩
  cases meterKind ty raw.payload.length with
  | none => exact ⟨by rintro ⟨⟩,fun _ => hc hb s.meters⟩
  | some kind =>
    simp only [hitMeter,ensures_bind,ensures_get,ensures_modify,ensures_pure,ensures_ite]
    refine ⟨fun _ => (hf _ _).imp (fun _ _ h => ⟨fun _ => h,?_⟩),fun _ => ?_⟩
    · exact fun h => absurd trivial h
    · exact ⟨by rintro ⟨⟩,fun _ => hc hb _⟩

def Receives (s : Actor τ) (streamId : ℕ) : Prop :=
  (∃ stream,s.children.get? streamId=some stream ∧ stream.state≠.halfClosedRemote) ∨
    (s.children.get? streamId = none ∧ streamId % 2 = 1 ∧ s.lastPeerStreamId < streamId)

theorem openStream_of_some {st : Stream} (ty : FrameType)
    (h : s.children.get? sid=some st) : s.openStream ty sid=s := by
  simp [Actor.openStream,h]

theorem openStream_of_none (h : s.children.get? sid=none) : s.openStream .headers sid =
      {s with children:=s.children.set sid {},lastPeerStreamId:=sid} := by
  simp [Actor.openStream,h]

theorem keeps_openStream (h : Receives s sid) : Keeps s (s.openStream .headers sid) := by
  rcases h with ⟨st,hn,-⟩ | ⟨hn,-,hl⟩
  · rw [openStream_of_some _ hn]
    exact refl_of Keeps s
  · rw [openStream_of_none hn]
    exact ⟨rfl,rfl,rfl,rfl,hl.le,id⟩

theorem openStream_state (h : Receives s sid) {st : Stream}
    (hs : (s.openStream .headers sid).children.get? sid=some st) : st.state≠.halfClosedRemote := by
  rcases h with ⟨st',hn,hst⟩ | ⟨hn,-⟩
  · rw [openStream_of_some _ hn,hn] at hs
    cases hs
    exact hst
  · rw [openStream_of_none hn,Dict.get?_set,if_pos rfl] at hs
    cases hs
    decide

theorem admitted_of_receives {f : HeadersFrame} (h : Receives s sid) (hl : (s.openStream
    .headers sid).lastPeerStreamId≤t.lastPeerStreamId) (hr : ((s.openStream .headers
    sid).children.get? sid).bind Stream.request=none ∨ f.endHeaders=false) :
    Admitted s sid f t := by
  rcases h with ⟨st,hn,-⟩ | ⟨hn,ho,hne⟩
  · rw [openStream_of_some _ hn,hn] at hr
    exact .inl ⟨st,hn,hr⟩
  · rw [openStream_of_none hn] at hl
    exact .inr ⟨hn,ho,hne,hl⟩

theorem handleHeaders_outcome (sid : ℕ) (f : HeadersFrame) (hf : s.openBlock=none)
    (hr : Receives s sid) :
    Ensures (handleHeaders lib limits m sid f) (s.openStream .headers sid)
      (fun _ => HeadersOutcome lib s sid f) (fun _ => Keeps s) := by
  have hk := keeps_openStream hr
  refine (handleHeaders_ensures lib limits m sid f _).mono (fun _ t h => ?_)
    fun _ _ h => trans_of Keeps hk h
  cases he : f.endHeaders with
  | true =>
    rw [if_pos he] at h
    rcases h with h | ⟨hn,req,hp,h⟩
    · exact .refused hf (trans_of Keeps hk h) (by simp [he])
    · exact .given hf he req hp (hk.gives h) (admitted_of_receives hr h.lastPeer (.inl hn))
  | false =>
    rw [if_neg (by simp [he])] at h
    obtain ⟨ho,h⟩ := h
    refine .opened hf he ho ?_ (admitted_of_receives hr h.lastPeer (.inr he)) ?_
    · have hb := hk.openBlock
      exact trans_of Keeps hk (hb ▸ h.toKeeps)
    · intro st hs
      exact openStream_state hr (h.children ▸ hs)

theorem handleFrame_headers (hty : raw.type=some .headers) (f : HeadersFrame) (s : Actor τ) :
    Ensures (handleFrame lib limits m raw (.headers f)) s
      (fun _ => HeadersOutcome lib s raw.streamId f)
      (fun _ t => s.openBlock=none ∧ Keeps s t) := by
  have hf (code : ErrorCode) : Ensures (connectionError code) s
      (fun _ => HeadersOutcome lib s raw.streamId f)
      (fun _ t => s.openBlock=none ∧ Keeps s t) :=
    (connectionError_ensures code s).total fun _ _ h => .closed h.2 h.1.toKeeps
  simp only [handleFrame,handleCounted,meterFrame,meterKind,hty,ensures_bind,ensures_get,
    ensures_ite,ensures_pure]
  refine ⟨fun _ => hf _,fun hfr => ⟨by rintro ⟨⟩,fun _ => ?_⟩⟩
  have hfr : s.openBlock=none := by simpa using hfr
  rcases frameRefusal_headers s.openBlock.isSome raw.streamId raw.payload.length with
    ⟨code,h⟩ | ⟨h,hid⟩
  · rw [h]
    exact hf code
  · rw [h]
    rcases streamRefusal_headers s hid with ⟨code,h⟩ | ⟨st,code,h,hn,hst⟩ | ⟨h,hs⟩
    · rw [h]
      exact hf code
    · rw [h]
      refine (voices_speaks.resetStream s).total fun _ t ht => ?_
      exact .refused hfr ht.toKeeps fun _ => ⟨st,hn,hst⟩
    · rw [h]
      exact (handleHeaders_outcome raw.streamId f hfr hs).mono
        (fun _ _ h => h) fun _ _ h => ⟨hfr,h⟩

theorem handleContinuation_outcome (ho : s.openBlock.isSome)
    (hl : (s.children.get? raw.streamId).isSome) :
    Ensures (handleContinuation lib limits m raw.streamId raw.endHeaders raw.payload) s
      (fun _ => ContinuationOutcome lib limits s raw) (fun _ => ContinuationRaises s raw) := by
  obtain ⟨f,hf⟩ := Option.isSome_iff_exists.mp ho
  refine (handleContinuation_ensures lib limits m raw.streamId raw.endHeaders raw.payload
    hf).mono (fun _ t h => ?_) ?_
  · split_ifs at h with hlo he
    · exact .dropped f hf hl hlo h.1 h.2
    · exact .completed f hf hl he hlo h
    · exact .extended f hf hl (by simpa using he) h.1 h.2
  · rintro e t ⟨-,he,hd,hdi,hla⟩
    exact ⟨f,hf,hl,he,hd,hdi,hla⟩

/-- Counting a frame before it is handled changes nothing here. -/
theorem ContinuationOutcome.after (h : Speaks s s') (ht : ContinuationOutcome lib limits s' raw t) :
    ContinuationOutcome lib limits s raw t := by
  have ho := h.openBlock
  have hc := h.children
  cases ht with
  | closed failed k => exact .closed failed (trans_of Keeps h.toKeeps k)
  | reset ob sp ha => exact .reset (ho ▸ ob) (trans_of Speaks h sp) (hc ▸ ha)
  | dropped frame ob live l none sp =>
    exact .dropped frame (ho ▸ ob) (hc ▸ live) l none (trans_of Speaks h (ho ▸ sp))
  | extended frame ob live uf e sp =>
    exact .extended frame (ho ▸ ob) (hc ▸ live) uf e (trans_of Speaks h (ho ▸ sp))
  | completed frame ob live finished sh completes =>
    refine .completed frame (ho ▸ ob) (hc ▸ live) finished sh ?_
    have hd := completes.dispatched
    rw [h.dispatched,h.table] at hd
    exact ⟨h.decoded ▸ completes.decoded,h.table ▸ completes.table,completes.openBlock,
      h.lastPeer.trans completes.lastPeer,hd⟩

theorem ContinuationRaises.after (h : Speaks s s') (ht : ContinuationRaises s' raw t) :
    ContinuationRaises s raw t := by
  obtain ⟨f,hf,hl,he,hd,hdi,hla⟩ := ht
  exact ⟨f,h.openBlock ▸ hf,h.children ▸ hl,he,h.decoded ▸ hd,
    h.dispatched ▸ hdi,h.lastPeer.trans hla⟩

theorem handleFrame_continuation (hty : raw.type=some .continuation) (s : Actor τ) :
    Ensures (handleFrame lib limits m raw (.continuation raw.endHeaders raw.payload)) s
      (fun _ => ContinuationOutcome lib limits s raw) (fun _ => ContinuationRaises s raw) := by
  have hf (code : ErrorCode) (s : Actor τ) : Ensures (connectionError code) s
      (fun _ => ContinuationOutcome lib limits s raw) (fun _ => ContinuationRaises s raw) :=
    (connectionError_ensures code s).total fun _ _ h => .closed (.inl h.2) h.1.toKeeps
  simp only [handleFrame,hty,ensures_bind,ensures_get,ensures_ite,ensures_pure]
  refine ⟨fun h => absurd rfl h.2,fun _ => ?_⟩
  refine (meterFrame_ensures m .continuation raw.payload.length s).total ?_
  rintro sp s' ⟨hs',hs⟩
  refine ⟨fun h => .closed (.inl (hs h)) hs'.toKeeps,fun _ => ?_⟩
  suffices h : Ensures (handleCounted lib limits m .continuation raw
        (.continuation raw.endHeaders raw.payload)) s'
      (fun _ => ContinuationOutcome lib limits s' raw) (fun _ => ContinuationRaises s' raw) from
    h.mono (fun _ _ => .after hs') fun _ _ => .after hs'
  simp only [handleCounted,ensures_bind,ensures_get]
  rcases frameRefusal_continuation s'.openBlock.isSome raw.streamId raw.payload.length with
    ⟨code,h⟩ | ⟨h,hid,ho⟩
  · rw [h]
    exact hf code s'
  · rw [h]
    rcases streamRefusal_continuation s' hid with ⟨code,h⟩ | ⟨stream,code,h,hn,hst⟩ |
      ⟨h,stream,hn,-⟩
    · rw [h]
      exact hf code s'
    · rw [h]
      exact (voices_speaks.resetStream s').total
        fun _ _ ht => .reset ho ht ⟨stream,hn,hst⟩
    · rw [h]
      exact handleContinuation_outcome ho (by simp [hn])

theorem keeps_handleCounted (ht : ty≠.headers) (hh : c.type≠some .headers)
    (hc : c.type≠some .continuation) : Moves Keeps (handleCounted lib limits m ty raw c) := by
  refine .bind .get fun s => ?_
  cases frameRefusal s.openBlock.isSome ty raw.streamId raw.payload.length with
  | some an => exact handles_keeps.perform.moves
  | none =>
    cases s.streamRefusal ty raw.streamId with
    | some an => exact handles_keeps.perform.moves
    | none =>
      refine .bind (keeps_update fun s => ?_) fun _ => ?_
      · simp [Actor.openStream,ht]
      · by_cases hp : c.type=some .pushPromise
        · cases c <;> cases hp
          exact .throw
        · exact (handles_keeps.handleContent lib limits m _ hh hc hp).moves

/-- While a block is open any other frame is fatal; otherwise header blocks are left alone. -/
theorem handleFrame_other (hl : c.type=raw.type) (hh : raw.type≠some .headers)
    (hc : raw.type≠some .continuation) (s : Actor τ) :
    Ensures (handleFrame lib limits m raw c) s
      (fun _ t => Keeps s t ∧ (s.openBlock.isSome → t.goawaySent=true))
      (fun _ t => Keeps s t ∧ s.openBlock=none) := by
  simp only [handleFrame,ensures_bind,ensures_get,ensures_ite]
  refine ⟨fun _ => ?_,fun hf => ?_⟩
  · exact (connectionError_ensures _ s).total fun _ _ h => ⟨h.1.toKeeps,fun _ => h.2⟩
  · have hf : s.openBlock=none := by simpa [hc] using hf
    cases hty : raw.type with
    | none => exact ⟨refl_of Keeps s,by simp [hf]⟩
    | some ty =>
      have hco : Moves Keeps (handleCounted lib limits m ty raw c) :=
        keeps_handleCounted (by simpa [hty] using hh) (hl ▸ hh) (hl ▸ hc)
      have hm := meterFrame_ensures m ty raw.payload.length s
      simp only [ensures_bind,ensures_ite,ensures_pure]
      refine hm.total fun sp t ht => ⟨fun _ => ?_,fun _ => ?_⟩
      · exact ⟨ht.1.toKeeps,by simp [hf]⟩
      · exact (hco t).mono (fun _ _ hu => ⟨trans_of Keeps ht.1.toKeeps hu,by simp [hf]⟩)
          fun _ _ hu => ⟨trans_of Keeps ht.1.toKeeps hu,hf⟩

/-- A turn, as a state transformer, from what its computation ensures. -/
theorem handle_of_ensures (h : Ensures (turn lib limits m raw) s (fun _ => P)
    (fun _ t => ∀ e,P {t with ending:=some (.raised e)})) : P (s.handle lib limits m raw) := by
  unfold Actor.handle
  cases ht : turn lib limits m raw s with
  | ok a t => exact h.ok ht
  | error e t => exact h.error ht e

theorem keeps_ending (h : Keeps s t) (e : Raised) : Keeps s {t with ending:=some (.raised e)} :=
  {h with ended:=fun _ => by simp [Actor.ended]}

theorem turn_large (hl : s.ended=false) (hla : defaultMaxFrameSize<raw.payload.length) :
    Keeps s (s.handle lib limits m raw) ∧
      (s.handle lib limits m raw).goawaySent=true := by
  have hg : s.goawaySent=false := by simp_all [Actor.ended]
  refine handle_of_ensures (P := fun t => Keeps s t ∧ t.goawaySent=true) ?_
  simp only [turn,ensures_bind,ensures_get,ensures_ite,hg,gt_iff_lt,hla,finish,ensures_modify]
  refine ⟨by rintro ⟨⟩,fun _ => ⟨fun _ => ?_,fun h => absurd trivial h⟩⟩
  refine (connectionError_ensures _ s).total fun _ t ht => ⟨?_,ht.2⟩
  exact {ht.1.toKeeps with ended:=fun _ => by simp [Actor.ended]}

theorem handle_of_load (hl : s.ended=false) (hs : raw.payload.length ≤
    defaultMaxFrameSize) (h : Ensures (load lib raw) s (fun c t => Ensures (handleFrame lib
    limits m raw c) t (fun _ => P) (fun _ u => ∀ e,P { u with ending:=some (.raised e)
    })) (fun _ t => ∀ e,P {t with ending:=some (.raised e)})) : P (s.handle lib limits m raw) := by
  have hg : s.goawaySent=false := by simp_all [Actor.ended]
  refine handle_of_ensures ?_
  simp only [turn,ensures_bind,ensures_get,ensures_ite,hg,gt_iff_lt]
  exact ⟨by rintro ⟨⟩,fun _ => ⟨fun hla => absurd hla hs.not_gt,fun _ => h⟩⟩

theorem loaded_of_unfinished (h : raw.endHeaders=false) : loaded raw=[] := by simp [loaded,h]

theorem HeadersOutcome.turn {f : HeadersFrame} (hl : LoadedHeaders lib s.table raw f)
    (hde : Decodes (loaded raw) s s') (hta : decodeBlocks lib s.table (loaded raw)=some s'.table)
    (h : HeadersOutcome lib s' raw.streamId f t) : HeadersTurn lib s raw t := by
  have he : f.endHeaders=raw.endHeaders := hl.parsed.endHeaders
  have ho : s'.openBlock=s.openBlock := by rw [hde.same]
  have hdi : s'.dispatched=s.dispatched := by rw [hde.same]
  have hla : s'.lastPeerStreamId=s.lastPeerStreamId := by rw [hde.same]
  have hc : s'.children=s.children := by rw [hde.same]
  have ha {t : Actor τ} (hd : t.decoded=s'.decoded) (ht : t.table=s'.table) :
      Advances lib (loaded raw) s t :=
    ⟨hd.trans hde.decoded,ht ▸ hta⟩
  have had {t : Actor τ} (h : Admitted s' raw.streamId f t) :
      Admitted s raw.streamId (.ofRaw raw) t := by
    unfold Admitted at h ⊢
    rwa [hc,hla,he] at h
  cases h with
  | closed fa k =>
    exact .closed (.inl fa) (.inr (k.decoded.trans hde.decoded))
      (k.dispatched.trans hdi) (hla ▸ k.lastPeer)
  | refused fr k hal =>
    exact .refused (ho ▸ fr) (k.openBlock.trans fr) (ha k.decoded k.table) (k.dispatched.trans hdi)
      (hla ▸ k.lastPeer) (by rwa [he,hc] at hal)
  | opened fr u ob k a st =>
    rw [he] at u
    have hn := loaded_of_unfinished u
    exact .opened (ho ▸ fr) u (hl.unfinished u ▸ ob)
      (hn ▸ ha k.decoded k.table) (k.dispatched.trans hdi)
      (hla ▸ k.lastPeer) (had a) st
  | given fr fi q p g a =>
    obtain ⟨hlo,block,hr⟩ := hl.reads (parseHeaders_valid lib p).1 (parseHeaders_valid lib p).2
    exact .given (ho ▸ fr) (he ▸ fi) (g.openBlock.trans fr)
      (ha g.decoded g.table) hlo block f hr q p
      (hdi ▸ g.dispatched) (hla ▸ g.lastPeer) (had a)

theorem Loaded.eq_headers {ta : τ} (h : Loaded lib ta raw c)
    (ht : raw.type=some .headers) : ∃ f,c=.headers f := by
  have hc := h.type.trans ht
  cases c with
  | headers f => exact ⟨f,rfl⟩
  | _ => simp [Content.type] at hc

theorem Loaded.eq_continuation {ta : τ} (h : Loaded lib ta raw c)
    (ht : raw.type=some .continuation) : c=.continuation raw.endHeaders raw.payload := by
  have hc := h.type.trans ht
  cases c with
  | continuation eh p =>
    obtain ⟨rfl,rfl⟩ := h.continuation eh p rfl
    rfl
  | _ => simp [Content.type] at hc

theorem load_other (hh : raw.type≠some .headers) (s : Actor τ) :
    Ensures (load lib raw) s (fun c t => Loaded lib s.table raw c ∧ t=s)
      (fun _ t => t=s) := by
  simp only [load,ensures_bind,ensures_ofExcept]
  cases hc : loadContent raw with
  | error e => trivial
  | ok c =>
    have hl := loadContent_loaded lib s.table hc
    cases c with
    | headers f => exact absurd hl.type.symm hh
    | _ => exact ⟨hl,rfl⟩

theorem load_of_content (h : loadContent raw=.ok c)
    (hh : c.type≠some .headers) (s : Actor τ) : load lib raw s=.ok c s := by
  cases c with
  | headers f => exact absurd rfl hh
  | _ =>
    simp only [load,h]
    rfl

/-- CONTINUATION while no block is open, or on a stream the tree does not know, ends the
connection. -/
theorem ContinuationTurn.failed (ht : ContinuationTurn lib limits s raw t)
    (hs : s.openBlock=none ∨ s.children.get? raw.streamId=none) : t.Failed ∧ Keeps s t := by
  rcases ht with ho | ⟨-,o,ob,live,-⟩
  · cases ho with
    | closed f k => exact ⟨f,k⟩
    | reset ob sp halfClosed =>
      obtain ⟨st,hn,-⟩ := halfClosed
      rcases hs with hs | hs <;> simp_all
    | _ => rcases hs with hs | hs <;> simp_all
  · rcases hs with hs | hs <;> simp_all

variable (lib limits m)

theorem handle_headers (ht : raw.type=some .headers) (hl : s.ended=false) :
    HeadersTurn lib s raw (s.handle lib limits m raw) := by
  by_cases hs : raw.payload.length≤defaultMaxFrameSize
  · refine handle_of_load hl hs ?_
    refine (load_ensures lib raw s).mono ?_ ?_
    · rintro c s' ⟨hlo,hd,hta⟩
      obtain ⟨f,rfl⟩ := hlo.eq_headers ht
      refine (handleFrame_headers ht f s').mono ?_ ?_
      · exact fun _ _ h => h.turn (hlo.headers f rfl) hd hta
      · rintro e t ⟨-,hk⟩ e
        refine .closed (.inr ⟨e,rfl⟩) (.inr (hk.decoded.trans hd.decoded)) ?_ ?_
        · exact hk.dispatched.trans (by rw [hd.same])
        · refine le_trans (le_of_eq ?_) hk.lastPeer
          rw [hd.same]
    · rintro e t (hd | rfl) e
      · refine .closed (.inr ⟨e,rfl⟩) (.inr hd.decoded) ?_ ?_
        · rw [hd.same]
        · rw [hd.same]
      · exact .closed (.inr ⟨e,rfl⟩) (.inl rfl) rfl le_rfl
  · obtain ⟨hk,hg⟩ := turn_large hl (not_le.mp hs)
    exact .closed (.inl hg) (.inl hk.decoded) hk.dispatched hk.lastPeer

theorem handle_continuation (ht : raw.type=some .continuation) (hl : s.ended=false) :
    ContinuationTurn lib limits s raw (s.handle lib limits m raw) := by
  by_cases hs : raw.payload.length≤defaultMaxFrameSize
  · refine handle_of_load hl hs ?_
    refine (load_other (by simp [ht]) s).mono ?_ ?_
    · rintro c t ⟨hlo,rfl⟩
      obtain rfl := hlo.eq_continuation ht
      refine (handleFrame_continuation ht t).mono (fun _ _ h => .outcome h) ?_
      exact fun _ _ h e => .raised (.inr ⟨e,rfl⟩) h
    · rintro _ t rfl e
      exact .outcome (.closed (.inr ⟨e,rfl⟩) (keeps_ending (refl_of Keeps t) e))
  · obtain ⟨hk,hg⟩ := turn_large hl (not_le.mp hs)
    exact .outcome (.closed (.inl hg) hk)

theorem handle_other (hh : raw.type≠some .headers)
    (hc : raw.type≠some .continuation) (hl : s.ended=false) :
    Keeps s (s.handle lib limits m raw) ∧
      (s.openBlock.isSome → (s.handle lib limits m raw).Failed) := by
  by_cases hs : raw.payload.length≤defaultMaxFrameSize
  · refine handle_of_load (P := fun t => Keeps s t ∧ (s.openBlock.isSome → t.Failed))
      hl hs ?_
    refine (load_other hh s).mono ?_ ?_
    · rintro c t ⟨hlo,rfl⟩
      refine (handleFrame_other hlo.type hh hc t).mono ?_ ?_
      · exact fun _ _ h => ⟨h.1,fun ho => .inl (h.2 ho)⟩
      · exact fun _ _ h e => ⟨keeps_ending h.1 e,fun _ => .inr ⟨e,rfl⟩⟩
    · rintro _ t rfl e
      exact ⟨keeps_ending (refl_of Keeps t) e,fun _ => .inr ⟨e,rfl⟩⟩
  · obtain ⟨hk,hg⟩ := turn_large hl (not_le.mp hs)
    exact ⟨hk,fun _ => .inl hg⟩

theorem step_of_ended (raw : RawFrame) (he : s.ended=true) :
    Keeps s (s.step lib limits (.frame raw m)) := by
  rw [Actor.step]
  split_ifs with hen
  · exact refl_of Keeps s
  · have hg : s.goawaySent=true := by simp_all [Actor.ended]
    refine handle_of_ensures ?_
    simp only [turn,ensures_bind,ensures_get,ensures_ite,hg]
    exact ⟨fun _ => ⟨rfl,rfl,rfl,rfl,le_rfl,fun _ => by simp [Actor.ended]⟩,
      fun h => absurd trivial h⟩

theorem step_of_live (raw : RawFrame) (hl : s.ended=false) :
    s.step lib limits (.frame raw m)=s.handle lib limits m raw := by
  have he : s.ending.isSome=false := by simp_all [Actor.ended]
  simp [Actor.step,he]

theorem get?_pop_some {α : Type} {xs : Dict ℕ α} {key o : ℕ} {v : α}
    (h : (xs.pop key).get? o=some v) : xs.get? o=some v := by
  rw [Dict.get?_pop] at h
  split_ifs at h
  exact h

/-- What the environment does between frames: streams may go, header blocks stay. -/
theorem step_environment (s : Actor τ) {a : Action} (ha : ∀ raw m,a≠.frame raw m) :
    Keeps s (s.step lib limits a) ∧
      ∀ sid st,(s.step lib limits a).children.get? sid=some st →
        s.children.get? sid=some st := by
  have hs {t : Actor τ} (h : Speaks s t) : Keeps s t ∧ ∀ sid st,
      t.children.get? sid=some st → s.children.get? sid=some st :=
    ⟨h.toKeeps,fun _ _ hst => h.children ▸ hst⟩
  cases a with
  | frame raw m => exact absurd rfl (ha raw m)
  | eof =>
    unfold Actor.step
    dsimp only
    split
    · exact ⟨refl_of Keeps s,fun _ _ => id⟩
    · exact ⟨⟨rfl,rfl,rfl,rfl,le_rfl,fun _ => by simp [Actor.ended]⟩,fun _ _ => id⟩
  | done sid iw =>
    unfold Actor.step Actor.taskDone
    dsimp only
    split_ifs
    all_goals refine ⟨⟨rfl,rfl,rfl,rfl,le_rfl,id⟩,fun _ _ => ?_⟩
    all_goals first | exact get?_pop_some | exact id
  | push psi | debit sid n => exact ⟨⟨rfl,rfl,rfl,rfl,le_rfl,id⟩,fun _ _ => id⟩
  | fail sid code m => exact hs (voices_speaks.resetStream.moves.leaving s)
  | giveUp code => exact hs ((voices_speaks : Voices _ 0).goaway code s)

end BlackBull.H2
