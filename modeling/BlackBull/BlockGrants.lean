import BlackBull.StreamBooks
import BlackBull.RequestViews

/-!
# Header blocks that are granted

When a header block ends, its stream gets a handler, or the block is refused: there is no room,
its fields make no request, the declared body is too large, or WebSockets are off or too many.
-/

namespace BlackBull.H2

open ByteString

variable {τ : Type} (lib : Library τ) (limits : Limits)

/-- The request is refused neither for its body nor as a WebSocket. -/
structure Welcome (s : Actor τ) (request : Request) : Prop where
  websocket : request.type=.websocket → limits.wsOverH2Enabled=true ∧
    ¬ (0<limits.wsMaxStreams ∧ limits.wsMaxStreams ≤ s.wsStreamCount)
  http : request.type≠.websocket → ¬ Oversized limits request

/-- There is room for a stream, and the fields of the frame make such a request if they can be
read. -/
structure Granted (fits : Request → Prop) (s : Actor τ) (frame : HeadersFrame) : Prop where
  room : s.activeStreamCount<limits.maxConcurrentStreams
  request : ∀ answer,parseHeaders lib frame=.ok answer → ∃ request,answer=.ok request ∧
    fits request

/-- The block can be taken from its frame, and is granted if the decoder can read it. -/
structure Accepts (fits : Request → Prop) (s : Actor τ) (frame : HeadersFrame) : Prop where
  block : ∀ defect,frame.headerBlock≠.error defect
  granted : ∀ block parsed,frame.Reads lib s.table block parsed →
    Granted lib limits fits s parsed

section Deciding

instance (s : Actor τ) (request : Request) : Decidable (Welcome limits s request) :=
  decidable_of_iff ((request.type=.websocket → limits.wsOverH2Enabled=true ∧
      ¬ (0<limits.wsMaxStreams ∧ limits.wsMaxStreams ≤ s.wsStreamCount)) ∧
    (request.type≠.websocket → ¬ Oversized limits request))
    ⟨fun h => ⟨h.1,h.2⟩,fun h => ⟨h.1,h.2⟩⟩

variable {fits : Request → Prop} [DecidablePred fits]

instance (s : Actor τ) (frame : HeadersFrame) : Decidable (Granted lib limits fits s frame) :=
  if hroom : s.activeStreamCount<limits.maxConcurrentStreams then
    match hparse : parseHeaders lib frame with
    | .error e => isTrue ⟨hroom,fun answer h => by rw [hparse] at h; cases h⟩
    | .ok (.error defect) => isFalse fun h => by
        obtain ⟨request,hrequest,-⟩ := h.request _ hparse
        cases hrequest
    | .ok (.ok request) =>
      if hfits : fits request then
        isTrue ⟨hroom,fun answer h => by
          rw [hparse] at h
          cases h
          exact ⟨request,rfl,hfits⟩⟩
      else isFalse fun h => by
        obtain ⟨request',hrequest,hfits'⟩ := h.request _ hparse
        cases hrequest
        exact hfits hfits'
  else isFalse fun h => hroom h.room

instance (s : Actor τ) (frame : HeadersFrame) : Decidable (Accepts lib limits fits s frame) :=
  match hblock : frame.headerBlock with
  | .error defect => isFalse fun h => h.block defect hblock
  | .ok block =>
    have hok : ∀ defect,frame.headerBlock≠.error defect := by rw [hblock]; nofun
    match hdecode : lib.decode s.table block with
    | none => isTrue ⟨hok,fun block' parsed hreads => by
        obtain ⟨hblock',fields,table,hdecode',-⟩ := hreads
        cases hblock.symm.trans hblock'
        cases hdecode.symm.trans hdecode'⟩
    | some (fields,table) =>
      match hadd : frame.addFields false fields with
      | .error e => isTrue ⟨hok,fun block' parsed hreads => by
          obtain ⟨hblock',fields',table',hdecode',hadd'⟩ := hreads
          cases hblock.symm.trans hblock'
          cases hdecode.symm.trans hdecode'
          cases hadd.symm.trans hadd'⟩
      | .ok parsed => decidable_of_iff (Granted lib limits fits s parsed)
          ⟨fun h => ⟨hok,fun block' parsed' hreads => by
            obtain ⟨hblock',fields',table',hdecode',hadd'⟩ := hreads
            cases hblock.symm.trans hblock'
            cases hdecode.symm.trans hdecode'
            cases hadd.symm.trans hadd'
            exact h⟩,
          fun h => h.granted block parsed ⟨hblock,fields,table,hdecode,hadd⟩⟩

end Deciding

/-- What becomes of a block that ends: its stream is not served, which is not so when it is
granted, or it gets its handler. -/
inductive Resolved (granted : Prop) (streamId : ℕ) (s t : Actor τ) : Prop
  | refused (touches : Touches (some streamId) s t) (not : ¬ granted)
  | served (room : s.activeStreamCount<limits.maxConcurrentStreams) (u : Actor τ) (isWs : Bool)
      (dispatched : List Dispatch) (touches : Touches (some streamId) s u)
      (eq : t={u with
        activeStreamCount:=u.activeStreamCount+1
        running:=u.running++[(streamId,isWs)]
        dispatched:=dispatched})

variable {lib limits} {gr : Prop} {sid : ℕ} {s : Actor τ}

theorem Resolved.after {t u : Actor τ} (h : Touches (some sid) s t)
    (ht : Resolved limits gr sid t u) : Resolved limits gr sid s u := by
  cases ht with
  | refused tou not => exact .refused (trans_of (Touches _) h tou) not
  | served r v iw d tou eq => exact .served (h.active ▸ r) v iw d (trans_of (Touches _) h tou) eq

theorem refuse_resolved {x : ActorM τ Unit} (hx : Moves (Touches (some sid)) x) (hn : ¬ gr) :
    OnSuccess x s fun _ => Resolved limits gr sid s :=
  (hx s).partly fun _ _ h => .refused h hn

theorem dispatch_resolved (iw : Bool) (f : HeadersFrame) (q : Request)
    (hr : s.activeStreamCount<limits.maxConcurrentStreams) :
    OnSuccess (dispatch sid iw f q) s fun _ => Resolved limits gr sid s :=
  .served hr s iw _ (refl_of (Touches _) s) rfl

theorem modifyStream_wsStreamCount (s : Actor τ) (sid : ℕ) (f : Stream → Stream) :
    (s.modifyStream sid f).wsStreamCount=s.wsStreamCount := by
  rw [modifyStream_same]

variable (m : Moment)

theorem refuseOversized_resolved (q : Request) {r : ActorM τ Unit} (hg : gr → ¬ Oversized limits q)
    (hr : OnSuccess r s fun _ => Resolved limits gr sid s) :
    OnSuccess (do if ← refuseOversizedDeclaredBody limits m sid q then pure () else r) s
      fun _ => Resolved limits gr sid s := by
  unfold refuseOversizedDeclaredBody
  simp only [ensures_bind,ensures_ite,ensures_pure,ensures_throw]
  refine ⟨fun hl => ⟨fun _ => trivial,fun _ => ?_⟩,fun _ => ?_⟩
  · have hn : ¬ gr := fun h => hg h hl
    have he : Moves (Touches (some sid))
        (emit (.contentTooLarge sid) : ActorM τ Unit) := touches_emit
    have hre : Moves (Touches (some sid)) (resetStream m sid .noError : ActorM τ Unit) :=
      voices_touches.resetStream.moves
    refine (he s).partly fun _ t ht => ?_
    refine (hre t).partly fun _ u hu => ?_
    exact ⟨fun _ => .refused (trans_of (Touches _) ht hu) hn,fun h => absurd trivial h⟩
  · exact ⟨by simp,fun _ => hr⟩

theorem onHttpRequest_resolved (f : HeadersFrame) (q : Request)
    (hr : s.activeStreamCount<limits.maxConcurrentStreams) (hg : gr → ¬ Oversized limits q) :
    OnSuccess (onHttpRequest limits m sid f q) s fun _ => Resolved limits gr sid s := by
  refine refuseOversized_resolved m q hg ?_
  rw [OnSuccess,ensures_bind,ensures_modify,ensures_bind,ensures_modify]
  have ht := trans_of (Touches (some sid))
    (touches_setRecipient sid {endOfStreamOnHeaders:=f.endStream} s)
    (touches_modifyStream sid (fun st => {st with
      state:=if f.endStream then .halfClosedRemote else .open}) _)
  exact (dispatch_resolved false f q (ht.active.trans_lt hr)).partly
    fun _ _ => .after ht

theorem onWebsocketRequest_resolved (f : HeadersFrame) (q : Request) (hr : s.activeStreamCount <
    limits.maxConcurrentStreams) (hg : gr → limits.wsOverH2Enabled=true ∧ ¬ (0 <
    limits.wsMaxStreams ∧ limits.wsMaxStreams ≤ s.wsStreamCount)) :
    OnSuccess (onWebsocketRequest limits m sid f q) s fun _ => Resolved limits gr sid s := by
  unfold onWebsocketRequest handleH2Websocket
  simp only [ensures_ite,ensures_bind,ensures_modify,ensures_get,modifyStream_wsStreamCount]
  have ho := touches_modifyStream sid (fun st => {st with state:=.open}) s
  refine ⟨fun hd => ?_,fun _ => ⟨fun hc => ?_,fun _ => ?_⟩⟩
  · refine refuse_resolved voices_touches.resetStream.moves fun h => ?_
    simp [(hg h).1] at hd
  · exact (refuse_resolved voices_touches.resetStream.moves fun h =>
      (hg h).2 hc).partly fun _ _ => .after ho
  · have ht := trans_of (Touches (some sid)) ho (touches_setRecipient sid {websocket:=true} _)
    refine (dispatch_resolved true f q ?_).partly fun _ _ => .after ?_
    · exact ho.active.trans_lt hr
    · exact {ht with}

theorem onRequestHeaders_resolved (f : HeadersFrame) :
    OnSuccess (onRequestHeaders lib limits m sid f) s
      fun _ => Resolved limits (Granted lib limits (Welcome limits s) s f) sid s := by
  unfold onRequestHeaders
  simp only [ensures_bind,ensures_get,ensures_ite,ensures_ofExcept]
  refine ⟨fun hf => ?_,fun hr => ?_⟩
  · exact refuse_resolved voices_touches.resetStream.moves fun h => h.room.not_ge hf
  · rw [not_le] at hr
    cases hp : parseHeaders lib f with
    | error e => trivial
    | ok an =>
      cases an with
      | error d =>
        refine refuse_resolved voices_touches.resetStream.moves fun h => ?_
        obtain ⟨req,hre,-⟩ := h.request _ hp
        cases hre
      | ok req =>
        have hw (h : Granted lib limits (Welcome limits s) s f) : Welcome limits s req := by
          obtain ⟨q',hre,hfi⟩ := h.request _ hp
          cases hre
          exact hfi
        simp only [ensures_bind,ensures_modify,ensures_ite]
        have ht := touches_modifyStream sid (fun st => {st with
          expectedContentLength:=extractContentLength req,request:=some req}) s
        refine ⟨fun hws => ?_,fun hh => ?_⟩
        · refine (onWebsocketRequest_resolved m f req (ht.active.trans_lt hr)
            fun h => ?_).partly fun _ _ => .after ht
          rw [modifyStream_wsStreamCount]
          exact (hw h).websocket hws
        · exact (onHttpRequest_resolved m f req (ht.active.trans_lt hr)
            fun h => (hw h).http hh).partly fun _ _ => .after ht

theorem onBlockEnd_resolved (f : HeadersFrame) : OnSuccess (onBlockEnd lib limits m sid f) s
      fun _ => Resolved limits (Granted lib limits (¬ Oversized limits ·) s f) sid s := by
  unfold onBlockEnd
  simp only [ensures_bind,ensures_ofExcept]
  cases hp : parseHeaders lib f with
  | error e => trivial
  | ok an =>
    cases an with
    | error d =>
      refine refuse_resolved voices_touches.resetStream.moves fun h => ?_
      obtain ⟨req,hr,-⟩ := h.request _ hp
      cases hr
    | ok req =>
      have hf (h : Granted lib limits (¬ Oversized limits ·) s f) : ¬ Oversized limits req := by
        obtain ⟨q',hr,hf⟩ := h.request _ hp
        cases hr
        exact hf
      dsimp only
      rw [ensures_bind,ensures_modify,ensures_bind,ensures_get,ensures_ite]
      have hl := touches_modifyStream sid (fun st => {st with
        expectedContentLength:=extractContentLength req}) s
      refine ⟨fun hfu => ?_,fun hro => ?_⟩
      · refine (refuse_resolved voices_touches.resetStream.moves fun h => ?_).partly
          fun _ _ => .after hl
        exact (hl.active.trans_lt h.room).not_ge hfu
      · have hr := trans_of (Touches (some sid)) hl (touches_modifyStream sid
          (fun st => {st with request:=some req}) _)
        rw [ensures_bind,ensures_modify]
        refine (refuseOversized_resolved m req hf ?_).partly fun _ _ => .after hr
        rw [OnSuccess,ensures_bind,ensures_modify]
        refine (dispatch_resolved false f req ?_).partly
          fun _ _ => .after (touches_setRecipient sid {} _)
        exact hr.active.trans_lt (hl.active.symm.trans_lt (not_le.mp hro))

theorem parsePayload_reads {f : HeadersFrame} (hb : ∀ d,f.headerBlock≠.error d) (s : Actor τ) :
    OnSuccess (parsePayload lib f) s fun p _ => ∃ b,f.Reads lib s.table b p := by
  unfold parsePayload
  cases hg : f.headerBlock with
  | error d => exact absurd hg (hb d)
  | ok b =>
    simp only [ensures_bind,ensures_modify,ensures_get]
    cases hd : lib.decode s.table b with
    | none => trivial
    | some r =>
      simp only [ensures_bind,ensures_modify,ensures_ofExcept]
      cases hf : f.addFields false r.1 with
      | error e => trivial
      | ok p => exact ⟨b,hg,r.1,r.2,hd,hf⟩

end BlackBull.H2
