import BlackBull.HeaderBlocks

/-!
# What a header block comes to on its stream

The view of a stream is what a request leaves behind: the decoder's table, the requests given to the
application, the state of the stream and its recipient. A block in one HEADERS frame and a block
that CONTINUATION ends are handled by two paths; each has its view here.
-/

namespace BlackBull.H2

variable {τ : Type}

def Dispatch.seen (request : Dispatch) : ℕ × HeadersFrame × Request :=
  (request.streamId,HeadersFrame.blank.withFields request.frame,request.request)

/-- What a stream comes to. A stream without a node is idle. -/
structure View (τ : Type) where
  table : τ
  requests : List (ℕ × HeadersFrame × Request)
  state : StreamState
  recipient : Option Recipient

def Actor.view (s : Actor τ) (streamId : ℕ) : View τ where
  table := s.table
  requests := s.dispatched.map Dispatch.seen
  state := ((s.children.get? streamId).map Stream.state).getD .idle
  recipient := s.recipients.get? streamId

def View.give (view : View τ) (streamId : ℕ) (frame : HeadersFrame) (request : Request)
    (state : StreamState) (recipient : Recipient) : View τ := {view with
  requests:=view.requests++[(streamId,HeadersFrame.blank.withFields frame,request)]
  state:=state
  recipient:=some recipient}

def Oversized (limits : Limits) (request : Request) : Prop :=
  limits.maxBodySize≠0 ∧ (extractContentLength request).any (limits.maxBodySize < ·)

instance (limits : Limits) (request : Request) : Decidable (Oversized limits request) :=
  instDecidableAnd

section Views

variable (limits : Limits) (s : Actor τ) (streamId : ℕ) (frame : HeadersFrame)

def websocketView (request : Request) : View τ :=
  if !limits.wsOverH2Enabled then s.view streamId
  else if 0<limits.wsMaxStreams ∧ limits.wsMaxStreams ≤ s.wsStreamCount then
    {s.view streamId with state:=.open}
  else (s.view streamId).give streamId frame request .open {websocket:=true}

def httpView (request : Request) : View τ :=
  if Oversized limits request then s.view streamId
  else (s.view streamId).give streamId frame request
    (if frame.endStream then .halfClosedRemote else .open)
    {endOfStreamOnHeaders:=frame.endStream}

def headersView (parse : Except Raised (Except Defect Request)) : View τ :=
  if limits.maxConcurrentStreams ≤ s.activeStreamCount then s.view streamId
  else
    match parse with
    | .ok (.ok request) =>
      if request.type=.websocket then websocketView limits s streamId frame request
      else httpView limits s streamId frame request
    | _ => s.view streamId

/-- A block that CONTINUATION ends: the state of the stream stays, and neither WebSocket nor
the end of the stream is looked at. -/
def blockEndView (parse : Except Raised (Except Defect Request)) : View τ :=
  match parse with
  | .ok (.ok request) =>
    if limits.maxConcurrentStreams ≤ s.activeStreamCount ∨ Oversized limits request then
      s.view streamId
    else (s.view streamId).give streamId frame request (s.view streamId).state {}
  | _ => s.view streamId

end Views

section Handlers

variable {s t : Actor τ} {sid : ℕ}

theorem resetStream_view (m : Moment) (sid : ℕ) (c : ErrorCode) (s : Actor τ) :
    Succeeds (resetStream m sid c) s fun _ t => t.view sid=s.view sid := by
  simp only [resetStream,emit,hitMeter,goaway,ensures_bind,ensures_modify,ensures_get,
    ensures_ite,ensures_pure]
  exact ⟨fun _ => rfl,fun _ => ⟨fun _ => rfl,fun _ => rfl⟩⟩

theorem refuseOversizedDeclaredBody_view (limits : Limits) (m : Moment) (q : Request)
    (s : Actor τ) : Ensures (refuseOversizedDeclaredBody limits m sid q) s
      (fun r t => if Oversized limits q then r=true ∧ t.view sid=s.view sid else r=false ∧ t=s)
      (fun _ t => Oversized limits q ∧ t.view sid=s.view sid) := by
  simp only [refuseOversizedDeclaredBody,emit,ensures_ite,ensures_throw,ensures_bind,
    ensures_modify,ensures_pure]
  refine ⟨fun ho => ⟨fun _ => ⟨ho,trivial⟩,fun _ => ?_⟩,fun hs => ?_⟩
  · refine (resetStream_view m sid _ _).total fun _ t ht => ?_
    rw [if_pos (show Oversized limits q from ho)]
    exact ⟨trivial,ht⟩
  · rw [if_neg (show ¬ Oversized limits q from hs)]
    exact ⟨trivial,trivial⟩

variable (lib : Library τ) (lim : Limits)

variable {st : Stream}

theorem view_modifyStream (h : s.children.get? sid=some st) (f : Stream → Stream) :
    (s.modifyStream sid f).view sid =
      {s.view sid with state:=(f st).state} := by
  simp [Actor.view,modifyStream_eq h,Dict.get?_set]

theorem view_modifyStream_same (h : s.children.get? sid=some st) {f : Stream → Stream}
    (hf : (f st).state=st.state) : (s.modifyStream sid f).view sid=s.view sid := by
  rw [view_modifyStream h,hf]
  simp [Actor.view,h]

theorem onWebsocketRequest_view (m : Moment) (frame : HeadersFrame) (q : Request)
    (hn : s.children.get? sid=some st) :
    Succeeds (onWebsocketRequest lim m sid frame q) s
      fun _ t => t.view sid=websocketView lim s sid frame q := by
  simp only [onWebsocketRequest,handleH2Websocket,dispatch,ensures_ite,ensures_bind,
    ensures_get,ensures_modify,modifyStream_eq hn]
  unfold websocketView
  refine ⟨fun hof => ?_,fun hon => ⟨fun hf => ?_,fun hfr => ?_⟩⟩
  · rw [if_pos hof]
    exact resetStream_view m sid _ s
  · rw [if_neg hon,if_pos hf]
    exact (resetStream_view m sid _ _).imp fun _ _ ht =>
      ht.trans (by simp [Actor.view,Dict.get?_set])
  · rw [if_neg hon,if_neg hfr]
    simp [Actor.view,View.give,Dispatch.seen,Dict.get?_set]

theorem onHttpRequest_view (m : Moment) (frame : HeadersFrame) (q : Request)
    (hn : s.children.get? sid=some st) :
    Ensures (onHttpRequest lim m sid frame q) s (fun _ t => t.view sid=httpView lim s sid frame q)
      (fun _ t => t.view sid=httpView lim s sid frame q) := by
  rw [onHttpRequest,ensures_bind,httpView]
  refine (refuseOversizedDeclaredBody_view lim m q s).mono ?_ ?_
  · intro r t ht
    by_cases ho : Oversized lim q
    · rw [if_pos ho] at ht ⊢
      rw [if_pos ht.1]
      exact ht.2
    · rw [if_neg ho] at ht ⊢
      obtain ⟨rfl,rfl⟩ := ht
      simp only [Bool.false_eq_true,if_false,dispatch,ensures_bind,ensures_modify]
      simp [Actor.view,View.give,Dispatch.seen,Actor.modifyStream,hn,Dict.get?_set]
  · rintro e t ⟨ho,ht⟩
    rw [if_pos ho]
    exact ht

theorem onRequestHeaders_view (m : Moment) (frame : HeadersFrame)
    (hn : s.children.get? sid=some st) :
    Ensures (onRequestHeaders lib lim m sid frame) s (fun _ t => t.view sid =
        headersView lim s sid frame (parseHeaders lib frame)) (fun _ t => t.view sid =
        headersView lim s sid frame (parseHeaders lib frame)) := by
  simp only [onRequestHeaders,ensures_bind,ensures_get,ensures_ite,ensures_ofExcept]
  unfold headersView
  refine ⟨fun hf => ?_,fun hfr => ?_⟩
  · rw [if_pos hf]
    exact (resetStream_view m sid _ s).total fun _ _ h => h
  rw [if_neg hfr]
  cases parseHeaders lib frame with
  | error e => rfl
  | ok r =>
    cases r with
    | error d => exact (resetStream_view m sid _ s).total fun _ _ h => h
    | ok req =>
      dsimp only
      rw [ensures_bind,ensures_modify,ensures_ite]
      generalize ht : s.modifyStream sid _=t
      have hn' := ht ▸ get?_modifyStream hn _
      have hc : t.wsStreamCount=s.wsStreamCount := by rw [← ht,modifyStream_same]
      have hv : t.view sid=s.view sid := by rw [← ht,view_modifyStream_same hn rfl]
      refine ⟨fun hws => ?_,fun hh => ?_⟩
      · rw [if_pos hws]
        refine (onWebsocketRequest_view lim m frame req hn').total
          fun _ t ht => ?_
        rw [ht,websocketView,websocketView,hv,hc]
      · rw [if_neg hh]
        refine (onHttpRequest_view lim m frame req hn').mono ?_ ?_ <;>
        · intro _ t ht
          rw [ht,httpView,httpView,hv]

theorem onBlockEnd_view (m : Moment) (frame : HeadersFrame) (hn : s.children.get? sid=some st) :
    Ensures (onBlockEnd lib lim m sid frame) s (fun _ t => t.view sid =
        blockEndView lim s sid frame (parseHeaders lib frame)) (fun _ t => t.view sid =
        blockEndView lim s sid frame (parseHeaders lib frame)) := by
  simp only [onBlockEnd,ensures_bind,ensures_ofExcept]
  unfold blockEndView
  cases parseHeaders lib frame with
  | error e => rfl
  | ok r =>
    cases r with
    | error d => exact (resetStream_view m sid _ s).total fun _ _ h => h
    | ok req =>
      dsimp only
      rw [ensures_bind,ensures_modify,ensures_bind,ensures_get,ensures_ite]
      generalize ht : s.modifyStream sid _=t
      have hn' := ht ▸ get?_modifyStream hn _
      have hc : t.activeStreamCount=s.activeStreamCount := by rw [← ht,modifyStream_same]
      have hv : t.view sid=s.view sid := by rw [← ht,view_modifyStream_same hn rfl]
      rw [hc]
      refine ⟨fun hf => ?_,fun hfr => ?_⟩
      · rw [if_pos (Or.inl hf)]
        exact (resetStream_view m sid _ _).total fun _ _ ht => ht.trans hv
      · rw [ensures_bind,ensures_modify,ensures_bind]
        generalize hu : t.modifyStream sid _=u
        have hv' : u.view sid=t.view sid := by rw [← hu,view_modifyStream_same hn' rfl]
        refine (refuseOversizedDeclaredBody_view lim m req _).mono ?_ ?_
        · intro re t ht
          by_cases ho : Oversized lim req
          · rw [if_pos ho] at ht
            rw [if_pos ht.1,if_pos (Or.inr ho)]
            exact ht.2.trans (hv'.trans hv)
          · rw [if_neg ho] at ht
            rw [if_neg (not_or.mpr ⟨hfr,ho⟩)]
            obtain ⟨rfl,rfl⟩ := ht
            simp only [Bool.false_eq_true,if_false,dispatch,ensures_bind,ensures_modify]
            rw [← hv,← hv']
            simp [Actor.view,View.give,Dispatch.seen,Dict.get?_set]
        · rintro e t ⟨ho,ht⟩
          rw [if_pos (Or.inr ho)]
          exact ht.trans (hv'.trans hv)

end Handlers

end BlackBull.H2
