import BlackBull.SparedStreams
import BlackBull.WindowRange
import BlackBull.BodyCompleteness

/-!
# Resets and the handlers of streams

A stream can be reset while its handler waits for the body. The handler learns of it through its
recipient, or because `RstStreamResponder` cancels its task. Only the refusal of a DATA frame by the
recipient tells the recipient, and the tasks of WebSockets are not registered for cancellation.
-/

namespace BlackBull.H2

open ByteString

variable {τ : Type} (lib : Library τ) (limits : Limits) {id : ℕ}

/-- The queue of the recipient holds http.disconnect. -/
def Actor.Disconnected (s : Actor τ) (streamId : ℕ) : Prop :=
  ∃ recipient,s.recipients.get? streamId=some recipient ∧ Item.disconnect∈recipient.items

/-- What a frame keeps to for the handler of its stream to learn of every reset. -/
structure Heeds (s : Actor τ) (raw : RawFrame) : Prop where
  state : ∀ type code,raw.type=some type →
    s.streamRefusal type raw.streamId≠some (.resetStream code)
  data : raw.type=some .data → ∀ payload,dataPayload raw=.ok payload →
    ∀ stream,s.children.get? raw.streamId=some stream →
      ∀ expected∈stream.expectedContentLength,
        stream.receivedDataBytes+payload.length≤expected ∧
          (raw.endStream=true → stream.receivedDataBytes+payload.length=expected)
  headers : raw.type=some .headers → raw.endHeaders=true →
    s.hasRequest raw.streamId=true ∧ raw.endStream=true
  continuation : raw.type≠some .continuation
  windowUpdate : raw.type=some .windowUpdate → raw.payload.length=4 →
    ofBigEndian raw.payload≠0 ∧
      s.windows.credited raw.streamId+ofBigEndian raw.payload ≤ maxFlowWindow
  priority : raw.type=some .priority → raw.payload.length=5 ∧
    ofBigEndian (raw.payload.take 4) % 2^31 ≠ raw.streamId
  rstStream : raw.type=some .rstStream → (raw.streamId,true)∉s.running

variable {s : Actor τ} {raw : RawFrame} {t : Actor τ} (moment : Moment)

theorem Heeds.of_decodes (h : Heeds s raw) {b : List (ℕ × Bytes)}
    (hd : Decodes b s t) : Heeds t raw := by
  rw [hd.same]
  exact {h with}

/-- The stream is not reset, or its recipient is told. -/
def Tells (streamId : ℕ) (s t : Actor τ) : Prop := Spares streamId s t ∨ t.Disconnected streamId

theorem Tells.after {u : Actor τ} (h : Spares id s t) (h' : Tells id t u) : Tells id s u :=
  h'.imp_left fun hs => trans_of (Spares id) h hs

theorem tells_of_spares {α : Type} {x : ActorM τ α} (h : Moves (Spares id) x) (s : Actor τ) :
    Ensures x s (fun _ => Tells id s) (fun _ => Tells id s) :=
  (h s).mono (fun _ _ => .inl) fun _ _ => .inl

theorem resetStream_recipients (id1 : ℕ) (c : ErrorCode) (s : Actor τ) :
    Succeeds (resetStream moment id1 c) s fun _ t => t.recipients=s.recipients := by
  simp [resetStream,emit,hitMeter,goaway]

/-- A DATA frame that the recipient refuses resets the stream, and the recipient is told. -/
theorem deliver_tells (id1 n : ℕ) (es : Bool) (p : Bytes)
    {rc : Recipient} (h : s.recipients.get? id1=some rc) :
    Ensures (deliver moment id1 n es p rc) s
      (fun _ => Tells id1 s) (fun _ => Tells id1 s) := by
  by_cases hs : moment.delivered=true ∨ rc.websocket=true
  · exact tells_of_spares (spares_deliver hs) s
  · obtain ⟨hd,hw⟩ := not_or.mp hs
    rw [deliver,if_neg hw,if_neg hd,ensures_bind]
    refine (resetStream_recipients moment id1 _ s).total fun _ t ht => ?_
    rw [ensures_modify]
    refine .inr ⟨{rc with items:=rc.items++[.disconnect]},?_,by simp⟩
    rw [Actor.tellRecipient,ht,h]
    simp [Dict.get?_set]

theorem open_of_data {id1 : ℕ} {st : Stream} (hid : id1≠0)
    (h : s.streamRefusal .data id1=none) (hs : s.children.get? id1=some st) :
    ¬ (st.state=.halfClosedRemote ∨ st.state=.closed) := by
  unfold Actor.streamRefusal at h
  rw [if_neg hid,hs] at h
  rintro (hst | hst)
  · simp [hst,validateStreamState] at h
  · simp [hst,validateStreamState] at h

theorem onDataFrame_tells {p : Bytes} (h : Heeds s raw) (ht : raw.type=some .data)
    (hp : dataPayload raw=.ok p) (hid : raw.streamId≠0)
    (hs : s.streamRefusal .data raw.streamId=none) (hc : t.children=s.children) :
    Ensures (onDataFrame moment raw.streamId raw.payload.length raw.endStream p) t
      (fun _ => Tells raw.streamId t) (fun _ => Tells raw.streamId t) := by
  unfold onDataFrame
  rw [ensures_bind,ensures_get,hc]
  cases hst : s.children.get? raw.streamId with
  | none => exact tells_of_spares .pure t
  | some st =>
    have hl : ¬ (st.expectedContentLength.any fun e =>
        e<st.receivedDataBytes+p.length ||
          (raw.endStream && st.receivedDataBytes+p.length≠e))=true := by
      cases he : st.expectedContentLength with
      | none => simp
      | some e =>
        obtain ⟨hle,hen⟩ := h.data ht p hp st hst e he
        simpa [hle] using hen
    dsimp only
    rw [if_neg (open_of_data hid hs hst),ensures_bind,ensures_modify,
      if_neg hl,ensures_bind,ensures_modify,ensures_bind,ensures_get]
    generalize hu : (t.modifyStream raw.streamId _).modifyStream raw.streamId _=u
    have hse : Spares raw.streamId t u := by
      rw [← hu]
      exact trans_of (Spares raw.streamId) (spares_modifyStream t) (spares_modifyStream _)
    cases hr : u.recipients.get? raw.streamId with
    | none => exact .inl hse
    | some rc =>
      exact (deliver_tells moment raw.streamId _ _ p hr).mono
        (fun _ _ => Tells.after hse) fun _ _ => Tells.after hse

theorem windowUpdate_no_reset {w : SendWindows} {id1 n i : ℕ}
    (h : n=4 → i≠0 ∧ w.credited id1+i ≤ maxFlowWindow) (c : ErrorCode) :
    (w.windowUpdate id1 n i).1≠.resetStream c := by
  by_cases hl : n=4
  · subst hl
    obtain ⟨hi,hle⟩ := h rfl
    rcases w.windowUpdate_eq id1 hi with ⟨ho,-⟩ | ⟨-,ha,-⟩
    · omega
    · rw [ha]
      nofun
  · simp [SendWindows.windowUpdate,hl]

theorem handleContent_tells {c : Content} (h : Heeds s raw) {ty : FrameType} (ht : raw.type
    = some ty) (hl : Loaded lib s.table raw c) (hc : (∃ frame,c=.headers frame) ∨
    loadContent raw=.ok c) (hid : ty=.data → raw.streamId≠0) (hs : s.streamRefusal
    ty raw.streamId=none) (hch : ty≠.headers → t.children=s.children) (hw : t.windows =
    s.windows) (hr : t.hasRequest raw.streamId=s.hasRequest raw.streamId) :
    Ensures (handleContent lib limits moment raw.streamId raw.payload.length c) t
      (fun _ => Tells raw.streamId t) (fun _ => Tells raw.streamId t) := by
  cases c with
  | unknown => exact tells_of_spares .pure t
  | headers frame =>
    have hh : raw.type=some .headers := hl.type.symm
    obtain ⟨_,_,_,hf⟩ := (hl.headers frame rfl).parsed
    have hfl : frame.endHeaders=raw.endHeaders ∧ frame.endStream=raw.endStream := by
      rw [hf]
      exact ⟨rfl,rfl⟩
    unfold handleContent handleHeaders
    rw [ensures_bind,ensures_get]
    by_cases he : raw.endHeaders=true
    · obtain ⟨hha,hla⟩ := h.headers hh he
      rw [if_pos ⟨hr.trans hha,hfl.1.trans he⟩,hfl.2,hla]
      exact tells_of_spares spares_onTrailers t
    · have hm : ¬ frame.endHeaders=true := hfl.1 ▸ he
      rw [if_neg fun hb => hm hb.2,onHeadersFrame,if_pos (by simpa using hm)]
      refine tells_of_spares (.bind (spares_update ?_) fun _ => .bind .pure ?_) t
      · exact fun _ => rfl
      · exact fun _ => .ite .pure (spares_update fun _ => rfl)
  | continuation endHeaders p => exact absurd hl.type.symm h.continuation
  | data endStream p =>
    have hd : raw.type=some .data := hl.type.symm
    obtain rfl : ty=.data := Option.some.inj (ht.symm.trans hd)
    have hlo := hc.resolve_left (by simp)
    simp only [loadContent,hd] at hlo
    cases hp : dataPayload raw with
    | error e =>
      rw [hp] at hlo
      cases hlo
    | ok p' =>
      rw [hp] at hlo
      cases hlo
      exact onDataFrame_tells moment h hd hp (hid rfl) hs (hch (by decide))
  | goaway => exact tells_of_spares spares_quiet.peerGoaway.moves t
  | ping ack p =>
    refine tells_of_spares (.ite spares_quiet.connectionError.moves (.ite .pure ?_)) t
    exact Returns.moves (spares_quiet.say (by simp))
  | windowUpdate n =>
    have hu : raw.type=some .windowUpdate := hl.type.symm
    have hlo := hc.resolve_left (by simp)
    simp only [loadContent,hu,Except.ok.injEq,Content.windowUpdate.injEq] at hlo
    subst hlo
    have ha := windowUpdate_no_reset (h.windowUpdate hu)
    unfold handleContent
    rw [ensures_bind,ensures_get,hw]
    generalize s.windows.windowUpdate raw.streamId raw.payload.length
      (ofBigEndian raw.payload)=result at ha ⊢
    obtain ⟨answer,windows⟩ := result
    dsimp only
    rw [ensures_bind,ensures_modify]
    have hse : Spares raw.streamId t {t with windows:=windows} := ⟨[],by simp,by simp⟩
    have hmo : Moves (Spares raw.streamId)
        (answer.perform moment raw.streamId : ActorM τ Unit) := by
      cases answer with
      | connectionError code => exact spares_quiet.connectionError.moves
      | resetStream code => exact absurd rfl (ha code)
      | applied => exact .pure
    exact (tells_of_spares hmo _).mono (fun _ _ => Tells.after hse) fun _ _ => Tells.after hse
  | settings ack settings => exact tells_of_spares (spares_quiet.onSettings _ _ _ _ _).moves t
  | priority ds =>
    have hpr : raw.type=some .priority := hl.type.symm
    have hlo := hc.resolve_left (by simp)
    simp only [loadContent,hpr,Except.ok.injEq,Content.priority.injEq] at hlo
    subst hlo
    unfold handleContent
    dsimp only
    rw [if_neg (h.priority hpr).2]
    exact tells_of_spares .pure t
  | priorityUpdate ps => exact tells_of_spares (spares_quiet.onPriorityUpdate _ _).moves t
  | rstStream => exact tells_of_spares (spares_quiet.onRstStream _).moves t
  | pushPromise => exact tells_of_spares .throw t

theorem load_content (raw : RawFrame) (s : Actor τ) : OnSuccess (load lib raw) s
      fun c _ => (∃ f,c=.headers f) ∨ loadContent raw=.ok c := by
  simp only [load,ensures_bind,ensures_ofExcept]
  cases hc : loadContent raw with
  | error e => trivial
  | ok c =>
    cases c with
    | headers f =>
      simp only [ensures_ite,ensures_bind,ensures_pure]
      refine ⟨fun _ => ?_,fun _ => .inr trivial⟩
      refine (parsePayload_ensures lib f s).mono (fun _ _ _ => .inl ⟨_,rfl⟩) ?_
      exact fun _ _ _ => trivial
    | _ => exact .inr rfl

theorem refused_spares {ty : FrameType} {an : Answer} (h : Heeds s raw) (ht : raw.type=some
    ty) (hl : raw.payload.length≤defaultMaxFrameSize) (hr : RefusedWith s ty raw an) :
    Moves (Spares raw.streamId) (an.perform moment raw.streamId : ActorM τ Unit) := by
  cases an with
  | connectionError code => exact spares_quiet.connectionError.moves
  | ignore => exact .pure
  | resetStream code =>
    exfalso
    cases hr with
    | frame hf =>
      unfold frameRefusal at hf
      rw [if_neg (Nat.not_lt.mpr hl)] at hf
      split_ifs at hf with _ _ hp
      · cases hf
      · cases hf
      · obtain ⟨rfl,hfi⟩ := hp
        exact hfi (h.priority ht).1
    | stream hb hs => exact h.state ty code ht hs

/-- A frame that keeps to `Heeds` resets its stream only with its recipient told. -/
theorem turn_tells (h : Heeds s raw) :
    Ensures (turn lib limits moment raw) s (fun _ => Tells raw.streamId s)
      (fun _ => Tells raw.streamId s) := by
  unfold turn
  rw [ensures_bind,ensures_get,ensures_ite,ensures_ite]
  refine ⟨fun _ => tells_of_spares spares_finish s,fun _ => ⟨fun _ =>
    tells_of_spares (.bind spares_quiet.connectionError.moves fun _ => spares_finish) s,
    fun hs => ?_⟩⟩
  rw [ensures_bind]
  have hsp : Ensures (load lib raw) s (fun _ => Spares raw.streamId s)
      (fun _ => Spares raw.streamId s) := spares_load s
  have hl := ((load_ensures lib raw s).and (load_content lib raw s)).and hsp
  refine hl.mono ?_ fun _ _ h => .inl h.2
  rintro c t ⟨⟨⟨hlo,hd,-⟩,hc⟩,hspa⟩
  have hh := h.of_decodes hd
  cases ht : raw.type with
  | none =>
    simp only [handleFrame,ensures_bind,ensures_get,ensures_ite,ht,ensures_pure]
    refine ⟨fun _ => ?_,fun _ => .inl hspa⟩
    exact (tells_of_spares spares_quiet.connectionError.moves t).mono
      (fun _ _ => Tells.after hspa) fun _ _ => Tells.after hspa
  | some type =>
    have hco (ms : MeterKind → RateWindow) : Spares raw.streamId s {t with meters:=ms} := hspa
    refine handleFrame_of_checks ht ?_ ?_
    · intro ms an hr
      have hm := refused_spares moment hh ht (Nat.not_lt.mp hs) hr
      exact (tells_of_spares hm _).mono (fun _ _ => Tells.after (hco ms))
        fun _ _ => Tells.after (hco ms)
    · intro ms _ hf hst
      have ho : Spares raw.streamId s (Actor.openStream {t with meters:=ms} type raw.streamId) :=
        trans_of (Spares raw.streamId) (hco ms) (spares_openStream _)
      have hsa : s.streamRefusal type raw.streamId=t.streamRefusal type raw.streamId := by
        rw [hd.same]
        rfl
      refine (handleContent_tells lib limits moment h ht hlo hc ?_
        (hsa.trans hst) ?_ ?_ ?_).mono (fun _ _ => Tells.after ho)
        fun _ _ => Tells.after ho
      · rintro rfl hz
        simp [frameRefusal,hz,streamOnlyFrameTypes,hs] at hf
      · intro hne
        rw [openStream_of_ne _ hne,hd.same]
      · rw [openStream_windows,hd.same]
      · rw [openStream_hasRequest,hd.same]
        rfl

/-- A connection, and the streams whose handler task was cancelled. -/
structure Watched (τ : Type) where
  actor : Actor τ
  cancelled : List ℕ := []

/-- Between the states, RST_STREAM of the peer has ended the stream. -/
def PeerReset (s : Actor τ) (raw : RawFrame) (t : Actor τ) : Prop :=
  raw.type=some .rstStream ∧ (s.children.get? raw.streamId).isSome=true ∧
    t.children.get? raw.streamId=none

instance (s : Actor τ) (raw : RawFrame) (t : Actor τ) : Decidable (PeerReset s raw t) :=
  inferInstanceAs (Decidable (_ ∧ _ ∧ _))

namespace Watched

/-- `RstStreamResponder` cancels the task it finds in `_stream_tasks`: that of an HTTP request. -/
def cancels (s t : Actor τ) : Action → List ℕ
  | .frame raw _ =>
    if PeerReset s raw t ∧ s.running.contains (raw.streamId,false) then [raw.streamId] else []
  | _ => []

def step (w : Watched τ) (action : Action) : Watched τ :=
  let t := w.actor.step lib limits action
  ⟨t,w.cancelled++cancels w.actor t action⟩

/-- A handler that has not been told so far does not wait for the next item. -/
def Wakes (s : Actor τ) (streamId : ℕ) : Prop :=
  ∃ recipient,s.recipients.get? streamId=some recipient ∧
    ∀ taken,Item.disconnect∉recipient.items.take taken → taken<recipient.items.length

def Resets (w : Watched τ) (raw : RawFrame) (moment : Moment) (streamId : ℕ) : Prop :=
  let t := w.actor.step lib limits (.frame raw moment)
  (∃ code,OutFrame.rstStream streamId code∈t.sent.drop w.actor.sent.length) ∨
    raw.streamId=streamId ∧ PeerReset w.actor raw t

/-- The handler of each stream that the frame resets is woken or cancelled. -/
def Reaches (w : Watched τ) : Action → Prop
  | .frame raw moment => ∀ streamId isWs,(streamId,isWs)∈w.actor.running →
      w.Resets lib limits raw moment streamId →
        Wakes (w.step lib limits (.frame raw moment)).actor streamId ∨
          streamId∈(w.step lib limits (.frame raw moment)).cancelled
  | _ => True

/-- Frames on a stream with a running handler keep to `Heeds`. -/
def Heeding (w : Watched τ) : Action → Prop
  | .frame raw _ => (∃ isWs,(raw.streamId,isWs)∈w.actor.running) → Heeds w.actor raw
  | _ => True

variable {sid : ℕ}

theorem wakes_of_disconnected {s : Actor τ} (h : s.Disconnected sid) : Wakes s sid := by
  obtain ⟨rc,hr,hm⟩ := h
  refine ⟨rc,hr,fun ta hn => ?_⟩
  by_contra ha
  rw [List.take_of_length_le (Nat.not_lt.mp ha)] at hn
  exact hn hm

theorem not_mem_drop_of_spares {s t : Actor τ} (h : Spares sid s t) (c : ErrorCode) :
    OutFrame.rstStream sid c∉t.sent.drop s.sent.length := by
  obtain ⟨fs,hs,hn⟩ := h
  rw [hs,List.drop_left]
  exact hn c

/-- A frame resets no stream with a running handler behind its back. -/
theorem step_tells {w : Watched τ} {raw : RawFrame} {moment : Moment}
    (h : w.Heeding (.frame raw moment)) {iw : Bool} (hr : (sid,iw)∈w.actor.running) :
    Tells sid w.actor (w.actor.step lib limits (.frame raw moment)) := by
  rw [Actor.step]
  split
  · exact .inl (refl_of (Spares sid) w.actor)
  · by_cases ho : raw.streamId=sid
    · subst ho
      refine handle_of_ensures
        ((turn_tells lib limits moment (h ⟨iw,hr⟩)).mono (fun _ _ => id) ?_)
      exact fun _ _ h _ => h
    · refine .inl (handle_of_ensures
        ((spares_turn ho w.actor).mono (fun _ _ => id) ?_))
      exact fun _ _ h _ => h

theorem heeding_reaches {w : Watched τ} {a : Action} (h : w.Heeding a) :
    w.Reaches lib limits a := by
  cases a with
  | frame raw moment =>
    rintro sid iw hr (⟨code,hre⟩ | ⟨rfl,hp⟩)
    · rcases step_tells lib limits h hr with hs | ht
      · exact absurd hre (not_mem_drop_of_spares hs code)
      · exact .inl (wakes_of_disconnected ht)
    · have hh := h ⟨iw,hr⟩
      have hht : iw=false := by
        by_contra hws
        rw [Bool.not_eq_false] at hws
        exact hh.rstStream hp.1 (hws ▸ hr)
      subst hht
      refine .inr (List.mem_append_right _ ?_)
      rw [cancels,if_pos ⟨hp,List.contains_iff_mem.mpr hr⟩]
      exact List.mem_singleton.mpr rfl
  | _ => trivial

/-- On a run whose frames keep to `Heeds` on the streams being served, whenever the server or
the peer resets such a stream, its handler is woken from its wait or cancelled. -/
theorem resets_reach_handlers (w : Watched τ) (actions : List Action)
    (h : Along (step lib limits) Heeding w actions) :
    Along (step lib limits) (Reaches lib limits) w actions :=
  h.mono fun _ _ => heeding_reaches lib limits

/-- The recipient refuses a DATA frame, and is told; the peer resets the stream, and the task is
cancelled. -/
theorem resets_reach_handlers_refused :
    let request : Action := .quiet 1 4 1 [0x83,0x86,0x84,0x41,1,97]
    let w := run (step plainLibrary {}) ⟨.initial {} [],[]⟩ [request]
    (1,false)∈w.actor.running ∧ Reaches plainLibrary {} w (.frame ⟨0,0,1,[1,2]⟩ ⟨0,0,false,false⟩) ∧
      w.Resets plainLibrary {} ⟨0,0,1,[1,2]⟩ ⟨0,0,false,false⟩ 1 ∧
      Reaches plainLibrary {} w (.quiet 3 0 1 [0,0,0,8]) ∧
      w.Resets plainLibrary {} ⟨3,0,1,[0,0,0,8]⟩ ⟨0,0,true,false⟩ 1 := by
  intro request w
  have hl (type : FrameType) : w.actor.streamRefusal type 1=none := by cases type <;> decide +kernel
  have hd : Heeds w.actor ⟨0,0,1,[1,2]⟩ := by
    refine ⟨fun type _ _ => by simp [hl],fun _ _ _ stream hs => ?_,
      fun h => absurd h (by decide),by decide,fun h => absurd h (by decide),
      fun h => absurd h (by decide),fun h => absurd h (by decide)⟩
    have hn : (w.actor.children.get? 1).bind Stream.expectedContentLength=none := by decide +kernel
    have hs' : stream.expectedContentLength=none := by simpa [hs] using hn
    simp [hs']
  have hr : Heeds w.actor ⟨3,0,1,[0,0,0,8]⟩ :=
    ⟨fun type _ _ => by simp [hl],fun h => absurd h (by decide),fun h => absurd h (by decide),
      by decide,fun h => absurd h (by decide),fun h => absurd h (by decide),
      fun _ => by decide +kernel⟩
  have hre := resets_reach_handlers plainLibrary {} w
    [.frame ⟨0,0,1,[1,2]⟩ ⟨0,0,false,false⟩] ⟨fun _ => hd,trivial⟩
  have hp := resets_reach_handlers plainLibrary {} w [.quiet 3 0 1 [0,0,0,8]] ⟨fun _ => hr,trivial⟩
  refine ⟨by decide +kernel,hre.1,.inl ⟨.enhanceYourCalm,by decide +kernel⟩,hp.1,?_⟩
  exact .inr (by decide +kernel)

/-- A body longer than its declared length: the stream is reset and its handler waits on. -/
theorem reset_unheard :
    let request : Action := .quiet 1 4 1 [0x83,0x86,0x84,0x41,1,97,0x5c,1,53]
    let w := run (step lengthLibrary {}) ⟨.initial {} [],[]⟩ [request]
    ¬ w.Reaches lengthLibrary {} (.quiet 0 0 1 [1,2,3,4,5,6]) := by
  intro request w hr
  have hru : (1,false)∈w.actor.running := by decide +kernel
  have hre : OutFrame.rstStream 1 .protocolError ∈
      (w.actor.step lengthLibrary {} (.quiet 0 0 1 [1,2,3,4,5,6])).sent.drop
        w.actor.sent.length := by
    decide +kernel
  rcases hr 1 false hru (.inl ⟨_,hre⟩) with ⟨recipient,hrec,hw⟩ | hm
  · have hi : ((w.actor.step lengthLibrary {} (.quiet 0 0 1 [1,2,3,4,5,6])).recipients.get?
        1).map Recipient.items=some [] := by
      decide +kernel
    have he : recipient.items=[] := by
      have hg : (w.actor.step lengthLibrary {} (.quiet 0 0 1 [1,2,3,4,5,6])).recipients.get?
          1=some recipient := hrec
      simpa [hg] using hi
    simpa [he] using hw 0
  · exact absurd hm (by decide +kernel)

end Watched
end BlackBull.H2
