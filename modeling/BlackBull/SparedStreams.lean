import BlackBull.TameFrames

/-!
# What a frame does to other streams

A frame draws a reset of its own stream at most: whatever the turn on it does, nothing it
sends resets another stream.
-/

namespace BlackBull.H2

open ByteString

variable {τ : Type} {lib : Library τ} {lim : Limits}

/-- What is sent between the two states does not reset the stream. -/
def Spares (streamId : ℕ) (s t : Actor τ) : Prop :=
  ∃ frames,t.sent=s.sent++frames ∧ ∀ code,OutFrame.rstStream streamId code∉frames

instance (streamId : ℕ) : IsPreorder (Actor τ) (Spares streamId) where
  refl s := ⟨[],(List.append_nil _).symm,fun _ => List.not_mem_nil⟩
  trans := by
    rintro s t u ⟨frames,hframes,hnone⟩ ⟨frames',hframes',hnone'⟩
    refine ⟨frames++frames',by rw [hframes',hframes,List.append_assoc],fun code hmem => ?_⟩
    rcases List.mem_append.mp hmem with h | h
    · exact hnone code h
    · exact hnone' code h

variable {id : ℕ}

theorem spares_update {f : Actor τ → Actor τ} (hf : ∀ s,(f s).sent=s.sent) :
    Moves (Spares id) (modify f : ActorM τ PUnit) :=
  fun s => ⟨[],(hf s).trans (List.append_nil _).symm,fun _ => List.not_mem_nil⟩

theorem handles_spares {id1 : ℕ} (hother : id1≠id) : Handles (Spares (τ := τ) id) id1 where
  emit frame hf s := by
    refine ⟨[frame],rfl,fun code hm => hother ?_⟩
    exact (hf id code (List.mem_singleton.mp hm).symm).symm
  goaway code s := ⟨[.goaway s.lastPeerStreamId code],rfl,by simp⟩
  meters s meters := ⟨[],by simp,by simp⟩
  update s t h := ⟨[],(congrArg Prod.fst h).trans (List.append_nil _).symm,by simp⟩
  farewell s := ⟨[.goaway s.lastPeerStreamId .noError],rfl,by simp⟩

theorem spares_quiet : Handles (Spares (τ := τ) id) (id+1) := handles_spares (Nat.succ_ne_self id)

theorem spares_finish : Moves (Spares id) (finish : ActorM τ Unit) := spares_update fun _ => rfl

variable {m : Moment}

theorem spares_meterFrame {ty : FrameType} {n : ℕ} :
    Moves (Spares id) (meterFrame m ty n : ActorM τ Bool) := by
  unfold meterFrame
  split
  · exact .pure
  · exact .bind spares_quiet.hitMeter.moves fun _ =>
      .ite (.bind spares_quiet.connectionError.moves fun _ => .pure) .pure

theorem spares_modifyStream {id1 : ℕ} {f : Stream → Stream} :
    Moves (Spares id) (modify (·.modifyStream id1 f) : ActorM τ PUnit) :=
  spares_update fun s => by rw [modifyStream_same]

theorem spares_tellRecipient {id1 : ℕ} {i : Item} :
    Moves (Spares id) (modify (·.tellRecipient id1 i) : ActorM τ PUnit) :=
  spares_update fun s => by rw [tellRecipient_same]

section OtherStream

variable {sid : ℕ} (h : Handles (Spares (τ := τ) id) sid)

include h

theorem spares_onRequestHeaders {f : HeadersFrame} :
    Moves (Spares id) (onRequestHeaders lib lim m sid f) := by
  refine .bind .get fun s => .ite h.resetStream.moves <| .bind .ofExcept fun p => ?_
  cases p with
  | error d => exact h.resetStream.moves
  | ok req =>
    refine .bind spares_modifyStream fun _ => .ite ?websocket ?http
    case websocket =>
      exact .ite h.resetStream.moves <| .bind spares_modifyStream fun _ =>
        .bind .get fun _ => .ite h.resetStream.moves <|
          .bind (spares_update fun _ => rfl) fun _ => spares_update fun _ => rfl
    case http =>
      exact .bind (h.refuseOversizedDeclaredBody lim m req) fun _ =>
        .ite .pure <| .bind (spares_update fun _ => rfl) fun _ =>
          .bind spares_modifyStream fun _ => spares_update fun _ => rfl

theorem spares_onBlockEnd {f : HeadersFrame} : Moves (Spares id) (onBlockEnd lib lim m sid f) := by
  refine .bind .ofExcept fun p => ?_
  cases p with
  | error d => exact h.resetStream.moves
  | ok req =>
    exact .bind spares_modifyStream fun _ => .bind .get fun _ =>
      .ite h.resetStream.moves <| .bind spares_modifyStream fun _ =>
        .bind (h.refuseOversizedDeclaredBody lim m req) fun _ =>
          .ite .pure <| .bind (spares_update fun _ => rfl) fun _ => spares_update fun _ => rfl

end OtherStream

theorem spares_parsePayload {f : HeadersFrame} : Moves (Spares id) (parsePayload lib f) := by
  unfold parsePayload
  split
  · exact .pure
  · refine .bind (spares_update fun _ => rfl) fun _ => .bind .get fun s => ?_
    split
    · exact .throw
    · exact .bind (spares_update fun _ => rfl) fun _ => .ofExcept

theorem spares_load {raw : RawFrame} : Moves (Spares id) (load lib raw) := by
  refine .bind .ofExcept fun c => ?_
  cases c with
  | headers f => exact .ite (.bind spares_parsePayload fun _ => .pure) .pure
  | _ => exact .pure

theorem spares_onTrailers {id1 : ℕ} :
    Moves (Spares id) (onTrailers m id1 true : ActorM τ Unit) := by
  refine .bind spares_modifyStream fun _ => .bind .get fun s => ?_
  cases s.recipients.get? id1 with
  | none => exact .pure
  | some rc => exact .ite .throw spares_tellRecipient

theorem spares_handleHeaders {id1 : ℕ} (h : Handles (Spares (τ := τ) id) id1) {f : HeadersFrame} :
    Moves (Spares id) (handleHeaders lib lim m id1 f) := by
  refine .bind .get fun s => .ite (h.onTrailers m _) <|
    .bind (spares_update fun _ => rfl) fun _ => .bind ?_ fun _ =>
      .ite .pure (spares_update fun _ => rfl)
  exact .ite .pure (.bind (spares_onRequestHeaders h) fun _ => .pure)

theorem spares_handleContinuation {id1 : ℕ} (h : Handles (Spares (τ := τ) id) id1)
    {eh : Bool} {p : Bytes} :
    Moves (Spares id) (handleContinuation lib lim m id1 eh p) := by
  refine .bind (spares_update fun _ => rfl) fun _ => .bind .get fun s => ?_
  cases s.openBlock with
  | none => exact spares_quiet.connectionError.moves
  | some f =>
    refine .bind ?_ fun _ => .ite (spares_update fun _ => rfl) .pure
    exact .bind (spares_update fun _ => rfl) fun _ =>
      .ite (.bind h.resetStream.moves fun _ => .pure) <| .ite .pure <|
        .bind spares_parsePayload fun _ =>
          .bind (spares_onBlockEnd h) fun _ => .pure

theorem spares_deliver {rc : Recipient} (h : m.delivered=true ∨ rc.websocket=true) {id1 n : ℕ}
    {es : Bool} {p : Bytes} : Moves (Spares id)
      (deliver m id1 n es p rc : ActorM τ Unit) := by
  by_cases hw : rc.websocket=true
  · rw [deliver,if_pos hw]
    refine .bind spares_tellRecipient fun _ => .ite (.bind ?_ fun _ => ?_) .pure
    · exact Returns.moves (spares_quiet.say nofun)
    · exact Returns.moves (spares_quiet.say nofun)
  · rw [deliver,if_neg hw,if_pos (h.resolve_right hw)]
    exact spares_tellRecipient

theorem spares_handleContent {id1 : ℕ} (h : Handles (Spares (τ := τ) id) id1)
    {n : ℕ} {c : Content} :
    Moves (Spares id) (handleContent lib lim m id1 n c) := by
  cases c with
  | headers frame => exact spares_handleHeaders h
  | continuation endHeaders p => exact spares_handleContinuation h
  | pushPromise => exact .throw
  | _ =>
    refine (h.handleContent lib lim m n ?_ ?_ ?_).moves
    all_goals simp [Content.type]

theorem openStream_windows (s : Actor τ) (ty : FrameType) (id1 : ℕ) :
    (s.openStream ty id1).windows=s.windows := by
  unfold Actor.openStream
  split_ifs <;> rfl

theorem spares_openStream {ty : FrameType} {id1 : ℕ} :
    Moves (Spares id) (modify (·.openStream ty id1) : ActorM τ PUnit) :=
  spares_update fun s => by
    unfold Actor.openStream
    split_ifs <;> rfl

/-- A frame resets no stream but its own. -/
theorem spares_turn {raw : RawFrame} (hother : raw.streamId≠id) :
    Moves (Spares id) (turn lib lim m raw) := by
  have h : Handles (Spares (τ := τ) id) raw.streamId := handles_spares hother
  refine .bind .get fun _ => .ite spares_finish <|
    .ite (.bind spares_quiet.connectionError.moves fun _ => spares_finish) <|
      .bind spares_load fun c => .bind .get fun _ =>
        .ite spares_quiet.connectionError.moves ?_
  cases raw.type with
  | none => exact .pure
  | some type =>
    refine .bind spares_meterFrame fun _ => .ite .pure <| .bind .get fun s => ?_
    cases frameRefusal s.openBlock.isSome type raw.streamId raw.payload.length with
    | some an => exact h.perform.moves
    | none =>
      cases s.streamRefusal type raw.streamId with
      | some an => exact h.perform.moves
      | none =>
        exact .bind spares_openStream fun _ =>
          spares_handleContent h

end BlackBull.H2
