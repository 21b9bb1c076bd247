import BlackBull.FrameLoop

/-!
# What a turn of the frame loop does to header blocks

Only HEADERS and CONTINUATION frames touch the decoder, the open block and the
requests given to the application. `Keeps` is the frame condition of everything
else; `HeadersTurn` and `ContinuationTurn` say what those two may do.
-/

namespace BlackBull.H2

variable {τ : Type}

/-- Header blocks and requests are as they were, the last identifier of the peer does not go
back, and an ended connection stays ended. -/
structure Keeps (s t : Actor τ) : Prop where
  decoded : t.decoded=s.decoded
  dispatched : t.dispatched=s.dispatched
  openBlock : t.openBlock=s.openBlock
  table : t.table=s.table
  lastPeer : s.lastPeerStreamId≤t.lastPeerStreamId
  ended : s.ended=true → t.ended=true

instance : IsPreorder (Actor τ) Keeps where
  refl _ := ⟨rfl,rfl,rfl,rfl,le_rfl,id⟩
  trans _ _ _ h h' := ⟨h'.decoded.trans h.decoded,h'.dispatched.trans h.dispatched,
    h'.openBlock.trans h.openBlock,h'.table.trans h.table,h.lastPeer.trans h'.lastPeer,
    fun hs => h'.ended (h.ended hs)⟩

/-- Only what is sent and counted changes, and the connection may be closed. -/
structure Speaks (s t : Actor τ) : Prop extends Keeps s t where
  children : t.children=s.children
  ending : t.ending=s.ending

instance : IsPreorder (Actor τ) Speaks where
  refl s := ⟨refl_of Keeps s,rfl,rfl⟩
  trans _ _ _ h h' := ⟨trans_of Keeps h.toKeeps h'.toKeeps,h'.children.trans h.children,
    h'.ending.trans h.ending⟩

/-- A relation along which sending moves the state, if no other stream is reset. -/
structure Voices (R : Actor τ → Actor τ → Prop) (streamId : ℕ) : Prop where
  emit : ∀ frame,(∀ other code,frame=.rstStream other code → other=streamId) →
    ∀ s,R s {s with sent:=s.sent++[frame]}
  goaway : ∀ code s,R s {s with
    sent:=s.sent++[.goaway s.lastPeerStreamId code],goawaySent:=true}
  meters : ∀ s meters,R s {s with meters:=meters}

variable (lib : Library τ) (lim : Limits) (m : Moment) {sid : ℕ}

section Walks

variable {R : Actor τ → Actor τ → Prop}

theorem Voices.say (h : Voices R sid) {f : OutFrame}
    (hf : ∀ o code,f≠.rstStream o code) :
    Returns R (H2.emit f : ActorM τ Unit) :=
  h.emit f fun o code heq => absurd heq (hf o code)

/-- What is sent, what becomes of header blocks, and the end. -/
def Actor.core (s : Actor τ) := (s.sent,s.goawaySent,s.ending,s.decoded,s.dispatched,
  s.openBlock,s.table,s.lastPeerStreamId)

/-- A relation along which the handlers move that leave header blocks alone. -/
structure Handles (R : Actor τ → Actor τ → Prop) (streamId : ℕ) : Prop
    extends Voices R streamId where
  update : ∀ s t : Actor τ,t.core=s.core → R s t
  farewell : ∀ s : Actor τ,R s {s.signalRecipients with
    sent:=s.sent++[.goaway s.lastPeerStreamId .noError],ending:=some .returned}

theorem modifyStream_same (s : Actor τ) (sid : ℕ) (f : Stream → Stream) :
    s.modifyStream sid f={s with children:=(s.modifyStream sid f).children} := by
  unfold Actor.modifyStream
  cases s.children.get? sid <;> rfl

theorem tellRecipient_same (s : Actor τ) (sid : ℕ) (i : Item) :
    s.tellRecipient sid i={s with recipients:=(s.tellRecipient sid i).recipients} := by
  unfold Actor.tellRecipient
  cases s.recipients.get? sid <;> rfl

section Updates

variable (h : Handles R sid)

include h

theorem Handles.set {f : Actor τ → Actor τ} (hf : ∀ s,(f s).core=s.core) :
    Returns R (modify f : ActorM τ PUnit) :=
  fun s => h.update s _ (hf s)

theorem Handles.modifyStream {f : Stream → Stream} :
    Returns R (modify (·.modifyStream sid f) : ActorM τ PUnit) :=
  h.set fun s => by rw [modifyStream_same]; rfl

theorem Handles.tellRecipient {i : Item} :
    Returns R (modify (·.tellRecipient sid i) : ActorM τ PUnit) :=
  h.set fun s => by rw [tellRecipient_same]; rfl

theorem Handles.onPriorityUpdate (p : ℕ) :
    Returns R (onPriorityUpdate lim p : ActorM τ Unit) :=
  h.set fun s => by split_ifs <;> rfl

theorem Handles.peerGoaway : Returns R (do
    modify fun s => {s with
      sent:=s.sent++[.goaway s.lastPeerStreamId .noError]}
    finish : ActorM τ Unit) :=
  h.farewell

end Updates

variable [IsPreorder (Actor τ) R]

namespace Voices

variable (h : Voices R sid)

include h

theorem connectionError {c : ErrorCode} : Returns R (connectionError c : ActorM τ Unit) :=
  .bind .get fun _ => .ite .pure (h.goaway c)

theorem hitMeter {kd : MeterKind} {now : ℕ} : Returns R (hitMeter kd now : ActorM τ Bool) :=
  .bind .get fun _ => .bind (fun s => h.meters s _) fun _ => .pure

theorem resetStream {m : Moment} {c : ErrorCode} :
    Returns R (resetStream m sid c : ActorM τ Unit) := by
  refine .bind (h.emit _ ?_) fun _ => .bind .get fun _ => .ite .pure <|
    .bind h.hitMeter fun _ => .ite (h.goaway _) .pure
  rintro o c ⟨⟩
  rfl

theorem perform {m : Moment} {a : Answer} :
    Returns R (a.perform m sid : ActorM τ Unit) := by
  cases a with
  | connectionError code => exact h.connectionError
  | resetStream code => exact h.resetStream
  | ignore => exact .pure

theorem windowAnswer {m : Moment} {a : WindowAnswer} :
    Returns R (a.perform m sid : ActorM τ Unit) := by
  cases a with
  | connectionError code => exact h.connectionError
  | resetStream code => exact h.resetStream
  | applied => exact .pure

theorem refuseOversizedDeclaredBody (request : Request) :
    Moves R (refuseOversizedDeclaredBody lim m sid request : ActorM τ Bool) :=
  .ite (.ite .throw (.bind (Returns.moves (h.say nofun)) fun _ =>
    .bind h.resetStream.moves fun _ => .pure)) .pure

end Voices

def Content.type : Content → Option FrameType
  | .unknown => none
  | .data .. => some .data
  | .headers .. => some .headers
  | .priority .. => some .priority
  | .rstStream => some .rstStream
  | .settings .. => some .settings
  | .pushPromise => some .pushPromise
  | .ping .. => some .ping
  | .goaway => some .goaway
  | .windowUpdate .. => some .windowUpdate
  | .continuation .. => some .continuation
  | .priorityUpdate .. => some .priorityUpdate

theorem applySettings_no_reset (w : SendWindows) (n : ℕ) (cfg : Settings) (c : ErrorCode) :
    (w.applySettings n cfg).1≠.resetStream c := by
  unfold SendWindows.applySettings
  split_ifs <;> simp

namespace Handles

variable (h : Handles R sid)

include h

theorem onTrailers (es : Bool) :
    Moves R (onTrailers m sid es : ActorM τ Unit) := by
  refine .ite h.resetStream.moves <| .bind h.modifyStream.moves fun _ =>
    .bind .get fun s => ?_
  cases s.recipients.get? sid with
  | none => exact .pure
  | some rc => exact .ite .throw h.tellRecipient.moves

theorem deliver (n : ℕ) (es : Bool) (p : Bytes) (rc : Recipient) :
    Returns R (deliver m sid n es p rc : ActorM τ Unit) :=
  .ite (.bind h.tellRecipient fun _ => .ite (.bind (h.say nofun) fun _ =>
      h.say nofun) .pure)
    (.ite h.tellRecipient (.bind h.resetStream fun _ => h.tellRecipient))

theorem onDataFrame (n : ℕ) (es : Bool) (p : Bytes) :
    Returns R (onDataFrame m sid n es p : ActorM τ Unit) := by
  refine .bind .get fun s => ?_
  cases s.children.get? sid with
  | none => exact .pure
  | some stream =>
    refine .ite h.resetStream <| .bind h.modifyStream fun _ =>
      .ite h.resetStream <| .bind h.modifyStream fun _ => .bind .get fun s => ?_
    cases s.recipients.get? sid with
    | none => exact .pure
    | some rc => exact h.deliver m _ _ _ _

theorem onRstStream (sid : ℕ) : Returns R (onRstStream sid : ActorM τ Unit) := by
  refine .bind .get fun s => ?_
  cases s.children.get? sid with
  | none => exact h.connectionError
  | some stream => exact .ite h.connectionError (h.set fun _ => rfl)

theorem onSettings (sid n : ℕ) (ack : Bool) (cfg : Settings) :
    Returns R (onSettings m sid n ack cfg : ActorM τ Unit) := by
  refine .ite h.connectionError <| .ite (.ite h.connectionError .pure) <|
    .bind .get fun s => ?_
  have ha := applySettings_no_reset s.windows n cfg
  generalize s.windows.applySettings n cfg=r at ha ⊢
  obtain ⟨answer,windows⟩ := r
  refine .bind (h.set fun _ => rfl) fun _ => .ite (h.say nofun) ?_
  cases answer with
  | connectionError code => exact h.connectionError
  | resetStream code => exact absurd rfl (ha code)
  | applied => exact .pure

theorem handleContent (len : ℕ) {c : Content} (hh : c.type≠some .headers)
    (hc : c.type≠some .continuation) (hp : c.type≠some .pushPromise) :
    Returns R (handleContent lib lim m sid len c) := by
  cases c with
  | headers frame => exact absurd rfl hh
  | continuation endHeaders p => exact absurd rfl hc
  | pushPromise => exact absurd rfl hp
  | unknown => exact .pure
  | data endStream p => exact h.onDataFrame m _ _ _
  | priority ds => exact .ite h.resetStream .pure
  | rstStream => exact h.onRstStream _
  | settings ack settings => exact h.onSettings m _ _ _ _
  | ping ack p => exact .ite h.connectionError (.ite .pure (h.say nofun))
  | goaway => exact h.peerGoaway
  | windowUpdate n =>
    exact .bind .get fun _ => .bind (h.set fun _ => rfl) fun _ => h.windowAnswer
  | priorityUpdate ps => exact h.onPriorityUpdate lim _

end Handles

end Walks

theorem voices_speaks : Voices (Speaks (τ := τ)) sid :=
  ⟨fun _ _ _ => ⟨⟨rfl,rfl,rfl,rfl,le_rfl,id⟩,rfl,rfl⟩,
    fun _ _ => ⟨⟨rfl,rfl,rfl,rfl,le_rfl,fun _ => rfl⟩,rfl,rfl⟩,
    fun _ _ => ⟨⟨rfl,rfl,rfl,rfl,le_rfl,id⟩,rfl,rfl⟩⟩

theorem handles_keeps : Handles (Keeps (τ := τ)) sid where
  emit frame hf s := (voices_speaks.emit frame hf s).toKeeps
  goaway code s := ((voices_speaks : Voices Speaks 0).goaway code s).toKeeps
  meters s meters := ((voices_speaks : Voices Speaks 0).meters s meters).toKeeps
  farewell s := ⟨rfl,rfl,rfl,rfl,le_rfl,fun _ => by simp [Actor.ended]⟩
  update s t h := by
    simp only [Actor.core,Prod.mk.injEq] at h
    obtain ⟨-,hg,he,hd,hp,ho,ht,hl⟩ := h
    exact ⟨hd,hp,ho,ht,hl.ge,fun hs => by simpa [Actor.ended,hg,he] using hs⟩

theorem keeps_update {f : Actor τ → Actor τ} (hf : ∀ s,(f s).core=s.core) :
    Moves Keeps (modify f : ActorM τ PUnit) :=
  ((handles_keeps : Handles Keeps 0).set hf).moves

theorem connectionError_ensures (c : ErrorCode) (s : Actor τ) :
    Succeeds (connectionError c) s fun _ t => Speaks s t ∧ t.goawaySent=true := by
  simp only [connectionError,ensures_bind,ensures_get,ensures_ite,ensures_pure]
  exact ⟨fun h => ⟨refl_of Speaks s,h⟩,fun _ =>
    ⟨⟨⟨rfl,rfl,rfl,rfl,le_rfl,fun _ => rfl⟩,rfl,rfl⟩,rfl⟩⟩

theorem meterFrame_ensures (ty : FrameType) (n : ℕ) (s : Actor τ) :
    Succeeds (meterFrame m ty n) s fun sp t => Speaks s t ∧ (sp=true → t.goawaySent=true) := by
  unfold meterFrame
  cases meterKind ty n with
  | none => exact ⟨refl_of Speaks s,nofun⟩
  | some kind =>
    have hm (ms : MeterKind → RateWindow) : Speaks s {s with meters:=ms} :=
      ⟨⟨rfl,rfl,rfl,rfl,le_rfl,id⟩,rfl,rfl⟩
    simp only [hitMeter,ensures_bind,ensures_get,ensures_modify,ensures_ite,ensures_pure]
    refine ⟨fun _ => ?_,fun _ => ⟨hm _,nofun⟩⟩
    exact (connectionError_ensures _ _).total
      fun _ _ h => ⟨trans_of Speaks (hm _) h.1,fun _ => h.2⟩

theorem modifyStream_eq {s : Actor τ} {sid : ℕ} {st : Stream}
    (h : s.children.get? sid=some st) (f : Stream → Stream) :
    s.modifyStream sid f={s with children:=s.children.set sid (f st)} := by
  simp [Actor.modifyStream,h]

theorem get?_modifyStream {s : Actor τ} {sid : ℕ} {st : Stream}
    (h : s.children.get? sid=some st) (f : Stream → Stream) :
    (s.modifyStream sid f).children.get? sid=some (f st) := by
  simp [modifyStream_eq h,Dict.get?_set]

def decodeBlocks (lib : Library τ) : τ → List (ℕ × Bytes) → Option τ
  | table,[] => some table
  | table,(_,block)::blocks =>
    match lib.decode table block with
    | none => none
    | some (_,table) => decodeBlocks lib table blocks

theorem decodeBlocks_append (t : τ) (a l : List (ℕ × Bytes)) :
    decodeBlocks lib t (a++l) =
      (decodeBlocks lib t a).bind fun t => decodeBlocks lib t l := by
  induction a generalizing t with
  | nil => rfl
  | cons block a ih =>
    simp only [List.cons_append,decodeBlocks]
    cases lib.decode t block.2 with
    | none => rfl
    | some r => exact ih r.2

/-- What parsing the frame gives to the decoder. -/
def HeadersFrame.decodes (frame : HeadersFrame) : List (ℕ × Bytes) :=
  match frame.headerBlock with
  | .ok block => [(frame.streamId,block)]
  | .error _ => []

/-- Parsing fills in the fields and the defect, nothing else. -/
def Parsed (frame frame' : HeadersFrame) : Prop :=
  ∃ pseudoHeaders headers malformed,frame' =
    {frame with pseudoHeaders:=pseudoHeaders,headers:=headers,malformed:=malformed}

theorem Parsed.refl (f : HeadersFrame) : Parsed f f := ⟨_,_,_,rfl⟩

theorem Parsed.endHeaders {f f' : HeadersFrame} (h : Parsed f f') :
    f'.endHeaders=f.endHeaders := by
  obtain ⟨_,_,_,rfl⟩ := h
  rfl

theorem addFields_parsed {fs : HeaderList} {sr : Bool} {fra f' : HeadersFrame}
    (h : fra.addFields sr fs=.ok f') : Parsed fra f' := by
  induction fs generalizing sr fra with
  | nil =>
    cases h
    exact .refl _
  | cons f fs ih =>
    have hma (d : Defect)
        (hm : (.ok (fra.markMalformed d) : Except Raised HeadersFrame)=.ok f') :
        Parsed fra f' := by
      cases hm
      exact ⟨_,_,_,rfl⟩
    have hr {seen : Bool} {next : HeadersFrame} (hp : Parsed fra next)
        (hn : next.addFields seen fs=.ok f') : Parsed fra f' := by
      obtain ⟨_,_,_,rfl⟩ := hp
      obtain ⟨p,hs,m,rfl⟩ := ih hn
      exact ⟨p,hs,m,rfl⟩
    unfold HeadersFrame.addFields at h
    -- every branch marks the frame, goes on with the rest of the fields or raises
    repeat' split at h
    all_goals
      first
      | exact hma _ h
      | exact hr ⟨_,_,_,rfl⟩ h
      | cases h

/-- The frame has read the fields of its block with a decoder in this state. -/
def HeadersFrame.Reads (lib : Library τ) (table : τ) (frame : HeadersFrame) (block : Bytes)
    (frame' : HeadersFrame) : Prop :=
  frame.headerBlock=.ok block ∧ ∃ fields table',lib.decode table block=some (fields,table') ∧
    frame.addFields false fields=.ok frame'

/-- The decoder has been given these blocks, and nothing else has happened. -/
structure Decodes (blocks : List (ℕ × Bytes)) (s t : Actor τ) : Prop where
  same : t={s with decoded:=t.decoded,table:=t.table}
  decoded : t.decoded=s.decoded++blocks

theorem parsePayload_ensures (f : HeadersFrame) (s : Actor τ) :
    Ensures (parsePayload lib f) s (fun f' t => Parsed f f' ∧
        (f'.malformed=none → ∃ block,f.Reads lib s.table block f') ∧
        Decodes f.decodes s t ∧ decodeBlocks lib s.table f.decodes=some t.table)
      (fun _ t => Decodes f.decodes s t) := by
  unfold parsePayload HeadersFrame.decodes
  cases hb : f.headerBlock with
  | error d => exact ⟨⟨_,_,_,rfl⟩,nofun,⟨rfl,(List.append_nil _).symm⟩,rfl⟩
  | ok block =>
    simp only [ensures_bind,ensures_modify,ensures_get,decodeBlocks]
    cases hd : lib.decode s.table block with
    | none => exact ⟨rfl,rfl⟩
    | some r =>
      simp only [ensures_bind,ensures_modify,ensures_ofExcept]
      cases hf : f.addFields false r.1 with
      | error e => exact ⟨rfl,rfl⟩
      | ok f' =>
        refine ⟨addFields_parsed hf,fun _ => ⟨block,hb,?_⟩,⟨rfl,rfl⟩,trivial⟩
        exact ⟨r.1,r.2,hd,hf⟩

def loaded (raw : RawFrame) : List (ℕ × Bytes) :=
  if raw.type=some .headers ∧ 0<raw.payload.length ∧ raw.endHeaders then
    (HeadersFrame.ofRaw raw).decodes
  else []

/-- A HEADERS frame is loaded as it is on the wire but for its fields, and it has fields only
from its own block. -/
structure LoadedHeaders (lib : Library τ) (table : τ) (raw : RawFrame) (frame : HeadersFrame) :
    Prop where
  parsed : Parsed (.ofRaw raw) frame
  unfinished : raw.endHeaders=false → frame=.ofRaw raw
  reads : frame.malformed=none → frame.pseudoHeaders≠[] →
    loaded raw=(HeadersFrame.ofRaw raw).decodes ∧
      ∃ block,(HeadersFrame.ofRaw raw).Reads lib table block frame

structure Loaded (lib : Library τ) (table : τ) (raw : RawFrame) (content : Content) : Prop where
  type : content.type=raw.type
  headers : ∀ frame,content=.headers frame → LoadedHeaders lib table raw frame
  continuation : ∀ endHeaders payload,content=.continuation endHeaders payload →
    endHeaders=raw.endHeaders ∧ payload=raw.payload

theorem loadContent_loaded (t : τ) {raw : RawFrame} {c : Content}
    (h : loadContent raw=.ok c) : Loaded lib t raw c := by
  unfold loadContent at h
  split at h
  case h_2 ht =>
    cases hd : dataPayload raw with
    | error e => simp [hd,Except.map] at h
    | ok p =>
      simp only [hd,Except.map,Except.ok.injEq] at h
      subst h
      exact ⟨ht.symm,nofun,nofun⟩
  case h_3 ht =>
    cases h
    refine ⟨ht.symm,fun frame hf => ?_,nofun⟩
    cases hf
    exact ⟨.refl _,fun _ => rfl,fun _ h => absurd rfl h⟩
  case h_11 ht =>
    cases h
    refine ⟨ht.symm,nofun,fun endHeaders p heq => ?_⟩
    cases heq
    exact ⟨rfl,rfl⟩
  all_goals
    first
    | cases h
    | split_ifs at h
      cases h
    exact ⟨by simp_all [Content.type],nofun,nofun⟩

theorem load_ensures (raw : RawFrame) (s : Actor τ) : Ensures (load lib raw) s
      (fun content t => Loaded lib s.table raw content ∧ Decodes (loaded raw) s t ∧
        decodeBlocks lib s.table (loaded raw)=some t.table)
      (fun _ t => Decodes (loaded raw) s t ∨ t=s) := by
  have hn (content : Content) (hl : Loaded lib s.table raw content) (hd : loaded raw=[]) :
      Loaded lib s.table raw content ∧ Decodes (loaded raw) s s ∧
        decodeBlocks lib s.table (loaded raw)=some s.table := by
    rw [hd]
    exact ⟨hl,⟨rfl,(List.append_nil _).symm⟩,rfl⟩
  simp only [load,ensures_bind,ensures_ofExcept]
  cases hc : loadContent raw with
  | error e => exact .inr trivial
  | ok content =>
    have hl := loadContent_loaded lib s.table hc
    cases content with
    | headers frame =>
      have ht : raw.type=some .headers := hl.type.symm
      obtain rfl : frame=.ofRaw raw := by
        simp only [loadContent,ht,Except.ok.injEq,Content.headers.injEq] at hc
        exact hc.symm
      simp only [ensures_ite,ensures_bind,ensures_pure]
      refine ⟨fun hp => ?_,fun hp => hn _ hl ?_⟩
      · have hlo : loaded raw=(HeadersFrame.ofRaw raw).decodes := by
          rw [loaded,if_pos ⟨ht,hp⟩]
        rw [hlo]
        refine (parsePayload_ensures lib (.ofRaw raw) s).mono ?_ fun _ _ h => .inl h
        rintro frame t ⟨hpa,hb,hde⟩
        refine ⟨⟨hl.type,fun f' hf => ?_,by rintro _ _ ⟨⟩⟩,hde⟩
        cases hf
        exact ⟨hpa,fun he => absurd hp.2 (by simp [HeadersFrame.ofRaw,he]),fun hv _ => ⟨hlo,hb hv⟩⟩
      · rw [loaded,if_neg fun h => hp h.2]
    | _ =>
      refine hn _ hl ?_
      have ht := hl.type
      simp [loaded,← ht,Content.type]

section Handling

variable (lib : Library τ) (lim : Limits)

variable {fr : HeadersFrame} {request : Request} (m : Moment) (sid : ℕ)

/-- Only a frame that has been parsed without a defect describes a request. -/
theorem parseHeaders_valid (h : parseHeaders lib fr=.ok (.ok request)) :
    fr.malformed=none ∧ fr.pseudoHeaders≠[] := by
  unfold parseHeaders at h
  cases hm : fr.malformed with
  | some d => simp [hm] at h
  | none =>
    refine ⟨rfl,fun he => ?_⟩
    simp [hm,requestMethod,HeadersFrame.pseudo,he] at h

structure Gives (request : Dispatch) (s t : Actor τ) : Prop where
  decoded : t.decoded=s.decoded
  dispatched : t.dispatched=s.dispatched++[request]
  openBlock : t.openBlock=s.openBlock
  table : t.table=s.table
  lastPeer : s.lastPeerStreamId≤t.lastPeerStreamId

theorem Keeps.gives {request : Dispatch} {s t u : Actor τ} (h : Keeps s t)
    (h' : Gives request t u) : Gives request s u :=
  ⟨h'.decoded.trans h.decoded,h.dispatched ▸ h'.dispatched,h'.openBlock.trans h.openBlock,
    h'.table.trans h.table,h.lastPeer.trans h'.lastPeer⟩

/-- The request of this frame reaches the application, or none does. -/
def MayGive (streamId : ℕ) (frame : HeadersFrame) (s t : Actor τ) : Prop :=
  Keeps s t ∨ ∃ request,parseHeaders lib frame=.ok (.ok request) ∧
    Gives ⟨streamId,frame,request⟩ s t

/-- The computation gives at most this request; one that raises gives none. -/
def Offers {α : Type} (streamId : ℕ) (frame : HeadersFrame) (x : ActorM τ α) : Prop :=
  ∀ s,Ensures x s (fun _ => MayGive lib streamId frame s) (fun _ => Keeps s)

namespace Offers

variable {lib : Library τ} {α β : Type} {sid : ℕ} {fr : HeadersFrame}

variable {x : ActorM τ α}

theorem of_keeps (h : Moves Keeps x) : Offers lib sid fr x :=
  fun s => (h s).mono (fun _ _ ht => .inl ht) fun _ _ ht => ht

theorem bind {f : α → ActorM τ β} (hx : Moves Keeps x) (hf : ∀ a,Offers lib sid fr (f a)) :
    Offers lib sid fr (x >>= f) := by
  intro s
  rw [ensures_bind]
  refine (hx s).mono (fun a t ht => ?_) fun _ _ ht => ht
  refine (hf a t).mono (fun _ u hu => ?_) fun _ _ hu => trans_of Keeps ht hu
  rcases hu with hu | ⟨request,hp,hu⟩
  · exact .inl (trans_of Keeps ht hu)
  · exact .inr ⟨request,hp,ht.gives hu⟩

theorem ofExcept_bind {x : Except Raised α} {f : α → ActorM τ β}
    (hf : ∀ a,x=.ok a → Offers lib sid fr (f a)) :
    Offers lib sid fr (MonadExcept.ofExcept x >>= f) := by
  intro s
  rw [ensures_bind,ensures_ofExcept]
  cases x with
  | error e => exact refl_of Keeps s
  | ok a => exact hf a rfl s

theorem ite {c : Prop} [Decidable c] {y : ActorM τ α} (hx : Offers lib sid fr x)
    (hy : Offers lib sid fr y) : Offers lib sid fr (if c then x else y) := by
  intro s
  rw [ensures_ite]
  exact ⟨fun _ => hx s,fun _ => hy s⟩

theorem dispatch (iw : Bool) {request : Request}
    (h : parseHeaders lib fr=.ok (.ok request)) :
    Offers lib sid fr (dispatch sid iw fr request : ActorM τ Unit) :=
  fun _ => .inr ⟨request,h,rfl,rfl,rfl,rfl,le_rfl⟩

end Offers

theorem offers_onWebsocketRequest (h : parseHeaders lib fr=.ok (.ok request)) :
    Offers lib sid fr
      (onWebsocketRequest lim m sid fr request : ActorM τ Unit) :=
  .ite (.of_keeps handles_keeps.resetStream.moves) <|
    .bind handles_keeps.modifyStream.moves fun _ => .bind .get fun _ =>
      .ite (.of_keeps handles_keeps.resetStream.moves)
        (.bind (keeps_update fun _ => rfl) fun _ => .dispatch true h)

theorem offers_onHttpRequest (h : parseHeaders lib fr=.ok (.ok request)) :
    Offers lib sid fr
      (onHttpRequest lim m sid fr request : ActorM τ Unit) :=
  .bind (handles_keeps.refuseOversizedDeclaredBody lim _ _) fun _ =>
    .ite (.of_keeps .pure) <| .bind (keeps_update fun _ => rfl) fun _ =>
      .bind handles_keeps.modifyStream.moves fun _ => .dispatch false h

theorem offers_onBlockEnd (fr : HeadersFrame) :
    Offers lib sid fr (onBlockEnd lib lim m sid fr) := by
  refine .ofExcept_bind fun r hp => ?_
  cases r with
  | error d => exact .of_keeps handles_keeps.resetStream.moves
  | ok request =>
    exact .bind handles_keeps.modifyStream.moves fun _ => .bind .get fun _ =>
      .ite (.of_keeps handles_keeps.resetStream.moves) <|
        .bind handles_keeps.modifyStream.moves fun _ =>
          .bind (handles_keeps.refuseOversizedDeclaredBody lim _ _) fun _ =>
            .ite (.of_keeps .pure) <| .bind (keeps_update fun _ => rfl) fun _ =>
              .dispatch false hp

theorem offers_onRequestHeaders (fr : HeadersFrame) :
    Offers lib sid fr (onRequestHeaders lib lim m sid fr) := by
  refine .bind .get fun _ => .ite (.of_keeps handles_keeps.resetStream.moves) <|
    .ofExcept_bind fun r hp => ?_
  cases r with
  | error d => exact .of_keeps handles_keeps.resetStream.moves
  | ok request =>
    exact .bind handles_keeps.modifyStream.moves fun _ =>
      .ite (offers_onWebsocketRequest lib lim _ _ hp)
        (offers_onHttpRequest lib lim _ _ hp)

/-- HEADERS on its stream: trailers, a request, or a block that goes on. -/
theorem handleHeaders_ensures (fr : HeadersFrame) (s : Actor τ) :
    Ensures (handleHeaders lib lim m sid fr) s (fun _ t => if fr.endHeaders then
          Keeps s t ∨ ((s.children.get? sid).bind Stream.request=none ∧
            ∃ request,parseHeaders lib fr=.ok (.ok request) ∧
              Gives ⟨sid,fr,request⟩ s t)
        else t.openBlock=some fr ∧ Speaks s {t with openBlock:=s.openBlock})
      (fun _ => Keeps s) := by
  simp only [handleHeaders,ensures_bind,ensures_get,ensures_ite,ensures_modify]
  refine ⟨fun ht => ?_,fun hn => ?_⟩
  · simp only [ht.2,if_true]
    exact (handles_keeps.onTrailers m fr.endStream s).mono (fun _ _ h => .inl h)
      fun _ _ h => h
  · cases he : fr.endHeaders with
    | false =>
      simp only [onHeadersFrame,he,Bool.not_false,if_true,ensures_pure,Bool.false_eq_true,if_false]
      exact ⟨by rintro ⟨⟩,fun _ => ⟨trivial,⟨rfl,rfl,rfl,rfl,le_rfl,id⟩,rfl,rfl⟩⟩
    | true =>
      have hno : (s.children.get? sid).bind Stream.request=none := by
        simpa [he] using hn
      simp only [onHeadersFrame,he,Bool.not_true,Bool.false_eq_true,if_false,if_true,
        ensures_bind,ensures_pure]
      refine (offers_onRequestHeaders lib lim m sid fr _).mono ?_ ?_
      · rintro - t (h | ⟨request,hp,h⟩)
        · exact ⟨fun _ => .inl {h with},fun hne => absurd trivial hne⟩
        · exact ⟨fun _ => .inr ⟨hno,request,hp,{h with}⟩,fun hne => absurd trivial hne⟩
      · rintro e t h
        exact {h with}

/-- A block that CONTINUATION ends: the decoder is given it, and at most its request is
dispatched, on the stream of the CONTINUATION frame. -/
structure Completes (streamId : ℕ) (frame : HeadersFrame) (s t : Actor τ) : Prop where
  decoded : t.decoded=s.decoded++frame.decodes
  table : decodeBlocks lib s.table frame.decodes=some t.table
  openBlock : t.openBlock=none
  lastPeer : s.lastPeerStreamId≤t.lastPeerStreamId
  dispatched : t.dispatched=s.dispatched ∨ ∃ block frame' request,
    frame.Reads lib s.table block frame' ∧ parseHeaders lib frame'=.ok (.ok request) ∧
      t.dispatched=s.dispatched++[⟨streamId,frame',request⟩]

theorem handleContinuation_ensures (eh : Bool) (p : Bytes) {s : Actor τ}
    {he : HeadersFrame} (ho : s.openBlock=some he) :
    Ensures (handleContinuation lib lim m sid eh p) s (fun _ t =>
        if lim.headerMaxTotal<(he.extend p).rawBlock.length then
          t.openBlock=none ∧ Speaks s {t with openBlock:=s.openBlock}
        else if eh then Completes lib sid (he.extend p) s t
        else t.openBlock=some (he.extend p) ∧
          Speaks s {t with openBlock:=s.openBlock})
      (fun _ t => ¬ lim.headerMaxTotal<(he.extend p).rawBlock.length ∧
        eh=true ∧ t.decoded=s.decoded++(he.extend p).decodes ∧
          t.dispatched=s.dispatched ∧ s.lastPeerStreamId≤t.lastPeerStreamId) := by
  simp only [handleContinuation,onContinuationFrame,ensures_bind,ensures_get,ensures_modify,
    ho,ensures_ite,ensures_pure,gt_iff_lt]
  refine ⟨fun hl => ?_,fun hs => ⟨fun hen => ?_,fun hen => ?_⟩⟩
  · simp only [if_pos hl]
    refine (voices_speaks.resetStream _).total fun _ t h => ?_
    exact ⟨fun _ => ⟨trivial,{h with openBlock:=ho.symm}⟩,fun hne => absurd trivial hne⟩
  · have hn : eh=false := by simpa using hen
    simp only [if_neg hs,hn,Bool.false_eq_true,if_false]
    exact ⟨by rintro ⟨⟩,fun _ => ⟨trivial,⟨rfl,rfl,ho.symm,rfl,le_rfl,id⟩,rfl,rfl⟩⟩
  · have hy : eh=true := by simpa using hen
    simp only [if_neg hs,hy,if_true]
    refine (parsePayload_ensures lib (he.extend p) _).mono ?_ ?_
    · rintro fr t ⟨-,hr,hd,ht⟩
      have hdi : t.dispatched=s.dispatched := by rw [hd.same]
      have hla : t.lastPeerStreamId=s.lastPeerStreamId := by rw [hd.same]
      refine (offers_onBlockEnd lib lim m sid fr t).mono ?_ ?_
      · rintro - u hu
        refine ⟨fun _ => ?_,fun hne => absurd trivial hne⟩
        rcases hu with h | ⟨request,hp,h⟩
        · exact ⟨h.decoded.trans hd.decoded,h.table ▸ ht,rfl,hla ▸ h.lastPeer,
            .inl (h.dispatched.trans hdi)⟩
        · obtain ⟨block,hr⟩ := hr (parseHeaders_valid lib hp).1
          exact ⟨h.decoded.trans hd.decoded,h.table ▸ ht,rfl,hla ▸ h.lastPeer,
            .inr ⟨block,fr,request,hr,hp,hdi ▸ h.dispatched⟩⟩
      · rintro e u h
        exact ⟨hs,trivial,h.decoded.trans hd.decoded,h.dispatched.trans hdi,hla ▸ h.lastPeer⟩
    · rintro e t hd
      refine ⟨hs,trivial,hd.decoded,?_,?_⟩
      · rw [hd.same]
      · rw [hd.same]

end Handling

end BlackBull.H2
