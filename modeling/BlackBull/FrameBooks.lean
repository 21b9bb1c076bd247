import BlackBull.HeaderBooks

/-!
# The books and a frame

What a frame keeps to for the books to stay in order, and that one turn of the loop on such a
frame keeps them so.
-/

namespace BlackBull.H2

open ByteString

variable {τ : Type} {lib : Library τ} {limits : Limits} {granted : Prop} {sid : ℕ}
  {s : Actor τ}

variable {raw : RawFrame} {gn : List ℕ} {t : Actor τ} {id : ℕ} (m : Moment) (n : ℕ)

theorem touches_deliver (es : Bool) (p : Bytes) (rc : Recipient) :
    Moves (Touches (some sid)) (deliver m sid n es p rc : ActorM τ Unit) :=
  .ite (.bind (touches_tellRecipient _ _) fun _ =>
      .ite (.bind touches_emit fun _ => touches_emit) .pure) <|
    .ite (touches_tellRecipient _ _)
      (.bind voices_touches.resetStream.moves fun _ => touches_tellRecipient _ _)

theorem touches_onDataFrame (es : Bool) (p : Bytes) : Moves (Touches (some sid))
      (onDataFrame m sid n es p : ActorM τ Unit) := by
  refine .bind .get fun s => ?_
  cases s.children.get? sid with
  | none => exact .pure
  | some stream =>
    refine .ite voices_touches.resetStream.moves <| .bind (touches_modifyStream _ _) fun _ =>
      .ite voices_touches.resetStream.moves <| .bind (touches_modifyStream _ _) fun _ =>
        .bind .get fun s => ?_
    cases s.recipients.get? sid with
    | none => exact .pure
    | some rc => exact touches_deliver _ _ _ _ _

theorem touches_onSettings (ack : Bool) (cfg : Settings) :
    Moves (Touches none) (onSettings m sid n ack cfg : ActorM τ Unit) := by
  refine .ite touches_connectionError <|
    .ite (.ite touches_connectionError .pure) fun s => ?_
  rw [ensures_bind,ensures_get]
  dsimp only
  rw [ensures_bind,ensures_modify]
  have hs : Touches none s _ := touches_applySettings n cfg s
  have ha (answer : WindowAnswer) : Moves (Touches none)
      (if answer=.applied then emit .settingsAck else answer.perform m 0 : ActorM τ Unit) :=
    .ite touches_emit voices_touches.windowAnswer.moves
  exact (ha _ _).mono (fun _ _ h => trans_of (Touches none) hs h)
    fun _ _ h => trans_of (Touches none) hs h

/-- What a frame keeps to for the books to stay in order. -/
structure Tended (lib : Library τ) (limits : Limits) (s : Actor τ) (raw : RawFrame) : Prop where
  headers : raw.type=some .headers → raw.endHeaders=true → s.Serves raw.streamId ∨
    0<raw.payload.length ∧ Accepts lib limits (Welcome limits s) s (.ofRaw raw)
  continuation : raw.type=some .continuation → ∀ frame,s.openBlock=some frame →
    frame.streamId=raw.streamId ∧ (s.Serves raw.streamId ∨
      (frame.extend raw.payload).rawBlock.length≤limits.headerMaxTotal ∧
        (raw.endHeaders=true →
          Accepts lib limits (¬ Oversized limits ·) s (frame.extend raw.payload)))
  priorityUpdate : raw.type=some .priorityUpdate →
    s.children.get? (ofBigEndian (raw.payload.take 4) % 2^31) = none →
      s.closedVia (ofBigEndian (raw.payload.take 4) % 2^31) = none

instance (s : Actor τ) (id : ℕ) : Decidable (s.Serves id) :=
  inferInstanceAs (Decidable (∃ isWs,(id,isWs)∈s.running))

instance (s : Actor τ) (raw : RawFrame) : Decidable (Tended lib limits s raw) :=
  decidable_of_iff
    ((raw.type=some .headers → raw.endHeaders=true → s.Serves raw.streamId ∨
      0<raw.payload.length ∧ Accepts lib limits (Welcome limits s) s (.ofRaw raw)) ∧
    (raw.type=some .continuation → ∀ frame∈s.openBlock,
      frame.streamId=raw.streamId ∧ (s.Serves raw.streamId ∨
        (frame.extend raw.payload).rawBlock.length≤limits.headerMaxTotal ∧
          (raw.endHeaders=true →
            Accepts lib limits (¬ Oversized limits ·) s (frame.extend raw.payload)))) ∧
    (raw.type=some .priorityUpdate →
      s.children.get? (ofBigEndian (raw.payload.take 4) % 2^31) = none →
        s.closedVia (ofBigEndian (raw.payload.take 4) % 2^31) = none))
    ⟨fun h => ⟨h.1,h.2.1,h.2.2⟩,fun h => ⟨h.1,h.2,h.3⟩⟩

def departed (s : Actor τ) (raw : RawFrame) (t : Actor τ) : List ℕ :=
  if PeerReset s raw t then [raw.streamId] else []

theorem departed_of_nodes
    (h : (t.children.get? raw.streamId).isSome=(s.children.get? raw.streamId).isSome) :
    departed s raw t=[] := by
  refine if_neg fun ⟨_,hs,hn⟩ => ?_
  rw [hs,hn] at h
  cases h

theorem departed_of_type (h : raw.type≠some .rstStream) : departed s raw t=[] :=
  if_neg fun hp => h hp.1

theorem closedVia_isSome {o : Option ℕ} (h : Tidy limits o gn s) (hid : id∈gn) :
    s.closedVia id≠none := by
  obtain ⟨-,hp,hle⟩ := h.closed id hid
  unfold Actor.closedVia
  split
  · nofun
  · rw [if_pos ⟨hp,hle⟩]
    nofun

/-- HEADERS that is let through on a new identifier opens a stream that is not over. -/
theorem Tidy.openStream (h : Tidy limits none gn s) (hid : id≠0)
    (hs : s.streamRefusal .headers id=none) :
    Tidy limits (some id) gn (s.openStream .headers id) ∧
      ((s.openStream .headers id).children.get? id).isSome=true := by
  cases hn : s.children.get? id with
  | some st =>
    rw [openStream_of_some _ hn,hn]
    exact ⟨h.open id,rfl⟩
  | none =>
    rw [openStream_of_none hn]
    refine ⟨(h.open id).addNode (fun hg => ?_) (.inl (.inr rfl)) hn id,?_⟩
    · cases hc : s.closedVia id with
      | none => exact closedVia_isSome h hg hc
      | some vr => simp [Actor.streamRefusal,hid,hn,hc,lateFrame] at hs
    · simp [Dict.get?_set]

theorem Tidy.live_of_passes (h : Tidy limits none gn s) {ty : FrameType} (hid : id≠0)
    (ht : ty=.data ∨ ty=.windowUpdate) (hs : s.streamRefusal ty id=none) : s.Live id := by
  unfold Actor.streamRefusal at hs
  rw [if_neg hid] at hs
  cases hn : s.children.get? id with
  | none =>
    rw [hn] at hs
    cases hc : s.closedVia id with
    | some vr => rcases ht with rfl | rfl <;> cases vr <;> simp [hc,lateFrame] at hs
    | none => rcases ht with rfl | rfl <;> simp [hc] at hs
  | some stream =>
    rw [hn] at hs
    rcases h.node id stream hn with hl | hh
    · exact hl.resolve_right (by simp)
    · rcases ht with rfl | rfl <;> simp [hh.1,validateStreamState] at hs

theorem handleContent_tidy {c : Content} {ty : FrameType} (h : Tidy limits none gn s) (hty
    : raw.type=some ty) (hl : loadContent raw=.ok c) (hh : ty≠.headers) (hc : ty ≠
    .continuation) (hid : ty∈streamOnlyFrameTypes → raw.streamId≠0) (hs : s.streamRefusal ty
    raw.streamId=none) (hp : ty=.priorityUpdate → s.children.get? (ofBigEndian
    (raw.payload.take 4) % 2^31) = none → s.closedVia (ofBigEndian (raw.payload.take 4) % 2^31)
    = none) :
    OnSuccess (handleContent lib limits m raw.streamId raw.payload.length c) s
      fun _ t => t.ending=none → Tidy limits none (gn++departed s raw t) t := by
  have hsa {sc : Option ℕ} {x : ActorM τ Unit} (hx : Moves (Touches sc) x)
      (hli : ∀ id,sc=some id → s.LiveOr none id) :
      OnSuccess x s fun _ t => t.ending=none → Tidy limits none (gn++departed s raw t) t := by
    refine (hx s).partly fun _ t ht _ => ?_
    rw [departed_of_nodes (ht.nodes _),List.append_nil]
    exact h.touch ht hli
  have hn {x : ActorM τ Unit} (hx : Moves (Touches none) x) := hsa hx (by simp)
  unfold loadContent at hl
  rw [hty] at hl
  cases ty with
  | headers => exact absurd rfl hh
  | continuation => exact absurd rfl hc
  | data =>
    cases hpa : dataPayload raw with
    | error e => simp [hpa,Except.map] at hl
    | ok p =>
      simp only [hpa,Except.map,Except.ok.injEq] at hl
      subst hl
      refine hsa (touches_onDataFrame m raw.payload.length raw.endStream p) fun id hsc => ?_
      cases hsc
      exact .inl (h.live_of_passes (hid (by decide)) (.inl rfl) hs)
  | priority =>
    cases hl
    exact hn (.ite voices_touches.resetStream.moves .pure)
  | rstStream =>
    dsimp only at hl
    split_ifs at hl
    cases hl
    unfold handleContent onRstStream
    rw [OnSuccess,ensures_bind,ensures_get]
    cases hno : s.children.get? raw.streamId with
    | none => exact hn touches_connectionError
    | some stream =>
      dsimp only
      rw [ensures_ite,ensures_modify]
      refine ⟨fun _ => hn touches_connectionError,fun _ _ => ?_⟩
      have hso : (s.children.get? raw.streamId).isSome=true := by rw [hno]; rfl
      have hd := departs_reset raw.streamId s true
      have hg : (s.children.pop raw.streamId).get? raw.streamId=none := by
        rw [Dict.get?_pop,if_pos rfl]
      rw [departed,if_pos ⟨hty,hso,hg⟩]
      exact h.depart hd (hid (by decide)) (.inl hso)
  | settings =>
    cases hl
    exact hn (touches_onSettings _ _ _ _)
  | pushPromise =>
    cases hl
    trivial
  | ping =>
    dsimp only at hl
    split_ifs at hl
    cases hl
    exact hn (.ite touches_connectionError (.ite .pure touches_emit))
  | goaway =>
    cases hl
    unfold handleContent finish
    simp
  | windowUpdate =>
    cases hl
    unfold handleContent
    rw [OnSuccess,ensures_bind,ensures_get]
    dsimp only
    rw [ensures_bind,ensures_modify]
    have hw := touches_windowUpdate raw.streamId raw.payload.length (ofBigEndian raw.payload) s
    have hto (answer : WindowAnswer) : Moves
        (Touches (if raw.streamId=0 then none else some raw.streamId))
        (answer.perform m raw.streamId : ActorM τ Unit) :=
      voices_touches.windowAnswer.moves
    refine (hto _ _).partly fun _ t ht _ => ?_
    have ht := trans_of (Touches _) hw ht
    rw [departed_of_nodes (ht.nodes _),List.append_nil]
    refine h.touch ht fun id hsc => ?_
    split_ifs at hsc with hz
    cases hsc
    exact .inl (h.live_of_passes hz (.inr rfl) hs)
  | priorityUpdate =>
    cases hl
    unfold handleContent onPriorityUpdate
    rw [OnSuccess,ensures_modify]
    intro _
    rw [departed_of_type (by simp [hty]),List.append_nil]
    split_ifs with hk
    · exact h
    · rw [not_or,not_or,Option.not_isSome_iff_eq_none,not_le] at hk
      refine h.addNode (fun hg => ?_) (.inr hk.2.2) hk.2.1 s.lastPeerStreamId
      exact closedVia_isSome h hg (hp rfl hk.2.1)

theorem load_reads (raw : RawFrame) (s : Actor τ) (he : raw.endHeaders=true)
    (hl : 0<raw.payload.length) (hb : ∀ d,(HeadersFrame.ofRaw raw).headerBlock≠.error d) :
    OnSuccess (load lib raw) s fun c _ => ∀ f,c=.headers f →
      ∃ b,(HeadersFrame.ofRaw raw).Reads lib s.table b f := by
  simp only [load,ensures_bind,ensures_ofExcept]
  cases hc : loadContent raw with
  | error e => trivial
  | ok c =>
    cases c with
    | headers f =>
      have ht : raw.type=some .headers := (loadContent_loaded lib s.table hc).type.symm
      simp only [loadContent,ht,Except.ok.injEq,Content.headers.injEq] at hc
      subst hc
      dsimp only
      rw [if_pos ⟨hl,he⟩,ensures_bind]
      refine (parsePayload_reads hb s).imp fun p _ hr => ?_
      rintro f hs
      cases hs
      exact hr
    | _ => exact nofun

/-- What loading a frame leaves for its handling. -/
structure Prepared (lib : Library τ) (limits : Limits) (s : Actor τ) (raw : RawFrame)
    (content : Content) (t : Actor τ) : Prop where
  loaded : Loaded lib s.table raw content
  decodes : Decodes (H2.loaded raw) s t
  known : (∃ frame,content=.headers frame) ∨ loadContent raw=.ok content
  table : raw.type≠some .headers → t.table=s.table
  granted : ∀ frame,content=.headers frame → frame.endHeaders=true →
    s.Serves raw.streamId ∨ Granted lib limits (Welcome limits s) s frame

theorem load_prepared (h : Tended lib limits s raw) :
    OnSuccess (load lib raw) s (Prepared lib limits s raw) := by
  have hta : OnSuccess (load lib raw) s fun _ t => raw.type≠some .headers → t.table=s.table := by
    by_cases hh : raw.type=some .headers
    · exact (load_content lib raw s).imp fun _ _ _ hne => absurd hh hne
    · refine (load_other hh s).partly fun _ _ ht _ => ?_
      rw [ht.2]
  have hl := ((load_ensures lib raw s).and (load_content lib raw s)).and hta
  by_cases hn : raw.type=some .headers ∧ raw.endHeaders=true ∧ ¬ s.Serves raw.streamId
  · obtain ⟨hty,he,hs⟩ := hn
    obtain ⟨hle,ha⟩ := (h.headers hty he).resolve_left hs
    refine (hl.and (load_reads raw s he hle ha.block)).partly ?_
    rintro c t ⟨⟨⟨⟨hlo,hd,-⟩,hc⟩,hta⟩,hr⟩
    refine ⟨hlo,hd,hc,hta,fun f hf _ => .inr ?_⟩
    obtain ⟨b,hre⟩ := hr f hf
    exact ha.granted b f hre
  · refine hl.partly ?_
    rintro c t ⟨⟨⟨hlo,hd,-⟩,hc⟩,hta⟩
    refine ⟨hlo,hd,hc,hta,fun f hf he => .inl ?_⟩
    have hty : raw.type=some .headers := by rw [← hlo.type,hf]; rfl
    obtain ⟨_,_,_,hp⟩ := (hlo.headers f hf).parsed
    by_contra hs
    refine hn ⟨hty,?_,hs⟩
    rw [hp] at he
    exact he

theorem openStream_same (s : Actor τ) (ty : FrameType) (id : ℕ) :
    ∃ c lp,s.openStream ty id =
      {s with children:=c,lastPeerStreamId:=lp} := by
  unfold Actor.openStream
  split_ifs
  · exact ⟨_,_,rfl⟩
  · exact ⟨s.children,s.lastPeerStreamId,rfl⟩

theorem departed_congr {u : Actor τ} (h : u.children=s.children) :
    departed u raw t=departed s raw t := by
  have hi : PeerReset u raw t ↔ PeerReset s raw t := by rw [PeerReset,PeerReset,h]
  simp only [departed,hi]

theorem Tidy.live_of_request (h : Tidy limits none gn s) (hr : s.hasRequest id=true) :
    s.Live id := by
  unfold Actor.hasRequest at hr
  cases hn : s.children.get? id with
  | none => simp [hn] at hr
  | some st =>
    rcases h.node id st hn with hl | hh
    · exact hl.resolve_right (by simp)
    · simp [hn,hh.2] at hr

theorem handleContent_headers {f : HeadersFrame} (h : Tidy limits none gn s) (hid : raw.streamId ≠
    0) (hf : s.openBlock=none) (hfr : f.streamId=raw.streamId) (hs : s.streamRefusal .headers
    raw.streamId=none) (hse : f.endHeaders=true → s.Serves raw.streamId ∨ Granted lib limits
    (Welcome limits s) s f) :
    OnSuccess (handleContent lib limits m raw.streamId n (.headers f))
      (s.openStream .headers raw.streamId) fun _ => Tidy limits none gn := by
  obtain ⟨ht,hn⟩ := h.openStream hid hs
  have hr := openStream_hasRequest s .headers raw.streamId
  obtain ⟨c,lp,ho⟩ := openStream_same s .headers raw.streamId
  rw [ho] at ht hn hr ⊢
  refine handleHeaders_tidy m ht hid hn hf hfr (fun htr => ?_) fun he => ?_
  · exact h.live_of_request (hr ▸ htr)
  · refine (hse he).imp_right fun hg => ⟨hg.room,fun an hp => ?_⟩
    obtain ⟨q,ha,hw⟩ := hg.request an hp
    exact ⟨q,ha,hw.websocket,hw.http⟩

def Balanced (limits : Limits) (gone : List ℕ) (s : Actor τ) (raw : RawFrame) (t : Actor τ) :
    Prop :=
  t.ending=none → Tidy limits none (gone++departed s raw t) t

theorem handleFrame_tidy {c : Content} (h : Tidy limits none gn s)
    (ho : Tended lib limits s raw) (hp : Prepared lib limits s raw c t) :
    OnSuccess (handleFrame lib limits m raw c) t fun _ => Balanced limits gn s raw := by
  have ht (ms : MeterKind → RateWindow) : Touches none s {t with meters:=ms} := by
    have hd : Touches none s t := touches_decodes hp.decodes
    exact {hd with}
  have hs (ms : MeterKind → RateWindow) {x : ActorM τ Unit} (hx : Moves (Touches none) x) :
      OnSuccess x {t with meters:=ms} fun _ => Balanced limits gn s raw := by
    refine (hx _).partly fun _ u hu _ => ?_
    have hu := trans_of (Touches none) (ht ms) hu
    rw [departed_of_nodes (hu.nodes _),List.append_nil]
    exact h.touch hu (by simp)
  cases hty : raw.type with
  | none =>
    unfold handleFrame
    rw [OnSuccess,ensures_bind,ensures_get,hty]
    exact hs t.meters (.ite touches_connectionError .pure)
  | some type =>
    refine handleFrame_of_checks hty (fun ms an _ => ?_) ?_
    · exact hs ms voices_touches.perform.moves
    · intro ms hb hf hst
      have hti := h.touch (ht ms) (by simp)
      have hc : t.children=s.children := by rw [hp.decodes.same]
      have hse {id : ℕ} (hse : s.Serves id) : Actor.Serves {t with meters:=ms} id := by
        obtain ⟨iw,hm⟩ := hse
        exact ⟨iw,(ht ms).running ▸ hm⟩
      have hid (hon : type∈streamOnlyFrameTypes) : raw.streamId≠0 := by
        intro hz
        unfold frameRefusal at hf
        split_ifs at hf with _ _ hstr
        exact hstr ⟨hz,hon⟩
      by_cases hh : type=.headers
      · subst hh
        obtain ⟨f,rfl⟩ := hp.loaded.eq_headers hty
        obtain ⟨_,_,_,hpa⟩ := (hp.loaded.headers f rfl).parsed
        have hfr : t.openBlock=none := by simpa using mt hb (by decide)
        refine (handleContent_headers m raw.payload.length hti (hid (by decide)) hfr
          (by rw [hpa]; rfl) hst fun he => ?_).imp fun _ u hu _ => ?_
        · refine (hp.granted f rfl he).imp hse fun hg =>
            ⟨(ht ms).active.trans_lt hg.room,fun an hpar => ?_⟩
          obtain ⟨q,ha,hw⟩ := hg.request an hpar
          refine ⟨q,ha,fun hws => ?_,hw.http⟩
          have hco : t.wsStreamCount=s.wsStreamCount := by rw [hp.decodes.same]
          exact ⟨(hw.websocket hws).1,hco ▸ (hw.websocket hws).2⟩
        · rw [departed_of_type (by simp [hty]),List.append_nil]
          exact hu
      · by_cases hcon : type=.continuation
        · subst hcon
          obtain rfl := hp.loaded.eq_continuation hty
          rw [openStream_of_ne _ hh]
          have hn : (t.children.get? raw.streamId).isSome=true := by
            rcases streamRefusal_continuation t (hid (by decide)) with ⟨code,hr⟩ |
              ⟨stream,code,hr,-⟩ | ⟨-,stream,hn,-⟩
            · cases hr.symm.trans hst
            · cases hr.symm.trans hst
            · rw [hn]
              rfl
          have hope : t.openBlock.isSome=true := by
            rcases frameRefusal_continuation t.openBlock.isSome raw.streamId raw.payload.length with
              ⟨code,hr⟩ | ⟨-,-,hope⟩
            · cases hr.symm.trans hf
            · exact hope
          obtain ⟨f,hope⟩ := Option.isSome_iff_exists.mp hope
          obtain ⟨hsa,hser⟩ := ho.continuation hty f ((ht ms).openBlock.symm.trans hope)
          refine (handleContinuation_tidy m hti (hid (by decide)) hn hope hsa ?_).imp
            fun _ u hu _ => ?_
          · refine hser.imp hse fun h => ⟨h.1,fun he => ?_⟩
            refine ⟨(h.2 he).block,fun b p hre => ?_⟩
            dsimp only at hre
            rw [hp.table (by simp [hty])] at hre
            have hg := (h.2 he).granted b p hre
            exact ⟨(ht ms).active.trans_lt hg.room,hg.request⟩
          · rw [departed_of_type (by simp [hty]),List.append_nil]
            exact hu
        · rw [openStream_of_ne _ hh]
          have hl : loadContent raw=.ok c := by
            refine hp.known.resolve_left ?_
            rintro ⟨f,rfl⟩
            exact hh (Option.some.inj (hty.symm.trans hp.loaded.type.symm))
          refine (handleContent_tidy m hti hty hl hh hcon hid hst ?_).imp fun _ u hu hen => ?_
          · rintro rfl hno
            have hcl := ho.priorityUpdate hty (hc ▸ hno)
            rw [hp.decodes.same]
            exact hcl
          · rw [← departed_congr (u := {t with meters:=ms}) hc]
            exact hu hen

theorem turn_tidy (h : Tidy limits none gn s) (ho : Tended lib limits s raw) :
    OnSuccess (turn lib limits m raw) s fun _ => Balanced limits gn s raw := by
  unfold turn
  rw [OnSuccess,ensures_bind,ensures_get,ensures_ite,ensures_ite]
  refine ⟨fun _ => by rintro ⟨⟩,fun _ => ⟨fun _ => ?_,fun _ => ?_⟩⟩
  · simp [connectionError,finish,goaway,Balanced]
  · rw [ensures_bind]
    exact (load_prepared ho).imp fun _ _ hp => handleFrame_tidy m h ho hp

end BlackBull.H2
