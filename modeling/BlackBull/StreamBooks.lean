import BlackBull.ResetDelivery

/-!
# The books of a connection

Nodes of the stream tree, senders and recipients are kept by stream identifier. `Tidy` says that
whatever is kept belongs to a live stream or is the node of a priority hint, and how many hints
there can be. Each operation keeps it, as long as it touches a live stream only.
-/

namespace BlackBull.H2

variable {τ : Type} {lim : Limits}

namespace Actor

def Serves (s : Actor τ) (streamId : ℕ) : Prop := ∃ isWs,(streamId,isWs)∈s.running

/-- The stream is served, or its header block is still coming in. -/
def Live (s : Actor τ) (streamId : ℕ) : Prop :=
  s.Serves streamId ∨ ∃ frame,s.openBlock=some frame ∧ frame.streamId=streamId

def Equips (s : Actor τ) (streamId : ℕ) : Prop :=
  (s.windows.senders.get? streamId).isSome=true ∨ (s.recipients.get? streamId).isSome=true

def Holds (s : Actor τ) (streamId : ℕ) : Prop :=
  (s.children.get? streamId).isSome=true ∨ s.Equips streamId

def LiveOr (opening : Option ℕ) (s : Actor τ) (streamId : ℕ) : Prop :=
  s.Live streamId ∨ opening=some streamId

end Actor

/-- The node of a stream without a request: a priority hint, unless it is being opened. -/
def Stream.Hint (stream : Stream) : Prop := stream.state=.idle ∧ stream.request=none

/-- The books are in order, but for the stream being opened. -/
structure Tidy (limits : Limits) (opening : Option ℕ) (gone : List ℕ) (s : Actor τ) : Prop where
  node : ∀ id stream,s.children.get? id=some stream → s.LiveOr opening id ∨ stream.Hint
  equips : ∀ id,s.Equips id → s.LiveOr opening id
  known : ∀ id,s.Serves id → id≠0 ∧ ((s.children.get? id).isSome=true ∨ id∈gone)
  closed : ∀ id∈gone,s.children.get? id=none ∧ 0 < id ∧ id ≤ s.closedHighWater
  hints : ∀ ids : List ℕ,ids.Nodup →
    (∀ id∈ids,(s.children.get? id).isSome=true ∧ ¬ s.LiveOr opening id) →
      ids.length≤limits.maxConcurrentStreams
  counted : s.running.length ≤ s.activeStreamCount
  limit : s.activeStreamCount≤limits.maxConcurrentStreams

/-- Only the entries of the stream in scope change, and its node does not come or go. -/
structure Touches (scope : Option ℕ) (s t : Actor τ) : Prop where
  nodes : ∀ id,(t.children.get? id).isSome=(s.children.get? id).isSome
  others : ∀ id,scope≠some id → t.children.get? id=s.children.get? id
  equips : ∀ id,scope≠some id → t.Equips id → s.Equips id
  running : t.running=s.running
  active : t.activeStreamCount=s.activeStreamCount
  openBlock : t.openBlock=s.openBlock
  highWater : t.closedHighWater=s.closedHighWater

variable {scope : Option ℕ}

instance : IsPreorder (Actor τ) (Touches scope) where
  refl _ := ⟨fun _ => rfl,fun _ _ => rfl,fun _ _ => id,rfl,rfl,rfl,rfl⟩
  trans _ _ _ h h' :=
    ⟨fun id => (h'.nodes id).trans (h.nodes id),
      fun id hid => (h'.others id hid).trans (h.others id hid),
      fun id hid ht => h.equips id hid (h'.equips id hid ht),h'.running.trans h.running,
      h'.active.trans h.active,h'.openBlock.trans h.openBlock,h'.highWater.trans h.highWater⟩

theorem liveOr_congr (o : Option ℕ) {s t : Actor τ} (hr : t.running=s.running)
    (hb : t.openBlock=s.openBlock) (id : ℕ) : t.LiveOr o id ↔ s.LiveOr o id := by
  simp only [Actor.LiveOr,Actor.Live,Actor.Serves,hr,hb]

theorem Tidy.touch {o : Option ℕ} {gone : List ℕ} {s t : Actor τ}
    (h : Tidy lim o gone s) (ht : Touches scope s t)
    (hl : ∀ id,scope=some id → s.LiveOr o id) : Tidy lim o gone t := by
  have hc := liveOr_congr o ht.running ht.openBlock
  refine ⟨fun id st hs => ?_,fun id he => ?_,fun id hse => ?_,
    fun id hg => ?_,fun ids hn hi => h.hints ids hn fun id hid => ?_,?_,?_⟩
  · rw [hc]
    by_cases hid : scope=some id
    · exact .inl (hl id hid)
    · exact h.node id st (ht.others id hid ▸ hs)
  · rw [hc]
    by_cases hid : scope=some id
    · exact hl id hid
    · exact h.equips id (ht.equips id hid he)
  · rw [ht.nodes]
    exact h.known id (by simpa only [Actor.Serves,ht.running] using hse)
  · obtain ⟨hno,hp,hle⟩ := h.closed id hg
    refine ⟨?_,hp,ht.highWater ▸ hle⟩
    simpa [hno] using ht.nodes id
  · obtain ⟨hno,hd⟩ := hi id hid
    exact ⟨ht.nodes id ▸ hno,fun ha => hd ((hc id).mpr ha)⟩
  · rw [ht.running,ht.active]
    exact h.counted
  · rw [ht.active]
    exact h.limit

theorem touches_update {f : Actor τ → Actor τ}
    (hf : ∀ s,((f s).children,(f s).windows,(f s).recipients,(f s).running,
      (f s).activeStreamCount,(f s).openBlock,(f s).closedHighWater) =
        (s.children,s.windows,s.recipients,s.running,s.activeStreamCount,s.openBlock,
          s.closedHighWater)) : Moves (Touches scope) (modify f : ActorM τ PUnit) := by
  intro s
  have h := hf s
  simp only [Prod.mk.injEq] at h
  obtain ⟨hc,hw,hr,hru,ha,hb,hh⟩ := h
  refine ⟨fun id => by rw [hc],fun id _ => by rw [hc],fun id _ he => ?_,hru,ha,hb,hh⟩
  simpa only [Actor.Equips,hw,hr] using he

theorem touches_emit {f : OutFrame} : Moves (Touches scope) (emit f : ActorM τ Unit) :=
  touches_update fun _ => rfl

theorem voices_touches {streamId : ℕ} : Voices (Touches (τ := τ) scope) streamId :=
  ⟨fun _ _ => touches_emit,fun _ => touches_update fun _ => rfl,
    fun s ms => touches_update (f := fun s => {s with meters:=ms}) (fun _ => rfl) s⟩

theorem touches_connectionError {c : ErrorCode} :
    Moves (Touches scope) (connectionError c : ActorM τ Unit) :=
  (voices_touches : Voices _ 0).connectionError.moves

variable (moment : Moment)

theorem touches_windows {s : Actor τ} {ws : SendWindows}
    (h : ∀ id,scope≠some id → (ws.senders.get? id).isSome=true →
      (s.windows.senders.get? id).isSome=true) : Touches scope s {s with windows:=ws} :=
  ⟨fun _ => rfl,fun _ _ => rfl,fun id hid he => he.imp_left (h id hid),rfl,rfl,rfl,rfl⟩

theorem touches_recipients {s : Actor τ} {r : Dict ℕ Recipient}
    (h : ∀ id,scope≠some id → (r.get? id).isSome=true →
      (s.recipients.get? id).isSome=true) : Touches scope s {s with recipients:=r} :=
  ⟨fun _ => rfl,fun _ _ => rfl,fun id hid he => he.imp_right (h id hid),rfl,rfl,rfl,rfl⟩

theorem isSome_get?_set {α : Type} {xs : Dict ℕ α} {key o : ℕ} {v : α}
    (hne : some key≠some o) (h : ((xs.set key v).get? o).isSome=true) :
    (xs.get? o).isSome=true := by
  rw [Dict.get?_set,if_neg] at h
  · exact h
  · rintro rfl
    exact hne rfl

variable (streamId : ℕ)

theorem touches_setRecipient (rc : Recipient) (s : Actor τ) :
    Touches (some streamId) s {s with recipients:=s.recipients.set streamId rc} :=
  touches_recipients fun _ => isSome_get?_set

theorem touches_tellRecipient (i : Item) (s : Actor τ) :
    Touches scope s (s.tellRecipient streamId i) := by
  unfold Actor.tellRecipient
  split
  · exact refl_of (Touches scope) s
  case h_2 recipient hr =>
    refine touches_recipients fun id _ hs => ?_
    rw [Dict.get?_set] at hs
    split_ifs at hs with hsa
    · subst hsa
      simp [hr]
    · exact hs

theorem touches_modifyStream (f : Stream → Stream) (s : Actor τ) :
    Touches (some streamId) s (s.modifyStream streamId f) := by
  unfold Actor.modifyStream
  split
  · exact refl_of (Touches _) s
  case h_2 stream hs =>
    refine ⟨fun id => ?_,fun id hid => ?_,fun _ _ => id,rfl,rfl,rfl,rfl⟩
    · dsimp only
      rw [Dict.get?_set]
      split_ifs with hsa
      · subst hsa
        simp [hs]
      · rfl
    · dsimp only
      rw [Dict.get?_set,if_neg fun hsa => hid (congrArg some hsa)]

theorem touches_makeSender (s : Actor τ) :
    Touches (some streamId) s {s with windows:=s.windows.makeSender streamId} := by
  refine touches_windows fun id hid hs => ?_
  unfold SendWindows.makeSender at hs
  split at hs
  · exact hs
  · exact isSome_get?_set hid hs

theorem isSome_creditStream (w : SendWindows) (n : ℤ) (id : ℕ) :
    ((w.creditStream streamId n).senders.get? id).isSome =
      (w.senders.get? id).isSome := by
  unfold SendWindows.creditStream
  split
  · rfl
  case h_2 window hw =>
    dsimp only
    rw [Dict.get?_set]
    split_ifs with hs
    · subst hs
      simp [hw]
    · rfl

theorem touches_windowUpdate (n i : ℕ) (s : Actor τ) :
    Touches (if streamId=0 then none else some streamId) s
      {s with windows:=(s.windows.windowUpdate streamId n i).2} := by
  rcases s.windows.windowUpdate_cases streamId n i with ⟨-,heq⟩ | ⟨-,heq⟩ | ⟨hid,-,heq⟩ | ⟨hid,heq⟩
  · rw [heq]
    exact refl_of (Touches _) s
  · rw [heq]
    exact touches_windows fun _ _ => id
  · rw [heq,if_neg hid]
    exact touches_makeSender streamId s
  · rw [heq,if_neg hid]
    refine trans_of (Touches _) (touches_makeSender streamId s) (touches_windows fun id _ => ?_)
    exact (isSome_creditStream streamId _ _ id).le

theorem touches_applySettings (n : ℕ) (cfg : Settings) (s : Actor τ) :
    Touches scope s {s with windows:=(s.windows.applySettings n cfg).2} := by
  refine touches_windows fun id _ hs => ?_
  have hsh := (s.windows.applySettings_shifted n cfg).1.2 id
  rw [← Option.isSome_map,hsh,Option.isSome_map] at hs
  exact hs

section Coming

variable {streamId} {gn : List ℕ} {s t : Actor τ}

/-- The books stay in order as long as what is live stays so. -/
theorem Tidy.relive {o o' : Option ℕ} {b : Option HeadersFrame} {n : ℕ} {r : List (ℕ × Bool)}
    {d : List Dispatch} (h : Tidy lim o gn s)
    (hl : ∀ {id},s.LiveOr o id → Actor.LiveOr o' {s with
      openBlock:=b,activeStreamCount:=n,running:=r,dispatched:=d} id)
    (hk : ∀ id,(∃ ws,(id,ws)∈r) → id≠0 ∧ ((s.children.get? id).isSome=true ∨ id∈gn))
    (hc : r.length≤n) (hn : n≤lim.maxConcurrentStreams) :
    Tidy lim o' gn {s with openBlock:=b,activeStreamCount:=n,running:=r,dispatched:=d} :=
  ⟨fun id st hs => (h.node id st hs).imp_left hl,fun id he => hl (h.equips id he),hk,h.closed,
    fun ids hno hi => h.hints ids hno fun id hid =>
      ⟨(hi id hid).1,fun ho => (hi id hid).2 (hl ho)⟩,hc,hn⟩

theorem Tidy.open (h : Tidy lim none gn s) (streamId : ℕ) : Tidy lim (some streamId) gn s :=
  h.relive (fun hl => .inl (hl.resolve_right nofun)) h.known h.counted h.limit

theorem Tidy.settle (h : Tidy lim (some streamId) gn s) (hl : s.Live streamId) :
    Tidy lim none gn s := by
  refine h.relive (fun ho => .inl ?_) h.known h.counted h.limit
  rcases ho with hl' | hs
  · exact hl'
  · cases hs
    exact hl

theorem Tidy.setBlock (h : Tidy lim (some streamId) gn s)
    (hb : ∀ f,s.openBlock=some f → f.streamId=streamId) (b : Option HeadersFrame) :
    Tidy lim (some streamId) gn {s with openBlock:=b} := by
  refine h.relive (fun hl => ?_) h.known h.counted h.limit
  rcases hl with (hs | ⟨f,hf,hid⟩) | hsa
  · exact .inl (.inl hs)
  · exact .inr (congrArg some ((hb f hf).symm.trans hid))
  · exact .inr hsa

theorem Tidy.serve (h : Tidy lim (some streamId) gn s) {iw : Bool}
    {d : List Dispatch} (hid : streamId≠0) (hn : (s.children.get? streamId).isSome=true)
    (hr : s.activeStreamCount<lim.maxConcurrentStreams) :
    Tidy lim (some streamId) gn {s with
      activeStreamCount:=s.activeStreamCount+1
      running:=s.running++[(streamId,iw)]
      dispatched:=d} := by
  refine h.relive (fun hl => ?_) ?_ (by simpa using h.counted) hr
  · rcases hl with (⟨ws,hme⟩ | hb) | hs
    · exact .inl (.inl ⟨ws,List.mem_append_left _ hme⟩)
    · exact .inl (.inr hb)
    · exact .inr hs
  · rintro id ⟨ws,hme⟩
    rcases List.mem_append.mp hme with hme | hme
    · exact h.known id ⟨ws,hme⟩
    · cases List.mem_singleton.mp hme
      exact ⟨hid,.inl hn⟩

theorem Tidy.addNode {o : Option ℕ} (h : Tidy lim o gn s) (hg : streamId∉gn)
    (hr : s.LiveOr o streamId ∨ s.children.length<lim.maxConcurrentStreams)
    (hn : s.children.get? streamId=none) (lp : ℕ) :
    Tidy lim o gn {s with
      children:=s.children.set streamId {},lastPeerStreamId:=lp} := by
  have hge (id : ℕ) : (s.children.set streamId {}).get? id =
      if streamId=id then some {} else s.children.get? id := Dict.get?_set _ _ _ _
  refine ⟨fun id st hs => ?_,h.equips,fun id hse => ?_,fun id hid => ?_,
    fun ids hno hi => ?_,h.counted,h.limit⟩
  · dsimp only at hs
    rw [hge] at hs
    split_ifs at hs
    · cases hs
      exact .inr ⟨rfl,rfl⟩
    · exact h.node id st hs
  · refine ⟨(h.known id hse).1,(h.known id hse).2.imp_left fun hso => ?_⟩
    dsimp only
    rw [hge]
    split_ifs
    · rfl
    · exact hso
  · have hne : streamId≠id := by
      rintro rfl
      exact hg hid
    dsimp only
    rw [hge,if_neg hne]
    exact h.closed id hid
  · rcases hr with hl | hr
    · refine h.hints ids hno fun id hid => ?_
      obtain ⟨hso,hd⟩ := hi id hid
      dsimp only at hso
      rw [hge,if_neg] at hso
      · exact ⟨hso,hd⟩
      · rintro rfl
        exact hd hl
    · have hk : ids ⊆ (s.children.set streamId ({} : Stream)).map Prod.fst := by
        intro id hid
        obtain ⟨st,hs⟩ := Option.isSome_iff_exists.mp (hi id hid).1
        exact List.mem_map_of_mem (Dict.mem_of_get? hs)
      have hle := (hno.subperm hk).length_le
      rw [List.length_map,Dict.set_of_get?_eq_none _ hn,List.length_append,
        List.length_singleton] at hle
      omega

end Coming

section Going

variable {streamId} {go : List ℕ} {s : Actor τ}

/-- What is left of a stream that is over: nothing but its handlers, and the mark. -/
structure Departs (streamId : ℕ) (s t : Actor τ) : Prop where
  nodes : ∀ id,t.children.get? id=if streamId=id then none else s.children.get? id
  equips : ∀ id,t.Equips id → streamId≠id ∧ s.Equips id
  running : ∀ id isWs,id≠streamId → ((id,isWs)∈t.running ↔ (id,isWs)∈s.running)
  served : t.Serves streamId → s.Serves streamId
  openBlock : t.openBlock=s.openBlock
  highWater : s.closedHighWater≤t.closedHighWater
  marked : (s.children.get? streamId).isSome=true → streamId≤t.closedHighWater
  counted : s.running.length ≤ s.activeStreamCount → t.running.length≤t.activeStreamCount
  active : t.activeStreamCount ≤ s.activeStreamCount

theorem Departs.serves {t : Actor τ} (h : Departs streamId s t) {id : ℕ} (hs : t.Serves id) :
    s.Serves id := by
  by_cases hid : id=streamId
  · subst hid
    exact h.served hs
  · obtain ⟨iw,hm⟩ := hs
    exact ⟨iw,(h.running id iw hid).mp hm⟩

theorem Departs.liveOr {t : Actor τ} (h : Departs streamId s t) {id : ℕ} (hid : streamId≠id)
    (hl : s.LiveOr none id) : t.LiveOr none id := by
  rcases hl with (⟨iw,hm⟩ | ⟨f,hf,hs⟩) | hn
  · exact .inl (.inl ⟨iw,(h.running id iw (Ne.symm hid)).mpr hm⟩)
  · exact .inl (.inr ⟨f,h.openBlock.trans hf,hs⟩)
  · cases hn

theorem Tidy.depart {t : Actor τ} (h : Tidy lim none go s) (hd : Departs streamId s t)
    (hid : streamId≠0) (hk : (s.children.get? streamId).isSome=true ∨ streamId∈go) :
    Tidy lim none (go++[streamId]) t := by
  have hs : t.children.get? streamId=none := by rw [hd.nodes,if_pos rfl]
  refine ⟨fun id st hst => ?_,fun id he => ?_,fun id hse => ?_,
    fun id hg => ?_,fun ids hn hi => h.hints ids hn fun id hid => ?_,
    hd.counted h.counted,hd.active.trans h.limit⟩
  · rw [hd.nodes] at hst
    split_ifs at hst with hsa
    exact (h.node id st hst).imp_left (hd.liveOr hsa)
  · obtain ⟨hne,he⟩ := hd.equips id he
    exact hd.liveOr hne (h.equips id he)
  · obtain ⟨hp,hno⟩ := h.known id (hd.serves hse)
    refine ⟨hp,?_⟩
    rw [hd.nodes]
    split_ifs with hsa
    · exact .inr (List.mem_append_right _ (List.mem_singleton.mpr hsa.symm))
    · exact hno.imp_right (List.mem_append_left _)
  · rcases List.mem_append.mp hg with hg | hg
    · obtain ⟨hno,hp,hle⟩ := h.closed id hg
      refine ⟨?_,hp,hle.trans hd.highWater⟩
      rw [hd.nodes,hno,ite_self]
    · obtain rfl := List.mem_singleton.mp hg
      refine ⟨hs,Nat.pos_of_ne_zero hid,?_⟩
      rcases hk with hno | hg
      · exact hd.marked hno
      · exact (h.closed id hg).2.2.trans hd.highWater
  · obtain ⟨hso,hde⟩ := hi id hid
    rw [hd.nodes] at hso
    split_ifs at hso with hsa
    · cases hso
    · exact ⟨hso,fun hl => hde (hd.liveOr hsa hl)⟩

theorem equips_dropped {id : ℕ}
    (h : (((s.windows.dropSender streamId).senders.get? id).isSome=true ∨
      ((s.recipients.pop streamId).get? id).isSome=true)) : streamId≠id ∧ s.Equips id := by
  rw [SendWindows.dropSender,Dict.get?_pop,Dict.get?_pop] at h
  split_ifs at h with hs
  · simp at h
  · exact ⟨hs,h⟩

theorem departs_reset (streamId : ℕ) (s : Actor τ) (vr : Bool) : Departs streamId s
    { ({s with children:=s.children.pop streamId}).markClosed streamId vr with
      windows:=s.windows.dropSender streamId
      recipients:=s.recipients.pop streamId} where
  nodes _ := Dict.get?_pop _ _ _
  equips _ := equips_dropped
  running _ _ _ := Iff.rfl
  served := id
  openBlock := rfl
  highWater := le_max_left _ _
  marked _ := le_max_right _ _
  counted := id
  active := le_rfl

theorem departs_taskDone {iw : Bool} (h : (streamId,iw)∈s.running) :
    Departs streamId s (s.taskDone streamId iw) := by
  have hn (id : ℕ) (hno : s.children.get? streamId=none) : s.children.get? id =
      if streamId=id then none else s.children.get? id := by
    split_ifs with hs
    · rw [← hs,hno]
    · rfl
  have he (id : ℕ) (ws : Bool) (hid : id≠streamId) :
      (id,ws)∈s.running.erase (streamId,iw) ↔ (id,ws)∈s.running :=
    List.mem_erase_of_ne fun hs => hid (congrArg Prod.fst hs)
  have hc (hle : s.running.length ≤ s.activeStreamCount) :
      (s.running.erase (streamId,iw)).length ≤ s.activeStreamCount - 1 := by
    rw [List.length_erase_of_mem h]
    omega
  have hse : (∃ ws,(streamId,ws)∈s.running.erase (streamId,iw)) → s.Serves streamId := by
    rintro ⟨ws,hm⟩
    exact ⟨ws,List.mem_of_mem_erase hm⟩
  unfold Actor.taskDone
  dsimp only
  generalize (if iw = true then s.wsStreamCount - 1 else s.wsStreamCount) = count
  split_ifs with hso
  · exact ⟨fun id => Dict.get?_pop _ _ _,fun _ => equips_dropped,he,hse,rfl,
      le_max_left _ _,fun _ => le_max_right _ _,hc,Nat.sub_le _ _⟩
  · have hno : s.children.get? streamId=none := by simpa using hso
    refine ⟨fun id => hn id hno,fun _ => equips_dropped,he,hse,rfl,le_rfl,
      fun hso => ?_,hc,Nat.sub_le _ _⟩
    simp [hno] at hso

theorem Tidy.taskDone (h : Tidy lim none go s) {iw : Bool} (hr : (streamId,iw)∈s.running) :
    Tidy lim none (go++[streamId]) (s.taskDone streamId iw) := by
  obtain ⟨hid,hk⟩ := h.known streamId ⟨iw,hr⟩
  exact h.depart (departs_taskDone hr) hid hk

end Going

end BlackBull.H2
