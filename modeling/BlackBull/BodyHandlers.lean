import BlackBull.BodyAccounts
import BlackBull.TameFrames

/-!
# The handlers and the ends of bodies

What each handler of a frame does to the accounts of `BodyAccounts`: DATA moves the counter of its
stream with the tally, a request starts a node at zero, everything else leaves the counters alone.
-/

namespace BlackBull.H2

open ByteString HeadParser

variable {τ : Type} (lib : Library τ) (lim : Limits)

section Data

variable {old s : Actor τ} {ta t' : ℕ → ℕ} {sid : ℕ} {stream : Stream}

theorem Told.tell (h : Told old ta s) {i : Item} (hf : i.ends=true → ∀ request ∈
    s.dispatched,request.streamId=sid → request.request.LengthFits (ta sid)) :
    Told old ta (s.tellRecipient sid i) := by
  refine ⟨fun o hold hn request hm hid => ?_,by rw [tellRecipient_same]; exact h.2⟩
  rw [toldComplete_tellRecipient,Bool.or_eq_true] at hn
  rw [tellRecipient_same] at hm
  rcases hn with hs | hi
  · exact h.1 o hold hs request hm hid
  · simp only [Bool.and_eq_true,decide_eq_true_eq] at hi
    obtain ⟨⟨rfl,-⟩,he⟩ := hi
    exact hf he request hm hid

theorem Holds.tell (h : Holds old ta s) {i : Item} (hf : i.ends=true → ∀ request ∈
    s.dispatched,request.streamId=sid → request.request.LengthFits (ta sid)) :
    Holds old ta (s.tellRecipient sid i) := by
  refine ⟨fun hl => ?_,h.told.tell hf⟩
  rw [tellRecipient_same] at hl ⊢
  exact {h.accounted hl with}

theorem deliver_holds (h : Holds old ta s) (m : Moment) (n : ℕ) (es : Bool) (p : Bytes) (rc :
    Recipient) (hf : es=true → ∀ request∈s.dispatched,request.streamId=sid →
    request.request.LengthFits (ta sid)) : Ensures (deliver m sid n es p rc) s
      (fun _ => Holds old ta) (fun _ => Holds old ta) := by
  have ht : Holds old ta (s.tellRecipient sid (.data p es)) := h.tell hf
  simp only [deliver,ensures_ite,ensures_bind,ensures_modify,ensures_pure]
  refine ⟨fun _ => ⟨fun _ => ?_,fun _ => ht⟩,fun _ => ⟨fun _ => ht,fun _ => ?_⟩⟩
  · exact (ht.moves still_emit).imp fun _ _ h => h.moves still_emit
  · exact (h.moves voices_still.resetStream.moves).imp fun _ _ h =>
      h.still (still_tellRecipient _ sid rfl)

/-- Every request served on the stream fits a body whose length its node does not contradict. -/
theorem NodeAccounted.fits (h : NodeAccounted ta s sid stream)
    (hs : stream.request.isSome=true) {t : ℕ} (ht : ∀ n∈stream.expectedContentLength,n=t) :
    ∀ request∈s.dispatched,request.streamId=sid → request.request.LengthFits t := by
  intro request hm hid
  obtain ⟨he,hc⟩ := h.expected _ (h.given request hm hid hs)
  exact hc.fits fun n hn => ht n (he.trans hn)

theorem onDataFrame_holds (h : Accounted ta s) (ho : s.openBlock=none) (ht : Told old t' s)
    (hno : s.children.get? sid=some stream) (hs : stream.state≠.idle) (hr :
    stream.receiving) (m : Moment) (len : ℕ) (es : Bool) (p : Bytes) (hot : ∀ o,o≠sid →
    t' o=ta o) (hta : t' sid=ta sid+p.length) :
    Ensures (onDataFrame m sid len es p) s
      (fun _ => Holds old t') (fun _ => Holds old t') := by
  have hn := h.node hno
  have hso : stream.request.isSome=true := by
    rw [← Option.ne_none_iff_isSome]
    exact fun hnon => hs (hn.idle hnon)
  have hre : stream.receivedDataBytes+p.length=t' sid := by rw [hta,hn.counted hso hr]
  simp only [onDataFrame,ensures_bind,ensures_get,hno,ensures_ite,ensures_modify]
  generalize hs' : s.modifyStream sid _=s'
  have hn' := hs' ▸ get?_modifyStream hno _
  rw [modifyStream_eq hno] at hs'
  have hsa : s'.openBlock=none ∧ s'.dispatched=s.dispatched := by
    rw [← hs']
    exact ⟨ho,rfl⟩
  -- the counter moves on with the tally
  have hc : Holds old t' s' := by
    rw [← hs']
    exact ⟨fun _ => h.set ho hot ⟨hn.idle,fun _ _ => hre,hn.given,hn.expected⟩,ht⟩
  refine ⟨fun hd => ?_,fun _ => ⟨fun _ => ?_,fun hf => ?_⟩⟩
  · exact absurd hd (not_or.mpr hr)
  · exact hc.moves voices_still.resetStream.moves
  · generalize hu : s'.modifyStream sid _=u
    have hm : Holds old t' u := by
      rw [← hu]
      refine hc.modifyStream hsa.1 fun node hg hold => ?_
      obtain rfl : _=node := Option.some.inj (hn'.symm.trans hg)
      refine ⟨fun hnon => ?_,fun _ _ => hre,hold.given,hold.expected⟩
      simp [show stream.request=none from hnon] at hso
    have hdi : u.dispatched=s.dispatched := by
      rw [← hu,modifyStream_same]
      exact hsa.2
    cases u.recipients.get? sid with
    | none => exact hm
    | some rc =>
      refine deliver_holds hm m len es p rc fun he => ?_
      rw [hdi,← hre]
      refine hn.fits hso fun n hexp => ?_
      have hexp : stream.expectedContentLength=some n := hexp
      simp only [hexp,Option.any_some,he,Bool.true_and,Bool.or_eq_true,
        decide_eq_true_eq,not_or] at hf
      omega

end Data

section Requests

variable {old s : Actor τ} {ta : ℕ → ℕ} {sid : ℕ} {req : Request}

/-- A stream gets its recipient before any request is served on it. -/
theorem Holds.setRecipient (h : Holds old ta s)
    (hn : ∀ g∈s.dispatched,g.streamId≠sid) (rc : Recipient) :
    Holds old ta {s with recipients:=s.recipients.set sid rc} := by
  refine ⟨fun hl => ?_,fun o hold ht g hm hid => ?_,h.told.2⟩
  · exact {h.accounted hl with}
  · have hne : sid≠o := fun heq => hn g hm (hid.trans heq.symm)
    refine h.told.1 o hold ?_ g hm hid
    simpa [Actor.toldComplete,Dict.get?_set,hne] using ht

theorem dispatch_holds (h : Holds old ta s) (iw : Bool) (f : HeadersFrame)
    (hn : ∀ stream,s.children.get? sid=some stream → stream.request=some req)
    (hf : s.toldComplete sid=true → req.LengthFits (ta sid)) :
    Ensures (dispatch sid iw f req) s (fun _ => Holds old ta)
      (fun _ => Holds old ta) := by
  refine ⟨fun hl => ?_,fun o hold ht g hm hid => ?_,h.told.2⟩
  · refine {h.accounted hl with given:=fun g hm => ?_}
    rcases List.mem_append.mp hm with hm | hm
    · exact (h.accounted hl).given g hm
    · rw [List.mem_singleton.mp hm]
      exact fun stream hge _ => hn stream hge
  · rcases List.mem_append.mp hm with hm | hm
    · exact h.told.1 o hold ht g hm hid
    · rw [List.mem_singleton.mp hm] at hid ⊢
      subst hid
      exact hf ht

/-- A node that is served for the first time. -/
structure Unserved (s : Actor τ) (streamId : ℕ) : Prop where
  free : s.openBlock=none
  new : ∀ given∈s.dispatched,given.streamId≠streamId

theorem NodeAccounted.state {stream : Stream} (h : NodeAccounted ta s sid stream)
    (hr : stream.request=some req) (hi : stream.state=.idle)
    (sx : StreamState) : NodeAccounted ta s sid {stream with state:=sx} := by
  have hre : stream.receiving := by simp [Stream.receiving,hi]
  refine ⟨fun hn => ?_,fun hs _ => h.counted hs hre,h.given,h.expected⟩
  simp [show stream.request=none from hn] at hr

variable {stream : Stream}

theorem onHttpRequest_holds (h : Holds old ta s) (hs : Unserved s sid) (hn : s.children.get?
    sid=some stream) (hr : stream.request=some req) (hi : stream.state=.idle) (m :
    Moment) (f : HeadersFrame) (hf : f.endStream=true → req.LengthFits (ta sid)) :
    Ensures (onHttpRequest lim m sid f req) s (fun _ => Holds old ta)
      (fun _ => Holds old ta) := by
  unfold onHttpRequest
  rw [ensures_bind]
  refine (voices_still.refuseOversizedDeclaredBody lim m req s).mono
    (fun r t hst => ?_) fun _ _ hst => h.still hst
  have ht := h.still hst
  rw [← hst.children] at hn
  have hfr : t.openBlock=none := hst.openBlock.trans hs.free
  have hne : ∀ g∈t.dispatched,g.streamId≠sid := hst.dispatched ▸ hs.new
  simp only [ensures_ite,ensures_bind,ensures_modify,ensures_pure]
  refine ⟨fun _ => ht,fun _ => ?_⟩
  have hta := ht.setRecipient hne {endOfStreamOnHeaders:=f.endStream}
  generalize hu : t.recipients.set sid {endOfStreamOnHeaders:=f.endStream} =
    recipients at hta ⊢
  have hto : Actor.toldComplete {t with recipients:=recipients} sid=f.endStream := by
    simp [Actor.toldComplete,← hu,Dict.get?_set,Recipient.complete]
  have hg : Dict.get? (Actor.children {t with recipients:=recipients}) sid = some stream := hn
  refine dispatch_holds (hta.modifyStream hfr fun node hn' hold => ?_) false f ?_ ?_
  · obtain rfl : stream=node := Option.some.inj (hn.symm.trans hn')
    exact hold.state hr hi _
  · intro node hn'
    obtain rfl := Option.some.inj ((get?_modifyStream hg _).symm.trans hn')
    exact hr
  · rw [toldComplete_modifyStream,hto]
    exact hf

theorem onWebsocketRequest_holds (h : Holds old ta s) (hs : Unserved s sid)
    (hn : s.children.get? sid=some stream) (hr : stream.request=some req)
    (hi : stream.state=.idle) (m : Moment) (f : HeadersFrame) :
    Ensures (onWebsocketRequest lim m sid f req) s
      (fun _ => Holds old ta) (fun _ => Holds old ta) := by
  simp only [onWebsocketRequest,handleH2Websocket,ensures_ite,ensures_bind,ensures_modify,
    ensures_get]
  generalize ht : s.modifyStream sid _=t
  have ho : Holds old ta t := by
    rw [← ht]
    refine h.modifyStream hs.free fun node hg hold => ?_
    obtain rfl : stream=node := Option.some.inj (hn.symm.trans hg)
    exact hold.state hr hi _
  have hg := ht ▸ get?_modifyStream hn _
  refine ⟨fun _ => h.moves voices_still.resetStream.moves,fun _ => ⟨fun _ => ?_,fun _ => ?_⟩⟩
  · exact ho.moves voices_still.resetStream.moves
  · have hd : t.dispatched=s.dispatched := by rw [← ht,modifyStream_same]
    have ht := (ho.setRecipient (hd ▸ hs.new) {websocket:=true}).still
      (t := {t with
        recipients:=t.recipients.set sid {websocket:=true},wsStreamCount:=t.wsStreamCount+1})
      ⟨rfl,rfl,rfl,rfl,rfl,rfl,fun _ => id,id⟩
    refine dispatch_holds ht true f ?_ ?_
    · intro node hn'
      obtain rfl := Option.some.inj (hg.symm.trans hn')
      exact hr
    · intro hto
      simp [Actor.toldComplete,Dict.get?_set,Recipient.complete] at hto

theorem nodeAccounted_read {stream : Stream} (hi : stream.state=.idle)
    (hc : stream.receivedDataBytes=ta sid)
    (hn : ∀ g∈s.dispatched,g.streamId≠sid) (hco : req.Consistent) :
    NodeAccounted ta s sid {stream with
      expectedContentLength:=extractContentLength req,request:=some req} := by
  refine ⟨fun _ => hi,fun _ _ => hc,fun g hm hid => ?_,fun o ho => ?_⟩
  · exact absurd hid (hn g hm)
  · obtain rfl : req=o := Option.some.inj ho
    exact ⟨rfl,hco⟩

theorem onRequestHeaders_holds (h : Holds old ta s) (hs : Unserved s sid) (hn :
    s.children.get? sid=some stream) (hi : stream.state=.idle) (hc :
    stream.receivedDataBytes=ta sid) (m : Moment) (f : HeadersFrame) (hr : ∀ req,
    parseHeaders lib f=.ok (.ok req) → req.Consistent ∧ (f.endStream=true →
    req.LengthFits (ta sid))) :
    Ensures (onRequestHeaders lib lim m sid f) s (fun _ => Holds old ta)
      (fun _ => Holds old ta) := by
  simp only [onRequestHeaders,ensures_bind,ensures_get,ensures_ite,ensures_ofExcept]
  refine ⟨fun _ => h.moves voices_still.resetStream.moves,fun _ => ?_⟩
  cases hp : parseHeaders lib f with
  | error e => exact h
  | ok r =>
    cases r with
    | error d => exact h.moves voices_still.resetStream.moves
    | ok req =>
      obtain ⟨hco,hf⟩ := hr req hp
      simp only [ensures_bind,ensures_modify,ensures_ite]
      generalize ht : s.modifyStream sid _=t
      have hg := ht ▸ get?_modifyStream hn _
      have hse : Unserved t sid := by
        rw [← ht,modifyStream_same]
        exact ⟨hs.free,hs.new⟩
      have hre : Holds old ta t := by
        rw [← ht]
        refine h.modifyStream hs.free fun node hg _ => ?_
        obtain rfl : stream=node := Option.some.inj (hn.symm.trans hg)
        exact nodeAccounted_read hi hc hs.new hco
      exact ⟨fun _ => onWebsocketRequest_holds lim hre hse hg rfl hi m f,
        fun _ => onHttpRequest_holds lim hre hse hg rfl hi m f hf⟩

theorem onTrailers_holds (h : Accounted ta s) (ht : Told old ta s) (ho : s.openBlock=none)
    (hno : s.children.get? sid=some stream) (hso : stream.request.isSome=true) (hr :
    stream.receiving) (m : Moment) {es : Bool} (hl : es=true → ∀ n∈stream.expectedContentLength,
    n=stream.receivedDataBytes) :
    Ensures (onTrailers m sid es) s (fun _ => Holds old ta) (fun _ => Told old ta) := by
  have hs : Holds old ta s := ⟨fun _ => h,ht⟩
  cases es with
  | false =>
    exact (hs.moves voices_still.resetStream.moves).mono (fun _ _ h => h) fun _ _ h => h.told
  | true =>
    have hn := h.node hno
    simp only [onTrailers,Bool.not_true,Bool.false_eq_true,if_false,ensures_bind,
      ensures_modify,ensures_get]
    generalize ht' : s.modifyStream sid _=t
    have hc : Holds old ta t := by
      rw [← ht']
      refine hs.modifyStream ho fun node hg hold => ?_
      obtain rfl : stream=node := Option.some.inj (hno.symm.trans hg)
      refine ⟨fun hnon => ?_,fun _ hnot => absurd rfl hnot.1,hold.given,hold.expected⟩
      simp [show stream.request=none from hnon] at hso
    have hd : t.dispatched=s.dispatched := by rw [← ht',modifyStream_same]
    cases t.recipients.get? sid with
    | none => exact hc
    | some rc =>
      simp only [ensures_ite,ensures_throw,ensures_modify]
      refine ⟨fun _ => hc.told,fun _ => hc.tell fun _ => ?_⟩
      rw [hd,← hn.counted hso hr]
      exact hn.fits hso (hl rfl)

end Requests

section Blocks

variable {old s : Actor τ} {ta : ℕ → ℕ} {sid : ℕ} {q : Request} {st : Stream}

theorem receiving_of_refusal {ty : FrameType} (hid : sid≠0)
    (hn : s.children.get? sid=some st) (hr : s.streamRefusal ty sid=none)
    (ht : ty=.headers ∨ ty=.continuation ∨ ty=.data) : st.receiving := by
  unfold Actor.streamRefusal at hr
  rw [if_neg hid,hn] at hr
  constructor
  · intro hs
    rcases ht with rfl | rfl | rfl <;> simp [validateStreamState,hs] at hr
  · intro hs
    rcases ht with rfl | rfl | rfl <;> simp [validateStreamState,hs] at hr

theorem Accounted.tally_of_new (h : Accounted ta s) (hid : sid≠0) (hn : s.children.get?
    sid=none) (hr : s.streamRefusal .headers sid=none) : ta sid=0 := by
  by_contra hp
  rcases h.known sid hp with hs | hc
  · simp [hn] at hs
  · unfold Actor.streamRefusal at hr
    rw [if_neg hid,hn] at hr
    have hv : (s.closedVia sid).isSome=true := by
      unfold Actor.closedVia
      cases s.closedStreams.get? sid with
      | some vr => rfl
      | none => simp [Nat.pos_of_ne_zero hid,hc]
    obtain ⟨vr,hv⟩ := Option.isSome_iff_exists.mp hv
    rw [hv] at hr
    simp [lateFrame] at hr

theorem nodeAccounted_empty : NodeAccounted ta s sid {} :=
  ⟨fun _ => rfl,by rintro ⟨⟩,by rintro _ _ _ ⟨⟩,by rintro _ ⟨⟩⟩

theorem handleHeaders_holds (h : Accounted ta s) (hto : Told old ta s) (ho : s.openBlock =
    none) (hid : sid≠0) (hr : s.streamRefusal .headers sid=none) (hb : ∀ g ∈
    s.dispatched,g.streamId ≤ s.lastPeerStreamId) (m : Moment) {f : HeadersFrame} (hf : f.streamId
    = sid) (hfr : ∀ st∈s.children.get? sid,st.request.isSome=true ∧
    f.endHeaders=true) (htr : f.endStream=true → ∀ st∈s.children.get? sid,∀ n ∈
    st.expectedContentLength,n=st.receivedDataBytes) (hre : ∀ q,parseHeaders lib f
    = .ok (.ok q) → q.Consistent ∧ (f.endStream=true → q.LengthFits 0)) :
    Ensures (handleHeaders lib lim m sid f) (s.openStream .headers sid)
      (fun _ => Holds old ta) (fun _ => Told old ta) := by
  unfold handleHeaders
  rw [ensures_bind,ensures_get,ensures_ite]
  cases hn : s.children.get? sid with
  | some st =>
    obtain ⟨hso,he⟩ := hfr st hn
    rw [openStream_of_some _ hn]
    refine ⟨fun _ => ?_,fun hno => absurd ⟨by simpa [hn] using hso,he⟩ hno⟩
    exact onTrailers_holds h hto ho hn hso (receiving_of_refusal hid hn hr (.inl rfl)) m
      fun hst => htr hst st hn
  | none =>
    have hz := h.tally_of_new hid hn hr
    have hl : s.lastPeerStreamId<sid := by
      rcases streamRefusal_headers s hid with ⟨code,h⟩ | ⟨st,code,h,-⟩ | ⟨-,hs⟩
      · simp [hr] at h
      · simp [hr] at h
      · rcases hs with ⟨st,hg,-⟩ | ⟨-,-,hl⟩
        · simp [hn] at hg
        · exact hl
    rw [openStream_of_none hn]
    -- the stream as it is when its first frame is handled
    obtain ⟨t,ht⟩ : ∃ t : Actor τ,t={s with
        children:=s.children.set sid {},lastPeerStreamId:=sid
        windows:=s.windows.makeSender sid} := ⟨_,rfl⟩
    have ha : Accounted ta t := by
      have hse : Accounted ta {s with children:=s.children.set sid {}} :=
        h.set ho (fun _ _ => rfl) nodeAccounted_empty
      rw [ht]
      exact hse.still ⟨rfl,rfl,rfl,rfl,rfl,rfl,fun _ => id,id⟩
    have hg : t.children.get? sid=some {} := by simp [ht,Dict.get?_set]
    have hh : Holds old ta t := ⟨fun _ => ha,ht ▸ hto⟩
    have hser : Unserved t sid := by
      refine ⟨ht ▸ ho,fun g hm => ?_⟩
      rw [ht] at hm
      exact ((hb g hm).trans_lt hl).ne
    refine ⟨fun hre => ?_,fun _ => ?_⟩
    · simp [Dict.get?_set] at hre
    rw [ensures_bind,ensures_modify,ensures_bind]
    rw [← ht]
    cases he : f.endHeaders with
    | false =>
      simp only [onHeadersFrame,he,Bool.not_false,if_true,ensures_pure,
        Bool.false_eq_true,if_false,ensures_modify]
      refine ⟨fun _ => ?_,hh.told⟩
      obtain ⟨hi,hc,hk,-,hgi,hexp,hcl⟩ := ha
      refine ⟨hi,hc,hk,fun o hot => ?_,hgi,hexp,hcl⟩
      obtain rfl : f=o := Option.some.inj hot
      rw [hf]
      refine ⟨hz,fun st hst => ?_⟩
      obtain rfl := Option.some.inj (hg.symm.trans hst)
      exact ⟨rfl,rfl⟩
    | true =>
      simp only [onHeadersFrame,he,Bool.not_true,Bool.false_eq_true,if_false,ensures_bind,
        ensures_pure,if_true]
      refine (onRequestHeaders_holds lib lim hh hser hg rfl hz.symm m f
        ?_).mono (fun _ _ h => h) fun _ _ h => h.told
      rw [hz]
      exact hre

theorem Still.clear {t : Actor τ} (h : Still s t) :
    Still {s with openBlock:=none} {t with openBlock:=none} :=
  {h with openBlock:=rfl}

theorem modifyStream_clear (s : Actor τ) (sid : ℕ) (f : Stream → Stream) :
    ({s.modifyStream sid f with openBlock:=none} : Actor τ) =
      Actor.modifyStream {s with openBlock:=none} sid f := by
  unfold Actor.modifyStream
  cases s.children.get? sid <;> rfl

theorem onBlockEnd_holds (h : Holds old ta {s with openBlock:=none}) (hn : ∀ g ∈
    s.dispatched,g.streamId≠sid) (hno : s.children.get? sid=some st) (hnon :
    st.request=none) (hi : st.state=.idle) (hc : st.receivedDataBytes=ta
    sid) (m : Moment) (f : HeadersFrame) (hr : ∀ q,parseHeaders lib f=.ok (.ok
    q) → q.Consistent) :
    Ensures (onBlockEnd lib lim m sid f) s
      (fun _ t => Holds old ta {t with openBlock:=none})
      (fun _ => Told old ta) := by
  have hm {t : Actor τ} {x : ActorM τ Unit} (ht : Holds old ta {t with openBlock:=none})
      (hx : Moves Still x) : Ensures x t (fun _ u => Holds old ta {u with openBlock:=none})
        (fun _ => Told old ta) :=
    (hx t).mono (fun _ _ hst => ht.still hst.clear) fun _ _ hst => (ht.still hst.clear).told
  simp only [onBlockEnd,ensures_bind,ensures_ofExcept]
  cases hp : parseHeaders lib f with
  | error e => exact h.told
  | ok r =>
    cases r with
    | error d => exact hm h voices_still.resetStream.moves
    | ok q =>
      have hco := hr q hp
      simp only [ensures_bind,ensures_modify,ensures_get,ensures_ite]
      generalize ht : s.modifyStream sid _=t
      have he : Holds old ta {t with openBlock:=none} := by
        rw [← ht,modifyStream_clear]
        refine h.modifyStream rfl fun node hg _ => ?_
        obtain rfl : st=node := Option.some.inj (hno.symm.trans hg)
        exact ⟨fun _ => hi,by simp [hnon],by simp [hnon],by simp [hnon]⟩
      have hg := ht ▸ get?_modifyStream hno _
      have hd : t.dispatched=s.dispatched := by rw [← ht,modifyStream_same]
      refine ⟨fun _ => hm he voices_still.resetStream.moves,fun _ => ?_⟩
      generalize hu : t.modifyStream sid _=u
      have hre : Holds old ta {u with openBlock:=none} := by
        rw [← hu,modifyStream_clear]
        refine he.modifyStream rfl fun node hg' _ => ?_
        obtain rfl := Option.some.inj (hg.symm.trans hg')
        exact nodeAccounted_read hi hc (hd ▸ hn) hco
      have hg' := hu ▸ get?_modifyStream hg _
      have hd' : u.dispatched=s.dispatched := by rw [← hu,modifyStream_same,hd]
      refine (voices_still.refuseOversizedDeclaredBody lim m q u).mono
        (fun re v hst => ⟨fun _ => hre.still hst.clear,fun _ => ?_⟩)
        fun _ _ hst => (hre.still hst.clear).told
      have hn' : ∀ g∈v.dispatched,g.streamId≠sid := by
        rw [hst.dispatched,hd']
        exact hn
      have hta := (hre.still hst.clear).setRecipient hn' {}
      have hs := dispatch_holds hta false f (fun node hno' => by
          obtain rfl := Option.some.inj (hg'.symm.trans (hst.children ▸ hno'))
          rfl)
        (fun hcom => by simp [Actor.toldComplete,Dict.get?_set,Recipient.complete] at hcom)
      exact hs

theorem handleContinuation_holds (h : Accounted ta s) (hto : Told old ta s) {f : HeadersFrame}
    (ho : s.openBlock=some f) (hid : sid=f.streamId) (hn : s.children.get? sid=some
    st) (hnew : ∀ g∈s.dispatched,g.streamId≠sid) (m : Moment) (eh : Bool) (p : Bytes)
    (hr : ∀ b f' q,eh=true → (f.extend p).Reads lib s.table b f' → parseHeaders lib f' =
    .ok (.ok q) → q.Consistent) :
    Ensures (handleContinuation lib lim m sid eh p) s
      (fun _ => Holds old ta) (fun _ => Told old ta) := by
  obtain ⟨hz,hb⟩ := h.block f ho
  rw [← hid] at hz hb
  obtain ⟨hno,hc⟩ := hb st hn
  have hi := h.idle sid st hn hno
  have hcl {t : Actor τ} (ht : t={s with
      windows:=t.windows,openBlock:=t.openBlock,table:=t.table,decoded:=t.decoded}) :
      Holds old ta {t with openBlock:=none} := by
    obtain ⟨hi,hco,hk,-,hg,he,hclo⟩ := h
    rw [ht]
    exact ⟨fun _ => ⟨hi,hco,hk,by rintro _ ⟨⟩,hg,he,hclo⟩,hto⟩
  simp only [handleContinuation,onContinuationFrame,ensures_bind,ensures_get,ensures_modify,
    ho,ensures_ite,ensures_pure]
  refine ⟨fun _ => ?_,fun _ => ⟨fun _ => ⟨by rintro ⟨⟩,fun _ => ?_⟩,fun hen => ?_⟩⟩
  · refine (voices_still.resetStream.moves _).mono (fun _ t hst => ⟨fun _ => ?_,?_⟩)
      fun _ _ hst => ((hcl rfl).still hst.clear).told
    · exact (hcl rfl).still hst.clear
    · exact fun hne => absurd trivial hne
  · obtain ⟨hi,hco,hk,-,hg,he,hclo⟩ := h
    refine ⟨fun _ => ⟨hi,hco,hk,fun o hot => ?_,hg,he,hclo⟩,hto⟩
    obtain rfl : f.extend p=o := Option.some.inj hot
    exact ⟨hid ▸ hz,hid ▸ hb⟩
  · refine (parsePayload_ensures lib (f.extend p) _).mono ?_ fun _ t hd => ?_
    · rintro f' t ⟨-,hre,hd,-⟩
      have hch : t.children=s.children := by rw [hd.same]
      have hdi : t.dispatched=s.dispatched := by rw [hd.same]
      have ht : Holds old ta {t with openBlock:=none} := by
        refine hcl ?_
        rw [hd.same]
      refine (onBlockEnd_holds lib lim ht (hdi ▸ hnew) (hch ▸ hn) hno hi
        (hc.trans hz.symm) m f' fun q hp => ?_).mono
        (fun _ _ h => ⟨fun _ => h,fun hne => absurd trivial hne⟩) fun _ _ h => h
      obtain ⟨b,hre⟩ := hre (parseHeaders_valid lib hp).1
      exact hr b f' q (by simpa using hen) hre hp
    · have ht : Holds old ta {t with openBlock:=none} := by
        refine hcl ?_
        rw [hd.same]
      exact ht.told

end Blocks

section Others

variable {old s : Actor τ} {t : ℕ → ℕ}

theorem Holds.raised (h : Told old t s) (e : Raised) :
    Holds old t {s with ending:=some (.raised e)} :=
  (show Told old t {s with ending:=some (.raised e)} from h).holds (by simp [Actor.ended])

theorem Holds.close (h : Holds old t s) (streamId : ℕ) (vr : Bool) (ws : SendWindows) :
    Holds old t { (Actor.markClosed {s with children:=s.children.pop streamId} streamId
        vr) with windows:=ws,recipients:=s.recipients.pop streamId} := by
  refine ⟨fun hl => ?_,fun o hold ht g hm hid => ?_,h.told.2⟩
  · exact {(h.accounted hl).close streamId vr with}
  · refine h.told.1 o hold ?_ g hm hid
    simp only [Actor.toldComplete,Dict.get?_pop] at ht ⊢
    split_ifs at ht
    · simp at ht
    · exact ht

theorem handleContent_holds (h : Holds old t s) (ho : s.openBlock=none) (m : Moment)
    (streamId len : ℕ) {c : Content} (hh : c.type≠some .headers) (hc : c.type
    ≠ some .continuation) (hd : c.type≠some .data) :
    Ensures (handleContent lib lim m streamId len c) s
      (fun _ => Holds old t) (fun _ => Told old t) := by
  have hm {x : ActorM τ Unit} (hx : Moves Still x) :
      Ensures x s (fun _ => Holds old t) (fun _ => Told old t) :=
    (h.moves hx).mono (fun _ _ h => h) fun _ _ h => h.told
  cases c with
  | headers frame => exact absurd rfl hh
  | continuation endHeaders p => exact absurd rfl hc
  | data endStream p => exact absurd rfl hd
  | unknown => exact h
  | pushPromise => exact h.told
  | priority ds => exact hm (.ite voices_still.resetStream.moves .pure)
  | ping ack p => exact hm (.ite still_connectionError (.ite .pure still_emit))
  | goaway => exact hm (.bind (.modify (still_update fun _ => rfl)) fun _ => still_finish)
  | windowUpdate n =>
    exact hm (.bind .get fun _ => .bind (.modify (still_update fun _ => rfl)) fun _ =>
      voices_still.windowAnswer.moves)
  | settings ack settings =>
    exact hm (.ite still_connectionError <|
      .ite (.ite still_connectionError .pure) <| .bind .get fun _ =>
        .bind (.modify (still_update fun _ => rfl)) fun _ =>
          .ite still_emit voices_still.windowAnswer.moves)
  | rstStream =>
    simp only [handleContent,onRstStream,ensures_bind,ensures_get]
    cases s.children.get? streamId with
    | none => exact hm still_connectionError
    | some stream =>
      simp only [ensures_ite,ensures_modify]
      exact ⟨fun _ => hm still_connectionError,fun _ => h.close streamId true _⟩
  | priorityUpdate ps =>
    simp only [handleContent,onPriorityUpdate,ensures_modify]
    split_ifs
    · exact h
    · exact ⟨fun hl => (h.accounted hl).set ho (fun _ _ => rfl) nodeAccounted_empty,h.told⟩

end Others

end BlackBull.H2
