import BlackBull.RequestViews

/-!
# A header block in one frame and in several

The same request block may come in one HEADERS frame or in pieces. The two ways come to the same
view of the stream exactly when the block is not cut, or when its request is refused either way: a
request that CONTINUATION ends leaves its stream idle and its recipient waiting.
-/

namespace BlackBull.H2

variable {τ : Type}

/-- A HEADERS frame and the CONTINUATION payloads that follow it. -/
structure Cut where
  head : RawFrame
  moment : Moment
  tail : List (Bytes × Moment)
  isHeaders : head.type=some .headers
  endHeaders : head.endHeaders=tail.isEmpty

def continuations (streamId : ℕ) : List (Bytes × Moment) → List Action
  | [] => []
  | [(payload,moment)] => [.frame ⟨9,4,streamId,payload⟩ moment]
  | (payload,moment)::rest =>
    .frame ⟨9,0,streamId,payload⟩ moment::continuations streamId rest

/-- What a CONTINUATION frame does to the meter of empty frames. -/
def spend (meter : RateWindow) (part : Bytes × Moment) : Bool × RateWindow :=
  if part.1.length=0 then meter.hit part.2.now else (false,meter)

def withinBudget (meter : RateWindow) : List (Bytes × Moment) → Bool
  | [] => true
  | part::rest => !(spend meter part).1 && withinBudget (spend meter part).2 rest

namespace Cut

def rest (cut : Cut) : Bytes := (cut.tail.map Prod.fst).flatten

def block (cut : Cut) : Bytes := cut.head.fragment++cut.rest

def actions (cut : Cut) : List Action :=
  .frame cut.head cut.moment::continuations cut.head.streamId cut.tail

def single (cut : Cut) (moment : Moment) : Action :=
  .frame ⟨1,if cut.head.endStream then 5 else 4,cut.head.streamId,cut.block⟩ moment

/-- The frames fit, the HEADERS frame of a block in pieces has no padding, the pieces that follow
are within the budget of empty frames and the whole is within the limits. -/
structure Plain (limits : Limits) (meter : RateWindow) (cut : Cut) : Prop where
  framed : cut.head.WellFramed
  independent : ¬ cut.head.SelfDependent
  padding : cut.tail≠[] → cut.head.padLength=0
  headSize : cut.head.payload.length≤defaultMaxFrameSize
  tailSize : ∀ part∈cut.tail,part.1.length≤defaultMaxFrameSize
  budget : withinBudget meter cut.tail=true
  nonempty : cut.block≠[]
  blockSize : cut.block.length≤defaultMaxFrameSize
  total : cut.tail≠[] → cut.head.payload.length+cut.rest.length≤limits.headerMaxTotal

end Cut

/-- The connection is ready for a request on a new stream. -/
structure Ready (s : Actor τ) (streamId : ℕ) : Prop where
  live : s.ended=false
  free : s.openBlock=none
  unknown : s.children.get? streamId=none
  notClosed : s.closedVia streamId=none
  odd : streamId % 2 = 1
  above : s.lastPeerStreamId<streamId

section Views

variable (lib : Library τ) (limits : Limits) (s : Actor τ) (streamId : ℕ)

/-- A block that is read, and what its fields come to. -/
def readView (block : Bytes) (after : Actor τ → HeadersFrame → View τ) : View τ :=
  match lib.decode s.table block with
  | none => s.view streamId
  | some (fields,table) =>
    match HeadersFrame.blank.addFields false fields with
    | .error _ => {s.view streamId with table:=table}
    | .ok frame => after {s with table:=table} frame

def singleView (endStream : Bool) (block : Bytes) : View τ :=
  readView lib s streamId block fun s frame =>
    headersView limits s streamId {frame with endStream:=endStream} (parseHeaders lib frame)

def splitView (block : Bytes) : View τ :=
  readView lib s streamId block fun s frame =>
    blockEndView limits s streamId frame (parseHeaders lib frame)

/-- The block describes a request that the server takes. -/
def Served (block : Bytes) : Prop :=
  ∃ fields table request,lib.decode s.table block=some (fields,table) ∧
    fieldsRequest lib fields=.ok (.ok request) ∧
    s.activeStreamCount<limits.maxConcurrentStreams ∧
    ((request.type=.websocket ∧ limits.wsOverH2Enabled=true) ∨ ¬ Oversized limits request)

end Views

section Compare

variable {lib : Library τ} {lim : Limits} {s : Actor τ} {sid : ℕ}

theorem give_ne (v : View τ) (fr : HeadersFrame) (q : Request) (st : StreamState)
    (rc : Recipient) : v.give sid fr q st rc≠v := by
  intro h
  have hr := congrArg (fun v => v.requests.length) h
  simp [View.give] at hr

theorem blockEndView_congr {t : Actor τ} (hv : t.view sid=s.view sid)
    (ha : t.activeStreamCount=s.activeStreamCount) (fr : HeadersFrame)
    (p : Except Raised (Except Defect Request)) :
    blockEndView lim t sid fr p=blockEndView lim s sid fr p := by
  simp only [blockEndView,hv,ha]

/-- What a block in pieces comes to depends on the view and the number of requests only. -/
theorem splitView_congr {t : Actor τ} (hv : t.view sid=s.view sid)
    (ha : t.activeStreamCount=s.activeStreamCount) (bl : Bytes) :
    splitView lib lim t sid bl=splitView lib lim s sid bl := by
  have ht : t.table=s.table := congrArg View.table hv
  have hw (tb : τ) : ({t with table:=tb} : Actor τ).view sid =
      ({s with table:=tb} : Actor τ).view sid :=
    congrArg (fun view : View τ => {view with table:=tb}) hv
  unfold splitView readView
  rw [ht,hv]
  cases lib.decode s.table bl with
  | none => rfl
  | some r =>
    dsimp only
    cases HeadersFrame.blank.addFields false r.1 with
    | error e => rfl
    | ok frame => exact blockEndView_congr (hw r.2) ha frame _

/-- A request on an idle stream: the two paths agree exactly when neither takes it. -/
theorem headersView_eq_blockEndView_iff (hi : (s.view sid).state=.idle)
    (fr : HeadersFrame) (es : Bool) (q : Request) :
    headersView lim s sid {fr with endStream:=es} (.ok (.ok q)) =
        blockEndView lim s sid fr (.ok (.ok q)) ↔ ¬ (s.activeStreamCount<lim.maxConcurrentStreams ∧
        ((q.type=.websocket ∧ lim.wsOverH2Enabled=true) ∨
          ¬ Oversized lim q)) := by
  -- a stream that is not idle any more on one path only
  have hs {view : View τ} (hv : view.state≠.idle) :
      view≠blockEndView lim s sid fr (.ok (.ok q)) := by
    intro h
    refine hv ?_
    rw [h,blockEndView]
    split_ifs
    · exact hi
    · exact hi
  by_cases hf : lim.maxConcurrentStreams ≤ s.activeStreamCount
  · simp [headersView,blockEndView,hf,hf.not_gt]
  have hfr : s.activeStreamCount<lim.maxConcurrentStreams := not_le.mp hf
  rw [headersView,if_neg hf]
  by_cases hws : q.type=.websocket
  · simp only [if_pos hws,websocketView]
    cases hon : lim.wsOverH2Enabled with
    | true =>
      simp only [Bool.not_true,Bool.false_eq_true,if_false,hws,hfr,and_self,true_or,
        not_true,iff_false]
      split_ifs
      · exact hs (by simp)
      · exact hs (by simp [View.give])
    | false =>
      by_cases ho : Oversized lim q
      · simp [blockEndView,ho]
      · simp only [Bool.not_false,if_true,blockEndView,hf,ho,or_self,if_false]
        simp [hfr,(give_ne _ _ _ _ _).symm]
  · simp only [if_neg hws,httpView]
    by_cases ho : Oversized lim q
    · simp [blockEndView,ho,hws]
    · simp only [ho,if_false,hfr,true_and,not_false_eq_true,or_true,not_true,iff_false]
      refine hs ?_
      cases es <;> simp [View.give]

/-- The two paths agree exactly when the block is not served. -/
theorem singleView_eq_splitView_iff (hi : (s.view sid).state=.idle) (es : Bool) (bl : Bytes) :
    singleView lib lim s sid es bl=splitView lib lim s sid bl ↔
      ¬ Served lib lim s bl := by
  unfold singleView splitView readView Served
  cases hd : lib.decode s.table bl with
  | none => simp
  | some r =>
    obtain ⟨fs,tb⟩ := r
    have hr : fieldsRequest lib fs =
        (HeadersFrame.blank.addFields false fs).bind (parseHeaders lib) := rfl
    dsimp only
    cases hf : HeadersFrame.blank.addFields false fs with
    | error e => simp [hr,hf,Except.bind]
    | ok frame =>
      rw [hf] at hr
      dsimp only
      cases hp : parseHeaders lib frame with
      | error e => simp [hr,hp,Except.bind,headersView,blockEndView]
      | ok p =>
        cases p with
        | error d => simp [hr,hp,Except.bind,headersView,blockEndView]
        | ok q =>
          have hi' : (({s with table:=tb} : Actor τ).view sid).state=.idle := hi
          rw [headersView_eq_blockEndView_iff hi' frame es q]
          simp [hr,hp,Except.bind]

end Compare

section Turns

variable (lib : Library τ) (l : Limits) {s t : Actor τ} {raw : RawFrame}

variable {f : HeadersFrame} {b : Bytes} {k : RateWindow}

theorem parsePayload_view (streamId : ℕ) (a : Actor τ → HeadersFrame → View τ) (hb :
    f.headerBlock=.ok b) (hbl : f.withFields .blank=f) (s : Actor τ) {P :
    HeadersFrame → Actor τ → Prop} {Q : Raised → Actor τ → Prop} (hv : ∀ fs tb read,lib.decode
    s.table b=some (fs,tb) → HeadersFrame.blank.addFields false fs=.ok read → P
    (f.withFields read) { s with decoded:=s.decoded++[(f.streamId,b)],table :=
    tb}) (hr : ∀ e (t : Actor τ),t.view streamId=readView lib s streamId b a → Q e t) :
    Ensures (parsePayload lib f) s P Q := by
  unfold parsePayload
  simp only [hb,ensures_bind,ensures_modify,ensures_get]
  cases hd : lib.decode s.table b with
  | none =>
    refine hr _ _ ?_
    rw [readView,hd]
    rfl
  | some r =>
    obtain ⟨fs,tb⟩ := r
    have hre := addFields_withFields f .blank false fs
    rw [hbl] at hre
    simp only [ensures_bind,ensures_modify,ensures_ofExcept,hre]
    cases hf : HeadersFrame.blank.addFields false fs with
    | error e =>
      refine hr _ _ ?_
      simp only [readView,hd,hf]
      rfl
    | ok read => exact hv fs tb read hd hf

theorem handleFrame_ready (hr : Ready s raw.streamId) (ht : raw.type=some .headers) (hs :
    raw.payload.length≤defaultMaxFrameSize) (m : Moment) (f : HeadersFrame) {P : Unit → Actor
    τ → Prop} {Q : Raised → Actor τ → Prop} (h : Ensures (handleHeaders lib l m raw.streamId
    f) (s.openStream .headers raw.streamId) P Q) :
    Ensures (handleFrame lib l m raw (.headers f)) s P Q := by
  have hid : raw.streamId≠0 := by
    have ho := hr.odd
    omega
  have hre : frameRefusal s.openBlock.isSome .headers raw.streamId raw.payload.length=none := by
    simp [frameRefusal,hs.not_gt,hid]
  have hst : s.streamRefusal .headers raw.streamId=none := by
    simp [Actor.streamRefusal,hid,hr.unknown,hr.notClosed,hr.odd,hr.above.not_ge]
  simp only [handleFrame,handleCounted,meterFrame,meterKind,ht,ensures_bind,ensures_get,
    ensures_ite,ensures_pure]
  refine ⟨fun hope => by simp [hr.free] at hope,fun _ => ⟨by rintro ⟨⟩,fun _ => ?_⟩⟩
  rw [hre]
  dsimp only
  rw [hst]
  simp only [ensures_bind,ensures_modify]
  exact h

theorem openStream_view (hr : Ready s raw.streamId) :
    (s.openStream .headers raw.streamId).view raw.streamId=s.view raw.streamId := by
  rw [openStream_of_none hr.unknown]
  simp [Actor.view,Dict.get?_set,hr.unknown]

theorem handleHeaders_ready (hr : Ready s raw.streamId) (m : Moment) (he : f.endHeaders=true)
    {e : View τ} (hexp : headersView l s raw.streamId f (parseHeaders lib f)=e) :
    Ensures (handleHeaders lib l m raw.streamId f)
      (s.openStream .headers raw.streamId) (fun _ t => t.view raw.streamId=e)
      (fun _ t => t.view raw.streamId=e) := by
  have hv := openStream_view hr
  rw [openStream_of_none hr.unknown] at hv ⊢
  have hn : (s.children.set raw.streamId {}).get? raw.streamId=some ({} : Stream) := by
    rw [Dict.get?_set,if_pos rfl]
  simp only [handleHeaders,onHeadersFrame,ensures_bind,ensures_get,ensures_ite,
    ensures_modify,hn,he,Bool.not_true,Bool.false_eq_true,if_false,ensures_pure]
  refine ⟨fun h => by simp at h,fun _ => ?_⟩
  have hs {t : Actor τ} (ht : t.view raw.streamId=s.view raw.streamId)
      (ha : t.activeStreamCount=s.activeStreamCount)
      (hws : t.wsStreamCount=s.wsStreamCount) :
      headersView l t raw.streamId f (parseHeaders lib f)=e := by
    rw [← hexp]
    simp only [headersView,websocketView,httpView,ht,ha,hws]
  refine (onRequestHeaders_view lib l m f hn).mono (fun _ t ht => ?_) fun _ t ht => ?_
  · exact ⟨fun _ => ht.trans (hs hv rfl rfl),fun hne => absurd trivial hne⟩
  · exact ht.trans (hs hv rfl rfl)

theorem handle_block_view (hr : Ready s raw.streamId) (hty : raw.type=some .headers)
    (he : raw.endHeaders=true) (hs : raw.payload.length≤defaultMaxFrameSize)
    (hp : raw.payload≠[]) (hb : (HeadersFrame.ofRaw raw).headerBlock=.ok b) (m : Moment) :
    (s.handle lib l m raw).view raw.streamId =
      singleView lib l s raw.streamId raw.endStream b := by
  refine handle_of_load
    (P := fun t => t.view raw.streamId=singleView lib l s raw.streamId raw.endStream b)
    hr.live hs ?_
  simp only [load,loadContent,hty,ensures_bind,ensures_ofExcept,ensures_ite]
  refine ⟨fun _ => ?_,fun h => absurd ⟨List.length_pos_iff.mpr hp,he⟩ h⟩
  refine parsePayload_view lib raw.streamId _ hb rfl s
    (fun fs tb read hd hf => ?_) fun e t ht _ => ht
  have hr' : Ready {s with
      decoded:=s.decoded++[(raw.streamId,b)],table:=tb} raw.streamId :=
    {hr with}
  refine handleFrame_ready lib l hr' hty hs m _ ?_
  refine (handleHeaders_ready lib l hr' m he ?_).mono (fun _ _ ht => ht) fun _ _ ht _ => ht
  simp only [singleView,readView,hd,hf]
  rfl

/-- The block of a new stream is being gathered, and its stream shows nothing yet. -/
structure Gathering (s t : Actor τ) (meter : RateWindow) (frame : HeadersFrame) : Prop where
  view : t.view frame.streamId=s.view frame.streamId
  active : t.activeStreamCount=s.activeStreamCount
  openBlock : t.openBlock=some frame
  node : t.children.get? frame.streamId=some {}
  live : t.ended=false
  known : frame.streamId≠0
  meter : t.meters .empty=meter

theorem gathering_headers (hr : Ready s raw.streamId) (ht : raw.type=some .headers)
    (he : raw.endHeaders=false) (hs : raw.payload.length≤defaultMaxFrameSize)
    (m : Moment) : Gathering s (s.handle lib l m raw) (s.meters .empty) (.ofRaw raw) := by
  refine handle_of_load (P := fun t => Gathering s t (s.meters .empty) (.ofRaw raw))
    hr.live hs ?_
  have hf : (HeadersFrame.ofRaw raw).endHeaders=false := he
  simp only [load,loadContent,ht,ensures_bind,ensures_ofExcept,ensures_ite,ensures_pure]
  refine ⟨fun h => by simp [hf] at h,fun _ => ?_⟩
  refine handleFrame_ready lib l hr ht hs m _ ?_
  have hv := openStream_view hr
  have hid : raw.streamId≠0 := by
    have ho := hr.odd
    omega
  rw [openStream_of_none hr.unknown] at hv ⊢
  simp only [handleHeaders,onHeadersFrame,ensures_bind,ensures_get,ensures_ite,
    ensures_modify,hf,Bool.not_false,if_true,ensures_pure]
  refine ⟨fun h => by simp at h,fun _ => ⟨by rintro ⟨⟩,fun _ => ?_⟩⟩
  have hn : (s.children.set raw.streamId {}).get? raw.streamId=some ({} : Stream) := by
    rw [Dict.get?_set,if_pos rfl]
  exact ⟨hv,rfl,rfl,hn,hr.live,hid,rfl⟩

theorem meterFrame_continuation (m : Moment) (p : Bytes)
    (h : (spend (t.meters .empty) (p,m)).1=false) :
    Succeeds (meterFrame m .continuation p.length) t fun spent u => spent=false ∧ ∃ meters,
        meters .empty=(spend (t.meters .empty) (p,m)).2 ∧ u={t with meters:=meters} := by
  unfold spend at h ⊢
  by_cases hp : p.length=0
  · rw [if_pos hp] at h ⊢
    simp only [meterFrame,meterKind,if_pos hp,hitMeter,ensures_bind,ensures_get,ensures_modify,
      ensures_pure,ensures_ite]
    refine ⟨fun hs => ?_,fun _ => ⟨trivial,_,Function.update_self _ _ _,rfl⟩⟩
    rw [h] at hs
    cases hs
  · rw [if_neg hp]
    simp only [meterFrame,meterKind,if_neg hp,ensures_pure]
    exact ⟨trivial,t.meters,rfl,rfl⟩

theorem handleCounted_gathering (h : Gathering s t k f) (hid : raw.streamId=f.streamId)
    (hs : raw.payload.length≤defaultMaxFrameSize) (m : Moment) {P : Unit → Actor τ → Prop}
    {Q : Raised → Actor τ → Prop} (hc : Ensures (handleContinuation lib l m raw.streamId
      raw.endHeaders raw.payload) t P Q) :
    Ensures (handleCounted lib l m .continuation raw
      (.continuation raw.endHeaders raw.payload)) t P Q := by
  have hk : raw.streamId≠0 := hid ▸ h.known
  have hr : frameRefusal t.openBlock.isSome .continuation raw.streamId raw.payload.length=none := by
    simp [frameRefusal,hs.not_gt,hk,h.openBlock]
  have hn : t.children.get? raw.streamId=some {} := hid ▸ h.node
  have hst : t.streamRefusal .continuation raw.streamId=none := by
    simp [Actor.streamRefusal,hk,hn,validateStreamState]
  simp only [handleCounted,ensures_bind,ensures_get]
  rw [hr]
  dsimp only
  rw [hst]
  simp only [ensures_bind,ensures_modify,openStream_of_some _ hn]
  exact hc

theorem handle_gathering (h : Gathering s t k f) (ht : raw.type=some .continuation) (hid :
    raw.streamId=f.streamId) (hs : raw.payload.length≤defaultMaxFrameSize) (m : Moment)
    (hp : (spend k (raw.payload,m)).1=false) {P : Actor τ → Prop}
    (hc : ∀ u,Gathering s u (spend k (raw.payload,m)).2 f → Ensures (handleContinuation lib l m
      raw.streamId raw.endHeaders raw.payload) u (fun _ => P)
      (fun _ u => ∀ e,P {u with ending:=some (.raised e)})) : P (t.handle lib l m raw) := by
  refine handle_of_load h.live hs ?_
  simp only [load,loadContent,ht,ensures_bind,ensures_ofExcept,ensures_pure,handleFrame,
    ensures_get,ensures_ite]
  refine ⟨fun ho => absurd rfl ho.2,fun _ => ?_⟩
  rw [← h.meter] at hp hc
  refine (meterFrame_continuation m raw.payload hp).mono ?_ fun _ _ he => he.elim
  rintro spent u ⟨rfl,meters,hm,rfl⟩
  have hu : Gathering s {t with meters:=meters} (spend (t.meters .empty) (raw.payload,m)).2 f :=
    {h with meter:=hm}
  exact ⟨by rintro ⟨⟩,fun _ => handleCounted_gathering lib l hu hid hs m (hc _ hu)⟩

theorem gathering_continuation (h : Gathering s t k f) (ht : raw.type=some .continuation)
    (hid : raw.streamId=f.streamId) (m : Moment) (hp : (spend k (raw.payload,m)).1=false)
    (hs : raw.payload.length≤defaultMaxFrameSize) (he : raw.endHeaders=false)
    (hsh : (f.extend raw.payload).rawBlock.length≤l.headerMaxTotal) :
    Gathering s (t.handle lib l m raw) (spend k (raw.payload,m)).2 (f.extend raw.payload) := by
  refine handle_gathering lib l h ht hid hs m hp
    (P := fun u => Gathering s u (spend k (raw.payload,m)).2 (f.extend raw.payload))
    fun u h => ?_
  simp only [handleContinuation,onContinuationFrame,ensures_bind,ensures_get,ensures_modify,
    h.openBlock,ensures_ite,ensures_pure,he]
  refine ⟨fun hl => absurd hsh (not_le.mpr hl),fun _ => ⟨fun _ => ?_,fun hno => ?_⟩⟩
  · exact ⟨by rintro ⟨⟩,fun _ => ⟨h.view,h.active,rfl,h.node,h.live,h.known,h.meter⟩⟩
  · simp at hno

theorem gathering_ends (h : Gathering s t k f) (ht : raw.type=some .continuation) (hid :
    raw.streamId=f.streamId) (m : Moment) (hp : (spend k (raw.payload,m)).1=false) (hs :
    raw.payload.length≤defaultMaxFrameSize) (he : raw.endHeaders=true) (hsh : (f.extend
    raw.payload).rawBlock.length≤l.headerMaxTotal) (hb : (f.extend
    raw.payload).headerBlock=.ok b) (hbl : f.withFields .blank=f) :
    (t.handle lib l m raw).view raw.streamId=splitView lib l s raw.streamId b := by
  refine handle_gathering lib l h ht hid hs m hp
    (P := fun u => u.view raw.streamId=splitView lib l s raw.streamId b) fun t h => ?_
  have hb' : (f.extend raw.payload).withFields .blank=f.extend raw.payload := by
    rw [← hbl]
    rfl
  have hsa : splitView lib l t raw.streamId b = splitView lib l s raw.streamId b :=
    splitView_congr (hid ▸ h.view) h.active b
  simp only [handleContinuation,onContinuationFrame,ensures_bind,ensures_get,ensures_modify,
    h.openBlock,ensures_ite,ensures_pure,he]
  refine ⟨fun hl => absurd hsh (not_le.mpr hl),fun _ => ⟨fun hno => ?_,fun _ => ?_⟩⟩
  · simp at hno
  refine parsePayload_view lib raw.streamId
    (fun s f => blockEndView l s raw.streamId f (parseHeaders lib f)) hb
    hb' _ (fun fs tb read hd hf => ?_) fun e u hu _ => ?_
  · have hexp : blockEndView l {t with table:=tb} raw.streamId read
        (parseHeaders lib read)=splitView lib l s raw.streamId b := by
      have hd' : lib.decode t.table b=some (fs,tb) := hd
      rw [← hsa]
      simp only [splitView,readView,hd',hf]
    have hn : t.children.get? raw.streamId=some {} := hid ▸ h.node
    refine Ensures.mono (onBlockEnd_view lib l m _ hn) (fun _ u hu => ?_) fun _ u hu _ => ?_
    · exact ⟨fun _ => hu.trans hexp,fun hne => absurd trivial hne⟩
    · exact hu.trans hexp
  · exact hu.trans hsa

theorem hasFlag_eq (ty fl : UInt8) (streamId : ℕ) (p : Bytes) (m : UInt8) :
    (⟨ty,fl,streamId,p⟩ : RawFrame).hasFlag m = decide (fl &&& m ≠ 0) :=
  rfl

theorem run_continuations {bs : Bytes} {tail : List (Bytes × Moment)} (h : Gathering s t k f) (hb
    : f.withFields .blank=f) (hbl : ∀ mr,(f.extend mr).headerBlock=.ok (bs ++
    mr)) (ht : tail≠[]) (hs : ∀ part∈tail,part.1.length≤defaultMaxFrameSize)
    (hw : withinBudget k tail=true)
    (hto : f.rawBlock.length+(tail.map Prod.fst).flatten.length≤l.headerMaxTotal) :
    (run (Actor.step lib l) t (continuations f.streamId tail)).view f.streamId =
      splitView lib l s f.streamId (bs++(tail.map Prod.fst).flatten) := by
  induction tail generalizing t f bs k with
  | nil => exact absurd rfl ht
  | cons part rest ih =>
    obtain ⟨p,m⟩ := part
    have hsi := hs (p,m) List.mem_cons_self
    obtain ⟨hp,hw⟩ : (spend k (p,m)).1=false ∧ withinBudget (spend k (p,m)).2 rest=true := by
      simpa [withinBudget] using hw
    have he : (f.extend p).rawBlock.length = f.rawBlock.length+p.length := List.length_append
    simp only [List.map_cons,List.flatten_cons,List.length_append] at hto
    have hsh : (f.extend p).rawBlock.length≤l.headerMaxTotal := by omega
    cases rest with
    | nil =>
      rw [continuations,run_cons,run_nil,step_of_live lib l _ _ h.live,List.map_cons,
        List.map_nil,List.flatten_cons,List.flatten_nil,List.append_nil]
      exact gathering_ends lib l h rfl rfl m hp hsi
        (by rw [RawFrame.endHeaders,hasFlag_eq]; decide) hsh (hbl p) hb
    | cons next rest =>
      rw [continuations,run_cons,step_of_live lib l _ _ h.live,List.map_cons,
        List.flatten_cons,← List.append_assoc]
      · have hn : Gathering s (t.handle lib l m ⟨9,0,f.streamId,p⟩) (spend k (p,m)).2
            (f.extend p) :=
          gathering_continuation lib l h rfl rfl m hp hsi
            (by rw [RawFrame.endHeaders,hasFlag_eq]; decide) hsh
        have hb' : (f.extend p).withFields .blank=f.extend p := by
          rw [← hb]
          rfl
        have hbl' (mr : Bytes) : ((f.extend p).extend mr).headerBlock = .ok (bs++p++mr) := by
          rw [HeadersFrame.extend_extend,hbl,List.append_assoc]
        have hr := ih hn hb' hbl' (List.cons_ne_nil _ _)
          (fun part hpa => hs part (List.mem_cons_of_mem _ hpa)) hw (by omega)
        exact hr
      · simp

end Turns

section Cuts

variable (lib : Library τ) (limits : Limits) {s : Actor τ} {cut : Cut} {k : RateWindow}

theorem single_facts (es : Bool) (streamId : ℕ) (bl : Bytes) :
    let raw : RawFrame := ⟨1,if es then 5 else 4,streamId,bl⟩
    raw.endHeaders=true ∧ raw.endStream=es ∧ (HeadersFrame.ofRaw raw).headerBlock=.ok bl := by
  intro raw
  have hf (m : UInt8) : raw.hasFlag m = decide ((if es then 5 else 4) &&& m ≠ 0) :=
    hasFlag_eq _ _ _ _ _
  have hp : raw.padded=false := by
    rw [RawFrame.padded,hf]
    cases es <;> decide
  have hpr : raw.priority=false := by
    rw [RawFrame.priority,hf]
    cases es <;> decide
  have hfr : raw.WellFramed := by
    simp [RawFrame.WellFramed,RawFrame.padField,RawFrame.priorityField,RawFrame.padLength,hp,hpr]
  have hfra : raw.fragment=bl := by
    simp [RawFrame.fragment,RawFrame.padField,RawFrame.priorityField,RawFrame.padLength,hp,hpr,raw]
  refine ⟨?_,?_,?_⟩
  · rw [RawFrame.endHeaders,hf]
    cases es <;> decide
  · rw [RawFrame.endStream,hf]
    cases es <;> decide
  · rw [headerBlock_ofRaw hfr,if_neg (by simp [RawFrame.SelfDependent,hpr]),hfra]

theorem single_view (hr : Ready s cut.head.streamId) (hp : cut.Plain limits k) (m : Moment) :
    (s.step lib limits (cut.single m)).view cut.head.streamId =
      singleView lib limits s cut.head.streamId cut.head.endStream cut.block := by
  obtain ⟨he,hen,hb⟩ := single_facts cut.head.endStream cut.head.streamId cut.block
  have hr' : Ready s (⟨1,if cut.head.endStream then 5 else 4,cut.head.streamId,
      cut.block⟩ : RawFrame).streamId := hr
  rw [Cut.single,step_of_live lib limits _ _ hr.live]
  have hv := handle_block_view lib limits hr' rfl he hp.blockSize hp.nonempty hb m
  rwa [hen] at hv

theorem cut_view (hr : Ready s cut.head.streamId) (hp : cut.Plain limits (s.meters .empty)) :
    (run (Actor.step lib limits) s cut.actions).view cut.head.streamId=if cut.tail=[] then
        singleView lib limits s cut.head.streamId cut.head.endStream cut.block
      else splitView lib limits s cut.head.streamId cut.block := by
  rw [Cut.actions,run_cons,step_of_live lib limits _ _ hr.live]
  split_ifs with ht
  · have he : cut.head.endHeaders=true := by rw [cut.endHeaders,ht]; rfl
    have hf : cut.block=cut.head.fragment := by simp [Cut.block,Cut.rest,ht]
    have hb : (HeadersFrame.ofRaw cut.head).headerBlock=.ok cut.block := by
      rw [headerBlock_ofRaw hp.framed,if_neg hp.independent,hf]
    have hpa : cut.head.payload≠[] := by
      intro hem
      refine hp.nonempty ?_
      simp [hf,RawFrame.fragment,hem]
    rw [ht,continuations,run_nil]
    exact handle_block_view lib limits hr cut.isHeaders he hp.headSize hpa hb cut.moment
  · have he : cut.head.endHeaders=false := by simpa [cut.endHeaders] using ht
    have hg := gathering_headers lib limits hr cut.isHeaders he hp.headSize cut.moment
    have hbl (m : Bytes) : ((HeadersFrame.ofRaw cut.head).extend m).headerBlock =
        .ok (cut.head.fragment++m) := by
      rw [headerBlock_extend hp.framed (.inl (hp.padding ht)),if_neg hp.independent]
    exact run_continuations lib limits hg rfl hbl ht hp.tailSize hp.budget (hp.total ht)

/-- A plain cut comes to the same as the block in one frame exactly when it is one frame or its
request is not taken. -/
theorem fragmentation_independent_iff (hready : Ready s cut.head.streamId)
    (hplain : cut.Plain limits (s.meters .empty)) (moment : Moment) :
    (run (Actor.step lib limits) s cut.actions).view cut.head.streamId =
        (s.step lib limits (cut.single moment)).view cut.head.streamId ↔
      cut.tail=[] ∨ ¬ Served lib limits s cut.block := by
  have hi : (s.view cut.head.streamId).state=.idle := by simp [Actor.view,hready.unknown]
  rw [cut_view lib limits hready hplain,single_view lib limits hready hplain moment]
  by_cases ht : cut.tail=[]
  · simp [ht]
  · rw [if_neg ht,eq_comm,singleView_eq_splitView_iff hi]
    simp [ht]

/-- A GET with padding and a priority field in one frame, and two methods that an empty
CONTINUATION ends. -/
theorem fragmentation_independent_padded :
    (let cut : Cut := ⟨⟨1,0x2d,1,[1,0,0,0,0,16,0x82,0x86,0x84,0x41,1,97,0]⟩,
        ⟨0,0,true,false⟩,[],by decide,by decide⟩
      let s := run (Actor.step plainLibrary {}) (.initial {} []) cut.actions
      s.view 1=((Actor.initial {} []).step plainLibrary {} (cut.single ⟨0,0,true,false⟩)).view 1 ∧
        s.dispatched.length=1 ∧ (s.view 1).state=.halfClosedRemote) ∧
    (let cut : Cut := ⟨⟨1,0,1,[0x82,0x82]⟩,⟨0,0,true,false⟩,[([],⟨0,0,true,false⟩)],
        by decide,by decide⟩
      let s := run (Actor.step plainLibrary {}) (.initial {} []) cut.actions
      s.view 1=((Actor.initial {} []).step plainLibrary {} (cut.single ⟨0,0,true,false⟩)).view 1 ∧
        s.decoded=[(1,[0x82,0x82])]) := by
  have hr : Ready (Actor.initial {} [] : Actor HeaderList) 1 := ⟨rfl,rfl,rfl,rfl,rfl,by decide⟩
  refine ⟨⟨?_,by decide +kernel,by decide +kernel⟩,?_,by decide +kernel⟩
  · exact (fragmentation_independent_iff plainLibrary {} hr (by constructor <;> decide) _).mpr
      (.inl rfl)
  · refine (fragmentation_independent_iff plainLibrary {} hr (by constructor <;> decide) _).mpr
      (.inr ?_)
    rintro ⟨fields,table,request,hd,hq,-⟩
    have hn : ∀ r∈plainLibrary.decode (Actor.initial {} [] : Actor HeaderList).table [0x82,0x82],
        ((fieldsRequest plainLibrary r.1).toOption.bind Except.toOption).isNone=true := by
      decide +kernel
    have hq' := hn _ hd
    rw [hq] at hq'
    cases hq'

/-- A GET that ends its stream, cut in two: the stream stays idle and the recipient waits for a
body that will not come. With padding on the HEADERS frame the request is lost. -/
theorem fragmentation_visible :
    (let cut : Cut := ⟨⟨1,1,1,[0x82,0x86]⟩,⟨0,0,true,false⟩,
        [([0x84,0x41,1,97],⟨0,0,true,false⟩)],by decide,by decide⟩
      let split := run (Actor.step plainLibrary {}) (.initial {} []) cut.actions
      let single := (Actor.initial {} []).step plainLibrary {} (cut.single ⟨0,0,true,false⟩)
      (split.view 1).state=.idle ∧ (split.view 1).recipient=some {} ∧
        (single.view 1).state=.halfClosedRemote ∧
        (single.view 1).recipient=some {endOfStreamOnHeaders:=true}) ∧
    (let cut : Cut := ⟨⟨1,9,1,[1,0x82,0x86,0]⟩,⟨0,0,true,false⟩,
        [([0x84,0x41,1,97],⟨0,0,true,false⟩)],by decide,by decide⟩
      let split := run (Actor.step plainLibrary {}) (.initial {} []) cut.actions
      let single := (Actor.initial {} []).step plainLibrary {} (cut.single ⟨0,0,true,false⟩)
      split.dispatched=[] ∧ split.ending=some (.raised .hpack) ∧ single.dispatched.length=1) := by
  decide +kernel

end Cuts

end BlackBull.H2
