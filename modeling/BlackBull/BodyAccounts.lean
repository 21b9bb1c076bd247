import BlackBull.StreamIdentifiers

/-!
# Request bodies and the length they declare

The application is told that a body is complete when END_STREAM comes on HEADERS, on DATA or on
trailers. `Accounted` is the invariant: the counter of every stream that still receives is the
number of octets its DATA frames have carried, tallied from the frames alone.
-/

namespace BlackBull.H2

open ByteString HeadParser

variable {τ : Type}

def Item.ends : Item → Bool
  | .data _ endStream => endStream
  | .endOfStream => true
  | .disconnect => false

def Recipient.complete (recipient : Recipient) : Bool :=
  recipient.endOfStreamOnHeaders || recipient.items.any Item.ends

def Actor.toldComplete (s : Actor τ) (streamId : ℕ) : Bool :=
  (s.recipients.get? streamId).any Recipient.complete

/-- The lengths that the fields of the request declare are all this one. -/
def Request.LengthFits (request : Request) (total : ℕ) : Prop :=
  ∀ field∈request.headers,field.1=ascii "content-length" → pythonInt field.2=some total

instance (request : Request) (total : ℕ) : Decidable (request.LengthFits total) :=
  inferInstanceAs (Decidable (∀ field∈request.headers,_))

/-- The declared lengths are numbers, and they agree. -/
def Request.Consistent (request : Request) : Prop :=
  ∀ field∈request.headers,field.1=ascii "content-length" →
    (extractContentLength request).isSome=true ∧
      pythonInt field.2=(extractContentLength request).map Int.ofNat

instance (request : Request) : Decidable request.Consistent :=
  inferInstanceAs (Decidable (∀ field∈request.headers,_))

theorem Request.Consistent.fits {q : Request} (h : q.Consistent) {tot : ℕ}
    (ht : ∀ n,extractContentLength q=some n → n=tot) : q.LengthFits tot := by
  intro f hm hna
  obtain ⟨hs,hv⟩ := h f hm hna
  obtain ⟨n,hn⟩ := Option.isSome_iff_exists.mp hs
  rw [hv,hn,ht n hn]
  rfl

def RawFrame.dataOctets (raw : RawFrame) : ℕ :=
  if raw.type=some .data then
    match dataPayload raw with
    | .ok payload => payload.length
    | .error _ => 0
  else 0

def tallyData (tally : ℕ → ℕ) : Action → ℕ → ℕ
  | .frame raw _ => Function.update tally raw.streamId (tally raw.streamId+raw.dataOctets)
  | _ => tally

theorem tallyData_of_ne {raw : RawFrame} (h : raw.type≠some .data) (tal : ℕ → ℕ)
    (m : Moment) : tallyData tal (.frame raw m)=tal := by
  simp [tallyData,RawFrame.dataOctets,h]

def Stream.receiving (stream : Stream) : Prop :=
  stream.state≠.halfClosedRemote ∧ stream.state≠.closed

structure Accounted (tally : ℕ → ℕ) (s : Actor τ) : Prop where
  idle : ∀ streamId stream,s.children.get? streamId=some stream → stream.request=none →
    stream.state=.idle
  counted : ∀ streamId stream,s.children.get? streamId=some stream →
    stream.request.isSome=true → stream.receiving →
      stream.receivedDataBytes=tally streamId
  /-- The stream of an octet that has come is in the tree or closed. -/
  known : ∀ streamId,tally streamId≠0 →
    (s.children.get? streamId).isSome=true ∨ streamId ≤ s.closedHighWater
  block : ∀ frame,s.openBlock=some frame → tally frame.streamId=0 ∧
    ∀ stream,s.children.get? frame.streamId=some stream →
      stream.request=none ∧ stream.receivedDataBytes=0
  given : ∀ request∈s.dispatched,∀ stream,
    s.children.get? request.streamId=some stream → stream.request.isSome=true →
      stream.request=some request.request
  expected : ∀ streamId stream request,s.children.get? streamId=some stream →
    stream.request=some request →
      stream.expectedContentLength=extractContentLength request ∧ request.Consistent
  closed : ∀ streamId,(s.closedStreams.get? streamId).isSome=true →
    streamId ≤ s.closedHighWater

/-- Whoever has been told since the old state that the body is complete has a body of the length
declared; the streams that the server opens keep the parity of their numbers. -/
abbrev Told (old : Actor τ) (tally : ℕ → ℕ) (s : Actor τ) : Prop :=
  (∀ streamId,old.toldComplete streamId=false → s.toldComplete streamId=true →
    ∀ request∈s.dispatched,request.streamId=streamId →
      request.request.LengthFits (tally streamId)) ∧
  s.nextPushStreamId % 2 = old.nextPushStreamId % 2

structure Holds (old : Actor τ) (tally : ℕ → ℕ) (s : Actor τ) : Prop where
  accounted : s.ended=false → Accounted tally s
  told : Told old tally s

/-- The streams are as they were, and nobody is told anything new of the end of a body. -/
structure Still (s t : Actor τ) : Prop where
  children : t.children=s.children
  dispatched : t.dispatched=s.dispatched
  closedHighWater : t.closedHighWater=s.closedHighWater
  closedStreams : t.closedStreams=s.closedStreams
  openBlock : t.openBlock=s.openBlock
  nextPush : t.nextPushStreamId=s.nextPushStreamId
  told : ∀ streamId,t.toldComplete streamId=true → s.toldComplete streamId=true
  ended : s.ended=true → t.ended=true

instance : IsPreorder (Actor τ) Still where
  refl _ := ⟨rfl,rfl,rfl,rfl,rfl,rfl,fun _ => id,id⟩
  trans _ _ _ h h' := ⟨h'.children.trans h.children,h'.dispatched.trans h.dispatched,
    h'.closedHighWater.trans h.closedHighWater,h'.closedStreams.trans h.closedStreams,
    h'.openBlock.trans h.openBlock,h'.nextPush.trans h.nextPush,
    fun streamId hu => h.told streamId (h'.told streamId hu),fun hs => h'.ended (h.ended hs)⟩

section

variable {old s t : Actor τ} {ta : ℕ → ℕ}

theorem Still.live (h : Still s t) (ht : t.ended=false) : s.ended=false :=
  Bool.eq_false_iff.mpr fun hs => by simp [h.ended hs] at ht

theorem Accounted.still (h : Accounted ta s) (hst : Still s t) : Accounted ta t := by
  obtain ⟨hc,hd,hh,hcl,ho,-,-,-⟩ := hst
  constructor
  · rw [hc]; exact h.idle
  · rw [hc]; exact h.counted
  · rw [hc,hh]; exact h.known
  · rw [hc,ho]; exact h.block
  · rw [hc,hd]; exact h.given
  · rw [hc]; exact h.expected
  · rw [hcl,hh]; exact h.closed

theorem Told.still (h : Told old ta s) (hst : Still s t) : Told old ta t := by
  refine ⟨fun id1 hold ht q hm hid => ?_,by rw [hst.nextPush,h.2]⟩
  exact h.1 id1 hold (hst.told id1 ht) q (hst.dispatched ▸ hm) hid

theorem Holds.still (h : Holds old ta s) (hst : Still s t) : Holds old ta t :=
  ⟨fun ht => (h.accounted (hst.live ht)).still hst,h.told.still hst⟩

theorem told_self (ta : ℕ → ℕ) (s : Actor τ) : Told s ta s := by
  refine ⟨fun id1 hold hn => ?_,rfl⟩
  simp [hold] at hn

/-- Once the connection has ended only what has been said counts. -/
theorem Told.holds (h : Told old ta s) (he : s.ended=true) : Holds old ta s :=
  ⟨fun hl => by simp [he] at hl,h⟩

end

theorem Holds.moves {α : Type} {old s : Actor τ} {tal : ℕ → ℕ} {x : ActorM τ α}
    (h : Holds old tal s) (hx : Moves Still x) :
    Ensures x s (fun _ => Holds old tal) (fun _ => Holds old tal) :=
  (hx s).mono (fun _ _ => h.still) fun _ _ => h.still

theorem still_update {f : Actor τ → Actor τ} (hf : ∀ s,((f s).children,(f s).dispatched,(f
    s).closedHighWater,(f s).closedStreams,(f s).openBlock,(f s).nextPushStreamId,(f
    s).recipients,(f s).goawaySent,(f s).ending)=(s.children,s.dispatched,s.closedHighWater,
    s.closedStreams,s.openBlock,s.nextPushStreamId,s.recipients,s.goawaySent,s.ending)) (s :
    Actor τ) : Still s (f s) := by
  have h := hf s
  simp only [Prod.mk.injEq] at h
  obtain ⟨hc,hd,hh,hs,ho,hp,hr,hg,he⟩ := h
  refine ⟨hc,hd,hh,hs,ho,hp,fun id1 ht => ?_,fun hen => ?_⟩
  · simpa [Actor.toldComplete,hr] using ht
  · simpa [Actor.ended,hg,he] using hen

theorem still_emit {f : OutFrame} : Moves Still (emit f : ActorM τ Unit) :=
  .modify (still_update fun _ => rfl)

theorem voices_still {id1 : ℕ} : Voices (Still (τ := τ)) id1 :=
  ⟨fun _ _ => still_emit,fun _ _ => ⟨rfl,rfl,rfl,rfl,rfl,rfl,fun _ => id,fun _ => rfl⟩,
    fun s ms => still_update (f := fun s => {s with meters:=ms}) (fun _ => rfl) s⟩

theorem still_connectionError {c : ErrorCode} : Moves Still (connectionError c : ActorM τ Unit) :=
  (voices_still : Voices _ 0).connectionError.moves

theorem complete_append (rc : Recipient) (i : Item) :
    ({rc with items:=rc.items++[i]} : Recipient).complete =
      (rc.complete || i.ends) := by
  simp [Recipient.complete,Bool.or_assoc]

theorem toldComplete_tellRecipient (s : Actor τ) (id1 o : ℕ) (i : Item) :
    (s.tellRecipient id1 i).toldComplete o=(s.toldComplete o ||
        (decide (id1=o) && (s.recipients.get? id1).isSome && i.ends)) := by
  unfold Actor.tellRecipient Actor.toldComplete
  cases hr : s.recipients.get? id1 with
  | none => simp
  | some rc =>
    dsimp only
    rw [Dict.get?_set]
    by_cases ho : id1=o
    · subst ho
      simp [hr,complete_append]
    · simp [ho]

theorem still_tellRecipient (s : Actor τ) (id1 : ℕ) {i : Item}
    (hi : i.ends=false) : Still s (s.tellRecipient id1 i) := by
  have ht (o : ℕ) : (s.tellRecipient id1 i).toldComplete o = s.toldComplete o := by
    simp [toldComplete_tellRecipient,hi]
  refine ⟨?_,?_,?_,?_,?_,?_,fun o h => ht o ▸ h,fun h => ?_⟩
  all_goals rw [tellRecipient_same]
  exact h

theorem toldComplete_signalRecipients (s : Actor τ) (id1 : ℕ) :
    s.signalRecipients.toldComplete id1=s.toldComplete id1 := by
  have hm : s.signalRecipients.recipients.get? id1 = (s.recipients.get? id1).map fun rc =>
        {rc with items:=rc.items++[.disconnect]} :=
    Dict.get?_map s.recipients (fun rc => ({rc with
      items:=rc.items++[.disconnect]} : Recipient)) id1
  unfold Actor.toldComplete
  rw [hm]
  cases s.recipients.get? id1 with
  | none => rfl
  | some rc => simp [complete_append,Item.ends]

theorem still_signalRecipients (s : Actor τ) (e : Option Ending) (he : s.ending.isSome → e.isSome) :
    Still s {s.signalRecipients with ending:=e} := by
  refine ⟨rfl,rfl,rfl,rfl,rfl,rfl,fun id1 h => ?_,fun h => ?_⟩
  · rwa [← toldComplete_signalRecipients]
  · simp only [Actor.ended,Bool.or_eq_true] at h ⊢
    exact h.imp id he

theorem still_finish : Moves Still (finish : ActorM τ Unit) :=
  .modify fun s => still_signalRecipients s _ fun _ => rfl

section Changes

variable {old s : Actor τ} {tl t' : ℕ → ℕ} {sid : ℕ} {st : Stream}

theorem toldComplete_modifyStream (s : Actor τ) (sid o : ℕ) (f : Stream → Stream) :
    (s.modifyStream sid f).toldComplete o=s.toldComplete o := by
  rw [modifyStream_same]
  rfl

structure NodeAccounted (tally : ℕ → ℕ) (s : Actor τ) (streamId : ℕ) (stream : Stream) :
    Prop where
  idle : stream.request=none → stream.state=.idle
  counted : stream.request.isSome=true → stream.receiving →
    stream.receivedDataBytes=tally streamId
  given : ∀ request∈s.dispatched,request.streamId=streamId →
    stream.request.isSome=true → stream.request=some request.request
  expected : ∀ request,stream.request=some request →
    stream.expectedContentLength=extractContentLength request ∧ request.Consistent

theorem Accounted.node (h : Accounted tl s) (hn : s.children.get? sid=some st) :
    NodeAccounted tl s sid st := by
  refine ⟨h.idle _ _ hn,h.counted _ _ hn,?_,fun q => h.expected _ _ q hn⟩
  rintro q hm rfl
  exact h.given q hm st hn

theorem Accounted.set (h : Accounted tl s) (ho : s.openBlock=none)
    (ht : ∀ o,o≠sid → t' o=tl o) (hn : NodeAccounted t' s sid st) :
    Accounted t' {s with children:=s.children.set sid st} := by
  have hot {o : ℕ} {node : Stream} (hg : (s.children.set sid st).get? o=some node) :
      (o=sid ∧ node=st) ∨ (o≠sid ∧ s.children.get? o=some node) := by
    rw [Dict.get?_set] at hg
    split_ifs at hg with heq
    · exact .inl ⟨heq.symm,(Option.some.inj hg).symm⟩
    · exact .inr ⟨fun h => heq h.symm,hg⟩
  refine ⟨?_,?_,?_,by simp [ho],?_,?_,h.closed⟩
  · intro o node hg
    rcases hot hg with ⟨rfl,rfl⟩ | ⟨-,hg⟩
    · exact hn.idle
    · exact h.idle o node hg
  · intro o node hg hs hr
    rcases hot hg with ⟨rfl,rfl⟩ | ⟨hne,hg⟩
    · exact hn.counted hs hr
    · rw [ht o hne]
      exact h.counted o node hg hs hr
  · intro o hp
    by_cases heq : sid=o
    · exact .inl (by simp [Dict.get?_set,heq])
    · have hne : o≠sid := fun h => heq h.symm
      rcases h.known o (ht o hne ▸ hp) with hs | hc
      · exact .inl (by simpa [Dict.get?_set,heq] using hs)
      · exact .inr hc
  · intro q hm node hg hs
    rcases hot hg with ⟨hid,rfl⟩ | ⟨-,hg⟩
    · exact hn.given q hm hid hs
    · exact h.given q hm node hg hs
  · intro o node q hg hre
    rcases hot hg with ⟨rfl,rfl⟩ | ⟨-,hg⟩
    · exact hn.expected q hre
    · exact h.expected o node q hg hre

theorem Holds.modifyStream (h : Holds old tl s) (ho : s.openBlock=none) {f : Stream → Stream}
    (hf : ∀ st,s.children.get? sid=some st → NodeAccounted tl s sid st →
    NodeAccounted tl s sid (f st)) : Holds old tl (s.modifyStream sid f) := by
  cases hn : s.children.get? sid with
  | none =>
    rw [Actor.modifyStream,hn]
    exact h
  | some st =>
    rw [modifyStream_eq hn]
    refine ⟨fun hl => ?_,h.told⟩
    have ha := h.accounted hl
    exact ha.set ho (fun _ _ => rfl) (hf st hn (ha.node hn))

theorem Accounted.refuse (h : Accounted tl s) (ho : s.openBlock=none) (ht : ∀ o,o≠sid →
    t' o=tl o) (hn : ∀ st,s.children.get? sid=some st → ¬ st.receiving)
    (hk : (s.children.get? sid).isSome=true ∨ sid ≤ s.closedHighWater) : Accounted t' s := by
  refine ⟨h.idle,?_,?_,by simp [ho],h.given,h.expected,h.closed⟩
  · intro o st hg hs hr
    by_cases heq : o=sid
    · subst heq
      exact absurd hr (hn st hg)
    · rw [ht o heq]
      exact h.counted o st hg hs hr
  · intro o hp
    by_cases heq : o=sid
    · subst heq
      exact hk
    · exact h.known o (ht o heq ▸ hp)

theorem Accounted.close (h : Accounted tl s) (sid : ℕ) (vr : Bool) : Accounted tl
      (Actor.markClosed {s with children:=s.children.pop sid} sid vr) := by
  have hp {o : ℕ} {node : Stream} (hg : (s.children.pop sid).get? o=some node) :
      s.children.get? o=some node := get?_pop_some hg
  have hm {o : ℕ} (hle : o ≤ s.closedHighWater) :
      o ≤ max s.closedHighWater sid := hle.trans (le_max_left _ _)
  constructor
  · exact fun o node hg => h.idle o node (hp hg)
  · exact fun o node hg => h.counted o node (hp hg)
  · intro o hpo
    by_cases heq : sid=o
    · exact .inr (heq ▸ le_max_right _ _)
    · rcases h.known o hpo with hs | hc
      · refine .inl ?_
        show ((s.children.pop sid).get? o).isSome=true
        rwa [Dict.get?_pop,if_neg heq]
      · exact .inr (hm hc)
  · intro f hf
    obtain ⟨hz,hb⟩ := h.block f hf
    exact ⟨hz,fun node hg => hb node (hp hg)⟩
  · exact fun q hme node hg => h.given q hme node (hp hg)
  · exact fun o node q hg => h.expected o node q (hp hg)
  · intro o hg
    have hse : ((s.closedStreams.set sid vr).get? o).isSome=true := by
      simp only [Actor.markClosed] at hg
      split_ifs at hg
      · exact Dict.isSome_get?_of_tail hg
      · exact hg
    rw [Dict.get?_set] at hse
    split_ifs at hse with heq
    · exact heq ▸ le_max_right _ _
    · exact hm (h.closed o hse)

end Changes

end BlackBull.H2
