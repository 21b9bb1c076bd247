import BlackBull.BodyBoundary
import BlackBull.TransitionRuns

/-!
# Reusing a connection

The life of one request on a keep-alive connection. The environment chooses when octets arrive,
which reads the handler makes, how their waits end and when it answers; the loop tail of
`HTTP1Actor.run` then asks the recipient what may follow and drains what is left.
-/

namespace BlackBull.KeepAlive

open HTTP1Recipient ByteString

def maxKeepaliveDrain : ℕ := 64*1024

inductive Phase where
  | serving
  | draining (drained : ℕ)
  | reused
  | closed
  deriving DecidableEq

structure Exchange where
  phase : Phase
  recipient : HTTP1Recipient

inductive Action where
  | arrive
  | nextChunk (waits : Waits)
  | receive (waits : Waits)
  | answered
  | drainRound (waits : Waits)

/-- The loop tail: the verdict on the connection once the handler has answered. -/
def answered (s : HTTP1Recipient) : Exchange :=
  match s.afterDispatch with
  | .mustClose => ⟨.closed,s⟩
  | .needsDrain => ⟨.draining 0,s⟩
  | .reusable => ⟨.reused,s⟩

/-- One round of the loop of `drain`. -/
def drainRound (drained : ℕ) (s : HTTP1Recipient) : Exchange :=
  if s.done then ⟨.reused,s⟩
  else
    match HTTP1Recipient.nextChunk s with
    | .error .clientDisconnected t => ⟨.reused,t⟩
    | .error (.httpException _) t => ⟨.closed,{t with bodyRefused:=true}⟩
    | .error _ t => ⟨.closed,t⟩
    | .ok none t => ⟨.reused,t⟩
    | .ok (some chunk) t =>
      if drained+chunk.length > maxKeepaliveDrain then ⟨.closed,t⟩
      else ⟨.draining (drained+chunk.length),t⟩

def step (x : Exchange) : Action → Exchange
  | .arrive =>
    match x.phase with
    | .reused => x
    | .closed => x
    | _ => {x with recipient:=x.recipient.arrive}
  | .nextChunk waits =>
    match x.phase with
    | .serving => ⟨.serving,leaving HTTP1Recipient.nextChunk (entering x.recipient waits)⟩
    | _ => x
  | .receive waits =>
    match x.phase with
    | .serving => ⟨.serving,leaving HTTP1Recipient.receive (entering x.recipient waits)⟩
    | _ => x
  | .answered =>
    match x.phase with
    | .serving => answered x.recipient
    | _ => x
  | .drainRound waits =>
    match x.phase with
    | .draining drained => drainRound drained (entering x.recipient waits)
    | _ => x

/-- The octets taken from `stream` are exactly the framed body at its front, or nothing is
left to read. -/
def BodyConsumed (stream : Bytes) (framing : Framing) (s : HTTP1Recipient) : Prop :=
  s.reader.stream=[] ∨
    ∃ wire,stream=wire++s.reader.stream ∧ framing.Encodes wire ∧
      ∀ wire',framing.Encodes wire' → wire' <+: stream → wire'=wire

/-- The call cannot run into its deadline with octets still to be read. -/
def Timely (s : HTTP1Recipient) (waits : Waits) : Prop :=
  s.settings.bodyTimeout≤0 ∨ waits.patience=none ∨ s.reader.stream=[] ∨
    s.done=true ∨ s.mustClose=true

/-- No read is cut off by its deadline, and no drain is refused for its rate. -/
def Undisturbed (x : Exchange) : Action → Prop
  | .nextChunk waits => Timely x.recipient waits
  | .receive waits => Timely x.recipient waits
  | .drainRound waits => Timely x.recipient waits ∧ KeepsRate x.recipient waits
  | _ => True

/-- A place in the body, or the end of the stream. -/
def Settled (stream : Bytes) (framing : Framing) (s : HTTP1Recipient) : Prop :=
  0<s.settings.chunkMax ∧
    (s.done=true ∧ s.reader.stream=[] ∨ AtBoundary stream framing s)

def Sound (stream : Bytes) (framing : Framing) (x : Exchange) : Prop :=
  match x.phase with
  | .serving => x.recipient.mustClose=true ∨ Settled stream framing x.recipient
  | .draining _ => x.recipient.mustClose=false ∧ Settled stream framing x.recipient
  | .reused => BodyConsumed stream framing x.recipient
  | .closed => True

section Calls

variable {st : Bytes} {fr : Framing} {s : HTTP1Recipient} {w : Waits}

theorem atBoundary_entering (h : AtBoundary st fr s) : AtBoundary st fr (entering s w) := by
  cases fr <;> exact h

/-- A timely call either stays in the body, or closes the connection, or has reached the end
of the stream. -/
theorem nextChunk_settles (hs : Settled st fr s) (ht : Timely s w)
    (hcl : s.mustClose=false) : Ensures HTTP1Recipient.nextChunk (entering s w)
      (fun out t => t.mustClose=false ∧ Settled st fr t ∧ (out=none → t.done=true))
      (fun e t => t.mustClose=true ∧ ((∃ ex,e=.httpException ex) ∨ ¬ KeepsRate s w) ∨
        e=.clientDisconnected ∧ t.done=true ∧ t.reader.stream=[]) := by
  obtain ⟨hm,hs⟩ := hs
  by_cases hdo : s.done=true
  · refine .of_ok (nextChunk_of_done (s := entering s w) hdo) ⟨hcl,⟨hm,?_⟩,fun _ => hdo⟩
    exact hs.imp id atBoundary_entering
  have hb : AtBoundary st fr s := hs.resolve_left fun h => hdo h.1
  refine ((nextChunk_ensures (s := entering s w) hm (atBoundary_entering hb)).and
    (moves_nextChunk (entering s w))).mono ?_ ?_
  · rintro out t ⟨⟨hb',hc',hn⟩,hev⟩
    exact ⟨hc'.trans hcl,⟨hev.settings ▸ hm,.inr hb'⟩,hn⟩
  · rintro e t ⟨⟨he,hc⟩ | ⟨rfl,hd,⟨hen | hde,-⟩ | ⟨hc,k,hl⟩⟩,hev⟩
    · exact .inl ⟨by rcases hc with hc | hc <;> simp [mustClose,hc],.inl he⟩
    · exact .inr ⟨rfl,hd,hen⟩
    · refine .inr ⟨rfl,hd,?_⟩
      obtain h | h | h | h | h := ht
      · exact absurd hde.1 (not_lt.mpr h)
      · exact absurd h hde.2
      · exact List.suffix_nil.mp (h ▸ hev.stream)
      · exact absurd h hdo
      · exact absurd (hcl.symm.trans h) (by decide)
    · exact .inl ⟨hc,.inr fun hk => hk k hl⟩

theorem serving_nextChunk (hs : s.mustClose=true ∨ Settled st fr s)
    (ht : Timely s w) : Ensures HTTP1Recipient.nextChunk (entering s w)
      (fun _ t => t.mustClose=true ∨ Settled st fr t)
      (fun _ t => t.mustClose=true ∨ Settled st fr t) := by
  by_cases hcl : s.mustClose=true
  · exact (moves_nextChunk (entering s w)).mono (fun _ t h => .inl (h.mustClose hcl))
      fun _ t h => .inl (h.mustClose hcl)
  · have hse := hs.resolve_left hcl
    refine ((nextChunk_settles hse ht (by simpa using hcl)).and
      (moves_nextChunk (entering s w))).mono (fun _ t h => .inr h.1.2.1) ?_
    rintro e t ⟨⟨hc,-⟩ | ⟨-,hd,he⟩,hev⟩
    · exact .inl hc
    · exact .inr ⟨hev.settings ▸ hse.1,.inl ⟨hd,he⟩⟩

theorem bodyConsumed_of_settled (hs : Settled st fr s)
    (hf : s.done=true ∨ s.chunked=false ∧ s.contentLength.getD 0=0) : BodyConsumed st fr s := by
  obtain ⟨-,⟨-,he⟩ | ⟨wire,hst,hp⟩⟩ := hs
  · exact .inl he
  have hen : fr.Encodes wire := by
    cases fr with
    | chunked =>
      obtain hd | ⟨hc,-⟩ := hf
      · simpa only [Position,hd,↓reduceIte] using hp.2
      · exact absurd (hp.1.symm.trans hc) (by decide)
    | sized n =>
      obtain ⟨-,owed,hcl,hsu,hz⟩ := hp
      have ho : owed=0 := by
        obtain hd | ⟨-,h⟩ := hf
        · exact hz hd
        · simpa [hcl] using h
      exact (by omega : wire.length=n)
    | empty => exact hp.2.2
  have hpr : wire <+: st := ⟨_,hst.symm⟩
  exact .inr ⟨wire,hst,hen,fun wr h' hs' => h'.unique hen hs' hpr⟩

theorem answered_sound (hs : s.mustClose=true ∨ Settled st fr s) : Sound st fr (answered s) := by
  unfold answered afterDispatch
  split_ifs with hc hd
  · trivial
  all_goals
    have ho : s.mustClose=false := by simpa [mustClose] using hc
    have hse : Settled st fr s := hs.resolve_left (by simp [ho])
  · exact ⟨ho,hse⟩
  · refine bodyConsumed_of_settled hse ?_
    simp only [Bool.and_eq_true,Bool.not_eq_true',Bool.or_eq_true,bne_iff_ne,ne_eq,
      not_and,not_or,Bool.not_eq_true,not_not] at hd
    by_cases hdo : s.done=true
    · exact .inl hdo
    · exact .inr (hd (by simpa using hdo))

theorem drainRound_sound (d : ℕ) (ho : s.mustClose=false)
    (hs : Settled st fr s) (ht : Timely s w) (hr : KeepsRate s w) :
    Sound st fr (drainRound d (entering s w)) := by
  unfold drainRound
  split_ifs with hd
  · exact bodyConsumed_of_settled ⟨hs.1,hs.2.imp id atBoundary_entering⟩ (.inl hd)
  have hc := nextChunk_settles hs ht ho
  cases hx : HTTP1Recipient.nextChunk (entering s w) with
  | ok out t =>
    obtain ⟨ho',hs',hn⟩ := hc.ok hx
    cases out with
    | none => exact bodyConsumed_of_settled hs' (.inl (hn rfl))
    | some c =>
      dsimp only
      split_ifs
      · trivial
      · exact ⟨ho',hs'⟩
  | error e t =>
    obtain ⟨-,⟨ex,rfl⟩ | hsl⟩ | ⟨rfl,-,he⟩ := hc.error hx
    · trivial
    · exact absurd hr hsl
    · exact .inl he

end Calls

theorem sound_step {stream : Bytes} {f : Framing} (x : Exchange) (a : Action)
    (hx : Sound stream f x) (ha : Undisturbed x a) : Sound stream f (step x a) := by
  obtain ⟨p,s⟩ := x
  have har : AtBoundary stream f s → AtBoundary stream f s.arrive := by
    rintro ⟨wire,hst,hp⟩
    refine ⟨wire,by simpa [HTTP1Recipient.arrive] using hst,?_⟩
    cases f <;> exact hp
  have hse : Settled stream f s → Settled stream f s.arrive := by
    rintro ⟨hm,hs⟩
    refine ⟨hm,hs.imp (fun h => ⟨h.1,?_⟩) har⟩
    simpa [HTTP1Recipient.arrive] using h.2
  cases a with
  | arrive =>
    cases p with
    | serving => exact hx.imp id hse
    | draining d => exact ⟨hx.1,hse hx.2⟩
    | reused => exact hx
    | closed => exact hx
  | nextChunk waits =>
    cases p with
    | serving => exact (serving_nextChunk hx ha).leaving
    | _ => exact hx
  | receive waits =>
    cases p with
    | serving =>
      refine (receive_ensures ?_ (serving_nextChunk hx ha)).leaving
      exact hx.imp id fun h => ⟨h.1,h.2.imp id atBoundary_entering⟩
    | _ => exact hx
  | answered =>
    cases p with
    | serving => exact answered_sound hx
    | _ => exact hx
  | drainRound waits =>
    cases p with
    | draining d => exact drainRound_sound d hx.1 hx.2 ha.1 ha.2
    | _ => exact hx

theorem bind_settled {cfg : RecipientSettings} {r : Reader} {hdrs : Headers}
    {s : HTTP1Recipient} (h : HTTP1Recipient.bind cfg r hdrs=.ok s) :
    Settled r.stream (Framing.ofHeaders hdrs) s := by
  obtain ⟨hr,hs,-,hdo,hre,hch,hf⟩ := bind_eq_ok h
  refine ⟨hs ▸ Nat.le_max_right _ _,.inr ⟨[],by rw [hr]; rfl,?_⟩⟩
  cases hc : s.chunked with
  | true =>
    rw [hc] at hch
    rw [of_decide_eq_true hch.symm]
    refine ⟨hc,?_⟩
    rw [hdo,if_neg (by decide),hre]
    exact .start
  | false =>
    rw [hf hc]
    cases hcl : s.contentLength with
    | none => exact ⟨hc,hcl,rfl⟩
    | some n => exact ⟨hc,n,hcl,Nat.zero_add n,fun hd => absurd (hdo.symm.trans hd) (by decide)⟩

/-- In an undisturbed exchange a connection is reused only once the octets taken from the
stream are exactly the framed body, or nothing is left of the stream. -/
theorem reused_body_consumed {settings : RecipientSettings} {reader : Reader}
    {headers : Headers} {s : HTTP1Recipient} {actions : List Action}
    (hbind : HTTP1Recipient.bind settings reader headers=.ok s)
    (hrun : Along step Undisturbed ⟨.serving,s⟩ actions)
    (hreused : (run step ⟨.serving,s⟩ actions).phase=.reused) :
    BodyConsumed reader.stream (Framing.ofHeaders headers)
      (run step ⟨.serving,s⟩ actions).recipient := by
  have hs := hrun.invariant sound_step
    (show Sound reader.stream (Framing.ofHeaders headers) ⟨.serving,s⟩ from
      .inr (bind_settled hbind))
  simpa only [Sound,hreused] using hs

def twoSegments : Reader :=
  ⟨[],.arrival ⟨ascii "he",by decide⟩ (.arrival ⟨ascii "llo",by decide⟩ .hangup),none⟩

def fiveOctets : Headers := Headers.fromLowered [(ascii "content-length",ascii "5")]

theorem reused_body_consumed_five :
    ∃ s,HTTP1Recipient.bind {bodyTimeout:=30,minRate:=0} twoSegments fiveOctets=.ok s ∧
      BodyConsumed (ascii "hello") (.sized 5) (run step ⟨.serving,s⟩
          [.nextChunk {},.answered,.drainRound {},.drainRound {}]).recipient := by
  have hb : HTTP1Recipient.bind {bodyTimeout:=30,minRate:=0} twoSegments fiveOctets = .ok _ := rfl
  refine ⟨_,hb,reused_body_consumed hb ?_ (by decide)⟩
  have hr : ∀ s : HTTP1Recipient,s.settings.minRate=0 → ∀ waits,KeepsRate s waits :=
    fun s hs waits k hl => hl.1 hs
  refine ⟨.inr (.inl rfl),trivial,⟨.inr (.inl rfl),hr _ rfl _⟩,?_,trivial⟩
  exact ⟨.inr (.inl rfl),hr _ rfl _⟩

/-- A read of the handler that runs into the body timeout, and a drain whose first octets come
below the minimum rate, both leave body octets on a connection that is then reused. -/
theorem reused_with_body_left :
    (∃ s,HTTP1Recipient.bind {bodyTimeout:=30} twoSegments fiveOctets=.ok s ∧
      (run step ⟨.serving,s⟩ [.nextChunk {patience:=some 0},.answered]).phase=.reused ∧
      ¬ BodyConsumed (ascii "hello") (.sized 5)
        (run step ⟨.serving,s⟩ [.nextChunk {patience:=some 0},.answered]).recipient) ∧
    ∃ s,HTTP1Recipient.bind {bodyTimeout:=30} twoSegments fiveOctets=.ok s ∧
      (run step ⟨.serving,s⟩ [.answered,.drainRound {elapsed:=[10]}]).phase=.reused ∧
      ¬ BodyConsumed (ascii "hello") (.sized 5)
        (run step ⟨.serving,s⟩ [.answered,.drainRound {elapsed:=[10]}]).recipient := by
  have hl (s : HTTP1Recipient) (text : Bytes) (hs : s.reader.stream=text) (hne : text≠[]) :
      ¬ BodyConsumed (ascii "hello") (.sized 5) s := by
    rintro (he | ⟨wire,hst,hw,-⟩)
    · exact hne (hs.symm.trans he)
    · have hle := congrArg List.length hst
      rw [List.length_append,hs,show wire.length=5 from hw] at hle
      have hp := List.length_pos_of_ne_nil hne
      have hf : (ascii "hello").length=5 := by decide
      omega
  refine ⟨⟨_,rfl,by decide,hl _ (ascii "hello") (by decide) (by decide)⟩,
    ⟨_,rfl,by decide +kernel,hl _ (ascii "llo") (by decide +kernel) (by decide)⟩⟩

end BlackBull.KeepAlive
