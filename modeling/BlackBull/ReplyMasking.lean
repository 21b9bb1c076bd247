import BlackBull.FrameReading
import BlackBull.TransitionRuns

/-!
# The mask of the frames a recipient writes itself

A recipient answers a PING, echoes a CLOSE, and ends a connection with a CLOSE of its own.
Every frame is masked by the role, but for the CLOSE that answers an unknown opcode.
-/

namespace BlackBull.WebSocket

/-- A frame that is written, and the argument `mask` of `encode_frame`. -/
structure Reply where
  sent : Sent
  mask : Bool
  deriving DecidableEq

def Reply.isClose (reply : Reply) : Bool :=
  match reply.sent with
  | .close _ => true
  | .pong _ => false

structure Driver (σ : Type) where
  wire : Wire σ
  stage : Stage := .header
  written : List Reply := []
  finished : Bool := false

inductive WireEvent
  | arrives (data : Bytes)
  | eof
  /-- A read; `raises` says that the PONG cannot be written, or that `_on_message` raises. -/
  | reads (now : ℕ) (raises : Bool)

/-- The payload of a frame with an unknown opcode is read next. -/
def Stage.unknown : Stage → Bool
  | payload h _ _ =>
    match h.opcode with
    | .reserved _ => true
    | _ => false
  | _ => false

namespace Driver

variable {σ : Type}

def close (d : Driver σ) (wire : Wire σ) (code : ℕ) (mask : Bool) : Driver σ where
  wire
  written := d.written++[⟨.close code,mask⟩]
  finished := true

/-- `_drive_once`, from what a read comes to. -/
def follow (config : Config) (raises : Bool) (d : Driver σ) : Progress σ → Driver σ
  | .waits => d
  | .ends => {d with finished:=true}
  | .raises error wire => d.close wire error.closeCode (!config.requireMasked)
  | .goes stage wire => {d with stage,wire}
  | .done .nothing wire => {d with wire,stage:=.header}
  | .done (.message _) wire =>
    if raises then d.close wire 1011 (!config.requireMasked)
    else {d with wire,stage:=.header}
  | .done (.pong payload) wire =>
    if raises then d.close wire 1011 (!config.requireMasked)
    else
      {d with
        wire
        stage:=.header
        written:=d.written++[⟨.pong payload,!config.requireMasked⟩]}
  -- `_handle_unknown_opcode` leaves the mask at its default
  | .done (.close code) wire =>
    d.close wire code (if d.stage.unknown then false else !config.requireMasked)

def step (config : Config) (inflater : Inflater σ) (d : Driver σ) : WireEvent → Driver σ
  | .arrives data => {d with wire:={d.wire with buffer:=d.wire.buffer++data}}
  | .eof => {d with wire:={d.wire with eof:=true}}
  | .reads now raises =>
    if d.finished then d else d.follow config raises (d.wire.read config inflater now d.stage)

def closes (d : Driver σ) : ℕ := d.written.countP Reply.isClose

/-- The frames are masked in the client's role only, and one of them at most is a CLOSE. -/
structure Proper (config : Config) (d : Driver σ) : Prop where
  masked : ∀ reply∈d.written,reply.mask = !config.requireMasked
  single : d.closes≤1

/-- In the client's role, no frame with an unknown opcode is read to its end. -/
def KnownOpcodes (config : Config) (d : Driver σ) : WireEvent → Prop
  | .reads _ _ => d.finished=false → d.stage.unknown=true →
    d.stage.need≤d.wire.buffer.length → config.requireMasked=true
  | _ => True

/-- Nothing is written after a CLOSE. -/
structure Tidy (d : Driver σ) : Prop where
  single : d.closes≤1
  live : d.finished=false → d.closes=0

variable {cfg : Config} {inflater : Inflater σ} {d : Driver σ}

theorem tidy_close (h : d.closes=0) (w : Wire σ) (c : ℕ) (m : Bool) : (d.close w c m).Tidy := by
  have hc : (d.close w c m).closes=d.closes+1 := by simp [closes,close,Reply.isClose]
  exact ⟨by omega,Bool.noConfusion⟩

theorem tidy_follow (h : d.closes=0) (r : Bool) (p : Progress σ) : (d.follow cfg r p).Tidy := by
  have hd : ∀ e : Driver σ,e.closes=d.closes → e.Tidy := fun e he => ⟨by omega,fun _ => by omega⟩
  unfold follow
  split
  · exact hd _ rfl
  · exact hd _ rfl
  · exact tidy_close h _ _ _
  · exact hd _ rfl
  · exact hd _ rfl
  · split
    · exact tidy_close h _ _ _
    · exact hd _ rfl
  · split
    · exact tidy_close h _ _ _
    · exact hd _ (by simp [closes,Reply.isClose])
  · exact tidy_close h _ _ _

theorem tidy_step (e : WireEvent) (h : d.Tidy) : (d.step cfg inflater e).Tidy := by
  cases e with
  | arrives dt | eof => exact ⟨h.single,h.live⟩
  | reads now r =>
    unfold step
    dsimp only
    split
    · exact h
    · next hf => exact tidy_follow (h.live (Bool.not_eq_true _ ▸ hf)) r _

theorem masked_follow (rs : Bool) (p : Progress σ)
    (hm : ∀ r∈d.written,r.mask = !cfg.requireMasked) :
    (∀ r∈(d.follow cfg rs p).written,r.mask = !cfg.requireMasked) ↔
      ((∃ code wire,p=.done (.close code) wire) → d.stage.unknown=true →
        cfg.requireMasked=true) := by
  have hc : ∀ wire code m,(∀ r∈(d.close wire code m).written,
      r.mask = !cfg.requireMasked) ↔ m = !cfg.requireMasked := by
    intro wire code m
    simp only [close,List.mem_append,List.mem_singleton]
    exact ⟨fun h => h ⟨.close code,m⟩ (.inr rfl),
      fun h r hr => hr.elim (hm r) fun he => by rw [he,h]⟩
  unfold follow
  split
  · simpa using hm
  · simpa using hm
  · simp [hc]
  · simpa using hm
  · simpa using hm
  · split
    · simp [hc]
    · simpa using hm
  · split
    · simp [hc]
    · simpa [or_imp,forall_and] using hm
  · rw [hc]
    cases d.stage.unknown with
    | true => cases cfg.requireMasked <;> simp
    | false => simp

theorem read_unknown (now : ℕ) (hu : d.stage.unknown=true) (hr : cfg.requireMasked=false) :
    (∃ code wire,d.wire.read cfg inflater now d.stage=.done (.close code) wire) ↔
      d.stage.need≤d.wire.buffer.length := by
  unfold Wire.read
  split
  · next hn =>
    refine iff_of_true ?_ hn
    cases hs : d.stage with
    | payload h size key =>
      rw [hs] at hu
      cases ho : h.opcode with
      | reserved code => simp [resume,handle,ho,hr,Progress.ofReaction]
      | _ => simp [Stage.unknown,ho] at hu
    | _ => simp [Stage.unknown,hs] at hu
  · next hn =>
    refine iff_of_false ?_ hn
    split <;> simp

theorem proper_step (e : WireEvent) (ht : d.Tidy) (h : d.Proper cfg) :
    d.KnownOpcodes cfg e ↔ (d.step cfg inflater e).Proper cfg := by
  have hp : (d.step cfg inflater e).Proper cfg ↔
      ∀ r∈(d.step cfg inflater e).written,r.mask = !cfg.requireMasked :=
    ⟨Proper.masked,fun hm => ⟨hm,(tidy_step e ht).single⟩⟩
  rw [hp]
  cases e with
  | arrives dt | eof => exact iff_of_true trivial h.masked
  | reads now rs =>
    unfold KnownOpcodes step
    dsimp only
    cases hf : d.finished with
    | true => simpa using h.masked
    | false =>
      rw [if_neg Bool.false_ne_true,masked_follow rs _ h.masked]
      by_cases hr : cfg.requireMasked=true
      · simp [hr]
      · by_cases hu : d.stage.unknown=true
        · rw [read_unknown now hu (Bool.not_eq_true _ ▸ hr)]
          simp [hu,hr]
        · simp [hu]

/-- What has been written is proper at every moment exactly in the runs in which a client reads no
frame with an unknown opcode. -/
theorem replies_masked_iff (config : Config) (inflater : Inflater σ) (wire : Wire σ)
    (events : List WireEvent) :
    (∀ n,(run (step config inflater) {wire} (events.take n)).Proper config) ↔
      Along (step config inflater) (KnownOpcodes config) {wire} events :=
  always_iff_along (fun _ e => tidy_step e) (fun _ e => proper_step e)
    ⟨Nat.zero_le 1,fun _ => rfl⟩ ⟨by simp,Nat.zero_le 1⟩

/-- A client answers a frame with the opcode 3 with a CLOSE that is not masked. -/
theorem unknown_opcode_unmasked :
    (run (step {requireMasked:=false} ⟨(),fun state input => (input,some state)⟩)
      {wire:={inflater:=(),meter:={limit:=20,window:=1}}}
      [.arrives [0x83,0x00],.reads 0 false,.reads 0 false]).written =
        [⟨.close 1002,false⟩] := by
  decide +kernel

end Driver

end BlackBull.WebSocket
