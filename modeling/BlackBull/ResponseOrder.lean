import BlackBull.ResponseCalls
import BlackBull.TransitionRuns

/-!
# The order of the frames on a stream

The sender of an application may be suspended in every write, and the flush of a held chunk is a
task of its own. As long as the two do not overlap, the frames are the beginning of the response,
and all of it when nothing is left to do. When they overlap, frames are written twice or out of
order.
-/

namespace BlackBull.H2

open Delivery

structure Exchange where
  connection : ℤ := defaultInitialWindowSize
  window : StreamWindow := {size:=defaultInitialWindowSize}
  response : Response := {}
  /-- What the call of the application that is suspended has still to do. -/
  handler : List Instr := []
  /-- The flushes, scheduled or suspended. -/
  flushes : List (List Instr) := []
  frames : List SentFrame := []
  app : Application := .idle

inductive ExchangeAction where
  | send (event : ResponseEvent)
  /-- The suspended call goes on. -/
  | resume
  | resumeFlush (flush : ℕ)
  /-- The windows change: by WINDOW_UPDATE, by SETTINGS and by other streams. -/
  | windows (connection : ℤ) (window : StreamWindow)

namespace Exchange

def line (s : Exchange) : Line :=
  {connection:=s.connection,window:=s.window,response:=s.response}

def record (s : Exchange) (turn : Turn Line Instr SentFrame) : Exchange :=
  {s with
    connection:=turn.state.connection
    window:=turn.state.window
    response:=turn.state.response
    flushes:=s.flushes++turn.state.flushes.map fun flush => [.autoFlush flush]
    frames:=s.frames++turn.output}

/-- The flush at a place has this left to do. -/
def putFlush (s : Exchange) (flush : ℕ) (todo : List Instr) : Exchange :=
  {s with flushes:=if todo=[] then s.flushes.eraseIdx flush else s.flushes.set flush todo}

def step (s : Exchange) : ExchangeAction → Exchange
  | .send event =>
    let turn := s.line.call event
    { s.record turn with
      handler:=turn.todo
      app:=(s.app.accept event).getD s.app}
  | .resume =>
    let turn := advance Line.exec s.line s.handler
    {s.record turn with handler:=turn.todo}
  | .resumeFlush flush =>
    match s.flushes[flush]? with
    | none => s
    | some todo =>
      let turn := advance Line.exec s.line todo
      (s.putFlush flush turn.todo).record turn
  | .windows connection window => {s with connection,window}

/-- The application sends one event after the other, and those it may. -/
def Legal (s : Exchange) : ExchangeAction → Prop
  | .send event => s.handler=[] ∧ (s.app.accept event).isSome
  | _ => True

def scheduled : List Instr → Bool
  | [.autoFlush _] => true
  | _ => false

/-- No event is sent while a flush is suspended, and no flush runs while a call is. -/
def Apart (s : Exchange) : ExchangeAction → Prop
  | .send _ => s.flushes.all scheduled
  | .resumeFlush _ => s.handler=[]
  | _ => True

instance (s : Exchange) (action : ExchangeAction) : Decidable (s.Legal action) := by
  cases action <;> unfold Legal <;> infer_instance

instance (s : Exchange) (action : ExchangeAction) : Decidable (s.Apart action) := by
  cases action <;> unfold Apart <;> infer_instance

/-- What the peer has received, if it came in order, and what the sender holds. -/
def delivery (s : Exchange) : Delivery := ⟨receiveAll (some .nothing) s.frames,s.response⟩

/-- The one task that has something to do, besides a flush that has not run yet. -/
inductive Running (s : Exchange) : List Instr → Prop where
  | handler (none : s.flushes=[]) : Running s s.handler
  | waiting (flush : Flush) (one : s.flushes=[[.autoFlush flush]])
      (holds : s.response.MayHold flush) (some : s.app.body≠[]) : Running s s.handler
  | flush (todo : List Instr) (one : s.flushes=[todo]) (idle : s.handler=[])
      (some : s.app.body≠[]) : Running s todo

/-- What is left to do settles in what the application has sent. -/
structure Sound (s : Exchange) : Prop where
  settles : ∃ todo,Running s todo ∧ Late todo ∧
    (s.delivery.settle todo).flushed=s.app.delivery

theorem sound_initial : Sound {} where settles := ⟨[],.handler rfl,rfl,rfl⟩

variable {s : Exchange}

theorem delivery_record (t : Turn Line Instr SentFrame) :
    (s.record t).delivery=(of s.delivery.received t.state).write t.output :=
  Delivery.ext (receiveAll_append ..) rfl

theorem flushes_record {t : Turn Line Instr SentFrame} (h : t.state.flushes=[]) :
    (s.record t).flushes=s.flushes := by
  simp [record,h]

/-- A flush that has not run yet changes nothing about what is delivered. -/
theorem settle_autoFlush {d : Delivery} {app : Application} {f : Flush}
    (holds : d.response.MayHold f) (h : d.flushed=app.delivery) :
    (d.settle [.autoFlush f]).flushed=app.delivery := by
  rw [settle_cons,settle_nil,settleInstr]
  split
  case isFalse => exact h
  case isTrue hb =>
    rcases holds.1 with hs | hs
    · rw [← h,← flushed_flushed d]
      congr 1
      simp [flushed,hs,hb]
    · -- a chunk is not held without its start
      rw [flushed_of_start_none hs] at h
      have hn : app.response.body=none := by cases app <;> rfl
      rw [show d.response=app.response from congrArg Delivery.response h,hn] at hb
      cases hb

theorem send_sound {e : ResponseEvent} (sn : s.Sound) (l : s.Legal (.send e))
    (a : s.Apart (.send e)) : (s.step (.send e)).Sound := by
  obtain ⟨hi,ha⟩ := l
  obtain ⟨ap,ha⟩ := Option.isSome_iff_exists.mp ha
  obtain ⟨todo,r,hl,hs⟩ := sn.settles
  have hap : (s.step (.send e)).app=ap := by simp [step,ha]
  have hb : (s.step (.send e)).app.body=s.app.body++e.content := by
    rw [hap,Application.accept_body ha]
  -- a flush that is suspended is not scheduled any more, so it is the call that has settled
  have hn : todo=[] ∧ ∀ t,s.flushes=[t] → t≠todo := by
    have hsc : scheduled todo=false := by
      unfold scheduled
      split
      · simp [Instr.late] at hl
      · rfl
    have ho : ∀ t,s.flushes=[t] → t≠todo := by
      rintro t one rfl
      simp [Apart,one,hsc] at a
    cases r with
    | handler | waiting => exact ⟨hi,ho⟩
    | flush _ one => exact absurd rfl (ho todo one)
  have called : Called s.delivery.received s.line s.app e.content ap.delivery (s.line.call e) := by
    rw [hn.1] at hs
    exact call_called hs ha
  refine ⟨⟨(s.line.call e).todo,?_,called.late,?_⟩⟩
  · cases r with
    | handler none =>
      rcases called.flushes with hsa | ⟨flush,hf,hm,hso⟩
      · exact .handler ((flushes_record hsa).trans none)
      · have hon : (s.record (s.line.call e)).flushes=[[.autoFlush flush]] := by
          rw [record,none,hf]
          rfl
        exact .waiting flush hon hm (by rw [hb]; simp [hso])
    | waiting flush one holds some =>
      have fades := called.fades some
      exact .waiting flush ((flushes_record fades.flushes).trans one) (holds.fades fades)
        (by rw [hb]; simp [some])
    | flush _ one => exact absurd rfl (hn.2 todo one)
  · rw [hap,← called.settles]
    exact congrArg (fun d : Delivery => (d.settle _).flushed) (delivery_record _)

variable {td : List Instr}

theorem settle_record {t : Turn Line Instr SentFrame} (c : Continues s.delivery.received s.line
    td t) (h : (s.delivery.settle td).flushed=s.app.delivery) :
    ((s.record t).delivery.settle t.todo).flushed=s.app.delivery := by
  have hr : (s.delivery.settle td).received≠none := fun hn => by
    have hno := congrArg Delivery.received h
    rw [(extends_flushed _).received_none hn] at hno
    cases hno
  rw [delivery_record,c.settles hr]
  exact h

theorem resume_sound (sn : s.Sound) : (s.step .resume).Sound := by
  obtain ⟨td,r,hl,hs⟩ := sn.settles
  cases r with
  | handler none =>
    have continues : Continues s.delivery.received s.line s.handler _ := advance_late hl s.line
    exact ⟨⟨_,.handler ((flushes_record continues.fades.flushes).trans none),continues.late,
      settle_record continues hs⟩⟩
  | waiting flush one holds some =>
    have continues : Continues s.delivery.received s.line s.handler _ := advance_late hl s.line
    exact ⟨⟨_,.waiting flush ((flushes_record continues.fades.flushes).trans one)
      (holds.fades continues.fades) some,continues.late,settle_record continues hs⟩⟩
  | flush _ one i some =>
    have hsa : s.step .resume=s := by
      obtain ⟨cn,window,response,handler,f,fs,app⟩ := s
      obtain rfl : handler=[] := i
      simp [step,advance,record,line]
    rwa [hsa]

theorem step_resumeFlush (one : s.flushes=[td]) :
    s.step (.resumeFlush 0)=(s.putFlush 0 (advance Line.exec s.line td).todo).record
      (advance Line.exec s.line td) := by
  simp [step,one]

theorem flushes_resumeFlush (one : s.flushes=[td])
    (hn : (advance Line.exec s.line td).state.flushes=[]) :
    (s.step (.resumeFlush 0)).flushes=if (advance Line.exec s.line td).todo=[] then []
      else [(advance Line.exec s.line td).todo] := by
  rw [step_resumeFlush one,flushes_record hn,putFlush,one]
  split <;> rfl

theorem flush_sound (one : s.flushes=[td]) (i : s.handler=[]) (some : s.app.body≠[])
    (h : (s.delivery.settle td).flushed=s.app.delivery)
    (c : Continues s.delivery.received s.line td (advance Line.exec s.line td)) :
    (s.step (.resumeFlush 0)).Sound := by
  have hs := step_resumeFlush one
  have hf := flushes_resumeFlush one c.fades.flushes
  generalize advance Line.exec s.line td=turn at c hs hf
  have ht : Running (s.step (.resumeFlush 0)) turn.todo := by
    by_cases hd : turn.todo=[]
    · have hh : turn.todo=(s.step (.resumeFlush 0)).handler := by
        rw [hd,hs]
        exact i.symm
      rw [hh]
      exact .handler (by rw [hf,if_pos hd])
    · refine .flush turn.todo (by rw [hf,if_neg hd]) ?_ ?_
      · rw [hs]
        exact i
      · rw [hs]
        exact some
  refine ⟨⟨turn.todo,ht,c.late,?_⟩⟩
  rw [hs]
  exact settle_record c h

theorem resumeFlush_sound {f : ℕ} (sn : s.Sound) (a : s.handler=[]) :
    (s.step (.resumeFlush f)).Sound := by
  have hb (hn : s.flushes[f]? = none) : (s.step (.resumeFlush f)).Sound := by
    have hs : s.step (.resumeFlush f)=s := by simp [step,hn]
    rwa [hs]
  obtain ⟨td,r,hl,hse⟩ := sn.settles
  cases r with
  | handler none => exact hb (by simp [none])
  | waiting held one holds some =>
    cases f with
    | zero =>
      rw [a] at hse
      exact flush_sound one a some (settle_autoFlush holds hse)
        (advance_single (i := .autoFlush held) nofun nofun)
    | succ n => exact hb (by simp [one])
  | flush _ one idle some =>
    cases f with
    | zero => exact flush_sound one a some hse (advance_late hl s.line)
    | succ n => exact hb (by simp [one])

theorem windows_sound (sn : s.Sound) (cn : ℤ) (w : StreamWindow) :
    (s.step (.windows cn w)).Sound := by
  obtain ⟨td,r,hl,hs⟩ := sn.settles
  cases r with
  | handler none => exact ⟨⟨_,.handler none,hl,hs⟩⟩
  | waiting flush one holds some => exact ⟨⟨_,.waiting flush one holds some,hl,hs⟩⟩
  | flush _ one i some => exact ⟨⟨td,.flush td one i some,hl,hs⟩⟩

theorem step_sound {a : ExchangeAction} (so : s.Sound) (l : s.Legal a)
    (ap : s.Apart a) : (s.step a).Sound := by
  cases a with
  | send ev => exact send_sound so l ap
  | resume => exact resume_sound so
  | resumeFlush f => exact resumeFlush_sound so ap
  | windows c w => exact windows_sound so c w

/-- What has been written is the beginning of what the application has sent. -/
theorem Sound.beginning (so : s.Sound) :
    ∃ l,receiveAll (some .nothing) (s.frames++l)=some s.app.received := by
  obtain ⟨td,-,-,hs⟩ := so.settles
  have he := (extends_settle s.delivery td).trans (extends_flushed _)
  rw [hs] at he
  rcases he with hn | ⟨l,hl⟩
  · cases hn
  · exact ⟨l,(receiveAll_append ..).trans hl.symm⟩

def Idle (s : Exchange) : Prop := s.handler=[] ∧ s.flushes=[]

/-- When the application is done and nothing is left to do, the whole response is written. -/
theorem Sound.complete (so : s.Sound) (i : s.Idle) {st : Start} {b : Bytes}
    {tr : Option HeaderList} (d : s.app=.done st b tr) : IsResponse st b tr s.frames := by
  obtain ⟨td,r,-,hs⟩ := so.settles
  have hn : td=[] := by
    cases r with
    | handler | waiting => exact i.1
    | flush _ one => simp [i.2] at one
  rw [hn,settle_nil,d] at hs
  -- a start that is still held is not the end of a response
  have hst : s.response.start=none := by
    rcases hst : s.response.start with _ | a
    · rfl
    · have hstr := flushed_start hst (congrArg Delivery.received hs)
      cases hstr
  rw [flushed_of_start_none hst] at hs
  exact isResponse_of_receiveAll (congrArg Delivery.received hs)

end Exchange
end BlackBull.H2
