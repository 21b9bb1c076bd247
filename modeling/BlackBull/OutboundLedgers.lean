import BlackBull.Ledgers
import BlackBull.SendAccounting
import BlackBull.TransitionRuns

/-!
# The sending side of a connection

The senders of a connection share its window, and a sender may run while another is suspended
between its write and its debit. The ledgers follow the octets written, the credit granted and the
debits still to come.
-/

namespace BlackBull.H2

structure Outbound where
  windows : SendWindows := {}
  /-- The windows of senders the connection does not know: of pushed streams, and of streams
  it has released while a flush goes on. -/
  loose : Dict ℕ StreamWindow := []
  responses : ℕ → Response := fun _ => {}
  /-- The calls and flushes that are suspended. -/
  tasks : Ledger ℕ (List Instr) := []
  frames : Ledger ℕ SentFrame := []
  /-- The WINDOW_UPDATE frames that were applied. -/
  credits : Ledger ℕ ℕ := []

inductive OutboundAction where
  | makeSender (streamId : ℕ)
  | push (streamId : ℕ)
  | call (streamId : ℕ) (event : ResponseEvent)
  /-- A suspended task goes on: its write is done, or it was woken. -/
  | resume (task : ℕ)
  /-- A suspended task is cancelled, or its wait for credit timed out. -/
  | cancel (task : ℕ)
  /-- The handler of a stream is done. -/
  | release (streamId : ℕ)
  /-- Nothing refers to the sender any more. -/
  | forget (streamId : ℕ)
  | windowUpdate (streamId length increment : ℕ)
  | settings (length : ℕ) (settings : Settings)

namespace Outbound

def window? (s : Outbound) (streamId : ℕ) : Option StreamWindow :=
  match s.windows.senders.get? streamId with
  | some window => some window
  | none => s.loose.get? streamId

def putWindow (s : Outbound) (streamId : ℕ) (window : StreamWindow) : Outbound :=
  let known := (s.windows.senders.get? streamId).isSome
  let senders := s.windows.senders
  {s with
    windows:={s.windows with senders:=if known then senders.set streamId window else senders}
    loose:=if known then s.loose else s.loose.set streamId window}

/-- The tasks a turn leaves: itself when it is suspended, and the flushes it has scheduled. -/
def leftover (streamId : ℕ) (turn : Turn Line Instr SentFrame) : Ledger ℕ (List Instr) :=
  (if turn.todo=[] then [] else [(streamId,turn.todo)]) ++
    turn.state.flushes.map fun flush => (streamId,[.autoFlush flush])

def record (s : Outbound) (streamId : ℕ) (turn : Turn Line Instr SentFrame) : Outbound :=
  let s := s.putWindow streamId turn.state.window
  {s with
    windows:={s.windows with connection:=turn.state.connection}
    responses:=Function.update s.responses streamId turn.state.response
    tasks:=s.tasks++leftover streamId turn
    frames:=s.frames++turn.output.map (streamId,·)}

/-- A sender runs until it is suspended. -/
def perform (s : Outbound) (streamId : ℕ) (work : Line → Turn Line Instr SentFrame) : Outbound :=
  match s.window? streamId with
  | none => s
  | some window =>
    s.record streamId <| work
      {connection:=s.windows.connection,window,response:=s.responses streamId}

def step (s : Outbound) : OutboundAction → Outbound
  | .makeSender streamId => {s with windows:=s.windows.makeSender streamId}
  | .push streamId =>
    -- a pushed stream starts with the default window, whatever the peer grants
    {s with loose:=s.loose.set streamId {size:=defaultInitialWindowSize}}
  | .call streamId event => s.perform streamId (·.call event)
  | .resume task =>
    match s.tasks[task]? with
    | none => s
    | some (streamId,todo) =>
      {s with tasks:=s.tasks.eraseIdx task}.perform streamId (advance Line.exec · todo)
  | .cancel task => {s with tasks:=s.tasks.eraseIdx task}
  | .release streamId =>
    match s.windows.senders.get? streamId with
    | none => s
    | some window =>
      {s with
        windows:=s.windows.dropSender streamId
        loose:=s.loose.set streamId window}
  | .forget streamId =>
    if s.tasks.any (·.1=streamId) then s else {s with loose:=s.loose.pop streamId}
  | .windowUpdate streamId length increment =>
    let (answer,windows) := s.windows.windowUpdate streamId length increment
    {s with
      windows
      credits:=if answer=.applied then s.credits++[(streamId,increment)] else s.credits}
  | .settings length settings => {s with windows:=(s.windows.applySettings length settings).2}

def sent (s : Outbound) : ℕ := s.frames.total SentFrame.octets

def sentOn (s : Outbound) (streamId : ℕ) : ℕ := s.frames.on SentFrame.octets streamId

def owing (s : Outbound) : ℕ := s.tasks.total owed

def owingOn (s : Outbound) (streamId : ℕ) : ℕ := s.tasks.on owed streamId

/-- What WINDOW_UPDATE frames have granted; stream zero is the connection. -/
def creditOn (s : Outbound) (streamId : ℕ) : ℕ := s.credits.on id streamId

/-- The connection has written what the peer has granted it at most, and a stream on which it
has just written has what the peer has granted that stream. -/
def WithinCredit (s t : Outbound) : Prop :=
  t.sent≤defaultInitialWindowSize+t.creditOn 0 ∧
    ∀ streamId,t.sentOn streamId=s.sentOn streamId ∨
      t.sentOn streamId≤t.windows.peerInitial+t.creditOn streamId

def Unused (s : Outbound) (streamId : ℕ) : Prop :=
  streamId≠0 ∧ s.window? streamId=none ∧ s.sentOn streamId=0 ∧ s.creditOn streamId=0

/-- No sender runs while a debit is to come, and none has a window out of step. -/
def Careful (s : Outbound) : OutboundAction → Prop
  | .makeSender streamId => (s.windows.senders.get? streamId).isSome ∨ s.Unused streamId
  | .push streamId => s.Unused streamId ∧ defaultInitialWindowSize ≤ s.windows.peerInitial
  | .call _ _ => s.owing=0
  | .resume task => Ledger.total owed (s.tasks.eraseIdx task)=0
  | .cancel task => ∀ suspended∈s.tasks[task]?,owed suspended.2=0
  | .release _ | .forget _ => True
  | .windowUpdate streamId _ _ =>
    streamId=0 ∨ (s.windows.senders.get? streamId).isSome ∨ s.Unused streamId
  | .settings _ settings =>
    s.loose=[] ∨ ∀ initial∈settings.initialWindowSize,s.windows.peerInitial ≤ initial

instance (s : Outbound) (action : OutboundAction) : Decidable (s.Careful action) := by
  cases action <;> unfold Careful Unused <;> infer_instance

/-- The books: a window holds at most what was granted and not yet written, and the debits to
come. -/
structure Balanced (s : Outbound) : Prop where
  connection : s.windows.connection+s.sent≤defaultInitialWindowSize+s.creditOn 0+s.owing
  streams : ∀ streamId window,s.window? streamId=some window → streamId≠0 ∧
    window.size+s.sentOn streamId ≤
      s.windows.peerInitial+s.creditOn streamId+s.owingOn streamId
  served : ∀ task∈s.tasks,(s.window? task.1).isSome
  tails : ∀ task∈s.tasks,owed task.2.tail=0
  within : s.sent≤defaultInitialWindowSize+s.creditOn 0

theorem balanced_initial : Balanced {} where
  connection := by decide
  streams := nofun
  served := nofun
  tails := nofun
  within := Nat.zero_le _

variable {s : Outbound} {sid : ℕ}

variable (t : Turn Line Instr SentFrame)

@[simp] theorem window?_record (o : ℕ) :
    (s.record sid t).window? o =
      if sid=o then some t.state.window else s.window? o := by
  unfold record putWindow window?
  by_cases ho : sid=o
  · subst ho
    cases hk : s.windows.senders.get? sid <;> simp [hk,Dict.get?_set]
  · cases hk : s.windows.senders.get? sid <;> simp [ho,Dict.get?_set]

@[simp] theorem total_leftover : Ledger.total owed (leftover sid t)=owed t.todo := by
  have hf : Ledger.total owed (t.state.flushes.map fun f => (sid,[Instr.autoFlush f]))=0 := by
    simp [Ledger.total,Function.comp_def,Instr.owed]
  rw [leftover,Ledger.total_append,hf]
  split
  case isTrue hd => simp [hd]
  case isFalse => simp

@[simp] theorem on_leftover (o : ℕ) :
    Ledger.on owed o (leftover sid t) =
      if sid=o then owed t.todo else 0 := by
  have hf : Ledger.on owed o (t.state.flushes.map fun f => (sid,[Instr.autoFlush f]))=0 := by
    simp [Ledger.on,Function.comp_def,Instr.owed]
  rw [leftover,Ledger.on_append,hf]
  split
  case isTrue hd => simp [hd]
  case isFalse => simp

theorem mem_leftover {t : Turn Line Instr SentFrame} (ht : owed t.todo.tail=0)
    {ts : ℕ × List Instr} (h : ts∈leftover sid t) : ts.1=sid ∧ owed ts.2.tail=0 := by
  rcases List.mem_append.mp h with hs | hf
  · split at hs
    · simp at hs
    · obtain rfl := List.mem_singleton.mp hs
      exact ⟨rfl,ht⟩
  · obtain ⟨f,-,rfl⟩ := List.mem_map.mp hf
    exact ⟨rfl,rfl⟩

@[simp] theorem owing_record : (s.record sid t).owing=s.owing+owed t.todo := by
  rw [owing,record,Ledger.total_append,total_leftover]
  rfl

@[simp] theorem owingOn_record (o : ℕ) :
    (s.record sid t).owingOn o =
      s.owingOn o+if sid=o then owed t.todo else 0 := by
  rw [owingOn,record,Ledger.on_append,on_leftover]
  rfl

@[simp] theorem sent_record : (s.record sid t).sent=s.sent+dataOctets t.output := by
  rw [sent,record,Ledger.total_append,Ledger.total_map_pair]
  rfl

@[simp] theorem sentOn_record (o : ℕ) :
    (s.record sid t).sentOn o =
      s.sentOn o+if sid=o then dataOctets t.output else 0 := by
  rw [sentOn,record,Ledger.on_append,Ledger.on_map_pair]
  rfl

theorem owingOn_eq_zero (q : s.owing=0) (o : ℕ) : s.owingOn o=0 :=
  Nat.le_zero.mp (q ▸ Ledger.on_le_total o s.tasks)

/-- A sender that runs while no other debit is to come keeps the books and the budget. -/
theorem record_balanced {td : List Instr} {w : StreamWindow} {r : Response}
    {t : Turn Line Instr SentFrame} (b : Balanced {s with tasks:=(sid,td)::s.tasks}) (q : s.owing=0)
    (hw : s.window? sid=some w) (ht : Line.Accounts ⟨s.windows.connection,w,r,[]⟩ td t) :
    (s.record sid t).Balanced ∧ s.WithinCredit (s.record sid t) := by
  obtain ⟨hc,hs,hb,hta⟩ := ht
  have ha : s.windows.connection+s.sent ≤
      defaultInitialWindowSize+s.creditOn 0+((owed td+s.owing : ℕ) : ℤ) := b.connection
  have hwi : s.sent≤defaultInitialWindowSize+s.creditOn 0 := b.within
  obtain ⟨hid,hst⟩ := b.streams sid w hw
  have hbo : w.size+s.sentOn sid ≤ s.windows.peerInitial +
      s.creditOn sid+((if sid=sid then owed td else 0) + s.owingOn sid : ℕ) := hst
  rw [if_pos rfl] at hbo
  have hn := owingOn_eq_zero q sid
  have hcr : ∀ o,(s.record sid t).creditOn o=s.creditOn o := fun _ => rfl
  have hp : (s.record sid t).windows.peerInitial=s.windows.peerInitial := rfl
  have hnew : (s.record sid t).windows.connection=t.state.connection := rfl
  dsimp only at hc hs hb
  have hw' : (s.record sid t).sent ≤ defaultInitialWindowSize+(s.record sid t).creditOn 0 := by
    rw [sent_record,hcr]
    omega
  refine ⟨⟨?_,?_,?_,?_,hw'⟩,hw',?_⟩
  · rw [sent_record,owing_record,hcr,hnew]
    omega
  · intro o w' h'
    rw [window?_record] at h'
    rw [sentOn_record,owingOn_record,hcr,hp]
    split at h'
    case isTrue heq =>
      obtain rfl := heq
      obtain rfl := Option.some.inj h'
      refine ⟨hid,?_⟩
      simp only [if_true]
      omega
    case isFalse hne =>
      obtain ⟨hi',hb'⟩ := b.streams o w' h'
      refine ⟨hi',?_⟩
      have hb'' : w'.size+s.sentOn o ≤ s.windows.peerInitial +
          s.creditOn o+((if sid=o then owed td else 0) + s.owingOn o : ℕ) := hb'
      simpa [hne] using hb''
  · intro ts htas
    rw [window?_record]
    split
    · rfl
    case isFalse hne =>
      rcases List.mem_append.mp htas with hold | hn'
      · exact b.served ts (List.mem_cons_of_mem _ hold)
      · exact absurd (mem_leftover hta hn').1.symm hne
  · intro ts htas
    rcases List.mem_append.mp htas with hold | hn'
    · exact b.tails ts (List.mem_cons_of_mem _ hold)
    · exact (mem_leftover hta hn').2
  · intro o
    rw [sentOn_record,hcr,hp]
    split
    case isTrue heq =>
      subst heq
      omega
    case isFalse => exact .inl rfl

theorem perform_balanced {td : List Instr} {wr : Line → Turn Line Instr SentFrame}
    (b : Balanced {s with tasks:=(sid,td)::s.tasks}) (q : s.owing=0)
    (hw : ∀ line,line.response=s.responses sid → wr line=advance Line.exec line td) :
    (s.perform sid wr).Balanced ∧ s.WithinCredit (s.perform sid wr) := by
  obtain ⟨w,hwi⟩ : ∃ w,s.window? sid=some w :=
    Option.isSome_iff_exists.mp (b.served (sid,td) List.mem_cons_self)
  rw [perform,hwi]
  dsimp only
  rw [hw _ rfl]
  exact record_balanced b q hwi (Line.advance_accounts _ td (b.tails (sid,td) List.mem_cons_self))

theorem Balanced.with_tasks (b : s.Balanced) {tasks : Ledger ℕ (List Instr)}
    (t : tasks.total owed=s.owing) (on : ∀ o,tasks.on owed o=s.owingOn o)
    (mem : ∀ ts∈tasks,(s.window? ts.1).isSome ∧ owed ts.2.tail=0) : Balanced {s with tasks} where
  connection := by
    rw [owing,t]
    exact b.connection
  streams o window hw := by
    rw [owingOn,on]
    exact b.streams o window hw
  served ts ht := (mem ts ht).1
  tails ts ht := (mem ts ht).2
  within := b.within

end Outbound
end BlackBull.H2
