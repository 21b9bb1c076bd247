import BlackBull.StreamSender

/-!
# The accounting of one turn of a sender

A sender checks the windows, writes, is suspended and debits the windows when it goes on.
What a turn writes is what it still owes when it is suspended, and it fits what the
windows hold less what is owed already.
-/

namespace BlackBull.H2

def SentFrame.octets : SentFrame → ℕ
  | .data payload _ => payload.length
  | _ => 0

def dataOctets (frames : List SentFrame) : ℕ := (frames.map SentFrame.octets).sum

def Instr.owed : Instr → ℕ
  | .debit n => n
  | _ => 0

def owed (todo : List Instr) : ℕ := (todo.map Instr.owed).sum

@[simp] theorem dataOctets_nil : dataOctets []=0 := rfl

@[simp] theorem dataOctets_cons (f : SentFrame) (fs : List SentFrame) :
    dataOctets (f::fs)=f.octets+dataOctets fs := rfl

@[simp] theorem owed_nil : owed []=0 := rfl

@[simp] theorem owed_cons (i : Instr) (t : List Instr) : owed (i::t)=i.owed+owed t := rfl

@[simp] theorem owed_append (a l : List Instr) : owed (a++l)=owed a+owed l := by simp [owed]

theorem owed_tail_le (t : List Instr) : owed t.tail≤owed t := by cases t <;> simp

theorem owed_tail_append_le (a l : List Instr) : owed (a++l).tail≤owed a.tail+owed l := by
  cases a with
  | nil => simpa using owed_tail_le l
  | cons i a => simp

namespace Line

/-- What is written is what will be debited first, and the windows cover it. -/
structure Covers (line : Line) (pause : Pause) : Prop where
  owed_eq : owed pause.2=dataOctets pause.1
  tail : owed pause.2.tail=0
  budget : dataOctets pause.1=0 ∨
    (dataOctets pause.1 : ℤ)≤line.connection ∧ (dataOctets pause.1 : ℤ)≤line.window.size

variable {i : Instr} (ln : Line)

theorem writeData_covers (b : Bytes) (es : Bool) : ln.Covers (ln.writeData b es) := by
  unfold writeData
  split
  case isTrue he => exact ⟨rfl,rfl,.inl rfl⟩
  split
  case isTrue hb => exact ⟨rfl,rfl,.inl rfl⟩
  case isFalse ho =>
    generalize hc : (min (min ln.connection ln.window.size)
      (min (ln.window.maxFrameSize : ℤ) b.length)).toNat=chunkSize
    have hbo : chunkSize≤b.length := by omega
    have ha : owed (if b.length≤chunkSize then []
        else [.writeData (b.drop chunkSize) es])=0 := by split <;> rfl
    refine ⟨?_,ha,.inr ?_⟩
    · simp [SentFrame.octets,Instr.owed,ha,hbo]
    · simp only [dataOctets_cons,SentFrame.octets,List.length_take,dataOctets_nil]
      omega

theorem writeResponseStartAndBody_covers (b : Bytes) (es : Bool) (s : Start) (et : Bool) :
    ln.Covers (ln.writeResponseStartAndBody b es s et) := by
  unfold writeResponseStartAndBody
  have ha : owed (if es && !et then [.endSent] else [])=0 := by split <;> rfl
  dsimp only
  split
  case isTrue hf =>
    refine ⟨?_,ha,.inr ?_⟩
    · simp only [owed_cons,Instr.owed,ha,dataOctets_cons,SentFrame.octets,dataOctets_nil]
      omega
    · simp only [dataOctets_cons,SentFrame.octets,dataOctets_nil]
      omega
  case isFalse hl => exact ⟨by simp only [owed_cons,Instr.owed,ha]; rfl,ha,.inl rfl⟩

/-- What one instruction does to the windows. -/
inductive Spends (line : Line) (i : Instr) : Outcome Line Instr SentFrame → Prop where
  | done (line' : Line) (connection : line'.connection = line.connection - i.owed)
      (size : line'.window.size = line.window.size - i.owed) : Spends line i (.done line')
  | pause (line' : Line) (pause : Pause) (free : i.owed=0)
      (connection : line'.connection=line.connection)
      (size : line'.window.size=line.window.size) (covers : line.Covers pause) :
      Spends line i (.pause line' pause.1 pause.2)
  | fail (free : i.owed=0) : Spends line i (.fail line)

theorem Covers.append {ln : Line} {p : Pause} (c : ln.Covers p)
    {a : List Instr} (ha : owed a=0) : ln.Covers (p.1,p.2++a) where
  owed_eq := by simp [c.owed_eq,ha]
  tail := by
    have := owed_tail_append_le p.2 a
    have := c.tail
    dsimp only
    omega
  budget := c.budget

theorem spends_paused {ln l : Line} {p : Pause} {a : List Instr} (f : i.owed=0)
    (hl : l.connection=ln.connection) (hs : l.window.size=ln.window.size)
    (c : ln.Covers p) (ha : owed a=0) : ln.Spends i (l.paused p a) :=
  .pause l (p.1,p.2++a) f hl hs (c.append ha)

theorem handleBodyContent_spends (p : Bytes) (es : Bool) (f : i.owed=0) :
    ln.Spends i (ln.handleBodyContent p es) := by
  unfold handleBodyContent
  dsimp only
  split
  case h_1 start hs =>
    split
    case isTrue hh => exact .done _ (by simp [f,hold]) (by simp [f,hold])
    case isFalse =>
      split
      · exact spends_paused f rfl rfl (writeResponseStartAndBody_covers ..) rfl
      · exact spends_paused f rfl rfl (writeResponseStartAndBody_covers ..) rfl
  case h_2 => exact spends_paused f rfl rfl (writeData_covers ..) rfl

theorem handleTrailers_spends (hs : HeaderList) (f : i.owed=0) :
    ln.Spends i (ln.handleTrailers hs) := by
  unfold handleTrailers
  split
  · split
    · split
      case isTrue held hh hf =>
        refine .pause ln (_,_) f rfl rfl ⟨?_,rfl,.inr ?_⟩
        · simp [SentFrame.octets,Instr.owed]
        · simp only [dataOctets_cons,SentFrame.octets,dataOctets_nil]
          omega
      case isFalse => exact .pause ln (_,_) f rfl rfl ⟨rfl,rfl,.inl rfl⟩
    · exact .pause ln (_,_) f rfl rfl ⟨rfl,rfl,.inl rfl⟩
  · exact .pause ln (_,_) f rfl rfl ⟨rfl,rfl,.inl rfl⟩

theorem exec_spends (i : Instr) : ln.Spends i (ln.exec i) := by
  cases i with
  | debit n => exact .done _ rfl rfl
  | writeTrailers hs => exact .pause ln (_,_) rfl rfl rfl ⟨rfl,rfl,.inl rfl⟩
  | writeData body es | bodyData p es => exact spends_paused rfl rfl rfl (writeData_covers ..) rfl
  | bodyContent p es => exact handleBodyContent_spends ln p es rfl
  | heldData =>
    dsimp only [exec]
    split
    · exact spends_paused rfl rfl rfl (writeData_covers ..) rfl
    · exact .fail rfl
  | trailers hs => exact handleTrailers_spends ln hs rfl
  | trailersUnlessEnded hs =>
    dsimp only [exec]
    split
    · exact .done _ (by simp [Instr.owed]) (by simp [Instr.owed])
    · exact handleTrailers_spends ln hs rfl
  | wholeResponse s body =>
    exact spends_paused rfl rfl rfl (writeResponseStartAndBody_covers ..) rfl
  | autoFlush f =>
    dsimp only [exec]
    split
    · exact spends_paused rfl rfl rfl (writeResponseStartAndBody_covers ln ..) rfl
    · exact .done _ (by simp [Instr.owed]) (by simp [Instr.owed])
  | begin | bodyEnd | clearStart | clearBody | endSent =>
    exact .done _ (by simp [Instr.owed,setResponse]) (by simp [Instr.owed,setResponse])

/-- What a turn does to the windows: they and the debits to come account for what is written,
and what is written fits what the debits leave. -/
structure Accounts (line : Line) (todo : List Instr) (turn : Turn Line Instr SentFrame) :
    Prop where
  connection : turn.state.connection - owed turn.todo + dataOctets turn.output =
    line.connection - owed todo
  size : turn.state.window.size - owed turn.todo + dataOctets turn.output =
    line.window.size - owed todo
  budget : dataOctets turn.output=0 ∨
    (dataOctets turn.output : ℤ) ≤ line.connection - owed todo ∧
      (dataOctets turn.output : ℤ) ≤ line.window.size - owed todo
  tail : owed turn.todo.tail=0

theorem advance_accounts (todo : List Instr) :
    owed todo.tail=0 → ln.Accounts todo (advance exec ln todo) := by
  refine advance_induction (P := fun ln todo turn => owed todo.tail=0 →
    ln.Accounts todo turn) ?nil ?done ?pause ?fail ln todo
  case nil => exact fun ln _ => ⟨by simp,by simp,.inl rfl,rfl⟩
  case done =>
    intro ln i rest line' turn he ih ht
    -- a debit is paid, and what is left to do owes nothing
    have hr : owed rest=0 := ht
    obtain ⟨hc,hs,hb,hn⟩ := ih (by have := owed_tail_le rest; omega)
    have hsp := exec_spends ln i
    rw [he] at hsp
    cases hsp with
    | done _ hc' hs' =>
      rw [hc'] at hc hb
      rw [hs'] at hs hb
      exact ⟨by simp [hc,hr],by simp [hs,hr],by simpa [hr] using hb,hn⟩
  case pause =>
    intro ln i rest line' output more he ht
    have hr : owed rest=0 := ht
    have hsp := exec_spends ln i
    rw [he] at hsp
    obtain ⟨hf,hc,hs,ho,hn,hb⟩ : i.owed=0 ∧ line'.connection=ln.connection ∧
          line'.window.size=ln.window.size ∧ ln.Covers (output,more) := by
      cases hsp with
      | pause _ pause free hc hs covers => exact ⟨free,hc,hs,covers⟩
    have hta := owed_tail_append_le more rest
    dsimp only at ho hn hb
    exact ⟨by simp [hc,hf,hr,ho],by simp [hs,hf,hr,ho],
      by simpa [hf,hr] using hb,by dsimp only; omega⟩
  case fail =>
    intro ln i rest line' he ht
    have hr : owed rest=0 := ht
    have hsp := exec_spends ln i
    rw [he] at hsp
    cases hsp with
    | fail free => exact ⟨by simp [free,hr],by simp [free,hr],.inl rfl,rfl⟩

end Line

theorem ResponseEvent.owed_todo (ev : ResponseEvent) : owed ev.todo=0 := by
  rcases ev with _ | _ | _ | _ | ⟨_ | _,_ | _,_ | _⟩ <;> rfl

end BlackBull.H2
