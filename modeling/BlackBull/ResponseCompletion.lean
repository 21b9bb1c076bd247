import BlackBull.ResponseOrder

/-!
# A response is completed

Whatever a suspended task has still to do becomes less each time the windows open and it
goes on. So an exchange can always come to rest, and a response whose events are all sent
is then on the wire.
-/

namespace BlackBull.H2

open Delivery

/-- A bound on the turns an instruction takes; `held` bounds the chunk that is held. -/
def Instr.work (held : ℕ) : Instr → ℕ
  | .debit _ | .writeTrailers _ => 1
  | .writeData body _ | .bodyData body _ => 2*body.length+1
  | .heldData => 2*held+1
  | .trailersUnlessEnded _ => 2*held+4
  | _ => 0

def work (held : ℕ) (todo : List Instr) : ℕ := (todo.map (Instr.work held)).sum

@[simp] theorem work_nil (held : ℕ) : work held []=0 := rfl

@[simp] theorem work_cons (held : ℕ) (i : Instr) (t : List Instr) :
    work held (i::t)=i.work held+work held t := rfl

@[simp] theorem work_append (held : ℕ) (a l : List Instr) :
    work held (a++l)=work held a+work held l := by
  simp [work]

namespace Line

def Open (line : Line) : Prop := 0<line.connection ∧ 0<line.window.size

/-- What an instruction leaves is not more than the instruction, and less when there is credit. -/
def Lessens (line : Line) (held bound : ℕ) (more : List Instr) : Prop :=
  work held more≤bound ∧ (line.Open → work held more<bound)

variable {ln : Line} {held : ℕ}

theorem lessens_of_lt {b : ℕ} {m : List Instr} (h : work held m<b) : ln.Lessens held b m :=
  ⟨h.le,fun _ => h⟩

theorem writeData_lessens (hf : 0<ln.window.maxFrameSize) (b : Bytes) (es : Bool)
    (held : ℕ) : ln.Lessens held (2*b.length+1) (ln.writeData b es).2 := by
  unfold writeData
  split
  case isTrue he => exact lessens_of_lt (by simp)
  case isFalse hb =>
    have hl := List.length_pos_iff.mpr hb
    split
    case isTrue hbl =>
      refine ⟨by simp [Instr.work],fun ho => ?_⟩
      unfold Open at ho
      omega
    case isFalse hc =>
      dsimp only
      generalize hch : (min (min ln.connection ln.window.size)
        (min (ln.window.maxFrameSize : ℤ) b.length)).toNat=chunkSize
      refine lessens_of_lt ?_
      split
      · simp only [work_cons,work_nil,Instr.work]
        omega
      · simp only [work_cons,work_nil,Instr.work,List.length_drop]
        omega

/-- What an instruction does to the work that is left. -/
inductive Wears (line : Line) (held : ℕ) (i : Instr) : Outcome Line Instr SentFrame → Prop where
  | done (line' : Line) (frame : line'.window.maxFrameSize=line.window.maxFrameSize)
      (windows : 0 < i.work held ∨ line'.connection=line.connection ∧
        line'.window.size=line.window.size) : Wears line held i (.done line')
  | pause (line' : Line) (output : List SentFrame) (more : List Instr)
      (lessens : line.Lessens held (i.work held) more) :
      Wears line held i (.pause line' output more)
  | fail (line' : Line) : Wears line held i (.fail line')

theorem handleTrailers_wears (ln : Line) (hs : HeaderList) (held : ℕ) :
    ln.Wears held (.trailersUnlessEnded hs) (ln.handleTrailers hs) := by
  unfold handleTrailers
  split
  · split
    · split <;> exact .pause _ _ _ (lessens_of_lt (by simp [Instr.work]))
    · exact .pause _ _ _ (lessens_of_lt (by simp [Instr.work]))
  · exact .pause _ _ _ (lessens_of_lt (by simp [Instr.work]))

theorem exec_wears (hf : 0<ln.window.maxFrameSize)
    (hh : ∀ body∈ln.response.body,body.length≤held) {i : Instr} (l : i.late) :
    ln.Wears held i (ln.exec i) := by
  have hd (body : Bytes) (es : Bool) (b : ℕ) (h : 2*body.length+1≤b) :
      ln.Lessens held b ((ln.writeData body es).2++[]) := by
    obtain ⟨hle,hlt⟩ := writeData_lessens hf body es held
    rw [List.append_nil]
    exact ⟨hle.trans h,fun ho => (hlt ho).trans_le h⟩
  cases i with
  | debit n => exact .done _ rfl (.inl Nat.one_pos)
  | writeTrailers hs => exact .pause _ _ _ (lessens_of_lt Nat.one_pos)
  | writeData body es => exact .pause _ _ _ (hd body es _ (Nat.le_refl _))
  | bodyData p es => exact .pause _ _ _ (hd p _ _ (Nat.le_refl _))
  | bodyEnd es | clearStart | clearBody | endSent => exact .done _ rfl (.inr ⟨rfl,rfl⟩)
  | heldData =>
    dsimp only [exec]
    split
    case h_1 body hb =>
      have hl := hh body hb
      exact .pause _ _ _ (hd body false _ (by simp only [Instr.work]; omega))
    case h_2 => exact .fail _
  | trailersUnlessEnded hs =>
    dsimp only [exec]
    split
    · exact .done _ rfl (.inr ⟨rfl,rfl⟩)
    · exact handleTrailers_wears ln hs held
  | begin | bodyContent | trailers | wholeResponse | autoFlush => cases l

/-- A turn ends the task or leaves less to do, when there is credit. -/
theorem advance_lessens {t : List Instr} (lt : Late t) (hf : 0<ln.window.maxFrameSize)
    (hh : ∀ body∈ln.response.body,body.length≤held) : (advance exec ln t).todo=[] ∨
      ln.Lessens held (work held t) (advance exec ln t).todo := by
  induction t generalizing ln with
  | nil => exact .inl rfl
  | cons i rest ih =>
    obtain ⟨hi,hr⟩ := (late_cons i rest).mp lt
    have hw := exec_wears hf hh hi
    unfold advance
    cases he : ln.exec i with
    | done l =>
      have hfa : ln.Fades l := by
        have hl := (Delivery.exec_late hi ln none).2
        rwa [he] at hl
      rw [he] at hw
      cases hw with
      | done _ hf' hwi =>
        have hh' : ∀ body∈l.response.body,body.length≤held := by
          rcases hfa.body with hs | hn
          · rwa [hs]
          · simp [hn]
        refine (ih hr (hf'.symm ▸ hf) hh').imp_right fun hle => ?_
        dsimp only
        unfold Lessens Open at hle ⊢
        rw [work_cons]
        omega
    | pause l o m =>
      rw [he] at hw
      cases hw with
      | pause _ _ _ hle =>
        refine .inr ?_
        dsimp only
        unfold Lessens at hle ⊢
        rw [work_append,work_cons]
        exact ⟨Nat.add_le_add_right hle.1 _,fun ho => Nat.add_lt_add_right (hle.2 ho) _⟩
    | fail l => exact .inl rfl

end Line

namespace Exchange

variable {s : Exchange}

/-- The tasks can come to rest without another event. -/
def Rests (s : Exchange) : Prop :=
  ∃ actions,(∀ action∈actions,∀ event,action≠.send event) ∧
    Along step (fun s action => s.Legal action ∧ s.Apart action) s actions ∧
    (run step s actions).Idle

theorem Rests.of_idle (i : s.Idle) : s.Rests := ⟨[],by simp,trivial,i⟩

theorem Rests.of_step (a : ExchangeAction) (own : ∀ ev,a≠.send ev)
    (ap : s.Apart a) (h : (s.step a).Rests) : s.Rests := by
  obtain ⟨ac,ho,ha,hi⟩ := h
  have hl : s.Legal a := by
    cases a with
    | send ev => exact absurd rfl (own ev)
    | resume | resumeFlush | windows => trivial
  exact ⟨a::ac,List.forall_mem_cons.mpr ⟨own,ho⟩,⟨⟨hl,ap⟩,ha⟩,hi⟩

def creditOne (s : Exchange) : Exchange := s.step (.windows 1 {size:=1,maxFrameSize:=1})

theorem Rests.of_creditOne (h : s.creditOne.Rests) : s.Rests :=
  .of_step (.windows 1 {size:=1,maxFrameSize:=1}) nofun trivial h

variable {held : ℕ}

theorem advance_creditOne {t : List Instr} (l : Late t)
    (hh : ∀ body∈s.response.body,body.length≤held) :
    (advance Line.exec s.creditOne.line t).todo=[] ∨
      work held (advance Line.exec s.creditOne.line t).todo<work held t :=
  (Line.advance_lessens l Nat.one_pos hh).imp_right fun h => h.2 ⟨Int.one_pos,Int.one_pos⟩

theorem held_of_fades {line l : Line} (f : line.Fades l)
    (h : ∀ body∈line.response.body,body.length≤held) :
    ∀ body∈l.response.body,body.length≤held := by
  rcases f.body with hs | hn
  · rwa [hs]
  · simp [hn]

theorem rests_of_flush {t : List Instr} (l : Late t) (one : s.flushes=[t])
    (i : s.handler=[]) (hh : ∀ body∈s.response.body,body.length≤held) : s.Rests := by
  induction hw : work held t using Nat.strongRecOn generalizing s t with
  | ind n ih =>
    refine .of_creditOne (.of_step (.resumeFlush 0) nofun i ?_)
    have continues : Continues none s.creditOne.line t _ := advance_late l s.creditOne.line
    have hs := step_resumeFlush (s := s.creditOne) one
    have hf := flushes_resumeFlush (s := s.creditOne) one continues.fades.flushes
    have hl := advance_creditOne l hh
    generalize advance Line.exec s.creditOne.line t=turn at continues hs hf hl
    have hi : (s.creditOne.step (.resumeFlush 0)).handler=[] := by
      rw [hs]
      exact i
    by_cases hd : turn.todo=[]
    · exact .of_idle ⟨hi,by rw [hf,if_pos hd]⟩
    · refine ih _ (hw ▸ hl.resolve_left hd) continues.late (by rw [hf,if_neg hd]) hi ?_ rfl
      rw [hs]
      exact held_of_fades continues.fades hh

theorem exists_held (r : Response) : ∃ held,∀ body∈r.body,body.length≤held := by
  cases r.body with
  | none => exact ⟨0,nofun⟩
  | some body => exact ⟨body.length,by rintro _ ⟨⟩; exact Nat.le_refl _⟩

/-- When no call is suspended, the flush comes to its end. -/
theorem Sound.rests_of_handler (sn : s.Sound) (idle : s.handler=[]) : s.Rests := by
  obtain ⟨todo,r,hl,-⟩ := sn.settles
  cases r with
  | handler none => exact .of_idle ⟨idle,none⟩
  | waiting flush one =>
    refine .of_step (.resumeFlush 0) nofun idle ?_
    have continues : Continues none s.line [.autoFlush flush] _ :=
      advance_single (i := .autoFlush flush) nofun nofun
    have hf := flushes_resumeFlush one continues.fades.flushes
    have hi : (s.step (.resumeFlush 0)).handler=[] := by
      rw [step_resumeFlush one]
      exact idle
    split at hf
    · exact .of_idle ⟨hi,hf⟩
    · obtain ⟨held,hh⟩ := exists_held (s.step (.resumeFlush 0)).response
      exact rests_of_flush continues.late hf hi hh
  | flush _ one =>
    obtain ⟨held,hh⟩ := exists_held s.response
    exact rests_of_flush hl one idle hh

/-- A call that is suspended comes to its end, and then the flush. -/
theorem Sound.rests (so : s.Sound) : s.Rests := by
  obtain ⟨held,hh⟩ := exists_held s.response
  induction hw : work held s.handler using Nat.strongRecOn generalizing s with
  | ind n ih =>
    by_cases hi : s.handler=[]
    · exact so.rests_of_handler hi
    · have hl : Late s.handler := by
        obtain ⟨todo,r,hl,-⟩ := so.settles
        cases r with
        | handler => exact hl
        | waiting => exact hl
        | flush _ _ i => exact absurd i hi
      refine .of_creditOne (.of_step .resume nofun trivial ?_)
      have hs : (s.creditOne.step .resume).Sound :=
        resume_sound (windows_sound so 1 {size:=1,maxFrameSize:=1})
      have continues : Continues none s.creditOne.line s.handler _ :=
        advance_late hl s.creditOne.line
      rcases advance_creditOne hl hh with hd | hle
      · exact hs.rests_of_handler hd
      · exact ih _ (hw ▸ hle) hs (held_of_fades continues.fades hh) rfl

theorem run_app {a : List ExchangeAction} (own : ∀ ac∈a,∀ ev,ac≠.send ev) :
    (run step s a).app=s.app := by
  induction a generalizing s with
  | nil => rfl
  | cons ac a ih =>
    obtain ⟨hf,hr⟩ := List.forall_mem_cons.mp own
    rw [run_cons,ih hr]
    cases ac with
    | send ev => exact absurd rfl (hf ev)
    | resume => rfl
    | windows c w => rfl
    | resumeFlush f =>
      unfold step
      dsimp only
      split <;> rfl

/-- As long as calls and flushes do not overlap: what is written on the stream is the beginning of
the response the application has sent; when it is done and nothing is left to do, it is the whole
response; and it can always get there. -/
theorem response_in_order {actions : List ExchangeAction}
    (along : Along step (fun s action => s.Legal action ∧ s.Apart action) {} actions) :
    let s := run step {} actions
    (∃ later,receiveAll (some .nothing) (s.frames++later)=some s.app.received) ∧
    ∀ start body trailers,s.app=.done start body trailers →
      (s.Idle → IsResponse start body trailers s.frames) ∧
      ∃ rest,(∀ action∈rest,∀ event,action≠.send event) ∧
        IsResponse start body trailers (run step s rest).frames := by
  have hs : (run step {} actions).Sound :=
    along.invariant (fun _ _ sound h => step_sound sound h.1 h.2) sound_initial
  refine ⟨hs.beginning,fun start body trailers hd => ⟨fun idle => hs.complete idle hd,?_⟩⟩
  obtain ⟨rest,ho,ha,hi⟩ := hs.rests
  have hr : (run step (run step {} actions) rest).Sound :=
    ha.invariant (fun _ _ sound h => step_sound sound h.1 h.2) hs
  exact ⟨rest,ho,hr.complete hi (by rw [run_app ho,hd])⟩

def flushedResponse : List ExchangeAction :=
  [.send (.start ⟨200,[]⟩ true),.send (.body [1,2,3] true),.resumeFlush 0,.resumeFlush 0,
    .send (.trailers []),.resume]

theorem response_in_order_flushed :
    IsResponse ⟨200,[]⟩ [1,2,3] (some []) (run step {} flushedResponse).frames :=
  have along : Along step (fun s action => s.Legal action ∧ s.Apart action) {} flushedResponse := by
    decide +kernel
  ((response_in_order along).2 _ _ _ (by decide +kernel)).1 ⟨by decide +kernel,by decide +kernel⟩

/-- A second chunk is sent, and while its call is suspended the flush of the first one runs:
HEADERS and the chunk go out twice. A flush waits for credit, and the trailers overtake the
chunk. -/
theorem response_out_of_order :
    let repeated : List ExchangeAction :=
      [.send (.start ⟨200,[]⟩ true),.send (.body [1] true),.send (.body [2] true),.resumeFlush 0]
    let overtaken : List ExchangeAction :=
      [.send (.start ⟨200,[]⟩ true),.send (.body [1] true),.windows 0 {size:=0},
        .resumeFlush 0,.send (.trailers []),.windows 1 {size:=1},.resumeFlush 0]
    (Along step Legal {} repeated ∧ (run step {} repeated).frames =
      [.headers ⟨200,[]⟩,.data [1] false,.headers ⟨200,[]⟩,.data [1] false]) ∧
    Along step Legal {} overtaken ∧ (run step {} overtaken).frames =
      [.headers ⟨200,[]⟩,.trailers [],.data [1] false] := by
  decide +kernel

end Exchange
end BlackBull.H2
