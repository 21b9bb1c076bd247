import BlackBull.ResponseFrames

/-!
# What is left of a call, carried out

A suspended call is settled when what it still has to do is carried out at once and nothing
is short of credit. How the windows cut a turn changes nothing about where the call settles:
`exec` and `advance` only go part of the way.
-/

namespace BlackBull.H2

/-- What the peer has received, and what the sender still holds. -/
@[ext]
structure Delivery where
  received : Option Received
  response : Response

namespace Delivery

def write (d : Delivery) (frames : List SentFrame) : Delivery :=
  {d with received:=receiveAll d.received frames}

def ended (d : Delivery) (endStream : Bool) : Delivery :=
  if endStream then {d with response:={d.response with endStreamSent:=true}} else d

/-- The start that is held is written, with the chunk that is held. -/
def flushed (d : Delivery) : Delivery :=
  match d.response.start with
  | none => d
  | some start =>
    { d.write (.headers start::(d.response.body.map (SentFrame.data · false)).toList) with
      response:={d.response with start:=none,body:=none}}

def settleInstr (d : Delivery) : Instr → Delivery
  | .debit _ => d
  | .writeTrailers headers => d.write [.trailers headers]
  | .writeData body endStream => d.write [.data body endStream]
  | .begin start expectTrailers =>
    { d with response:={d.response with
        start:=some start,expectTrailers:=expectTrailers}}
  | .bodyContent payload endStream =>
    let setEndStream := endStream && !d.response.expectTrailers
    (d.flushed.write [.data payload setEndStream]).ended setEndStream
  | .bodyData payload endStream =>
    d.write [.data payload (endStream && !d.response.expectTrailers)]
  | .bodyEnd endStream => d.ended (endStream && !d.response.expectTrailers)
  | .heldData =>
    match d.response.body with
    | some held => d.write [.data held false]
    | none => {d with received:=none}
  | .trailers headers => (d.flushed.write [.trailers headers]).ended true
  | .trailersUnlessEnded headers =>
    if d.response.endStreamSent then d else (d.flushed.write [.trailers headers]).ended true
  | .wholeResponse start body => (d.write [.headers start,.data body true]).ended true
  | .clearStart => {d with response:={d.response with start:=none}}
  | .clearBody => {d with response:={d.response with body:=none}}
  | .endSent => d.ended true
  | .autoFlush flush =>
    if d.response.body=some flush.body then
      { d.write [.headers flush.start,.data flush.body false] with
        response:={d.response with start:=none,body:=none}}
    else d

def settle (d : Delivery) (todo : List Instr) : Delivery := todo.foldl settleInstr d

variable (d : Delivery)

@[simp] theorem settle_nil : d.settle []=d := rfl

@[simp] theorem settle_cons (i : Instr) (t : List Instr) :
    d.settle (i::t)=(d.settleInstr i).settle t := rfl

theorem settle_append (a l : List Instr) : d.settle (a++l)=(d.settle a).settle l :=
  List.foldl_append

theorem write_append (a l : List SentFrame) : d.write (a++l)=(d.write a).write l := by
  rw [write,receiveAll_append]
  rfl

@[simp] theorem write_response (fs : List SentFrame) : (d.write fs).response=d.response := rfl

variable {line : Line} {rc : Option Received}

def of (received : Option Received) (line : Line) : Delivery := ⟨received,line.response⟩

theorem settle_writeData (line : Line) (b : Bytes) (es : Bool) :
    (d.write (line.writeData b es).1).settle (line.writeData b es).2 =
      d.write [.data b es] := by
  unfold Line.writeData
  split
  case isTrue he =>
    rw [he]
    rfl
  split
  case isTrue hb => rfl
  case isFalse ho =>
    dsimp only
    generalize (min (min line.connection line.window.size)
      (min (line.window.maxFrameSize : ℤ) b.length)).toNat=chunkSize
    by_cases hl : b.length≤chunkSize
    · simp [hl,settleInstr,List.take_of_length_le hl]
    · have hd := receiveAll_data_append d.received (b.take chunkSize) (b.drop chunkSize) es
      rw [List.take_append_drop] at hd
      simp only [hl,decide_false,Bool.false_and,if_false,settle_cons,settle_nil,settleInstr]
      rw [← write_append]
      exact Delivery.ext hd rfl

theorem settle_writeResponseStartAndBody (line : Line) (b : Bytes) (es : Bool)
    (s : Start) (et : Bool) : let p := line.writeResponseStartAndBody b es s et
    (d.write p.1).settle p.2 = (d.write [.headers s,.data b (es && !et)]).ended (es && !et) := by
  unfold Line.writeResponseStartAndBody
  cases es && !et <;> dsimp only <;> split <;> rfl

/-- An instruction goes part of the way to where it settles. -/
def Reaches (received : Option Received) (target : Delivery) :
    Outcome Line Instr SentFrame → Prop
  | .done line => of received line=target
  | .pause line output more => ((of received line).write output).settle more=target
  | .fail _ => target.received=none

theorem reaches_paused {p : Line.Pause} {a : List Instr} {t : Delivery}
    (h : (((of rc line).write p.1).settle p.2).settle a=t) : Reaches rc t (line.paused p a) := by
  rw [Line.paused,Reaches,settle_append]
  exact h

theorem handleBodyContent_reaches {p : Bytes} {es : Bool} (h : line.holds p es=false) :
    Reaches rc ((of rc line).settleInstr (.bodyContent p es))
      (line.handleBodyContent p es) := by
  unfold Line.handleBodyContent
  dsimp only
  cases hs : line.response.start with
  | none =>
    refine reaches_paused ?_
    rw [settle_writeData]
    simp [settleInstr,flushed,of,hs]
  | some s =>
    dsimp only
    rw [if_neg (by simp [h])]
    cases hb : line.response.body with
    | none =>
      refine reaches_paused ?_
      rw [settle_writeResponseStartAndBody]
      cases he : es && !line.response.expectTrailers <;>
        simp [settleInstr,flushed,write,ended,of,hs,hb,he]
    | some held =>
      refine reaches_paused ?_
      rw [settle_writeResponseStartAndBody]
      simp [settleInstr,flushed,write,ended,of,hs,hb]

theorem handleTrailers_reaches (hdrs : HeaderList) :
    Reaches rc (((of rc line).flushed.write [.trailers hdrs]).ended true)
      (line.handleTrailers hdrs) := by
  unfold Line.handleTrailers
  cases hs : line.response.start with
  | none => simp [Reaches,settleInstr,flushed,of,hs]
  | some s =>
    dsimp only
    cases hb : line.response.body with
    | none => simp [Reaches,settleInstr,flushed,write,ended,of,hs,hb]
    | some held =>
      dsimp only
      split <;> simp [Reaches,settleInstr,flushed,write,ended,of,hs,hb]

/-- Every instruction goes part of the way, but for a chunk that is held. -/
theorem exec_reaches (i : Instr) (h : ∀ p es,i=.bodyContent p es → line.holds p es=false) :
    Reaches rc ((of rc line).settleInstr i) (line.exec i) := by
  cases i with
  | debit n | writeTrailers hs | begin s et | clearStart | clearBody | endSent => rfl
  | writeData body es | bodyData p es => exact reaches_paused (by rw [settle_writeData]; rfl)
  | bodyContent p es => exact handleBodyContent_reaches (h p es rfl)
  | bodyEnd es =>
    cases he : es && !line.response.expectTrailers <;>
      simp [Line.exec,Reaches,settleInstr,of,Line.setResponse,ended,he]
  | heldData =>
    dsimp only [Line.exec]
    cases hb : line.response.body with
    | none => simp [Reaches,settleInstr,of,hb]
    | some held =>
      refine reaches_paused ?_
      rw [settle_writeData]
      simp [settleInstr,of,hb]
  | trailers hs => exact handleTrailers_reaches hs
  | trailersUnlessEnded hs =>
    dsimp only [Line.exec,settleInstr,of]
    split
    · rfl
    · exact handleTrailers_reaches hs
  | wholeResponse s body => exact reaches_paused (by rw [settle_writeResponseStartAndBody]; rfl)
  | autoFlush f =>
    dsimp only [Line.exec,settleInstr,of]
    split
    · exact reaches_paused (by rw [settle_writeResponseStartAndBody]; rfl)
    · rfl

end Delivery

/-- Whether an instruction may be left when a call is suspended. -/
def Instr.late : Instr → Bool
  | .begin .. | .bodyContent .. | .trailers .. | .wholeResponse .. | .autoFlush .. => false
  | _ => true

def Late (todo : List Instr) : Prop := todo.all Instr.late

@[simp] theorem late_nil : Late [] := rfl

@[simp] theorem late_cons (i : Instr) (t : List Instr) : Late (i::t) ↔ i.late ∧ Late t := by
  simp [Late]

@[simp] theorem late_append (a l : List Instr) : Late (a++l) ↔ Late a ∧ Late l := by simp [Late]

namespace Line

structure Fades (line line' : Line) : Prop where
  start : line'.response.start=line.response.start ∨ line'.response.start=none
  body : line'.response.body=line.response.body ∨ line'.response.body=none
  flushes : line'.flushes=line.flushes

variable (li : Line)

theorem Fades.refl : li.Fades li := ⟨.inl rfl,.inl rfl,rfl⟩

theorem Fades.trans {li ln l' : Line} (a : li.Fades ln) (l : ln.Fades l') : li.Fades l' where
  start := l.start.elim (fun h => h ▸ a.start) .inr
  body := l.body.elim (fun h => h ▸ a.body) .inr
  flushes := l.flushes.trans a.flushes

/-- An instruction holds nothing new and leaves late instructions only. -/
def Leaves (line : Line) : Outcome Line Instr SentFrame → Prop
  | .done line' => line.Fades line'
  | .pause line' _ more => line.Fades line' ∧ Late more
  | .fail line' => line.Fades line'

theorem writeData_late (b : Bytes) (es : Bool) : Late (li.writeData b es).2 := by
  unfold writeData
  dsimp only
  split
  · simp
  · split
    · simp [Instr.late]
    · split <;> simp [Instr.late]

theorem writeResponseStartAndBody_late (b : Bytes) (es : Bool) (s : Start) (et : Bool) :
    Late (li.writeResponseStartAndBody b es s et).2 := by
  unfold writeResponseStartAndBody
  dsimp only
  split <;> split <;> simp [Instr.late]

theorem leaves_paused {li l : Line} (f : li.Fades l) {p : Pause}
    (hp : Late p.2) {a : List Instr} (ha : Late a) : li.Leaves (l.paused p a) :=
  ⟨f,(late_append _ _).mpr ⟨hp,ha⟩⟩

theorem handleBodyContent_leaves {li : Line} {p : Bytes} {es : Bool}
    (h : li.holds p es=false) : li.Leaves (li.handleBodyContent p es) := by
  unfold handleBodyContent
  dsimp only
  split
  · rw [if_neg (by simp [h])]
    split <;> exact leaves_paused (.refl li) (writeResponseStartAndBody_late ..) rfl
  · exact leaves_paused (.refl li) (writeData_late ..) rfl

theorem handleTrailers_leaves (hs : HeaderList) : li.Leaves (li.handleTrailers hs) := by
  have hl : ∀ output {more : List Instr},Late more → li.Leaves (.pause li output more) :=
    fun _ _ hm => ⟨.refl li,hm⟩
  unfold handleTrailers
  split
  · split
    · split <;> exact hl _ rfl
    · exact hl _ rfl
  · exact hl _ rfl

theorem exec_leaves {i : Instr} (hb : ∀ start e,i≠.begin start e)
    (hc : ∀ p es,i=.bodyContent p es → li.holds p es=false) : li.Leaves (li.exec i) := by
  cases i with
  | debit n | endSent => exact ⟨.inl rfl,.inl rfl,rfl⟩
  | writeTrailers hs => exact ⟨.refl li,rfl⟩
  | writeData body es | bodyData p es => exact leaves_paused (.refl li) (writeData_late ..) rfl
  | begin start e => exact absurd rfl (hb start e)
  | bodyContent p es => exact handleBodyContent_leaves (hc p es rfl)
  | bodyEnd es =>
    dsimp only [exec,setResponse,Leaves]
    split <;> exact ⟨.inl rfl,.inl rfl,rfl⟩
  | heldData =>
    dsimp only [exec]
    split
    · exact leaves_paused (.refl li) (writeData_late ..) rfl
    · exact .refl li
  | trailers hs => exact handleTrailers_leaves li hs
  | trailersUnlessEnded hs =>
    dsimp only [exec]
    split
    · exact .refl li
    · exact handleTrailers_leaves li hs
  | wholeResponse start body =>
    exact leaves_paused (.refl li) (writeResponseStartAndBody_late ..) rfl
  | clearStart => exact ⟨.inr rfl,.inl rfl,rfl⟩
  | clearBody => exact ⟨.inl rfl,.inr rfl,rfl⟩
  | autoFlush f =>
    dsimp only [exec]
    split
    · have hf : li.Fades (li.setResponse ({· with body:=none,start:=none})) :=
        ⟨.inr rfl,.inr rfl,rfl⟩
      exact leaves_paused hf (writeResponseStartAndBody_late ..) rfl
    · exact .refl li

end Line

namespace Delivery

/-- What a turn of a suspended call does. -/
structure Continues (received : Option Received) (line : Line) (todo : List Instr)
    (turn : Turn Line Instr SentFrame) : Prop where
  settles : ((of received line).settle todo).received≠none →
    ((of received turn.state).write turn.output).settle turn.todo=(of received line).settle todo
  fades : line.Fades turn.state
  late : Late turn.todo

/-- More frames have been received, or one out of order. -/
def Extends (d d' : Delivery) : Prop :=
  d'.received=none ∨ ∃ frames,d'.received=receiveAll d.received frames

variable (d : Delivery)

theorem Extends.refl : d.Extends d := .inr ⟨[],rfl⟩

theorem Extends.trans {d d' d'' : Delivery} (a : d.Extends d') (l : d'.Extends d'') :
    d.Extends d'' := by
  rcases l with hn | ⟨fs',hl⟩
  · exact .inl hn
  · rcases a with hn | ⟨fs,hf⟩
    · exact .inl (by rw [hl,hn,receiveAll_none])
    · exact .inr ⟨fs++fs',by rw [hl,hf,receiveAll_append]⟩

theorem extends_write (fs : List SentFrame) : d.Extends (d.write fs) := .inr ⟨fs,rfl⟩

theorem extends_ended (es : Bool) : d.Extends (d.ended es) := by
  unfold ended
  split <;> exact .refl d

theorem extends_flushed : d.Extends d.flushed := by
  unfold flushed
  split
  · exact .refl d
  · exact extends_write d _

theorem extends_settleInstr (i : Instr) : d.Extends (d.settleInstr i) := by
  have hf (frames endStream) : d.Extends ((d.flushed.write frames).ended endStream) :=
    ((extends_flushed d).trans (extends_write _ _)).trans (extends_ended _ _)
  cases i with
  | debit | begin | clearStart | clearBody => exact .refl d
  | writeTrailers | writeData | bodyData => exact extends_write d _
  | bodyContent | trailers => exact hf _ _
  | bodyEnd | endSent => exact extends_ended d _
  | heldData =>
    rw [settleInstr]
    split
    · exact extends_write d _
    · exact .inl rfl
  | trailersUnlessEnded =>
    rw [settleInstr]
    split
    · exact .refl d
    · exact hf _ _
  | wholeResponse => exact (extends_write d _).trans (extends_ended _ _)
  | autoFlush =>
    rw [settleInstr]
    split
    · exact extends_write d _
    · exact .refl d

theorem extends_settle (t : List Instr) : d.Extends (d.settle t) := by
  induction t generalizing d with
  | nil => exact .refl d
  | cons i t ih => exact (extends_settleInstr d i).trans (ih _)

theorem Extends.received_none {d d' : Delivery} (h : d.Extends d') (hn : d.received=none) :
    d'.received=none := by
  rcases h with hn' | ⟨fs,hf⟩
  · exact hn'
  · rw [hf,hn,receiveAll_none]

theorem Continues.cons {line : Line} {rec : Option Received} {i : Instr} {rs : List Instr}
    (r : Reaches rec ((of rec line).settleInstr i) (line.exec i))
    (l : line.Leaves (line.exec i)) (hr : Late rs)
    (ih : ∀ ln,Continues rec ln rs (advance Line.exec ln rs)) :
    Continues rec line (i::rs) (advance Line.exec line (i::rs)) := by
  unfold advance
  cases he : line.exec i with
  | done ln =>
    rw [he] at r l
    have hl : of rec ln=(of rec line).settleInstr i := r
    obtain ⟨hs,hf,hla⟩ := ih ln
    rw [hl] at hs
    exact ⟨hs,l.trans hf,hla⟩
  | pause ln o m =>
    rw [he] at r l
    have hl : ((of rec ln).write o).settle m = (of rec line).settleInstr i := r
    refine ⟨fun _ => ?_,l.1,(late_append _ _).mpr ⟨l.2,hr⟩⟩
    rw [settle_append,hl]
    rfl
  | fail ln =>
    rw [he] at r l
    exact ⟨fun h => absurd ((extends_settle _ rs).received_none r) h,l,rfl⟩

theorem exec_late {i : Instr} (l : i.late) (line : Line) (r : Option Received) :
    Reaches r ((of r line).settleInstr i) (line.exec i) ∧
      line.Leaves (line.exec i) := by
  have hc : ∀ p es,i=.bodyContent p es → line.holds p es=false := by
    rintro p es rfl
    cases l
  refine ⟨exec_reaches i hc,line.exec_leaves ?_ hc⟩
  rintro s e rfl
  cases l

theorem advance_late {r : Option Received} {t : List Instr} (l : Late t)
    (line : Line) : Continues r line t (advance Line.exec line t) := by
  induction t generalizing line with
  | nil => exact ⟨fun _ => rfl,.refl line,rfl⟩
  | cons i rest ih =>
    obtain ⟨hi,hr⟩ := (late_cons i rest).mp l
    obtain ⟨hre,hl⟩ := exec_late hi line r
    exact .cons hre hl hr (ih hr)

end Delivery
end BlackBull.H2
