import BlackBull.ByteString
import BlackBull.TransitionRuns

/-!
# A reader that replays octets

Detection may have read octets of the stream that the chosen protocol has to see.
`PrefixReader` gives them back first. It hands on the error of the reader below as it is,
without the octets that it had put in front; where that reader keeps its octets they are lost.
-/

namespace BlackBull.PrefixReplay

/-- `text.find(sep)`. -/
def find (sep : Bytes) : Bytes → Option ℕ
  | [] => if sep=[] then some 0 else none
  | b::text => if sep <+: b::text then some 0 else (find sep text).map (· + 1)

theorem find_take {sep : Bytes} (t : Bytes) (m j : ℕ) :
    find sep (t.take m)=some j ↔ find sep t=some j ∧ j+sep.length ≤ m := by
  induction t generalizing m j with
  | nil =>
    rw [List.take_nil,find]
    split
    · next h =>
      simp only [h,List.length_nil,Option.some.injEq]
      omega
    · simp
  | cons b t ih =>
    cases m with
    | zero =>
      rw [List.take_zero,find,find]
      by_cases h : sep=[]
      · simp only [h,if_true,List.nil_prefix,List.length_nil,Option.some.injEq]
        omega
      · have hl : sep.length≠0 := by simpa using h
        simp only [h,if_false,reduceCtorEq,false_iff]
        omega
    | succ m =>
      have hp : sep <+: b::t.take m ↔ sep <+: b::t ∧ sep.length ≤ m+1 := by
        rw [← List.take_succ_cons,List.prefix_take_iff]
      rw [List.take_succ_cons,find,find]
      by_cases h : sep <+: b::t
      · by_cases hl : sep.length ≤ m+1
        · rw [if_pos (hp.mpr ⟨h,hl⟩),if_pos h,Option.some.injEq]
          omega
        · rw [if_neg fun h => hl (hp.mp h).2,if_pos h,Option.map_eq_some_iff]
          simp only [ih,Option.some.injEq]
          omega
      · rw [if_neg fun h' => h (hp.mp h').1,if_neg h]
        simp only [Option.map_eq_some_iff,ih]
        constructor
        · rintro ⟨i,⟨hf,hi⟩,rfl⟩
          exact ⟨⟨i,hf,rfl⟩,by omega⟩
        · rintro ⟨⟨i,hf,rfl⟩,hi⟩
          exact ⟨i,⟨hf,by omega⟩,rfl⟩

theorem find_le {sep t : Bytes} {i : ℕ} (h : find sep t=some i) : i+sep.length≤t.length :=
  ((find_take t t.length i).mp (by rwa [List.take_length])).2

theorem find_append_left {sep a : Bytes} {i : ℕ} (h : find sep a=some i) (b : Bytes) :
    find sep (a++b)=some i := by
  have ht : find sep ((a++b).take a.length)=some i := by rwa [List.take_left]
  exact ((find_take _ _ _).mp ht).1

theorem find_append_right {sep b : Bytes} {i : ℕ} (h : find sep b=some i) (a : Bytes) :
    ∃ j≤a.length+i,find sep (a++b)=some j := by
  induction a with
  | nil => exact ⟨i,by simp,h⟩
  | cons c a ih =>
    obtain ⟨j,hj,hf⟩ := ih
    rw [List.cons_append,find]
    split
    · exact ⟨0,Nat.zero_le _,rfl⟩
    · exact ⟨j+1,by simp; omega,by rw [hf]; rfl⟩

inductive Call
  | read (n : ℕ)
  | readexactly (n : ℕ)
  | readuntil (sep : Bytes)
  | peek (n : ℕ)
  | atEof

inductive Outcome
  | octets (octets : Bytes)
  /-- `IncompleteReadError`. -/
  | incomplete (octets : Bytes)
  /-- `LimitOverrunError`. -/
  | overrun
  | flag (flag : Bool)
  deriving DecidableEq

/-- The reader below: with the default methods of `AbstractReader`, or over a stream that may have
a limit for the place of a separator, as `asyncio.StreamReader` has. -/
structure Kind where
  lenient : Bool
  limit : Option ℕ

/-- What a stream that ends early leaves: an error, or less with the default methods. -/
def ending (kind : Kind) (stream : Bytes) : Outcome :=
  if kind.lenient then .octets stream else .incomplete stream

/-- How far the separator is looked for. -/
def reach (sep stream : Bytes) : ℕ := (find sep stream).getD (stream.length + 1 - sep.length)

def Kind.Overruns (kind : Kind) (sep stream : Bytes) : Prop :=
  ∃ limit∈kind.limit,limit<reach sep stream

instance (kind : Kind) (sep stream : Bytes) : Decidable (kind.Overruns sep stream) :=
  inferInstanceAs (Decidable (∃ limit∈kind.limit,_))

/-- A reader over a stream. What is there at the time of the call is up to the environment: a
`read` gives `there` octets at most, and at least one. -/
def direct (kind : Kind) (there : ℕ) : Call → Bytes → Outcome × Bytes
  | .read n,stream =>
    (.octets (stream.take (min n (max 1 there))),stream.drop (min n (max 1 there)))
  | .readexactly n,stream =>
    if n ≤ stream.length then (.octets (stream.take n),stream.drop n)
    else (ending kind stream,[])
  | .readuntil sep,stream =>
    if kind.Overruns sep stream then (.overrun,stream)
    else
      match find sep stream with
      | some i => (.octets (stream.take (i+sep.length)),stream.drop (i+sep.length))
      | none => (ending kind stream,[])
  | .peek n,stream => (.octets (stream.take (min n there)),stream)
  | .atEof,stream => (.flag (stream.isEmpty && there≠0),stream)

structure PrefixReader where
  buf : Bytes
  stream : Bytes

/-- The octets of the buffer come first in what the reader below gives; its errors pass. -/
def PrefixReader.join (head : Bytes) (finish : Bytes → Bytes × Bytes) :
    Outcome × Bytes → Outcome × PrefixReader
  | (.octets tail,stream) =>
    (.octets (finish (head++tail)).1,⟨(finish (head++tail)).2,stream⟩)
  | (outcome,stream) => (outcome,⟨[],stream⟩)

/-- `combined[:end]` and `combined[end:]`; the end is before the start when nothing is found. -/
def cut (sep combined : Bytes) : Bytes × Bytes :=
  let stop := match find sep combined with
    | some i => i+sep.length
    | none => sep.length - 1
  (combined.take stop,combined.drop stop)

def PrefixReader.call (kind : Kind) (there : ℕ) (c : Call) (r : PrefixReader) :
    Outcome × PrefixReader :=
  let below := direct kind there
  match c with
  | .read n =>
    if r.buf≠[] then (.octets (r.buf.take n),⟨r.buf.drop n,r.stream⟩)
    else join [] (·,[]) (below c r.stream)
  | .readexactly n =>
    if n≤r.buf.length then (.octets (r.buf.take n),⟨r.buf.drop n,r.stream⟩)
    else join r.buf (·,[]) (below (.readexactly (n - r.buf.length)) r.stream)
  | .readuntil sep =>
    if r.buf=[] then join [] (·,[]) (below c r.stream)
    else
      match find sep r.buf with
      | some i =>
        (.octets (r.buf.take (i+sep.length)),⟨r.buf.drop (i+sep.length),r.stream⟩)
      | none => join r.buf (cut sep) (below c r.stream)
  | .peek n =>
    ((join r.buf (fun text => (text.take n,[])) (below c r.stream)).1,r)
  | .atEof => (.flag (r.buf.isEmpty && (r.stream.isEmpty && there≠0)),r)

/-- A call that has begun in the buffer meets neither the end of the stream nor a limit. -/
def Whole (kind : Kind) (r : PrefixReader) : Call → Prop
  | .readexactly n =>
    r.buf=[] ∨ kind.lenient=true ∨ n≤r.buf.length+r.stream.length
  | .readuntil sep =>
    r.buf=[] ∨ ¬ kind.Overruns sep (r.buf++r.stream) ∧
      ((find sep r.buf).isSome ∨ ¬ kind.Overruns sep r.stream ∧
        ((find sep r.stream).isSome ∨ (kind.lenient=true ∧
          ((find sep (r.buf++r.stream)).isSome ∨ (r.buf++r.stream).length<sep.length))))
  | _ => True

def PrefixReader.left (r : PrefixReader) : Bytes := r.buf++r.stream

variable {kd : Kind}

theorem readuntil_direct (k : ℕ) (sep : Bytes) (r : PrefixReader)
    (h : Whole kd r (.readuntil sep)) :
    direct kd k (.readuntil sep) r.left =
      ((r.call kd k (.readuntil sep)).1,(r.call kd k (.readuntil sep)).2.left) := by
  obtain ⟨buf,s⟩ := r
  unfold PrefixReader.left
  by_cases hb : buf=[]
  · simp only [PrefixReader.call,hb,if_true,List.nil_append,direct]
    split_ifs
    · rfl
    · cases find sep s <;> cases hl : kd.lenient <;> simp [ending,hl,PrefixReader.join]
  obtain ⟨ho,h⟩ := h.resolve_left hb
  simp only [PrefixReader.call,if_neg hb,direct,if_neg ho]
  cases hf : find sep buf with
  | some i =>
    have hl := find_le hf
    simp only [find_append_left hf]
    rw [List.take_append_of_le_length hl,List.drop_append_of_le_length hl]
  | none =>
    obtain ⟨hos,h⟩ := h.resolve_left (by simp [hf])
    rw [if_neg hos]
    cases hs : find sep s with
    | some i =>
      obtain ⟨j,hj,hfj⟩ := find_append_right hs buf
      have hc : buf++s.take (i+sep.length) = (buf++s).take (buf.length+(i+sep.length)) :=
        (List.take_length_add_append _).symm
      have hjc := (find_take _ _ _).mpr ⟨hfj,(by omega : _≤buf.length+(i+sep.length))⟩
      have hl := find_le hjc
      rw [← hc] at hjc hl
      have hd : buf++s=(buf++s.take (i+sep.length))++s.drop (i+sep.length) := by
        rw [List.append_assoc,List.take_append_drop]
      simp only [hfj,PrefixReader.join,cut,hjc]
      conv_lhs => rw [hd]
      rw [List.take_append_of_le_length hl,List.drop_append_of_le_length hl]
    | none =>
      obtain ⟨hln,h⟩ := h.resolve_left (by simp [hs])
      simp only [ending,hln,if_true,PrefixReader.join,cut]
      cases hj : find sep (buf++s) with
      | some j => simp
      | none =>
        have hl : (buf++s).length ≤ sep.length - 1 := by
          have hl : (buf++s).length<sep.length := h.resolve_left (by simp [hj])
          omega
        simp only [List.take_of_length_le hl,List.drop_eq_nil_of_le hl,List.append_nil]

theorem call_direct (k : ℕ) (c : Call) (r : PrefixReader) (h : Whole kd r c) :
    ∃ k',direct kd k' c r.left=((r.call kd k c).1,(r.call kd k c).2.left) := by
  obtain ⟨buf,s⟩ := r
  unfold PrefixReader.left
  cases c with
  | read n =>
    by_cases hb : buf=[]
    · exact ⟨k,by simp [hb,PrefixReader.call,PrefixReader.join,direct]⟩
    · have hl : max 1 buf.length=buf.length := by
        have := List.length_pos_iff.mpr hb
        omega
      refine ⟨buf.length,?_⟩
      simp [PrefixReader.call,hb,direct,hl,List.take_append,List.drop_append,
        List.take_eq_take_iff,List.drop_eq_drop_iff]
  | readexactly n =>
    refine ⟨k,?_⟩
    simp only [PrefixReader.call,direct,List.length_append]
    by_cases hn : n≤buf.length
    · rw [if_pos (by omega),if_pos hn,List.take_append_of_le_length hn,
        List.drop_append_of_le_length hn]
    · rw [if_neg hn]
      by_cases hs : n≤buf.length+s.length
      · rw [if_pos hs,if_pos (by omega),PrefixReader.join,List.take_append,List.drop_append,
          List.take_of_length_le (by omega),List.drop_eq_nil_of_le (by omega)]
      · rw [if_neg hs,if_neg (by omega)]
        rcases h with rfl | h | h
        · cases hl : kd.lenient <;> simp [ending,hl,PrefixReader.join]
        · simp [ending,show kd.lenient=true from h,PrefixReader.join]
        · exact absurd h hs
  | readuntil sep => exact ⟨k,readuntil_direct k sep ⟨buf,s⟩ h⟩
  | peek n =>
    refine ⟨buf.length+min n k,?_⟩
    have ht : buf++s.take (min n k)=(buf++s).take (buf.length+min n k) := by
      rw [List.take_length_add_append]
    simp only [PrefixReader.call,PrefixReader.join,direct,ht,List.take_take]
  | atEof => exact ⟨k,by cases buf <;> simp [PrefixReader.call,direct]⟩

theorem whole_of_direct (k k' : ℕ) (c : Call) (r : PrefixReader)
    (h : direct kd k' c r.left=((r.call kd k c).1,(r.call kd k c).2.left)) : Whole kd r c := by
  obtain ⟨buf,s⟩ := r
  unfold PrefixReader.left at h
  cases c with
  | readexactly n =>
    by_contra hw
    simp only [Whole,not_or,Bool.not_eq_true] at hw
    obtain ⟨hb,hln,hn⟩ := hw
    simp only [direct,PrefixReader.call,List.length_append,if_neg hn,
      if_neg (by omega : ¬ n ≤ buf.length),if_neg (by omega : ¬ n - buf.length ≤ s.length)] at h
    simp [ending,hln,PrefixReader.join,hb] at h
  | readuntil sep =>
    by_cases hb : buf=[]
    · exact .inl hb
    simp only [direct,PrefixReader.call,if_neg hb] at h
    -- the limit is met by both readers only if both keep the same octets
    have ho : ¬ kd.Overruns sep (buf++s) := by
      intro ho
      simp only [if_pos ho] at h
      cases hf : find sep buf with
      | some i => simp [hf] at h
      | none =>
        simp only [hf] at h
        split_ifs at h
        · simp [PrefixReader.join,hb] at h
        · cases hs : find sep s <;> cases hl : kd.lenient <;>
            simp [hs,ending,hl,PrefixReader.join] at h
    refine .inr ⟨ho,or_iff_not_imp_left.mpr fun hf => ?_⟩
    simp only [Bool.not_eq_true,Option.isSome_eq_false_iff,Option.isNone_iff_eq_none] at hf
    simp only [if_neg ho,hf] at h
    have hos : ¬ kd.Overruns sep s := by
      intro hos
      simp only [if_pos hos,PrefixReader.join] at h
      cases hj : find sep (buf++s) <;> cases hl : kd.lenient <;> simp [hj,ending,hl] at h
    refine ⟨hos,or_iff_not_imp_left.mpr fun hs => ?_⟩
    simp only [Bool.not_eq_true,Option.isSome_eq_false_iff,Option.isNone_iff_eq_none] at hs
    simp only [if_neg hos,hs] at h
    cases hl : kd.lenient with
    | false => cases hj : find sep (buf++s) <;> simp [hj,ending,hl,PrefixReader.join,hb] at h
    | true =>
      refine ⟨rfl,or_iff_not_imp_left.mpr fun hj => ?_⟩
      simp only [Bool.not_eq_true,Option.isSome_eq_false_iff,Option.isNone_iff_eq_none] at hj
      simp only [hj,ending,hl,if_true,PrefixReader.join,cut,Prod.mk.injEq] at h
      have ht : (buf++s).length ≤ sep.length - 1 :=
        (congrArg List.length (Outcome.octets.inj h.1)).trans_le (List.length_take_le _ _)
      have := List.length_pos_iff.mpr hb
      change (buf++s).length<sep.length
      rw [List.length_append] at ht ⊢
      omega
  | _ => trivial

/-- What each call gives, and the octets that are left after it. -/
def directAll (kind : Kind) : List (Call × ℕ) → Bytes → List (Outcome × Bytes)
  | [],_ => []
  | (c,there)::calls,stream =>
    direct kind there c stream::directAll kind calls (direct kind there c stream).2

def replayAll (kind : Kind) : List (Call × ℕ) → PrefixReader → List (Outcome × Bytes)
  | [],_ => []
  | (c,there)::calls,r => ((r.call kind there c).1,(r.call kind there c).2.left) ::
      replayAll kind calls (r.call kind there c).2

/-- A reader over all of the octets could give what the calls give, and have the same left, exactly
if no call that begins in the buffer meets the end of the stream or the limit. -/
theorem replay_invisible_iff (kind : Kind) (calls : List (Call × ℕ)) (r : PrefixReader) :
    (∃ other : List (Call × ℕ),other.map Prod.fst=calls.map Prod.fst ∧
      directAll kind other (r.buf++r.stream)=replayAll kind calls r) ↔
    Along (fun r c => (PrefixReader.call kind c.2 c.1 r).2) (fun r c => Whole kind r c.1)
      r calls := by
  change (∃ other : List (Call × ℕ),_ ∧ directAll kind other r.left=_) ↔ _
  induction calls generalizing r with
  | nil => exact iff_of_true ⟨[],rfl,rfl⟩ trivial
  | cons c calls ih =>
    rw [along_cons,← ih]
    constructor
    · rintro ⟨_ | ⟨⟨c',k'⟩,other⟩,hc,ho⟩
      · cases hc
      · obtain ⟨rfl,hcs⟩ := List.cons.inj hc
        obtain ⟨hh,ht⟩ := List.cons.inj ho
        rw [hh] at ht
        exact ⟨whole_of_direct c.2 k' c.1 r hh,other,hcs,ht⟩
    · rintro ⟨hw,other,hc,ho⟩
      obtain ⟨k,hk⟩ := call_direct c.2 c.1 r hw
      refine ⟨(c.1,k)::other,congrArg (c.1 :: ·) hc,?_⟩
      rw [directAll,hk,ho]
      rfl

/-- The stream ends before a line that began in the buffer does: the error names the octets of
the stream alone. The line feed of the second reader is never found. With a limit of two octets the
octet of the buffer is lost. -/
theorem error_without_buffer :
    (PrefixReader.call ⟨false,none⟩ 0 (.readuntil [13,10]) ⟨[65],[66]⟩).1=.incomplete [66] ∧
    (direct ⟨false,none⟩ 0 (.readuntil [13,10]) [65,66]).1=.incomplete [65,66] ∧
    (PrefixReader.call ⟨false,none⟩ 0 (.readuntil [13,10]) ⟨[65,13],[10]⟩).1=.incomplete [10] ∧
    (direct ⟨false,none⟩ 0 (.readuntil [13,10]) [65,13,10]).1=.octets [65,13,10] ∧
    (PrefixReader.call ⟨false,some 2⟩ 0 (.readuntil [13,10]) ⟨[65],[66,66,66,66]⟩).2.left =
      [66,66,66,66] ∧
    direct ⟨false,some 2⟩ 0 (.readuntil [13,10]) [65,66,66,66,66]=(.overrun,[65,66,66,66,66]) := by
  decide

end BlackBull.PrefixReplay
