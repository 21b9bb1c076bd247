import BlackBull.ByteString
import BlackBull.EffectOutcomes

/-!
# The buffered reader of a connection

`BufferReader` serves from the octets that are resident and parks only when it needs more. What the
transport will still deliver is a script the reader cannot see. A parked read can also be cut short
by the deadline of the call it belongs to; it has then consumed nothing.
-/

namespace BlackBull

/-- One delivery of the transport. A delivery of no octets is the end of the stream. -/
abbrev Segment := {octets : Bytes // octets≠[]}

/-- What the transport still has to bring. -/
inductive Feed where
  /-- The end of the stream has been seen. -/
  | closed
  /-- The next event is the end of the stream. -/
  | hangup
  | arrival (segment : Segment) (later : Feed)

namespace Feed

def octets : Feed → Bytes
  | closed => []
  | hangup => []
  | arrival segment later => segment.val++later.octets

@[simp] theorem octets_closed : closed.octets=[] := rfl

@[simp] theorem octets_hangup : hangup.octets=[] := rfl

@[simp] theorem octets_arrival (seg : Segment) (l : Feed) :
    (arrival seg l).octets=seg.val++l.octets := rfl

end Feed

inductive ReadError where
  | incompleteRead (seen : Bytes)
  | timeout
  deriving DecidableEq

structure Reader where
  resident : Bytes
  feed : Feed
  /-- The number of waits that end in a delivery before the deadline of the current call
  expires, `none` when it does not. -/
  patience : Option ℕ

abbrev ReaderM := EStateM ReadError Reader

namespace Reader

open ByteString

/-- Every octet the reader has not handed out yet, resident or still to come. -/
def stream (r : Reader) : Bytes := r.resident++r.feed.octets

@[simp] theorem stream_mk (r : Bytes) (f : Feed) (p : Option ℕ) : stream ⟨r,f,p⟩=r++f.octets := rfl

def arrive (r : Reader) : Reader :=
  match r.feed with
  | .closed => r
  | .hangup => {r with feed:=.closed}
  | .arrival segment later => {r with resident:=r.resident++segment.val,feed:=later}

@[simp] theorem stream_arrive (r : Reader) : r.arrive.stream=r.stream := by
  obtain ⟨re,feed,p⟩ := r
  cases feed <;> simp [arrive]

/-- The loop of `readexactly` and `readuntil`: `ready` says how many of the resident octets
make up the answer. -/
def awaitReady (ready : Bytes → Option ℕ) :
    Feed → Bytes → Option ℕ → EStateM.Result ReadError Reader Bytes
  | feed,resident,patience =>
    match ready resident,feed,patience with
    | some n,feed,patience => .ok (resident.take n) ⟨resident.drop n,feed,patience⟩
    | none,.closed,patience => .error (.incompleteRead resident) ⟨[],.closed,patience⟩
    | none,feed,some 0 => .error .timeout ⟨resident,feed,some 0⟩
    | none,.hangup,patience =>
      .error (.incompleteRead resident) ⟨[],.closed,patience.map (· - 1)⟩
    | none,.arrival segment later,patience =>
      awaitReady ready later (resident++segment.val) (patience.map (· - 1))

def readWhen (ready : Bytes → Option ℕ) : ReaderM Bytes := fun r =>
  awaitReady ready r.feed r.resident r.patience

def readexactly (n : ℕ) : ReaderM Bytes :=
  readWhen fun resident => if n≤resident.length then some n else none

def readuntil (sep : UInt8) : ReaderM Bytes :=
  readWhen fun resident => (resident.idxOf? sep).map (· + 1)

/-- At most `n` octets, and none only at the end of the stream. -/
def read (n : ℕ) : ReaderM Bytes := fun r =>
  match r.resident,r.feed,r.patience with
  | [],.closed,_ => .ok [] r
  | [],feed,some 0 => .error .timeout ⟨[],feed,some 0⟩
  | [],.hangup,patience => .ok [] ⟨[],.closed,patience.map (· - 1)⟩
  | [],.arrival segment later,patience =>
    .ok (segment.val.take n) ⟨segment.val.drop n,later,patience.map (· - 1)⟩
  | resident,feed,patience => .ok (resident.take n) ⟨resident.drop n,feed,patience⟩

/-- How a read from `r` fails: at the end of a stream too short for it, or by its deadline,
which consumes nothing. -/
def CutShort (r : Reader) (short : Prop) : ReadError → Reader → Prop
  | .incompleteRead _,r' => r'.stream=[] ∧ short
  | .timeout,r' => r'.stream=r.stream ∧ r.patience≠none

private theorem awaitReady_outcome (r : Bytes → Option ℕ) (f : Feed) (rs : Bytes)
    (p : Option ℕ) : match awaitReady r f rs p with
    | .ok out r' => rs++f.octets=out++r'.stream ∧
        (∃ seen n,seen <+: rs++f.octets ∧ r seen=some n ∧ out=seen.take n) ∧
        (p=none → r'.patience=none)
    | .error (.incompleteRead _) r' => r'.stream=[] ∧ r (rs++f.octets)=none
    | .error .timeout r' => r'.stream=rs++f.octets ∧ p≠none := by
  induction f generalizing rs p with
  | closed =>
    cases h : r rs with
    | none => simp [awaitReady,h]
    | some n => simpa [awaitReady,h] using ⟨rs,List.prefix_rfl,n,h,rfl⟩
  | hangup =>
    cases h : r rs with
    | none => rcases p with _ | _ | k <;> simp [awaitReady,h]
    | some n => simpa [awaitReady,h] using ⟨rs,List.prefix_rfl,n,h,rfl⟩
  | arrival s later ih =>
    cases h : r rs with
    | none =>
      rcases p with _ | _ | k
      · simpa [awaitReady,h] using ih (rs++s.val) none
      · simp [awaitReady,h]
      · simpa [awaitReady,h] using ih (rs++s.val) (some k)
    | some n =>
      simpa [awaitReady,h,← List.append_assoc] using
        ⟨rs,(List.prefix_append _ _).trans (List.prefix_append _ _),n,h,rfl⟩

theorem readWhen_ensures (rd : Bytes → Option ℕ) (r : Reader) :
    Ensures (readWhen rd) r (fun out r' => r.stream=out++r'.stream ∧
        (∃ seen n,seen <+: r.stream ∧ rd seen=some n ∧ out=seen.take n) ∧
        (r.patience=none → r'.patience=none)) (CutShort r (rd r.stream=none)) := by
  have h := awaitReady_outcome rd r.feed r.resident r.patience
  unfold Ensures readWhen
  cases hr : awaitReady rd r.feed r.resident r.patience with
  | ok out r' =>
    rw [hr] at h
    exact h
  | error e r' =>
    rw [hr] at h
    cases e <;> exact h

variable (n : ℕ)

theorem readexactly_ensures (r : Reader) :
    Ensures (readexactly n) r (fun out r' => r.stream=out++r'.stream ∧ out.length=n ∧
        (r.patience=none → r'.patience=none)) (CutShort r (r.stream.length<n)) := by
  refine (readWhen_ensures _ r).mono ?_ ?_
  · rintro out r' ⟨hs,⟨seen,k,-,hk,rfl⟩,hp⟩
    split_ifs at hk with hn
    cases hk
    exact ⟨hs,List.length_take_of_le hn,hp⟩
  · intro e r' h
    cases e with
    | incompleteRead seen => exact ⟨h.1,by simpa using h.2⟩
    | timeout => exact h

theorem readuntil_ensures (sep : UInt8) (r : Reader) : Ensures (readuntil sep) r
      (fun out r' => r.stream=out++r'.stream ∧ (∃ line,sep∉line ∧ out=line++[sep]) ∧
        (r.patience=none → r'.patience=none)) (CutShort r (sep∉r.stream)) := by
  refine (readWhen_ensures _ r).mono ?_ ?_
  · rintro out r' ⟨hs,⟨seen,k,-,hk,rfl⟩,hp⟩
    refine ⟨hs,?_,hp⟩
    obtain ⟨i,hi,rfl⟩ := Option.map_eq_some_iff.mp hk
    obtain ⟨hlt,hg,hb⟩ := List.findIdx?_eq_some_iff_getElem.mp hi
    refine ⟨seen.take i,?_,?_⟩
    · intro hm
      obtain ⟨j,hj,hji⟩ := List.mem_take_iff_getElem.mp hm
      exact hb j (by omega) (by simp [hji])
    · rw [List.take_add_one,List.getElem?_eq_getElem hlt,beq_iff_eq.mp hg]
      rfl
  · intro e r' h
    cases e with
    | incompleteRead seen => exact ⟨h.1,by simpa using h.2⟩
    | timeout => exact h

theorem read_ensures (hn : 0<n) (r : Reader) :
    Ensures (read n) r (fun out r' => r.stream=out++r'.stream ∧ out.length≤n ∧
        (out=[] → r.stream=[]) ∧ (r.patience=none → r'.patience=none))
      (fun e r' => e=.timeout ∧ r'.stream=r.stream ∧ r.patience≠none) := by
  obtain ⟨re,feed,p⟩ := r
  unfold Ensures read
  rcases re with _ | ⟨b,re⟩
  · cases feed with
    | closed => simp
    | hangup => rcases p with _ | _ | k <;> simp
    | arrival seg l =>
      have hs := seg.property
      rcases p with _ | _ | k <;> simp [hn.ne',hs,← List.append_assoc]
  · simp [hn.ne',← List.append_assoc]

/-- Whatever the read does, what is left is an end of what there was. -/
def Consumes (op : ReaderM Bytes) : Prop :=
  ∀ r,Ensures op r (fun _ r' => r'.stream <:+ r.stream) (fun _ r' => r'.stream <:+ r.stream)

theorem CutShort.suffix {r r' : Reader} {s : Prop} {e : ReadError}
    (h : CutShort r s e r') : r'.stream <:+ r.stream := by
  cases e with
  | incompleteRead seen => exact h.1 ▸ List.nil_suffix
  | timeout => exact h.1 ▸ List.suffix_rfl

theorem consumes_readexactly : Consumes (readexactly n) := fun r =>
  (readexactly_ensures n r).mono (fun out _ h => ⟨out,h.1.symm⟩) fun _ _ h => h.suffix

theorem consumes_readuntil (sep : UInt8) : Consumes (readuntil sep) := fun r =>
  (readuntil_ensures sep r).mono (fun out _ h => ⟨out,h.1.symm⟩) fun _ _ h => h.suffix

theorem consumes_read : Consumes (read n) := by
  rintro ⟨r,feed,p⟩
  have hd (text l : Bytes) : text.drop n++l <:+ text++l :=
    ⟨text.take n,by rw [← List.append_assoc,List.take_append_drop]⟩
  unfold Ensures read
  rcases r with _ | ⟨b,r⟩
  · cases feed with
    | closed => exact List.suffix_rfl
    | hangup => rcases p with _ | _ | k <;> exact List.suffix_rfl
    | arrival seg l =>
      rcases p with _ | _ | k
      · exact hd seg.val l.octets
      · exact List.suffix_rfl
      · exact hd seg.val l.octets
  · exact hd (b::r) feed.octets

end Reader
end BlackBull
