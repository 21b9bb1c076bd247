import BlackBull.InboundBuffer

/-!
# The octets a connection holds

A parked read leaves at most its own demand in the buffer, and what it does not consume is bounded
before the next delivery pauses the transport. The demand of every read is fixed by the settings
except that for a line, whose limit is compared only after it has been read.
-/

namespace BlackBull.Inbound

open ByteString

variable {settings : Settings} {c : Connection} {d : ℕ}

def Settings.demand (settings : Settings) : ℕ :=
  settings.headerMaxTotal+chunkLineMax+settings.bodyChunkSize

def Settings.bound (settings : Settings) (delivery : ℕ) : ℕ :=
  settings.demand+max highWater delivery+delivery

/-- The end of the line is here, or the line is not too long yet. -/
def LineFits (resident : Bytes) : Prop := 10∈resident ∨ resident.length≤chunkLineMax

instance (resident : Bytes) : Decidable (LineFits resident) := inferInstanceAs (Decidable (_ ∨ _))

/-- Lines that are looked for keep to their limit; a reader that was woken runs before the next
delivery. -/
def Paced (delivery : ℕ) (c : Connection) : Action → Prop
  | .deliver data => data.length≤delivery ∧ c.woken=false
  | .call .line => LineFits c.resident
  | .resume => c.waiting=some (.readuntil 10) → LineFits c.resident
  | _ => True

instance (delivery : ℕ) (c : Connection) : (action : Action) → Decidable (Paced delivery c action)
  | .deliver _ => inferInstanceAs (Decidable (_ ∧ _))
  | .call .line => inferInstanceAs (Decidable (LineFits _))
  | .resume => inferInstanceAs (Decidable (_ → LineFits _))
  | .call (.detect _) | .call .head | .call (.body _) | .call (.slice _) | .call .terminator
  | .call (.linger _) | .eof | .cancel => isTrue trivial

theorem findFrom_eq_none (sep : UInt8) (t : Bytes) :
    Connection.findFrom [sep] 0 t=none ↔ sep∉t := by
  have hs (i : ℕ) : startsWith (t.drop i) [sep]=true ↔ t[i]? = some sep := by
    rw [startsWith,List.isPrefixOf_iff_prefix,← List.head?_drop]
    cases t.drop i with
    | nil => simp
    | cons b rest => simp [List.cons_prefix_cons,eq_comm]
  simp only [Connection.findFrom,List.drop_zero,List.find?_eq_none,List.mem_range,hs]
  constructor
  · intro h hm
    obtain ⟨i,hi,hg⟩ := List.getElem_of_mem hm
    exact h i hi (List.getElem?_eq_some_iff.mpr ⟨hi,hg⟩)
  · intro h i _ hg
    exact h (List.mem_of_getElem? hg)

theorem Connection.resident_consumed (c : Connection) : c.consumed.resident=c.resident := by
  unfold Connection.consumed
  split_ifs <;> rfl

/-- Less than the bound is there, and less while the transport reads; a parked read leaves no more
than its demand. -/
structure Bounded (settings : Settings) (delivery : ℕ) (c : Connection) : Prop where
  total : c.resident.length ≤ settings.bound delivery
  reading : c.readingPaused=false →
    c.resident.length ≤ settings.demand+max highWater delivery
  parked : ∀ op∈c.waiting,c.readingPaused=false ∧
    (∃ call : Call,op=call.op settings) ∧
    (c.woken=false → c.resident.length ≤ settings.demand)

theorem Bounded.park (cl : Call) (hd : c.resident.length ≤ settings.demand) :
    Bounded settings d (c.park (cl.op settings)) := by
  refine ⟨?_,fun _ => ?_,?_⟩
  · exact hd.trans ((Nat.le_add_right _ _).trans (Nat.le_add_right _ _))
  · exact hd.trans (Nat.le_add_right _ _)
  · rintro _ ⟨⟩
    exact ⟨rfl,⟨cl,rfl⟩,fun _ => hd⟩

theorem Bounded.take (h : Bounded settings d c) (hi : c.waiting=none) (n : ℕ) :
    Bounded settings d (c.take n) := by
  have hle : (c.take n).resident.length≤c.resident.length := by simp [Connection.take]
  refine ⟨hle.trans h.total,fun hp => hle.trans (h.reading hp),fun op hop => ?_⟩
  rw [show (c.take n).waiting=none from hi] at hop
  cases hop

theorem Bounded.consumed (h : Bounded settings d c) (hi : c.waiting=none) :
    Bounded settings d c.consumed := by
  unfold Connection.consumed
  split_ifs with hl
  · refine ⟨h.total,fun _ => hl.2.trans ?_,fun op hop => ?_⟩
    · exact (show lowWater≤highWater by decide).trans
        ((le_max_left _ _).trans (Nat.le_add_left _ _))
    · rw [hi] at hop
      cases hop
  · exact h

theorem Bounded.ends (h : Bounded settings d c) (hi : c.waiting=none) (n : ℕ) :
    Bounded settings d (c.take n).consumed :=
  (h.take hi n).consumed hi

/-- A read that finds too little parks, or fails at the end of the input. -/
theorem Bounded.waits (h : Bounded settings d c) (hi : c.waiting=none) (cl : Call)
    (hd : c.resident.length ≤ settings.demand) : Bounded settings d
      (if c.peerClosed then c.take c.resident.length else c.park (cl.op settings)) := by
  split_ifs
  · exact h.take hi _
  · exact .park cl hd

theorem Bounded.scan (h : Bounded settings d c) (n : ℕ) : Bounded settings d {c with scanned:=n} :=
  ⟨h.total,h.reading,h.parked⟩

theorem proceed_bounded (hh : 0<settings.headerMaxTotal) (h : Bounded settings d c) (hi :
    c.waiting=none) (cl : Call) (hl : cl.op settings=.readuntil 10 → LineFits c.resident) :
    Bounded settings d (c.proceed (cl.op settings)) := by
  cases cl with
  | detect w =>
    simp only [Call.op,Connection.proceed]
    split_ifs with hs
    · refine .park (.detect w) ?_
      have hp : detectPrefixLen≤chunkLineMax := by decide
      have : c.resident.length < min w detectPrefixLen := hs.1
      unfold Settings.demand
      omega
    · exact h
  | head =>
    simp only [Call.op,Connection.proceed]
    by_cases hn : c.resident=[]
    · rw [if_pos hn]
      split_ifs
      · exact h
      · exact .park .head (by simp [hn])
    rw [if_neg hn,Connection.findHeadEnd]
    cases hf : Connection.findFrom (crlf++crlf) (c.scanned - 3) c.resident with
    | none =>
      dsimp only
      by_cases hli : 0<settings.headerMaxTotal ∧ settings.headerMaxTotal<c.resident.length
      · rw [if_pos hli]
        exact h.scan _
      · rw [if_neg hli]
        refine (h.scan c.resident.length).waits hi .head (?_ : c.resident.length≤_)
        simp only [hh,true_and,not_lt] at hli
        unfold Settings.demand
        omega
    | some i =>
      dsimp only
      by_cases hli : 0<settings.headerMaxTotal ∧ settings.headerMaxTotal < i+4
      · rw [if_pos hli]
        exact h.scan i
      · rw [if_neg hli]
        exact (h.scan i).ends hi (i+4)
  | body r =>
    simp only [Call.op,Connection.proceed]
    split_ifs with hn
    · exact h
    · exact .park (.body r) (by simp [hn])
    · exact h.ends hi _
  | slice r =>
    simp only [Call.op,Connection.proceed]
    split_ifs with hs
    · exact h.take hi _
    · refine .park (.slice r) ?_
      unfold Settings.demand
      omega
    · exact h.ends hi _
  | terminator =>
    simp only [Call.op,Connection.proceed]
    split_ifs with hs
    · exact h.take hi _
    · refine .park .terminator ?_
      have : 2≤chunkLineMax := by decide
      unfold Settings.demand
      omega
    · exact h.ends hi _
  | line =>
    simp only [Call.op,Connection.proceed]
    cases hf : Connection.findFrom [10] 0 c.resident with
    | some i => exact h.ends hi _
    | none =>
      have hs := (hl rfl).resolve_left ((findFrom_eq_none 10 _).mp hf)
      exact h.waits hi .line (by unfold Settings.demand; omega)
  | linger mb =>
    simp only [Call.op,Connection.proceed]
    split_ifs
    · exact h.ends hi _
    · refine .park (.linger _) ?_
      rw [Connection.resident_consumed]
      simp [Connection.take]

theorem Bounded.wake (h : Bounded settings d c) : Bounded settings d c.wake := by
  refine ⟨h.total,h.reading,fun op hop => ?_⟩
  obtain ⟨hp,hc,-⟩ := h.parked op hop
  refine ⟨hp,hc,fun hw => ?_⟩
  simp [Connection.wake,show c.waiting=some op from hop] at hw

theorem bufferUpdated_bounded (h : Bounded settings d c) (hp : c.readingPaused=false)
    (hw : c.woken=false) {dt : Bytes} (hd : dt.length≤d) :
    Bounded settings d (c.bufferUpdated dt) := by
  have hl : (c.resident++dt).length≤c.resident.length+d := by simpa using hd
  have hr := h.reading hp
  have ht : (c.resident++dt).length ≤ settings.bound d := by
    unfold Settings.bound
    omega
  unfold Connection.bufferUpdated
  cases hwa : c.waiting with
  | none =>
    dsimp only
    split_ifs with hm
    · exact ⟨ht,by rintro ⟨⟩,by simp [Connection.wake]⟩
    · refine Bounded.wake ⟨ht,fun _ => ?_,by simp⟩
      have hb : (c.resident++dt).length<highWater := by simpa using hm
      exact hb.le.trans ((le_max_left _ _).trans (Nat.le_add_left _ _))
  | some op =>
    have hpa := h.parked op hwa
    have hde := hpa.2.2 hw
    have hn : ¬ (highWater≤(c.resident++dt).length ∧ (some op).isNone=true) := by simp
    dsimp only
    rw [if_neg hn]
    refine ⟨ht,fun _ => ?_,?_⟩
    · refine hl.trans ?_
      have := le_max_right highWater d
      omega
    · rintro _ ⟨⟩
      exact ⟨hp,hpa.2.1,by rintro ⟨⟩⟩

theorem step_bounded (hh : 0<settings.headerMaxTotal) (h : Bounded settings d c)
    {a : Action} (hp : Paced d c a) : Bounded settings d (c.step settings a) := by
  cases a with
  | call call =>
    rw [Connection.step]
    split_ifs with hi
    · refine proceed_bounded hh h (Option.isNone_iff_eq_none.mp hi) call fun hop => ?_
      cases call with
      | line => exact hp
      | _ => simp [Call.op] at hop
    · exact h
  | deliver dt =>
    rw [Connection.step]
    split_ifs with hs
    · exact h
    · exact Bounded.wake ⟨h.total,h.reading,h.parked⟩
    · simp only [not_or,Bool.not_eq_true] at hs
      exact bufferUpdated_bounded h hs.1 hp.2 hp.1
  | eof => exact Bounded.wake ⟨h.total,h.reading,h.parked⟩
  | resume =>
    rw [Connection.step]
    cases hw : c.waiting with
    | none => exact h
    | some op =>
      dsimp only
      split_ifs
      · obtain ⟨hpa,⟨call,rfl⟩,-⟩ := h.parked op hw
        have hi : Bounded settings d {c with waiting:=none,woken:=false} :=
          ⟨h.total,h.reading,by simp⟩
        refine proceed_bounded hh hi rfl call fun hop => ?_
        exact hp (by rw [hw,hop])
      · exact h
  | cancel => exact ⟨h.total,h.reading,by simp [Connection.step]⟩

/-- In every run whose lines keep to their limit, with deliveries of at most this size, the octets
that are resident never exceed the bound. -/
theorem resident_bounded (hhead : 0<settings.headerMaxTotal) (delivery : ℕ)
    {actions : List Action}
    (along : Along (Connection.step settings) (Paced delivery) {} actions) :
    (run (Connection.step settings) {} actions).resident.length ≤
      settings.headerMaxTotal+chunkLineMax+settings.bodyChunkSize +
        max highWater delivery+delivery := by
  have hi : Bounded settings delivery {} := ⟨by simp,by simp,by rintro _ ⟨⟩⟩
  have h := along.invariant (fun _ _ h hp => step_bounded hhead h hp) hi
  exact h.total

/-- A request in two deliveries, with its body read chunk by chunk. -/
theorem resident_bounded_chunked :
    let actions : List Action :=
      [.call (.detect 16),.deliver (ascii "POST / HTTP/1.1\r\n"),.resume,.call .head,
        .deliver (ascii "Transfer-Encoding: chunked\r\n\r\n2\r\nok\r\n0\r"),.resume,.call .line,
        .call (.slice 2),.call .terminator,.call .line,.deliver (ascii "\n\r\n"),.resume,
        .call .line]
    let settings : Settings := {}
    (run (Connection.step settings) {} actions).resident=[] ∧
      (run (Connection.step settings) {} actions).resident.length ≤
        settings.headerMaxTotal+chunkLineMax+settings.bodyChunkSize+max highWater 64+64 :=
  ⟨by decide +kernel,resident_bounded (by decide) 64 (by decide +kernel)⟩

def longLine (n : ℕ) : List Action :=
  (List.replicate n [Action.deliver [97],.resume]).flatten

theorem run_longLine (n k : ℕ) : run (Connection.step settings)
        {resident:=List.replicate k 97,waiting:=some (.readuntil 10)} (longLine n) =
      {resident:=List.replicate (k+n) 97,waiting:=some (.readuntil 10)} := by
  induction n generalizing k with
  | zero => rfl
  | succ n ih =>
    have hf : Connection.findFrom [10] 0 (List.replicate k 97++[97])=none :=
      (findFrom_eq_none 10 _).mpr (by simp)
    have hd : run (Connection.step settings)
        {resident:=List.replicate k 97,waiting:=some (.readuntil 10)}
        [.deliver [97],.resume] =
          {resident:=List.replicate (k+1) 97,waiting:=some (.readuntil 10)} := by
      simp [Connection.step,Connection.bufferUpdated,Connection.wake,Connection.proceed,hf,
        Connection.park,List.replicate_succ']
    rw [longLine,List.replicate_succ,List.flatten_cons,run_append,hd,← longLine,ih]
    congr 2
    omega

/-- A chunk-size line that does not end is buffered whole. -/
theorem resident_unbounded :
    ∃ actions : List Action,
      (∀ action∈actions,∀ data,action=.deliver data → data.length≤64) ∧
      ({} : Settings).bound 64<(run (Connection.step {}) {} actions).resident.length := by
  let opening : List Action :=
    [.deliver (ascii "POST / HTTP/1.1\r\nTransfer-Encoding: chunked\r\n\r\n"),.call .head,
      .call .line]
  have ho : run (Connection.step {}) {} opening =
      {resident:=List.replicate 0 97,waiting:=some (.readuntil 10)} := by
    decide +kernel
  refine ⟨opening++longLine (({} : Settings).bound 64+1),?_,?_⟩
  · intro action hm data hd
    rcases List.mem_append.mp hm with hm | hm
    · simp only [opening,List.mem_cons,List.not_mem_nil,or_false] at hm
      rcases hm with rfl | rfl | rfl
      · obtain rfl := Action.deliver.inj hd
        decide
      · cases hd
      · cases hd
    · simp only [longLine,List.mem_flatten,List.mem_replicate] at hm
      obtain ⟨_,⟨-,rfl⟩,hm⟩ := hm
      simp only [List.mem_cons,List.not_mem_nil,or_false] at hm
      rcases hm with rfl | rfl
      · obtain rfl := Action.deliver.inj hd
        decide
      · cases hd
  · rw [run_append,ho,run_longLine]
    simp

end BlackBull.Inbound
