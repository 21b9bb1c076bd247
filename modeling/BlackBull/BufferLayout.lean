import BlackBull.InboundBuffer

/-!
# The allocation of the read buffer

`ReadBuffer` with its allocation and its cursors: the transport writes behind the write cursor,
reading moves the read cursor, and compaction, growth and release move what is in between.
-/

namespace BlackBull.Inbound

open ByteString

/-- `_INITIAL`. -/
def floor : ℕ := 8192

def minRead : ℕ := 4096

def compactMin : ℕ := 4096

structure ReadBuffer where
  buf : Bytes := List.replicate floor 0
  r : ℕ := 0
  w : ℕ := 0
  scanned : ℕ := 0
  examined : ℕ := 0
  grown : Bool := false
  drainedBoundary : Bool := false
  peakAvail : ℕ := 0
  /-- A write window is handed out. -/
  view : Bool := false

namespace ReadBuffer

def compact (b : ReadBuffer) : ReadBuffer :=
  if b.r=0 then {b with view:=false,drainedBoundary:=b.drainedBoundary || b.w=0}
  else if b.w=b.r then
    {b with view:=false,r:=0,w:=0,scanned:=0,drainedBoundary:=true}
  else
    {b with
      view:=false,buf:=b.buf.drop b.r++List.replicate b.r 0
      w:=b.w - b.r,scanned:=b.scanned - b.r,r:=0}

def resetScan (b : ReadBuffer) : ReadBuffer :=
  let b := {b with scanned:=b.r}
  if compactMin≤b.r ∧ b.buf.length≤b.r*2 then b.compact else b

/-- The loop of `_make_room`. -/
def doubled (n need : ℕ) : ℕ :=
  if 0<n ∧ n<need then doubled (n*2) need else n
termination_by need - n
decreasing_by omega

def grow (b : ReadBuffer) (want : ℕ) : ReadBuffer :=
  let size := doubled b.buf.length (b.w+want)
  {b with
    view:=false,buf:=b.buf++List.replicate (size - b.buf.length) 0
    grown:=floor < size}

def makeRoom (b : ReadBuffer) (want : ℕ) : ReadBuffer :=
  if b.r≠0 ∧ want≤b.buf.length - (b.w - b.r) then
    if want≤b.compact.buf.length - b.compact.w then b.compact else b.compact.grow want
  else b.grow want

def getBuffer (b : ReadBuffer) (want : ℕ) : ReadBuffer :=
  let target := max want minRead
  let b := if b.buf.length - b.w < target then b.makeRoom target else b
  {b with view:=true}

/-- The window that is offered. -/
def window (b : ReadBuffer) : Bytes := b.buf.drop b.w

/-- `buffer_updated`, once the transport has written the octets at the front of the window. -/
def bufferUpdated (b : ReadBuffer) (octets : Bytes) : ReadBuffer :=
  let w := b.w+octets.length
  {b with
    buf:=b.buf.take b.w++octets++b.buf.drop w,w,view:=false
    peakAvail:=if b.grown && b.peakAvail < w - b.r then w - b.r else b.peakAvail}

/-- `find_head_end`: the scan resumes three octets before where it stopped. -/
def findHeadEnd (b : ReadBuffer) (limit : ℕ) : ReadBuffer × Connection.HeadEnd :=
  let start := max b.r (b.scanned - 3)
  let b := {b with examined:=b.examined + (b.w - start)}
  match Connection.findFrom (crlf++crlf) start (b.buf.take b.w) with
  | none => ({b with scanned:=b.w},
      if 0<limit ∧ limit < b.w - b.r then .limitExceeded else .missing)
  | some i => ({b with scanned:=i},
      if 0<limit ∧ limit < i + 4 - b.r then .limitExceeded else .found (i + 4 - b.r))

/-- What `view` hands out, and `take` with it. -/
def next (b : ReadBuffer) (n : ℕ) : Bytes := slice b.buf b.r (b.r+n)

def consume (b : ReadBuffer) (n : ℕ) : ReadBuffer := resetScan {b with r:=b.r+n}

def take (b : ReadBuffer) (n : ℕ) : Bytes × ReadBuffer := (b.next n,b.consume n)

def consumeBoundary (b : ReadBuffer) : ReadBuffer :=
  {b with drainedBoundary:=false,peakAvail:=0}

def releaseToFloor (b : ReadBuffer) : ReadBuffer :=
  if !b.grown || b.w≠b.r then b
  else {b with
    view:=false,buf:=List.replicate floor 0,r:=0,w:=0,scanned:=0,grown:=false}

/-- The octets between the cursors. -/
def resident (b : ReadBuffer) : Bytes := slice b.buf b.r b.w

structure Laid (b : ReadBuffer) : Prop where
  read : b.r≤b.w
  write : b.w≤b.buf.length
  scan : b.scanned≤b.w
  floor : floor≤b.buf.length

end ReadBuffer

open ReadBuffer

inductive BufferCall
  | getBuffer (want : ℕ)
  | bufferUpdated (octets : Bytes)
  | findHeadEnd (limit : ℕ)
  | take (n : ℕ)
  | view (n : ℕ)
  | consume (n : ℕ)
  | compact
  | consumeBoundary
  | releaseToFloor

/-- The buffer with what was delivered to it and consumed from it. -/
structure Traced where
  buffer : ReadBuffer := {}
  delivered : Bytes := []
  consumed : Bytes := []

def bufferStep (s : Traced) : BufferCall → Traced
  | .getBuffer want => {s with buffer:=s.buffer.getBuffer want}
  | .bufferUpdated octets =>
    {s with buffer:=s.buffer.bufferUpdated octets,delivered:=s.delivered++octets}
  | .findHeadEnd limit => {s with buffer:=(s.buffer.findHeadEnd limit).1}
  | .take n =>
    {s with buffer:=(s.buffer.take n).2,consumed:=s.consumed++s.buffer.resident.take n}
  | .view _ => s
  | .consume n =>
    {s with buffer:=s.buffer.consume n,consumed:=s.consumed++s.buffer.resident.take n}
  | .compact => {s with buffer:=s.buffer.compact}
  | .consumeBoundary => {s with buffer:=s.buffer.consumeBoundary}
  | .releaseToFloor => {s with buffer:=s.buffer.releaseToFloor}

/-- No more is written than was offered, and no more is taken than is resident. -/
def Permitted (s : Traced) : BufferCall → Prop
  | .bufferUpdated octets => s.buffer.view=true ∧ octets.length≤ s.buffer.window.length
  | .take n | .view n | .consume n => n ≤ s.buffer.w - s.buffer.r
  | _ => True

structure Fifo (s : Traced) : Prop where
  laid : s.buffer.Laid
  order : s.delivered=s.consumed++s.buffer.resident

/-- A new layout of the same octets, as far scanned. -/
structure Relaid (b t : ReadBuffer) : Prop where
  laid : t.Laid
  resident : t.resident=b.resident
  scanned : t.scanned - t.r=b.scanned - b.r
  examined : t.examined=b.examined

variable {b : ReadBuffer}

theorem slice_append_slice (d : Bytes) {a b c : ℕ} (hab : a≤b) (hbc : b≤c) :
    slice d a b++slice d b c=slice d a c := by
  obtain ⟨m,rfl⟩ := Nat.exists_eq_add_of_le hab
  obtain ⟨n,rfl⟩ := Nat.exists_eq_add_of_le hbc
  simp only [slice,Nat.add_assoc,Nat.add_sub_add_left,Nat.add_sub_cancel_left,← List.drop_drop,
    List.take_add]

theorem slice_of_append (f bk : Bytes) {a b : ℕ} (h : b≤f.length) (hab : a≤b) :
    slice (f++bk) a b=slice f a b := by
  rw [slice,slice,List.drop_append_of_le_length (by omega),
    List.take_append_of_le_length (by rw [List.length_drop]; omega)]

theorem length_resident (h : b.Laid) : b.resident.length=b.w - b.r := by
  have := h.write
  simp only [resident,slice,List.length_take,List.length_drop]
  omega

theorem relaid_compact (h : b.Laid) : Relaid b b.compact := by
  obtain ⟨hr,hw,hs,hf⟩ := h
  unfold compact
  split_ifs with hz he
  · exact ⟨⟨hr,hw,hs,hf⟩,rfl,rfl,rfl⟩
  · refine ⟨⟨le_rfl,Nat.zero_le _,le_rfl,hf⟩,?_,by dsimp only; omega,rfl⟩
    simp [resident,slice,he]
  · refine ⟨⟨Nat.zero_le _,?_,?_,?_⟩,?_,rfl,rfl⟩
    · simp only [List.length_append,List.length_drop,List.length_replicate]
      omega
    · dsimp only
      omega
    · simp only [List.length_append,List.length_drop,List.length_replicate]
      omega
    · simp only [resident]
      rw [slice_of_append _ _ (by rw [List.length_drop]; omega) (Nat.zero_le _)]
      simp [slice]

theorem le_doubled {n : ℕ} (h : 0<n) (nd : ℕ) : nd≤doubled n nd ∧ n≤doubled n nd := by
  fun_induction doubled n nd with
  | case1 n hn ih =>
    have := ih (by omega)
    omega
  | case2 n hn => omega

theorem relaid_grow (h : b.Laid) (w : ℕ) :
    Relaid b (b.grow w) ∧ w ≤ (b.grow w).buf.length - (b.grow w).w := by
  obtain ⟨hr,hw,hs,hf⟩ := h
  have hd := le_doubled (lt_of_lt_of_le (by decide) hf) (b.w+w)
  have hl : (b.grow w).buf.length=doubled b.buf.length (b.w+w) := by
    simp only [grow,List.length_append,List.length_replicate]
    omega
  have he : (b.grow w).w=b.w := rfl
  refine ⟨⟨⟨hr,?_,hs,?_⟩,slice_of_append _ _ hw hr,rfl,rfl⟩,?_⟩
  · omega
  · omega
  · omega

theorem relaid_makeRoom (h : b.Laid) (w : ℕ) : Relaid b (b.makeRoom w) ∧
    w ≤ (b.makeRoom w).buf.length - (b.makeRoom w).w := by
  have hc := relaid_compact h
  unfold makeRoom
  split_ifs with hr hw
  · exact ⟨hc,hw⟩
  · have hg := relaid_grow hc.laid w
    exact ⟨⟨hg.1.laid,hg.1.resident.trans hc.resident,hg.1.scanned.trans hc.scanned,
      hg.1.examined.trans hc.examined⟩,hg.2⟩
  · exact relaid_grow h w

theorem relaid_getBuffer (h : b.Laid) (w : ℕ) :
    Relaid b (b.getBuffer w) ∧ max w minRead≤(b.getBuffer w).window.length := by
  have hm := relaid_makeRoom h (max w minRead)
  unfold getBuffer window
  simp only [List.length_drop]
  split_ifs with hl
  · exact ⟨{hm.1 with laid:={hm.1.laid with}},hm.2⟩
  · exact ⟨⟨{h with},rfl,rfl,rfl⟩,not_lt.mp hl⟩

theorem relaid_consumeBoundary (h : b.Laid) : Relaid b b.consumeBoundary :=
  ⟨{h with},rfl,rfl,rfl⟩

theorem relaid_releaseToFloor (h : b.Laid) : Relaid b b.releaseToFloor := by
  unfold releaseToFloor
  split_ifs with hr
  · exact ⟨h,rfl,rfl,rfl⟩
  · have he : b.w=b.r := by simp_all
    have hs := h.scan
    exact ⟨⟨le_rfl,Nat.zero_le _,le_rfl,by simp⟩,by simp [resident,slice,he],
      by dsimp only; omega,rfl⟩

theorem next_eq {n : ℕ} (hn : n≤b.w - b.r) : b.next n=b.resident.take n := by
  rw [next,resident,slice,slice,List.take_take,Nat.add_sub_cancel_left,min_eq_left hn]

theorem consume_laid (h : b.Laid) {n : ℕ} (hn : n≤b.w - b.r) :
    (b.consume n).Laid ∧ b.resident=b.resident.take n++(b.consume n).resident ∧
      (b.consume n).scanned - (b.consume n).r=0 := by
  have hr := h.read
  have hl : ReadBuffer.Laid {b with r:=b.r+n,scanned:=b.r+n} :=
    ⟨by dsimp only; omega,h.write,by dsimp only; omega,h.floor⟩
  have hs : b.resident=b.resident.take n++slice b.buf (b.r+n) b.w := by
    rw [← next_eq hn]
    exact (slice_append_slice b.buf (by omega) (by omega)).symm
  unfold consume resetScan
  dsimp only
  split_ifs
  · have hc := relaid_compact hl
    exact ⟨hc.laid,by rw [hc.resident]; exact hs,hc.scanned.trans (Nat.sub_self _)⟩
  · exact ⟨hl,hs,Nat.sub_self _⟩

theorem bufferUpdated_laid (h : b.Laid) {o : Bytes} (ho : o.length≤b.window.length) :
    (b.bufferUpdated o).Laid ∧ (b.bufferUpdated o).resident=b.resident++o ∧
      (b.bufferUpdated o).buf.length=b.buf.length := by
  obtain ⟨hr,hw,hs,hf⟩ := h
  rw [window,List.length_drop] at ho
  have ht : (b.buf.take b.w).length=b.w := by
    rw [List.length_take]
    omega
  have hl : (b.bufferUpdated o).buf.length=b.buf.length := by
    simp only [bufferUpdated,List.length_append,ht,List.length_drop]
    omega
  refine ⟨⟨hr.trans (Nat.le_add_right ..),?_,hs.trans (Nat.le_add_right ..),hl ▸ hf⟩,?_,hl⟩
  · rw [hl]
    simp only [bufferUpdated]
    omega
  · have ha : (b.buf.take b.w++o).length=b.w+o.length := by rw [List.length_append,ht]
    simp only [resident,bufferUpdated]
    rw [slice_of_append _ _ ha.ge (by omega),slice,List.take_of_length_le (by
      rw [List.length_drop]
      omega),List.drop_append_of_le_length (by omega),List.drop_take,slice]

theorem fifo_initial : Fifo {} := ⟨⟨le_rfl,Nat.zero_le _,le_rfl,by simp⟩,by simp [resident,slice]⟩

theorem Fifo.step {s : Traced} (h : Fifo s) (c : BufferCall) (hp : Permitted s c) :
    Fifo (bufferStep s c) := by
  have hre {t : ReadBuffer} (ht : Relaid s.buffer t) : Fifo {s with buffer:=t} :=
    ⟨ht.laid,by rw [ht.resident]; exact h.order⟩
  have hc {n : ℕ} (hn : n ≤ s.buffer.w - s.buffer.r) : Fifo {s with
      buffer:=s.buffer.consume n,consumed:=s.consumed++s.buffer.resident.take n} := by
    obtain ⟨hl,hr,-⟩ := consume_laid h.laid hn
    refine ⟨hl,?_⟩
    rw [h.order,List.append_assoc,← hr]
  cases c with
  | getBuffer w => exact hre (relaid_getBuffer h.laid w).1
  | bufferUpdated octets =>
    obtain ⟨hl,hr,-⟩ := bufferUpdated_laid h.laid hp.2
    exact ⟨hl,by rw [bufferStep,hr,h.order,List.append_assoc]⟩
  | findHeadEnd limit =>
    have hf {t : ℕ} (ht : t≤ s.buffer.w) (n : ℕ) : Fifo {s with
        buffer:={s.buffer with scanned:=t,examined:=n}} :=
      ⟨⟨h.laid.read,h.laid.write,ht,h.laid.floor⟩,h.order⟩
    simp only [bufferStep,ReadBuffer.findHeadEnd]
    split
    · exact hf le_rfl _
    · next i hi =>
      have hm := List.mem_range.mp (List.mem_of_mem_drop (List.mem_of_find?_eq_some hi))
      exact hf (hm.le.trans (List.length_take_le ..)) _
  | take n => exact hc hp
  | view n => exact h
  | consume n => exact hc hp
  | compact => exact hre (relaid_compact h.laid)
  | consumeBoundary => exact hre (relaid_consumeBoundary h.laid)
  | releaseToFloor => exact hre (relaid_releaseToFloor h.laid)

/-- Whatever is called, what was delivered is what was consumed and then what is resident, what is
viewed or taken next is the front of that, the cursors are in order and the next window is as large
as is asked for. -/
theorem read_buffer_fifo {calls : List BufferCall} (h : Along bufferStep Permitted {} calls) :
    let s := run bufferStep {} calls
    s.delivered=s.consumed++s.buffer.resident ∧
      (∀ n≤ s.buffer.w - s.buffer.r,s.buffer.next n=s.buffer.resident.take n ∧
        (s.buffer.take n).1=s.buffer.resident.take n) ∧
      (s.buffer.r≤ s.buffer.w ∧ s.buffer.w≤ s.buffer.buf.length ∧ s.buffer.scanned≤ s.buffer.w) ∧
      ∀ want,want≤(s.buffer.getBuffer want).window.length ∧
        (s.buffer.getBuffer want).window≠[] := by
  have hf := h.invariant (fun _ call hs hp => hs.step call hp) fifo_initial
  refine ⟨hf.order,fun _ hn => ⟨next_eq hn,next_eq hn⟩,
    ⟨hf.laid.read,hf.laid.write,hf.laid.scan⟩,fun want => ?_⟩
  have hw := (relaid_getBuffer hf.laid want).2
  exact ⟨(le_max_left ..).trans hw,List.ne_nil_of_length_pos
    (lt_of_lt_of_le (lt_max_of_lt_right (by decide)) hw)⟩

theorem read_buffer_fifo_taken :
    let s := run bufferStep {} [.getBuffer 0,.bufferUpdated (ascii "abc"),.take 1]
    s.consumed=ascii "a" ∧ s.buffer.resident=ascii "bc" ∧
      (s.buffer.take 1).1=s.buffer.resident.take 1 := by
  have h : Along bufferStep Permitted {} [.getBuffer 0,.bufferUpdated (ascii "abc"),.take 1] :=
    ⟨trivial,⟨rfl,by decide +kernel⟩,by change (_ : ℕ)≤_; decide +kernel,trivial⟩
  exact ⟨by decide +kernel,by decide +kernel,((read_buffer_fifo h).2.1 1 (by decide +kernel)).2⟩

theorem doubled_le (n nd : ℕ) : doubled n nd ≤ max n (2*nd) := by
  fun_induction doubled n nd with
  | case1 n hn ih => omega
  | case2 n hn => omega

theorem length_compact (h : b.Laid) : b.compact.buf.length=b.buf.length := by
  have := h.read.trans h.write
  unfold compact
  split_ifs
  · rfl
  · rfl
  · simp only [List.length_append,List.length_drop,List.length_replicate]
    omega

theorem length_grow (w : ℕ) : (b.grow w).buf.length ≤ max b.buf.length (2*(b.w+w)) := by
  have := doubled_le b.buf.length (b.w+w)
  simp only [grow,List.length_append,List.length_replicate]
  omega

/-- Growth starts from the write cursor, but where octets before it are consumed the allocation is
no larger than what is resident and asked for. -/
theorem length_makeRoom (h : b.Laid) (w : ℕ) :
    (b.makeRoom w).buf.length ≤ max b.buf.length (2*(b.w - b.r)+4*w) := by
  have hc := length_compact h
  have hw := h.write
  unfold makeRoom
  split_ifs with hr hf
  · omega
  · have hs : b.compact.w=b.w - b.r := by
      unfold compact
      split_ifs <;> simp_all
    have := length_grow (b:=b.compact) w
    omega
  · have := length_grow (b:=b) w
    omega

theorem length_step {s : Traced} (h : s.buffer.Laid) {c : BufferCall} (hp : Permitted s c) {d : ℕ}
    (hd : ∀ wt,c=.getBuffer wt → wt≤d) : (bufferStep s c).buffer.buf.length≤
      max s.buffer.buf.length (2*(s.buffer.w - s.buffer.r)+4*(d+minRead)) := by
  have hc (n : ℕ) (hn : n ≤ s.buffer.w - s.buffer.r) :
      (s.buffer.consume n).buf.length=s.buffer.buf.length := by
    have := h.read
    unfold consume resetScan
    dsimp only
    split_ifs
    · exact length_compact ⟨by dsimp only; omega,h.write,by dsimp only; omega,h.floor⟩
    · rfl
  cases c with
  | getBuffer w =>
    have hw := hd w rfl
    have hm := length_makeRoom h (max w minRead)
    simp only [bufferStep,getBuffer]
    split_ifs <;> omega
  | bufferUpdated octets => exact (bufferUpdated_laid h hp.2).2.2.trans_le (le_max_left ..)
  | findHeadEnd limit =>
    simp only [bufferStep,findHeadEnd]
    split <;> exact le_max_left ..
  | take n => exact (hc n hp).trans_le (le_max_left ..)
  | consume n => exact (hc n hp).trans_le (le_max_left ..)
  | compact => exact (length_compact h).trans_le (le_max_left ..)
  | releaseToFloor =>
    simp only [bufferStep,releaseToFloor]
    split_ifs
    · exact le_max_left ..
    · rw [List.length_replicate]
      exact h.floor.trans (le_max_left ..)
  | _ => exact le_max_left ..

/-- However much passes through the buffer, its allocation is bounded by the octets that were ever
resident and by what was ever asked for. -/
theorem capacity_bounded {calls : List BufferCall} {most demand : ℕ}
    (h : Along bufferStep Permitted {} calls)
    (hr : ∀ before∈calls.inits,(run bufferStep {} before).buffer.resident.length ≤ most)
    (hd : ∀ want,.getBuffer want∈calls → want≤demand) :
    (run bufferStep {} calls).buffer.buf.length≤2*most+4*demand+16384 := by
  induction calls using List.reverseRecOn with
  | nil => exact le_add_left (by decide +kernel)
  | append_singleton calls c ih =>
    obtain ⟨ha,hp,-⟩ := (along_append ..).mp h
    have hf := ha.invariant (fun _ call hs hp => hs.step call hp) fifo_initial
    simp only [List.mem_inits] at hr ih
    have hi := ih ha (fun before hb => hr before (hb.trans (List.prefix_append ..)))
      fun want hw => hd want (List.mem_append_left _ hw)
    have hm := hr calls (List.prefix_append ..)
    have hl := length_step hf.laid hp fun want hw => hd want (by simp [hw])
    rw [length_resident hf.laid] at hm
    rw [run_append,run_cons,run_nil]
    simp only [minRead] at hl
    omega

theorem capacity_bounded_delivered :
    let calls := [.getBuffer 100,.bufferUpdated (ascii "abc"),.take 2]
    (run bufferStep {} calls).buffer.buf.length≤2*3+4*100+16384 := by
  have h : Along bufferStep Permitted {} [.getBuffer 100,.bufferUpdated (ascii "abc"),.take 2] :=
    ⟨trivial,⟨rfl,by decide +kernel⟩,by change (_ : ℕ)≤_; decide +kernel,trivial⟩
  exact @capacity_bounded _ 3 100 h (by decide +kernel) (by simp)

end BlackBull.Inbound
