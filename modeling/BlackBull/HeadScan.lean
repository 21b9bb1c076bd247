import BlackBull.BufferLayout

/-!
# The search for the end of a head

`find_head_end` resumes three octets before where it stopped. It answers what a search of all that
is resident answers, and until something is found or consumed it looks at every octet once, those
three apart.
-/

namespace BlackBull.Inbound

open ByteString ReadBuffer
open Connection (findFrom)

/-- No head ends in what has been scanned. -/
def Cleared (b : ReadBuffer) : Prop :=
  ∀ i,i+3 < b.scanned - b.r → startsWith (b.resident.drop i) (crlf++crlf)=false

/-- Nothing is consumed, and a search finds nothing. -/
def Searching (s : Traced) : BufferCall → Prop
  | .take _ | .consume _ => False
  | .findHeadEnd _ => findFrom (crlf++crlf) 0 s.buffer.resident=none
  | _ => True

def searches (calls : List BufferCall) : ℕ :=
  calls.countP fun call => call matches .findHeadEnd _

variable {b t : ReadBuffer} {s : Traced} {p d : Bytes}

theorem findFrom_resumed {k : ℕ} (h : ∀ i<k,startsWith (d.drop i) p=false) :
    findFrom p k d=findFrom p 0 d := by
  have hn : ((List.range d.length).take k).find? (fun i => startsWith (d.drop i) p)=none := by
    simp only [List.find?_eq_none,List.take_range,List.mem_range]
    intro i hi
    simp [h i (by omega)]
  unfold findFrom
  conv_rhs => rw [List.drop_zero,← List.take_append_drop k (List.range d.length),
    List.find?_append,hn,Option.none_or]

theorem findFrom_drop (p : Bytes) (n k : ℕ) (d : Bytes) :
    findFrom p (n+k) d=(findFrom p k (d.drop n)).map (·+n) := by
  have hr : (List.range d.length).drop n=(List.range (d.length - n)).map (·+n) := by
    rw [List.range_eq_range',List.drop_range']
    simp [List.range'_eq_map_range,Nat.add_comm]
  unfold findFrom
  rw [List.length_drop,← List.drop_drop,hr,← List.map_drop,List.find?_map]
  simp [Nat.add_comm]

/-- Nothing stands before what is found. -/
theorem findFrom_clears {i : ℕ} (hi : i < (findFrom p 0 d).getD d.length) :
    startsWith (d.drop i) p=false := by
  rw [findFrom,List.drop_zero] at hi
  cases hf : (List.range d.length).find? fun i => startsWith (d.drop i) p with
  | none =>
    rw [hf] at hi
    simpa using List.find?_range_eq_none.mp hf i hi
  | some k =>
    rw [hf] at hi
    simpa using (List.find?_range_eq_some.mp hf).2.2 i hi

theorem findHeadEnd_resumed (hc : Cleared b) :
    findFrom (crlf++crlf) (max b.r (b.scanned - 3)) (b.buf.take b.w)=
      (findFrom (crlf++crlf) 0 b.resident).map (·+b.r) := by
  have hr : b.resident=(b.buf.take b.w).drop b.r := by rw [resident,slice,List.drop_take]
  have hm : max b.r (b.scanned - 3)=b.r + (b.scanned - b.r - 3) := by omega
  rw [hm,findFrom_drop,← hr,findFrom_resumed fun i hi => hc i (by omega)]

theorem findHeadEnd_eq (h : b.Laid) (hc : Cleared b) (lim : ℕ) :
    (b.findHeadEnd lim).2=(Connection.findHeadEnd {resident:=b.resident} lim).2 := by
  unfold findHeadEnd Connection.findHeadEnd
  dsimp only
  rw [findHeadEnd_resumed hc,length_resident h,Nat.zero_sub]
  cases findFrom (crlf++crlf) 0 b.resident with
  | none => rfl
  | some i =>
    have he : i+b.r+4 - b.r=i+4 := by omega
    simp only [Option.map_some,he]

/-- What a search looks at: what is not cleared and three octets. -/
theorem examined_findHeadEnd (h : b.Laid) (lim : ℕ) :
    (b.findHeadEnd lim).1.examined + (b.scanned - b.r)≤b.examined+b.resident.length+3 := by
  have he : (b.findHeadEnd lim).1.examined=b.examined + (b.w - max b.r (b.scanned - 3)) := by
    unfold findHeadEnd
    dsimp only
    split <;> rfl
  have := h.read
  have := h.scan
  rw [he,length_resident h]
  omega

theorem Cleared.relaid (h : Cleared b) (ht : Relaid b t) : Cleared t := by
  intro i hi
  rw [ht.resident]
  exact h i (ht.scanned ▸ hi)

theorem scanned_findHeadEnd (h : b.Laid) (hc : Cleared b) (lim : ℕ) :
    (b.findHeadEnd lim).1.scanned - (b.findHeadEnd lim).1.r=
      (findFrom (crlf++crlf) 0 b.resident).getD b.resident.length := by
  unfold ReadBuffer.findHeadEnd
  dsimp only
  rw [findHeadEnd_resumed hc,length_resident h]
  cases findFrom (crlf++crlf) 0 b.resident with
  | none => rfl
  | some i => exact Nat.add_sub_cancel ..

theorem Cleared.findHeadEnd (h : b.Laid) (hc : Cleared b) (lim : ℕ) :
    Cleared (b.findHeadEnd lim).1 := by
  have he : (b.findHeadEnd lim).1.resident=b.resident := by
    unfold ReadBuffer.findHeadEnd
    dsimp only
    split <;> rfl
  intro i hi
  rw [scanned_findHeadEnd h hc] at hi
  rw [he]
  exact findFrom_clears (by omega)

theorem Cleared.step (h : Fifo s) (hc : Cleared s.buffer) (c : BufferCall) (hp : Permitted s c) :
    Cleared (bufferStep s c).buffer := by
  have hn {n : ℕ} (hn : n ≤ s.buffer.w - s.buffer.r) : Cleared (s.buffer.consume n) :=
    fun i hi => by rw [(consume_laid h.laid hn).2.2] at hi; omega
  cases c with
  | getBuffer w => exact hc.relaid (relaid_getBuffer h.laid w).1
  | bufferUpdated octets =>
    intro i hi
    have hl : i+3 < s.buffer.resident.length := by
      have := h.laid.scan
      rw [length_resident h.laid]
      exact hi.trans_le (Nat.sub_le_sub_right this _)
    change startsWith (List.drop i (s.buffer.bufferUpdated octets).resident) _=false
    rw [(bufferUpdated_laid h.laid hp.2).2.1,List.drop_append_of_le_length (by omega),
      ← Bool.not_eq_true,startsWith,List.isPrefixOf_iff_prefix,
      List.isPrefix_append_of_length (by rw [List.length_drop]; change 4≤_; omega),
      ← List.isPrefixOf_iff_prefix,Bool.not_eq_true]
    exact hc i hi
  | findHeadEnd limit => exact hc.findHeadEnd h.laid limit
  | take n => exact hn hp
  | view n => exact hc
  | consume n => exact hn hp
  | compact => exact hc.relaid (relaid_compact h.laid)
  | consumeBoundary => exact hc.relaid (relaid_consumeBoundary h.laid)
  | releaseToFloor => exact hc.relaid (relaid_releaseToFloor h.laid)

/-- Octets are looked at again for the three of each search only. -/
theorem examined_step (h : s.buffer.Laid) (hc : Cleared s.buffer) (c : BufferCall)
    (hs : Searching s c) :
    (bufferStep s c).buffer.examined + (s.buffer.scanned - s.buffer.r)≤ s.buffer.examined +
      ((bufferStep s c).buffer.scanned - (bufferStep s c).buffer.r)+3*searches [c] := by
  have hr {t : ReadBuffer} (ht : Relaid s.buffer t) : t.examined + (s.buffer.scanned - s.buffer.r)≤
      s.buffer.examined + (t.scanned - t.r) := by rw [ht.examined,ht.scanned]
  cases c with
  | getBuffer w => exact hr (relaid_getBuffer h w).1
  | bufferUpdated octets => exact le_rfl
  | findHeadEnd limit =>
    have he := scanned_findHeadEnd h hc limit
    rw [hs] at he
    change (s.buffer.findHeadEnd limit).1.examined+_≤ s.buffer.examined +
      ((s.buffer.findHeadEnd limit).1.scanned - (s.buffer.findHeadEnd limit).1.r)+3
    rw [he]
    exact examined_findHeadEnd h limit
  | take n => exact hs.elim
  | view n => exact le_rfl
  | consume n => exact hs.elim
  | compact => exact hr (relaid_compact h)
  | consumeBoundary => exact hr (relaid_consumeBoundary h)
  | releaseToFloor => exact hr (relaid_releaseToFloor h)

theorem examined_run {cl : List BufferCall} (h : Fifo s) (hc : Cleared s.buffer)
    (hp : Along bufferStep Permitted s cl) (hs : Along bufferStep Searching s cl) :
    let t := (run bufferStep s cl).buffer
    t.examined + (s.buffer.scanned - s.buffer.r)≤
      s.buffer.examined + (t.scanned - t.r)+3*searches cl := by
  induction cl generalizing s with
  | nil => exact le_rfl
  | cons c cl ih =>
    have hi := ih (h.step c hp.1) (hc.step h c hp.1) hp.2 hs.2
    have hx := examined_step h.laid hc c hs.1
    have hn : searches (c::cl)=searches [c]+searches cl :=
      (List.countP_append : searches ([c]++cl)=_)
    simp only [run_cons] at hi ⊢
    omega

/-- After any calls the answer is that of a connection with nothing scanned yet. What was looked at
since any earlier moment, if nothing was consumed or found in between, is at most what is resident
and three octets for each search. -/
theorem head_scan_resumed {calls : List BufferCall} (h : Along bufferStep Permitted {} calls)
    (limit : ℕ) :
    let b := (run bufferStep {} calls).buffer
    (b.findHeadEnd limit).2=(Connection.findHeadEnd {resident:=b.resident} limit).2 ∧
      ∀ before during,calls=before++during →
        Along bufferStep Searching (run bufferStep {} before) during →
        (b.findHeadEnd limit).1.examined≤(run bufferStep {} before).buffer.examined +
          b.resident.length+3*(searches during+1) := by
  let inv (s : Traced) := Fifo s ∧ Cleared s.buffer
  have hi (calls : List BufferCall) (h : Along bufferStep Permitted {} calls) :
      inv (run bufferStep {} calls) :=
    h.invariant (fun _ c hs hp => ⟨hs.1.step c hp,hs.2.step hs.1 c hp⟩)
      ⟨fifo_initial,fun _ hi => absurd hi (Nat.not_lt_zero _)⟩
  obtain ⟨hf,hc⟩ := hi calls h
  refine ⟨findHeadEnd_eq hf.laid hc limit,?_⟩
  rintro before during rfl hs
  obtain ⟨hb,hd⟩ := (along_append ..).mp h
  obtain ⟨hfb,hcb⟩ := hi before hb
  have hx := examined_run hfb hcb hd hs
  have he := examined_findHeadEnd hf.laid limit
  rw [run_append] at he ⊢
  dsimp only at hx ⊢
  omega

theorem head_scan_resumed_once :
    let b := (run bufferStep {} [.getBuffer 0,.bufferUpdated (ascii "a\r\n"),.findHeadEnd 0]).buffer
    (b.findHeadEnd 0).2=(Connection.findHeadEnd {resident:=b.resident} 0).2 ∧
      (b.findHeadEnd 0).1.examined≤9 := by
  have h : Along bufferStep Permitted {}
      [.getBuffer 0,.bufferUpdated (ascii "a\r\n"),.findHeadEnd 0] :=
    ⟨trivial,⟨rfl,by decide +kernel⟩,trivial,trivial⟩
  have hr := head_scan_resumed h 0
  have hs : Along bufferStep Searching {}
      [.getBuffer 0,.bufferUpdated (ascii "a\r\n"),.findHeadEnd 0] :=
    ⟨trivial,trivial,by change (_ : Option ℕ)=none; decide +kernel,trivial⟩
  exact ⟨hr.1,(hr.2 [] _ rfl hs).trans (by decide +kernel)⟩

/-- A search that consumption starts again: fourteen octets have been looked at in two searches when
a head of four is found. -/
theorem consumed_search_repeats :
    let b := (run bufferStep {} [.getBuffer 0,.bufferUpdated (ascii "aaaaaaaaaa"),.findHeadEnd 0,
      .consume 10,.getBuffer 0,.bufferUpdated (crlf++crlf)]).buffer
    ((b.findHeadEnd 0).2 matches .found 4)=true ∧ (b.findHeadEnd 0).1.examined=14 ∧
      b.resident.length+3*2=10 := by
  decide +kernel

end BlackBull.Inbound
