import BlackBull.BodyRecipient

/-!
# What the reads of a body can do

One lemma for each function of the recipient: the octets it takes from the
stream, the fields it leaves alone, and exactly how it can fail. Everything said
about bodies later is derived from these.
-/

namespace BlackBull.HTTP1Recipient

open ByteString

def Deadline (s : HTTP1Recipient) : Prop :=
  0<s.settings.bodyTimeout ∧ s.reader.patience≠none

/-- The time charged to the peer after `k` further timed reads. -/
def bodyWaitAfter (s : HTTP1Recipient) (k : ℕ) : ℚ :=
  if s.settings.minRate≠0 then s.bodyWait+(s.elapsed.take k).sum else s.bodyWait

/-- The octets of the current rate window are too few for the time charged to it. -/
def BelowRate (s : HTTP1Recipient) (bodyWait : ℚ) : Prop :=
  s.settings.minRate ≠ 0 ∧ s.settings.minRateGrace < bodyWait - s.rateWindowWait ∧
    (s.rateWindowSeen : ℚ) < s.settings.minRate * (bodyWait - s.rateWindowWait)

/-- However long the waits of the call take, the octets already counted satisfy the minimum
rate. -/
def KeepsRate (s : HTTP1Recipient) (waits : Waits) : Prop :=
  ∀ k,¬ (s.entering waits).BelowRate ((s.entering waits).bodyWaitAfter k)

/-- `t` is reached from `s` by timed reads alone. The chunk in progress is tracked
separately. -/
structure Reads (s t : HTTP1Recipient) : Prop where
  settings : t.settings=s.settings
  chunked : t.chunked=s.chunked
  contentLength : t.contentLength=s.contentLength
  done : t.done=s.done
  bodySeen : t.bodySeen=s.bodySeen
  rateWindowWait : t.rateWindowWait=s.rateWindowWait
  rateWindowSeen : t.rateWindowSeen=s.rateWindowSeen
  bodyRefused : t.bodyRefused=s.bodyRefused
  framingBroken : t.framingBroken=s.framingBroken
  deadline : t.Deadline → s.Deadline
  waits : ∃ j,∀ k,t.bodyWaitAfter k=s.bodyWaitAfter (j+k)

theorem Reads.refl (s : HTTP1Recipient) : Reads s s :=
  ⟨rfl,rfl,rfl,rfl,rfl,rfl,rfl,rfl,rfl,id,0,fun k => by rw [Nat.zero_add]⟩

variable {t u : HTTP1Recipient}

theorem Reads.trans {s : HTTP1Recipient} (h : Reads s t) (h' : Reads t u) : Reads s u := by
  obtain ⟨j,hj⟩ := h.waits
  obtain ⟨j',hj'⟩ := h'.waits
  exact ⟨h'.settings.trans h.settings,h'.chunked.trans h.chunked,
    h'.contentLength.trans h.contentLength,h'.done.trans h.done,
    h'.bodySeen.trans h.bodySeen,h'.rateWindowWait.trans h.rateWindowWait,
    h'.rateWindowSeen.trans h.rateWindowSeen,h'.bodyRefused.trans h.bodyRefused,
    h'.framingBroken.trans h.framingBroken,fun hd => h.deadline (h'.deadline hd),j+j',
    fun k => by rw [hj',hj,Nat.add_assoc]⟩

theorem BelowRate.of_reads {s : HTTP1Recipient} (h : Reads s t) {k : ℕ}
    (hl : t.BelowRate (t.bodyWaitAfter k)) : ∃ k,s.BelowRate (s.bodyWaitAfter k) := by
  obtain ⟨j,hj⟩ := h.waits
  refine ⟨j+k,?_⟩
  rw [← hj k]
  unfold BelowRate at *
  rwa [← h.settings,← h.rateWindowWait,← h.rateWindowSeen]

/-- A read of `s` fails: its deadline falls, or the stream ends too early for it. -/
def ReadFails (s : HTTP1Recipient) (short : Prop) (e : RecipientError) (t : HTTP1Recipient) :
    Prop :=
  (∃ error,e=.read error) ∧ (s.Deadline ∨ t.reader.stream=[] ∧ short) ∧
    t.bodyRefused=s.bodyRefused

theorem ReadFails.mono {s : HTTP1Recipient} {sh s' : Prop} {e : RecipientError}
    (h : ReadFails u sh e t) (hsu : Reads s u) (hi : sh → s') : ReadFails s s' e t :=
  ⟨h.1,h.2.1.imp hsu.deadline (And.imp_right hi),h.2.2.trans hsu.bodyRefused⟩

section TimedReads

variable (s : HTTP1Recipient) (rd : Reader)

@[simp] theorem stream_timedReader : s.timedReader.stream=s.reader.stream := by
  unfold timedReader
  split_ifs <;> rfl

theorem patience_timedReader : s.timedReader.patience≠none ↔ s.Deadline := by
  unfold timedReader Deadline
  split_ifs with h <;> simp [h]

theorem bodyRefused_afterRead : (s.afterRead rd).bodyRefused=s.bodyRefused := by
  unfold afterRead
  split_ifs <;> rfl

@[simp] theorem reader_afterRead : (s.afterRead rd).reader=rd := by
  unfold afterRead
  split_ifs <;> rfl

@[simp] theorem chunkRemaining_afterRead : (s.afterRead rd).chunkRemaining=s.chunkRemaining := by
  unfold afterRead
  split_ifs <;> rfl

theorem bodyWaitAfter_afterRead (k : ℕ) : (s.afterRead rd).bodyWaitAfter k =
      s.bodyWaitAfter ((if s.settings.minRate≠0 then 1 else 0)+k) := by
  unfold afterRead
  split_ifs with h
  · simp only [bodyWaitAfter,h,not_false_eq_true,↓reduceIte,ne_eq]
    cases s.elapsed with
    | nil => simp
    | cons w l => simp [Nat.add_comm 1 k,add_assoc]
  · simp [bodyWaitAfter,h]

theorem reads_afterRead (hp : rd.patience≠none → s.Deadline) : Reads s (s.afterRead rd) := by
  have hf : ∀ {α : Type} (f : HTTP1Recipient → α),
      (∀ r w l,f {s with reader:=r,bodyWait:=w,elapsed:=l} = f s) → f (s.afterRead rd)=f s := by
    intro α f hfi
    unfold afterRead
    split_ifs
    · exact hfi _ _ _
    · exact hfi rd s.bodyWait s.elapsed
  refine ⟨hf _ fun _ _ _ => rfl,hf _ fun _ _ _ => rfl,hf _ fun _ _ _ => rfl,
    hf _ fun _ _ _ => rfl,hf _ fun _ _ _ => rfl,hf _ fun _ _ _ => rfl,
    hf _ fun _ _ _ => rfl,hf _ fun _ _ _ => rfl,hf _ fun _ _ _ => rfl,?_,
    _,bodyWaitAfter_afterRead s rd⟩
  intro hd
  exact hp (by simpa using hd.2)

theorem readWithTimeout_ensures {op : ReaderM Bytes} {v : Bytes → Reader → Prop}
    {ra : ReadError → Reader → Prop} (h : Ensures op s.timedReader v ra) :
    Ensures (readWithTimeout op) s (fun out t => ∃ r,t=s.afterRead r ∧ v out r)
      (fun e t => ∃ error r,e=.read error ∧ t=s.afterRead r ∧ ra error r) := by
  unfold Ensures readWithTimeout
  cases hop : op s.timedReader with
  | ok out r => exact ⟨r,rfl,h.ok hop⟩
  | error e r => exact ⟨e,r,rfl,rfl,h.error hop⟩

theorem readWithTimeout_of_cutShort {op : ReaderM Bytes} {v : Bytes → Prop} {sh : Prop} (h : Ensures
    op s.timedReader (fun out r => s.timedReader.stream=out++r.stream ∧ v out ∧
    (s.timedReader.patience=none → r.patience=none)) (Reader.CutShort s.timedReader sh)) :
    Ensures (readWithTimeout op) s (fun out t => Reads s t ∧ t.chunkRemaining=s.chunkRemaining ∧
        s.reader.stream=out++t.reader.stream ∧ v out) (ReadFails s sh) := by
  refine (readWithTimeout_ensures s h).mono ?_ ?_
  · rintro out t ⟨r,rfl,hs,hv,hp⟩
    refine ⟨reads_afterRead s r fun hr => ?_,by simp,by simpa using hs,hv⟩
    exact (patience_timedReader s).mp (mt hp hr)
  · rintro e t ⟨error,r,rfl,rfl,hc⟩
    refine ⟨⟨error,rfl⟩,?_,bodyRefused_afterRead s r⟩
    cases error with
    | incompleteRead seen => exact .inr ⟨by simpa using hc.1,hc.2⟩
    | timeout => exact .inl ((patience_timedReader s).mp hc.2)

def IsLine (line : Bytes) : Prop := ∃ text,10∉text ∧ line=text++[10]

theorem timedReaduntil_ensures : Ensures (readWithTimeout (Reader.readuntil 10)) s
      (fun line t => Reads s t ∧ t.chunkRemaining=s.chunkRemaining ∧
        s.reader.stream=line++t.reader.stream ∧ IsLine line)
      (ReadFails s (10∉s.reader.stream)) := by
  have h := Reader.readuntil_ensures 10 s.timedReader
  rw [stream_timedReader] at h
  exact readWithTimeout_of_cutShort s (by rw [stream_timedReader]; exact h)

theorem timedReadexactly_ensures (n : ℕ) : Ensures (readWithTimeout (Reader.readexactly n)) s
      (fun out t => Reads s t ∧ t.chunkRemaining=s.chunkRemaining ∧
        s.reader.stream=out++t.reader.stream ∧ out.length=n)
      (ReadFails s (s.reader.stream.length<n)) := by
  have h := Reader.readexactly_ensures n s.timedReader
  rw [stream_timedReader] at h
  exact readWithTimeout_of_cutShort s (by rw [stream_timedReader]; exact h)

theorem timedRead_ensures (n : ℕ) (hn : 0<n) : Ensures (readWithTimeout (Reader.read n)) s
      (fun out t => Reads s t ∧ t.chunkRemaining=s.chunkRemaining ∧
        s.reader.stream=out++t.reader.stream ∧ out.length≤n ∧
        (out=[] → s.reader.stream=[])) (ReadFails s False) := by
  have h := Reader.read_ensures n hn s.timedReader
  rw [stream_timedReader] at h
  refine (readWithTimeout_ensures s h).mono ?_ ?_
  · rintro out t ⟨r,rfl,hs,hl,hni,hp⟩
    refine ⟨reads_afterRead s r fun hr => ?_,by simp,by simpa using hs,hl,hni⟩
    exact (patience_timedReader s).mp (mt hp hr)
  · rintro e t ⟨error,r,rfl,rfl,rfl,-,hp⟩
    exact ⟨⟨_,rfl⟩,.inl ((patience_timedReader s).mp hp),bodyRefused_afterRead s r⟩

end TimedReads

@[simp] theorem ensures_breakFraming {α : Type} (s : HTTP1Recipient) (d : String)
    {v : α → HTTP1Recipient → Prop} {r : RecipientError → HTTP1Recipient → Prop} :
    Ensures (breakFraming d) s v r ↔
      r (.httpException (badRequest d)) {s with framingBroken:=true} := Iff.rfl

/-- A function of the recipient rejects the framing of the body. -/
def Rejects (e : RecipientError) (t : HTTP1Recipient) : Prop :=
  (∃ exception,e=.httpException exception) ∧ t.framingBroken=true

theorem rejects_breakFraming (e : HTTPException) (s : HTTP1Recipient) :
    Rejects (.httpException e) {s with framingBroken:=true} :=
  ⟨⟨e,rfl⟩,rfl⟩

theorem readChunkLine_ensures (s : HTTP1Recipient) :
    Ensures readChunkLine s (fun line t => Reads s t ∧ t.chunkRemaining=s.chunkRemaining ∧
        s.reader.stream=line++t.reader.stream ∧ IsLine line ∧ line.length≤chunkLineMax)
      (fun e t => ReadFails s (10∉s.reader.stream) e t ∨
        Rejects e t ∧ ∃ line,IsLine line ∧ line <+: s.reader.stream ∧
          chunkLineMax<line.length) := by
  simp only [readChunkLine,ensures_bind,ensures_ite,ensures_breakFraming,ensures_pure]
  refine (timedReaduntil_ensures s).mono ?_ fun e t h => .inl h
  rintro line t ⟨hr,hre,hs,hl⟩
  refine ⟨fun hlo => .inr ⟨rejects_breakFraming _ t,line,hl,?_,hlo⟩,fun hsh => ?_⟩
  · rw [hs]
    exact List.prefix_append _ _
  · exact ⟨hr,hre,hs,hl,not_lt.mp hsh⟩

def sliceEnd (owed : ℕ) : Bytes := if owed=0 then crlf else []

theorem reads_chunkRemaining (s : HTTP1Recipient) (o : ℕ) : Reads s {s with chunkRemaining:=o} :=
  ⟨rfl,rfl,rfl,rfl,rfl,rfl,rfl,rfl,rfl,id,0,by simp [bodyWaitAfter]⟩

theorem readChunkSlice_ensures (s : HTTP1Recipient) : Ensures readChunkSlice s
      (fun d t => Reads s t ∧ d.length=min s.chunkRemaining s.settings.chunkSize ∧
        t.chunkRemaining = s.chunkRemaining - d.length ∧
        s.reader.stream=d++sliceEnd t.chunkRemaining++t.reader.stream) (fun e t =>
        ReadFails s (s.reader.stream.length < min s.chunkRemaining s.settings.chunkSize +
            (sliceEnd (s.chunkRemaining - s.settings.chunkSize)).length) e t ∨
        Rejects e t ∧ s.chunkRemaining ≤ s.settings.chunkSize ∧
          ∃ d tr,d.length=s.chunkRemaining ∧ tr.length=2 ∧ tr≠crlf ∧
            s.reader.stream=d++tr++t.reader.stream) := by
  simp only [readChunkSlice,ensures_bind,ensures_ite,ensures_modify,ensures_breakFraming,
    ensures_pure,ensures_get]
  refine (timedReadexactly_ensures s _).mono ?_ fun e t hf =>
    .inl (hf.mono (Reads.refl s) (by omega))
  rintro d t ⟨hr,hre,hs,hl⟩
  rw [hre]
  have hr' := hr.trans (reads_chunkRemaining t
    (s.chunkRemaining - min s.chunkRemaining s.settings.chunkSize))
  refine ⟨fun hz => ?_,fun hm => ⟨hr',hl,by rw [hl],?_⟩⟩
  · -- the slice ends its chunk
    have hle : s.chunkRemaining ≤ s.settings.chunkSize := by omega
    refine (timedReadexactly_ensures _ 2).mono ?_ ?_
    · rintro tr u ⟨hr'',hre'',hs'',hl''⟩
      have hst : s.reader.stream=d++tr++u.reader.stream := by
        rw [hs,List.append_assoc]
        exact congrArg _ hs''
      refine ⟨fun ht => .inr ⟨rejects_breakFraming _ u,hle,d,tr,by omega,hl'',
        ht,hst⟩,fun ht => ⟨hr'.trans hr'',hl,?_,?_⟩⟩
      · rw [hre'',hl]
      · rw [hre'',hz,sliceEnd,if_pos rfl,hst,not_not.mp ht]
    · intro e u hf
      refine .inl (hf.mono hr' fun hsh => ?_)
      have hsu := congrArg List.length hs
      rw [List.length_append] at hsu
      rw [sliceEnd,if_pos (by omega)]
      change t.reader.stream.length<2 at hsh
      change _<_+2
      omega
  · rw [sliceEnd,if_neg hm,List.append_nil]
    exact hs

theorem parseChunkSizeOr400_ensures (s : HTTP1Recipient) (l : Bytes) :
    Ensures (parseChunkSizeOr400 l) s (fun n t => t=s ∧ parseChunkSize l=.ok n)
      (fun e t => Rejects e t ∧ ∃ ex,parseChunkSize l=.error ex) := by
  unfold parseChunkSizeOr400
  cases h : parseChunkSize l with
  | ok n => exact ⟨rfl,rfl⟩
  | error ex =>
    simp only [ensures_bind,ensures_modify,ensures_throw]
    exact ⟨rejects_breakFraming _ s,ex,rfl⟩

/-- `t` is `s` once a chunk of `n` octets has passed both body limits. -/
structure Accounted (s : HTTP1Recipient) (n : ℕ) (t : HTTP1Recipient) : Prop where
  settings : t.settings=s.settings
  reader : t.reader=s.reader
  chunked : t.chunked=s.chunked
  contentLength : t.contentLength=s.contentLength
  chunkRemaining : t.chunkRemaining=s.chunkRemaining
  done : t.done=s.done
  bodySeen : t.bodySeen=s.bodySeen+n
  bodyRefused : t.bodyRefused=s.bodyRefused
  framingBroken : t.framingBroken=s.framingBroken
  capped : s.settings.maxBody≠0 → t.bodySeen ≤ s.settings.maxBody

/-- A chunk of `n` octets is refused: the body outgrows the cap, or comes too slowly. -/
def Refuses (s : HTTP1Recipient) (n : ℕ) (e : RecipientError) (t : HTTP1Recipient) : Prop :=
  t.bodyRefused=true ∧ t.done=true ∧
    ((∃ exception,e=.httpException exception) ∧ s.settings.maxBody≠0 ∧
        s.settings.maxBody<s.bodySeen+n ∨
      e=.clientDisconnected ∧ ∃ k,s.BelowRate (s.bodyWaitAfter k))

theorem Refuses.of_reads {s : HTTP1Recipient} {n : ℕ} {e : RecipientError} (h : Refuses u n e t)
    (hsu : Reads s u) : Refuses s n e t := by
  refine ⟨h.1,h.2.1,h.2.2.imp ?_ ?_⟩
  · rintro ⟨he,hc⟩
    rw [← hsu.settings,← hsu.bodySeen]
    exact ⟨he,hc⟩
  · rintro ⟨he,k,hl⟩
    exact ⟨he,hl.of_reads hsu⟩

theorem account_ensures (s : HTTP1Recipient) (c : Bytes) :
    Ensures (account c) s (fun out t => out=c ∧ Accounted s c.length t) (Refuses s c.length) := by
  simp only [account,ensures_bind,ensures_ite,ensures_modify,ensures_throw,ensures_pure,ensures_get]
  refine ⟨fun hc => ⟨rfl,rfl,.inl ⟨⟨_,rfl⟩,hc⟩⟩,fun hc => ⟨fun hr => ⟨fun hg =>
    ⟨fun hs => ⟨rfl,rfl,.inr ⟨rfl,0,?_⟩⟩,fun _ => ?_⟩,fun _ => ?_⟩,fun _ => ?_⟩⟩
  · have hw : s.bodyWaitAfter 0=s.bodyWait := by simp [bodyWaitAfter]
    rw [hw]
    refine ⟨hr,hg,lt_of_le_of_lt ?_ hs⟩
    exact_mod_cast Nat.le_add_right _ _
  all_goals exact ⟨trivial,rfl,rfl,rfl,rfl,rfl,rfl,rfl,rfl,rfl,
    fun hm => not_lt.mp fun hlt => hc ⟨hm,hlt⟩⟩

theorem IsLine.trailer {l : Bytes} (hl : IsLine l) (he : endsWith l crlf=true)
    (hne : l≠crlf) : ∃ text,lineGrammar.trailer text ∧ l=text++crlf := by
  obtain ⟨text,ht,rfl⟩ := hl
  obtain ⟨f,hf⟩ := List.isSuffixOf_iff_suffix.mp he
  have hcr : f++[13]=text := by
    have hlf : f++[13]++[10]=text++[10] := by
      rw [← hf]
      simp [crlf]
    exact List.append_cancel_right hlf
  refine ⟨f,⟨fun hm => ht (hcr ▸ List.mem_append_left _ hm),?_⟩,hf.symm⟩
  rintro rfl
  exact hne (by simpa using hf.symm)

theorem readTrailers_ensures (k : ℕ) (s : HTTP1Recipient) :
    Ensures (readTrailers k) s (fun _ t => Reads s t ∧ t.chunkRemaining=s.chunkRemaining ∧
        ∃ wire,TrailerSection lineGrammar wire ∧ s.reader.stream=wire++t.reader.stream)
      (fun e t => ReadFails s True e t ∨ Rejects e t ∨
        e=.outOfFuel ∧ k ≤ s.reader.stream.length) := by
  induction k generalizing s with
  | zero => exact .inr (.inr ⟨rfl,Nat.zero_le _⟩)
  | succ k ih =>
    simp only [readTrailers,ensures_bind,ensures_ite,ensures_breakFraming,ensures_pure]
    refine (readChunkLine_ensures s).mono ?_ ?_
    · rintro line t ⟨hr,hre,hs,hl,-⟩
      refine ⟨fun hd => ?_,fun hne => ⟨fun _ => ?_,fun he => ⟨fun _ => ?_,fun _ => ?_⟩⟩⟩
      · exact ⟨hr,hre,crlf,.done,by rw [hs,hd]⟩
      · exact .inr (.inl (rejects_breakFraming _ t))
      · exact .inr (.inl (rejects_breakFraming _ t))
      · obtain ⟨text,ht,rfl⟩ := hl.trailer (by simpa using he) hne
        refine (ih t).mono ?_ ?_
        · rintro _ u ⟨hr',hre',wire,hw,hs'⟩
          refine ⟨hr.trans hr',hre'.trans hre,_,.field ht hw,?_⟩
          rw [hs,hs']
          simp only [List.append_assoc]
        · rintro e u (hf | hrej | ⟨rfl,hfu⟩)
          · exact .inl (hf.mono hr id)
          · exact .inr (.inl hrej)
          · have hsu := congrArg List.length hs
            simp only [List.length_append,crlf,List.length_cons] at hsu
            exact .inr (.inr ⟨rfl,by omega⟩)
    · rintro e t (hf | hrej)
      · exact .inl (hf.mono (Reads.refl s) fun _ => trivial)
      · exact .inr (.inl hrej.1)

end BlackBull.HTTP1Recipient
