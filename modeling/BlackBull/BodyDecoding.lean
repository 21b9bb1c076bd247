import BlackBull.BodyBoundary
import BlackBull.TransitionRuns

/-!
# Decoding a well-formed request body

Whatever the segmentation and the slice sizes, the calls of a recipient bound to a well-formed body
return exactly its octets, then say for ever that it is complete, and leave the reader at the first
octet after the message.
-/

namespace BlackBull.HTTP1Recipient

open ByteString

/-- The coded bodies a recipient takes: well-formed chunk extensions, trailer lines that name
no prohibited field, and no line over the limit. -/
def requestGrammar : ChunkedGrammar where
  extension size ext := Extensions noSemicolon ext ∧ size.length+ext.length+2≤chunkLineMax
  trailer line := 10∉line ∧ line≠[] ∧ line.length+2≤chunkLineMax ∧
    trailerName (line++crlf)∉prohibitedTrailerFields
  extension_oneLine h := h.1.ne_lf
  extension_start h := h.1.start
  trailer_oneLine h := h.1
  trailer_ne_nil h := h.2.1

/-- A body and the octets that carry it in a framing. -/
def Carries : Framing → Bytes → Bytes → Prop
  | .chunked,body,wire => ChunkedBody requestGrammar body wire
  | .sized n,body,wire => wire=body ∧ body.length=n
  | .empty,body,wire => wire=[] ∧ body=[]

/-- The recipient has still to deliver `body`, after which `rest` follows on the stream. -/
inductive Owes (s : HTTP1Recipient) : Bytes → Bytes → Prop
  | finished {rest : Bytes} (hdone : s.done=true) (hstream : s.reader.stream=rest) :
      Owes s [] rest
  | sized {body rest : Bytes} (hdone : s.done=false) (hchunked : s.chunked=false)
      (howed : s.contentLength.getD 0=body.length) (hstream : s.reader.stream=body++rest) :
      Owes s body rest
  | betweenChunks {body wire rest : Bytes} (hdone : s.done=false) (hchunked : s.chunked=true)
      (howed : s.chunkRemaining=0) (hwire : ChunkedBody requestGrammar body wire)
      (hstream : s.reader.stream=wire++rest) : Owes s body rest
  | insideChunk {data body wire rest : Bytes} (hdone : s.done=false)
      (hchunked : s.chunked=true) (howed : s.chunkRemaining=data.length) (hdata : data≠[])
      (hwire : ChunkedBody requestGrammar body wire)
      (hstream : s.reader.stream=data++crlf++wire++rest) : Owes s (data++body) rest

/-- The limits leave room for what is still to come. -/
structure Unlimited (s : HTTP1Recipient) (body : Bytes) : Prop where
  chunkSize : 0<s.settings.chunkSize
  chunkMax : 0<s.settings.chunkMax
  maxBody : s.settings.maxBody=0 ∨ s.bodySeen+body.length ≤ s.settings.maxBody

/-- Neither the deadline nor the rate check can end the current call. -/
structure Unhurried (s : HTTP1Recipient) : Prop where
  deadline : ¬ s.Deadline
  rate : ∀ k,¬ s.BelowRate (s.bodyWaitAfter k)

/-- One call delivers a piece of the body, or nothing because nothing is left. -/
def Delivers (body rest : Bytes) (out : Option Bytes) (t : HTTP1Recipient) : Prop :=
  match out with
  | none => body=[] ∧ t.done=true ∧ Owes t [] rest
  | some chunk => chunk≠[] ∧
      ∃ later,body=chunk++later ∧ Owes t later rest ∧ Unlimited t later ∧
        (t.done=true ↔ later=[] ∧ t.chunked=false)

section Calls

variable {s : HTTP1Recipient} {b w rs : Bytes}

variable {t : HTTP1Recipient}

theorem Unhurried.of_reads (h : Unhurried s) (hr : Reads s t) : Unhurried t := by
  refine ⟨fun hd => h.deadline (hr.deadline hd),fun k hl => ?_⟩
  obtain ⟨j,hj⟩ := hl.of_reads hr
  exact h.rate j hj

theorem Unhurried.not_readFails (h : Unhurried s) {sh : Prop} (hsh : ¬ sh)
    {e : RecipientError} : ¬ ReadFails s sh e t := by
  rintro ⟨-,hd | ⟨-,hs⟩⟩
  · exact h.deadline hd
  · exact hsh hs

theorem Unlimited.of_reads (h : Unlimited s b) (hr : Reads s t) : Unlimited t b :=
  ⟨hr.settings ▸ h.chunkSize,hr.settings ▸ h.chunkMax,
    hr.settings ▸ hr.bodySeen ▸ h.maxBody⟩

theorem account_passes {c : Bytes} (hl : Unlimited s (c++b)) (hc : Unhurried s) :
    Succeeds (account c) s fun out t => out=c ∧ Accounted s c.length t ∧ Unlimited t b := by
  refine (account_ensures s c).mono ?_ ?_
  · rintro out t ⟨rfl,ha⟩
    refine ⟨rfl,ha,ha.settings ▸ hl.chunkSize,ha.settings ▸ hl.chunkMax,?_⟩
    have hm := hl.maxBody
    rw [List.length_append] at hm
    rw [ha.settings,ha.bodySeen]
    omega
  · rintro e t ⟨-,-,⟨-,hne,ho⟩ | ⟨-,k,hlo⟩⟩
    · have hm := hl.maxBody
      rw [List.length_append] at hm
      omega
    · exact hc.rate k hlo

theorem readChunkLine_reads {ln : Bytes} (hc : Unhurried s) (hl : IsLine ln)
    (hsh : ln.length≤chunkLineMax) (hst : s.reader.stream=ln++rs) :
    Succeeds readChunkLine s fun out t => out=ln ∧ Reads s t ∧ t.chunkRemaining=s.chunkRemaining ∧
        t.reader.stream=rs := by
  have hu : ∀ l r,IsLine l → s.reader.stream=l++r → l=ln ∧ r=rs := by
    rintro l r ⟨tx,ht',rfl⟩ hs
    obtain ⟨text,ht,rfl⟩ := hl
    rw [hs] at hst
    obtain ⟨rfl,rfl⟩ := append_sep_inj ht' ht (by simpa using hst)
    exact ⟨rfl,rfl⟩
  refine (readChunkLine_ensures s).mono ?_ ?_
  · rintro out t ⟨hr,hre,hs,ho,-⟩
    obtain ⟨rfl,hres⟩ := hu out _ ho hs
    exact ⟨rfl,hr,hre,hres⟩
  · rintro e t (hf | ⟨-,l,hl',⟨r,hs⟩,hlo⟩)
    · obtain ⟨text,-,rfl⟩ := hl
      exact hc.not_readFails (by simp [hst]) hf
    · obtain ⟨rfl,-⟩ := hu l r hl' hs.symm
      omega

theorem readSizeLine_reads {ln : Bytes} {n : ℕ} (hc : Unhurried s)
    (hl : SizeLine requestGrammar n ln) (hst : s.reader.stream=ln++rs) :
    Succeeds readChunkLine s fun out t => Succeeds (parseChunkSizeOr400 out) t
      fun k u => k=n ∧ Reads s u ∧ u.reader.stream=rs := by
  have hi := hl.exists_line
  obtain ⟨size,ext,hsi,he,hsh⟩ := hl
  have hp := parseChunkSize_accepts hsi he.taken
  refine (readChunkLine_reads hc hi ?_ hst).imp ?_
  · rw [List.length_append,List.length_append]
    exact hsh
  · rintro out t ⟨rfl,hr,-,hs⟩
    refine (parseChunkSizeOr400_ensures t _).mono ?_ ?_
    · rintro k u ⟨rfl,hk⟩
      cases hp.symm.trans hk
      exact ⟨rfl,hr,hs⟩
    · rintro e u ⟨-,ex,hk⟩
      cases hp.symm.trans hk

theorem readTrailers_reads {tr : Bytes} (ht : TrailerSection requestGrammar tr)
    (hc : Unhurried s) (hst : s.reader.stream=tr++rs) (k : ℕ) (hf : tr.length<k) :
    Succeeds (readTrailers k) s fun _ t => Reads s t ∧ t.reader.stream=rs := by
  induction ht generalizing s k with
  | done =>
    obtain ⟨k,rfl⟩ : ∃ n,k = n + 1 := ⟨k - 1,by omega⟩
    simp only [readTrailers,ensures_bind,ensures_ite,ensures_pure,ensures_breakFraming]
    have hl : IsLine crlf := ⟨[13],by decide,rfl⟩
    refine (readChunkLine_reads hc hl (by decide) hst).imp ?_
    rintro line t ⟨rfl,hr,-,hs⟩
    exact ⟨fun _ => ⟨hr,hs⟩,fun hne => absurd rfl hne⟩
  | @field line l hfi _ ih =>
    obtain ⟨k,rfl⟩ : ∃ n,k = n + 1 := ⟨k - 1,by omega⟩
    obtain ⟨hlf,hne,hsh,ha⟩ := hfi
    simp only [readTrailers,ensures_bind,ensures_ite,ensures_pure,ensures_breakFraming]
    have hl : IsLine (line++crlf) := ⟨line++[13],by simp [hlf],by simp [crlf]⟩
    have he : endsWith (line++crlf) crlf=true :=
      List.isSuffixOf_iff_suffix.mpr (List.suffix_append _ _)
    refine (readChunkLine_reads hc hl (by simpa [crlf] using hsh)
      (by rw [hst]; exact List.append_assoc ..)).imp ?_
    rintro out t ⟨rfl,hr,-,hs⟩
    refine ⟨fun hem => ?_,fun _ => ⟨fun hb => ?_,fun _ => ⟨fun hb => ?_,fun _ => ?_⟩⟩⟩
    · exact absurd (by simpa using hem) hne
    · simp [he] at hb
    · exact ha hb
    · refine (ih (hc.of_reads hr) hs k ?_).imp ?_
      · have hp := List.length_pos_of_ne_nil hne
        simp only [List.length_append] at hf
        omega
      · rintro _ u ⟨hr',hs'⟩
        exact ⟨hr.trans hr',hs'⟩

theorem slice_delivers {d : Bytes} (hc : Unhurried s) (hl : Unlimited s (d++b)) (hd :
    s.done=false) (hch : s.chunked=true) (ho : s.chunkRemaining=d.length) (hda : d≠[])
    (hw : ChunkedBody requestGrammar b w) (hst : s.reader.stream=d++crlf++w ++ rs) :
    Succeeds (some <$> (readChunkSlice >>= account)) s (Delivers (d++b) rs) := by
  have hsi := hl.chunkSize
  have hp := List.length_pos_of_ne_nil hda
  have hlen : s.reader.stream.length=d.length+2+w.length+rs.length := by
    rw [hst]
    simp only [List.length_append]
    rfl
  simp only [ensures_map,ensures_bind]
  refine (readChunkSlice_ensures s).mono ?_ ?_
  · rintro sl t ⟨hr,hsl,hre,hs⟩
    -- the slice is the front of the data, and the whole of it when its chunk ends
    rw [ho] at hsl hre
    have hf : sl=d.take sl.length := by
      have ht := congrArg (List.take sl.length) (hs.symm.trans hst)
      simpa [List.take_append,show sl.length - d.length = 0 by omega] using ht
    obtain ⟨l,hla⟩ : ∃ l,d=sl++l :=
      ⟨d.drop sl.length,by
        nth_rewrite 1 [← List.take_append_drop sl.length d]
        rw [← hf]⟩
    have hne : sl≠[] := by
      rintro rfl
      simp at hsl
      omega
    have hc' := hc.of_reads hr
    have hl' : Unlimited t (sl++(l++b)) := by simpa [hla] using hl.of_reads hr
    refine (account_passes hl' hc').imp ?_
    rintro out u ⟨rfl,ha,hl''⟩
    have hd' : u.done=false := ha.done.trans (hr.done.trans hd)
    have hch' : u.chunked=true := ha.chunked.trans (hr.chunked.trans hch)
    have hr' : t.chunkRemaining=l.length := by
      rw [hre,hla]
      simp
    have hs' : sliceEnd l.length++u.reader.stream=l++crlf++w++rs := by
      rw [hst,hla,hr'] at hs
      rw [ha.reader]
      simpa using hs.symm
    refine ⟨hne,l++b,by simp [hla],?_,hl'',by simp [hd',hch']⟩
    by_cases hm : l=[]
    · subst hm
      refine .betweenChunks hd' hch' (ha.chunkRemaining.trans hr') hw ?_
      simpa [sliceEnd] using hs'
    · refine .insideChunk hd' hch' (ha.chunkRemaining.trans hr') hm hw ?_
      simpa [sliceEnd,hm] using hs'
  · rintro e t (hfa | ⟨-,hle,f,tr,hf,hte,hb,hs⟩)
    · refine hc.not_readFails ?_ hfa
      have he : (sliceEnd (s.chunkRemaining - s.settings.chunkSize)).length ≤ 2 := by
        unfold sliceEnd
        split_ifs <;> simp [crlf]
      omega
    · rw [hst,List.append_assoc,List.append_assoc,List.append_assoc] at hs
      obtain ⟨-,hta⟩ := List.append_inj hs (by omega)
      exact hb (List.append_inj hta (by rw [hte]; rfl)).1.symm

theorem nextChunked_delivers (hca : Unhurried s) (hl : Unlimited s b)
    (ho : Owes s b rs) (hdo : s.done=false) (hch : s.chunked=true) :
    Succeeds nextChunked s (Delivers b rs) := by
  simp only [nextChunked,ensures_bind,ensures_get,ensures_ite]
  cases ho with
  | finished hd => exact absurd (hdo.symm.trans hd) (by decide)
  | sized _ hc => exact absurd (hch.symm.trans hc) (by decide)
  | @insideChunk d b w _ _ _ how hda hw hst =>
    have hp := List.length_pos_of_ne_nil hda
    refine ⟨fun _ => ?_,fun hz => absurd (not_not.mp hz) (by omega)⟩
    exact slice_delivers hca hl hdo hch how hda hw hst
  | @betweenChunks _ w _ _ _ how hw hst =>
    refine ⟨fun h => absurd how h,fun _ => ?_⟩
    cases hw with
    | @last line tr hli ht =>
      refine (readSizeLine_reads hca hli (by simpa using hst)).imp fun _ _ h => h.imp ?_
      rintro n u ⟨rfl,hr,hs⟩
      refine ⟨fun _ => ?_,fun h => absurd rfl h⟩
      refine (readTrailers_reads ht (hca.of_reads hr) hs _ ?_).imp ?_
      · rw [hs,List.length_append]
        omega
      · rintro - v ⟨hr',hs'⟩
        exact ⟨rfl,rfl,.finished rfl hs'⟩
    | @chunk line d b w hli hda hw =>
      refine (readSizeLine_reads hca hli (by simpa using hst)).imp fun _ _ h => h.imp ?_
      rintro n u ⟨rfl,hr,hs⟩
      have hp := List.length_pos_of_ne_nil hda
      refine ⟨fun hz => absurd hz (by omega),fun _ => ?_⟩
      have hr' := hr.trans (reads_chunkRemaining u d.length)
      exact slice_delivers (hca.of_reads hr') (hl.of_reads hr')
        (hr'.done.trans hdo) (hr'.chunked.trans hch) rfl hda hw
        (by simpa using hs)

theorem nextSized_delivers (hca : Unhurried s) (hl : Unlimited s b)
    (ho : Owes s b rs) (hdo : s.done=false) (hch : s.chunked=false) :
    Succeeds nextSized s (Delivers b rs) := by
  obtain ⟨how,hst⟩ : s.contentLength.getD 0=b.length ∧ s.reader.stream=b++rs := by
    cases ho with
    | finished hd => exact absurd (hdo.symm.trans hd) (by decide)
    | sized _ _ how hst => exact ⟨how,hst⟩
    | betweenChunks _ hc | insideChunk _ hc => exact absurd (hch.symm.trans hc) (by decide)
  have hm := hl.chunkMax
  simp only [nextSized,finish,ensures_bind,ensures_get,ensures_ite,ensures_modify,
    ensures_pure,ensures_throw,ensures_map,how]
  refine ⟨fun hne => ?_,fun hz => ?_⟩
  · refine (timedRead_ensures s _ (by omega)).mono ?_ fun e t => hca.not_readFails id
    rintro c t ⟨hr,-,hs,hle,hn⟩
    refine ⟨fun hz => ?_,fun hso => ?_⟩
    · have he := hn (List.length_eq_zero_iff.mp hz)
      rw [hst] at he
      simp only [List.append_eq_nil_iff] at he
      exact hne (by simp [he.1])
    · have hp : c <+: s.reader.stream := ⟨_,hs.symm⟩
      obtain ⟨later,rfl⟩ := List.prefix_of_prefix_length_le hp ⟨_,hst.symm⟩ (by omega)
      have hl' := hl.of_reads hr
      have hc' := hca.of_reads hr
      refine Ensures.imp (account_passes {hl' with} {hc' with}) ?_
      rintro out u ⟨rfl,ha,hl''⟩
      have ho' : (out++later).length - out.length = later.length := by simp
      have hd' : u.done=decide (later.length=0) := by rw [ha.done,ho',hr.done,hdo,Bool.or_false]
      have hch' : u.chunked=false := ha.chunked.trans (hr.chunked.trans hch)
      have hs' : u.reader.stream=later++rs := by
        rw [ha.reader]
        exact List.append_cancel_left (hs.symm.trans (by rw [hst,List.append_assoc]))
      refine ⟨fun h => hso (by simp [h]),later,rfl,?_,hl'',by simp [hd',hch']⟩
      by_cases hla : later=[]
      · subst hla
        exact .finished (by simp [hd']) hs'
      · refine .sized (by simp [hd',hla]) hch' ?_ hs'
        rw [ha.contentLength,Option.getD_some,ho']
  · have hb : b=[] := List.length_eq_zero_iff.mp (not_not.mp hz)
    subst hb
    exact ⟨rfl,rfl,.finished rfl hst⟩

theorem nextChunk_delivers (hc : Unhurried s) (hl : Unlimited s b)
    (ho : Owes s b rs) (hd : s.done=false) :
    Succeeds nextChunk s (Delivers b rs) := by
  simp only [nextChunk,ensures_bind,ensures_get,ensures_ite,ensures_tryCatch,ensures_pure,hd]
  refine ⟨by rintro ⟨⟩,fun _ => ⟨fun hch => ?_,fun hch => ?_⟩⟩
  · exact (nextChunked_delivers hc hl ho hd hch).total fun _ _ => id
  · rw [Bool.not_eq_true] at hch
    exact (nextSized_delivers hc hl ho hd hch).total fun _ _ => id

theorem Owes.eq_nil {s : HTTP1Recipient} {b rs : Bytes} (h : Owes s b rs)
    (hdo : s.done=true) : b=[] ∧ s.reader.stream=rs := by
  cases h with
  | finished _ hs => exact ⟨rfl,hs⟩
  | sized hd | betweenChunks hd | insideChunk hd => exact absurd (hdo.symm.trans hd) (by decide)

theorem receive_delivers (hc : Unhurried s) (hli : Unlimited s b)
    (how : Owes s b rs) (hdo : s.done=false) : Succeeds receive s fun e t =>
        (∃ chunk later,e=.request chunk true ∧ chunk≠[] ∧ b=chunk++later ∧
          Owes t later rs ∧ Unlimited t later ∧ t.done=false) ∨
        e=.request b false ∧ t.done=true ∧ t.reader.stream=rs := by
  simp only [receive,ensures_bind,ensures_get,ensures_ite,ensures_tryCatch,ensures_pure,hdo]
  refine ⟨by rintro ⟨⟩,fun _ => (nextChunk_delivers hc hli how hdo).total ?_⟩
  rintro (_ | chunk) t hde
  · obtain ⟨rfl,hd,ho⟩ := hde
    exact .inr ⟨rfl,hd,(ho.eq_nil hd).2⟩
  · obtain ⟨hne,later,rfl,ho,hl,hd⟩ := hde
    simp only [ensures_bind,ensures_get,ensures_pure]
    cases htd : t.done with
    | false => exact .inl ⟨chunk,later,rfl,hne,rfl,ho,hl,rfl⟩
    | true =>
      obtain ⟨rfl,-⟩ := hd.mp htd
      exact .inr ⟨by simp,rfl,(ho.eq_nil htd).2⟩

end Calls

inductive ReadStep where
  | arrive
  | call (waits : Waits)

structure Transcript (α : Type) where
  recipient : HTTP1Recipient
  results : List (Except RecipientError α)

def readStep {α : Type} (op : RecipientM α) (x : Transcript α) : ReadStep → Transcript α
  | .arrive => {x with recipient:=x.recipient.arrive}
  | .call waits =>
    match op (x.recipient.entering waits) with
    | .ok a t => ⟨t,x.results++[.ok a]⟩
    | .error e t => ⟨t,x.results++[.error e]⟩

/-- The deadline does not fall during the call, and the peer keeps to the minimum rate. -/
def Prompt {α : Type} (x : Transcript α) : ReadStep → Prop
  | .arrive => True
  | .call waits => (x.recipient.settings.bodyTimeout≤0 ∨ waits.patience=none) ∧
      KeepsRate x.recipient waits

theorem Prompt.unhurried {α : Type} {x : Transcript α} {w : Waits}
    (h : Prompt x (.call w)) : Unhurried (x.recipient.entering w) := by
  refine ⟨fun hd => ?_,h.2⟩
  obtain hle | hn := h.1
  · exact absurd hd.1 (not_lt.mpr hle)
  · exact hd.2 hn

variable {bd : Bytes} {s : HTTP1Recipient} {rest : Bytes}

theorem Owes.congr {t : HTTP1Recipient} (h : Owes s bd rest) (hdo : t.done=s.done)
    (hch : t.chunked=s.chunked) (hl : t.contentLength=s.contentLength)
    (hr : t.chunkRemaining=s.chunkRemaining) (hst : t.reader.stream=s.reader.stream) :
    Owes t bd rest := by
  cases h with
  | finished hd hs => exact .finished (hdo.trans hd) (hst.trans hs)
  | sized hd hc ho hs => exact .sized (hdo.trans hd) (hch.trans hc) (hl ▸ ho) (hst.trans hs)
  | betweenChunks hd hc ho hw hs =>
    exact .betweenChunks (hdo.trans hd) (hch.trans hc) (hr.trans ho) hw (hst.trans hs)
  | insideChunk hd hc ho hne hw hs =>
    exact .insideChunk (hdo.trans hd) (hch.trans hc) (hr.trans ho) hne hw (hst.trans hs)

theorem Owes.entering (h : Owes s bd rest) (w : Waits) : Owes (s.entering w) bd rest :=
  h.congr rfl rfl rfl rfl rfl

theorem Owes.arrive (h : Owes s bd rest) : Owes s.arrive bd rest :=
  h.congr rfl rfl rfl rfl (Reader.stream_arrive s.reader)

/-- What the calls of `nextChunk` have returned: pieces of the body, then `none`. -/
structure Native (body rest : Bytes) (x : Transcript (Option Bytes)) (chunks : List Bytes)
    (later : Bytes) (k : ℕ) : Prop where
  results : x.results=chunks.map (fun chunk => .ok (some chunk))++.replicate k (.ok none)
  nonempty : ∀ chunk∈chunks,chunk≠[]
  body : body=chunks.flatten++later
  owes : Owes x.recipient later rest
  limit : x.recipient.done=false → Unlimited x.recipient later
  ended : k≠0 → x.recipient.done=true

theorem native_step (x : Transcript (Option Bytes)) (a : ReadStep)
    (hx : ∃ cs later k,Native bd rest x cs later k) (ha : Prompt x a) :
    ∃ cs later k,Native bd rest (readStep nextChunk x a) cs later k := by
  obtain ⟨cs,later,k,h⟩ := hx
  cases a with
  | arrive =>
    exact ⟨cs,later,k,{h with owes:=h.owes.arrive,limit:=fun hd => {h.limit hd with}}⟩
  | call w =>
    cases hdo : x.recipient.done with
    | true =>
      have hc : nextChunk (x.recipient.entering w)=.ok none _ := nextChunk_of_done hdo
      refine ⟨cs,later,k+1,?_⟩
      simp only [readStep,hc]
      refine ⟨?_,h.nonempty,h.body,h.owes.entering w,fun hd => ?_,fun _ => hdo⟩
      · rw [h.results,List.append_assoc,List.replicate_succ']
      · exact absurd (hdo.symm.trans hd) (by decide)
    | false =>
      obtain rfl : k=0 := by
        by_contra hk
        exact absurd (hdo.symm.trans (h.ended hk)) (by decide)
      have hl := h.limit hdo
      have hc := nextChunk_delivers ha.unhurried {hl with} (h.owes.entering w) hdo
      have hr := h.results
      rw [List.replicate_zero,List.append_nil] at hr
      simp only [readStep]
      cases hx : nextChunk (x.recipient.entering w) with
      | error e t => exact (hc.error hx).elim
      | ok out t =>
        cases out with
        | none =>
          obtain ⟨hn,hd,ho⟩ := hc.ok hx
          subst hn
          refine ⟨cs,[],1,?_,h.nonempty,h.body,ho,fun hd' => ?_,fun _ => hd⟩
          · rw [hr]
            rfl
          · exact absurd (hd.symm.trans hd') (by decide)
        | some c =>
          obtain ⟨hne,l',rfl,ho,hl',-⟩ := hc.ok hx
          refine ⟨cs++[c],l',0,?_,?_,?_,ho,fun _ => hl',fun hk => absurd rfl hk⟩
          · simp [hr]
          · simpa [or_imp,forall_and] using ⟨h.nonempty,hne⟩
          · simpa using h.body

structure Streaming (body rest : Bytes) (x : Transcript ReceiveEvent) (chunks : List Bytes)
    (later : Bytes) : Prop where
  results : x.results=chunks.map fun chunk => .ok (.request chunk true)
  nonempty : ∀ chunk∈chunks,chunk≠[]
  body : body=chunks.flatten++later
  owes : Owes x.recipient later rest
  limit : Unlimited x.recipient later
  done : x.recipient.done=false

/-- The events of a finished body: one of them announces the end, and only disconnects
follow. -/
structure Ended (body rest : Bytes) (x : Transcript ReceiveEvent) (chunks : List Bytes)
    (last : Bytes) (k : ℕ) : Prop where
  results : x.results=chunks.map (fun chunk => .ok (.request chunk true)) ++
    .ok (.request last false)::.replicate k (.ok .disconnect)
  body : body=chunks.flatten++last
  done : x.recipient.done=true
  stream : x.recipient.reader.stream=rest

theorem receive_of_done (hd : s.done=true) : receive s=.ok .disconnect s := by
  change (if s.done=true then pure .disconnect else _ : RecipientM ReceiveEvent) s=_
  rw [if_pos hd]
  rfl

theorem asgi_step (x : Transcript ReceiveEvent) (a : ReadStep) (hx : (∃ cs later,Streaming bd
    rest x cs later) ∨ ∃ cs last k,Ended bd rest x cs last k) (ha : Prompt x a) :
    (∃ cs later,Streaming bd rest (readStep receive x a) cs later) ∨
      ∃ cs last k,Ended bd rest (readStep receive x a) cs last k := by
  obtain ⟨cs,later,h⟩ | ⟨cs,last,k,h⟩ := hx
  · have hl := h.limit
    cases a with
    | arrive =>
      exact .inl ⟨cs,later,{h with owes:=h.owes.arrive,limit:={hl with}}⟩
    | call w =>
      have hc := receive_delivers ha.unhurried {hl with} (h.owes.entering w) h.done
      simp only [readStep]
      cases hx : receive (x.recipient.entering w) with
      | error e t => exact (hc.error hx).elim
      | ok ev t =>
        obtain ⟨c,l',rfl,hne,rfl,ho,hl',hd⟩ | ⟨rfl,hd,hs⟩ := hc.ok hx
        · refine .inl ⟨cs++[c],l',?_,?_,?_,ho,hl',hd⟩
          · simp [h.results]
          · simpa [or_imp,forall_and] using ⟨h.nonempty,hne⟩
          · simpa using h.body
        · exact .inr ⟨cs,later,0,by simp [h.results],h.body,hd,hs⟩
  · refine .inr ⟨cs,last,?_⟩
    cases a with
    | arrive =>
      refine ⟨k,h.results,h.body,h.done,?_⟩
      exact (Reader.stream_arrive x.recipient.reader).trans h.stream
    | call w =>
      have hc : receive (x.recipient.entering w)=.ok .disconnect _ := receive_of_done h.done
      simp only [readStep,hc]
      exact ⟨k+1,by simp [h.results,List.replicate_succ'],h.body,h.done,h.stream⟩

theorem length_le_flatten {cs : List Bytes} (h : ∀ ch∈cs,ch≠[]) : cs.length≤cs.flatten.length := by
  induction cs with
  | nil => simp
  | cons ch cs ih =>
    have hp := List.length_pos_of_ne_nil (h ch List.mem_cons_self)
    have hr := ih fun c hc => h c (List.mem_cons_of_mem _ hc)
    simp only [List.length_cons,List.flatten_cons,List.length_append]
    omega

theorem bind_owes {cfg : RecipientSettings} {r : Reader} {hdrs : Headers}
    {wire : Bytes} (hb : bind cfg r hdrs=.ok s) (hca : Carries (Framing.ofHeaders hdrs) bd wire)
    (hs : r.stream=wire++rest) : Owes s bd rest := by
  obtain ⟨rfl,-,-,hd,hr,hch,hf⟩ := bind_eq_ok hb
  cases hc : s.chunked with
  | true =>
    rw [hc] at hch
    rw [of_decide_eq_true hch.symm] at hca
    exact .betweenChunks hd hc hr hca hs
  | false =>
    rw [hf hc] at hca
    refine .sized hd hc ?_ ?_
    all_goals cases hcl : s.contentLength with
    | none =>
      rw [hcl] at hca
      simp [hca.1,hca.2,hs]
    | some n =>
      rw [hcl] at hca
      simp [hca.1,hca.2,hs]

theorem bind_unlimited {cfg : RecipientSettings} {r : Reader} {hdrs : Headers}
    (hb : bind cfg r hdrs=.ok s) (hs : 0<cfg.chunkSize)
    (hc : cfg.maxBody=0 ∨ bd.length≤cfg.maxBody) : Unlimited s bd := by
  obtain ⟨-,hse,hsee,-⟩ := bind_eq_ok hb
  refine ⟨hse ▸ hs,hse ▸ Nat.le_max_right _ _,?_⟩
  rw [hse,hsee,Nat.zero_add]
  exact hc

/-- The calls of a recipient bound to a well-formed body return the body in order, then `none`
for ever, with the reader at the first octet after the message; on the ASGI channel exactly
one event says that no more follows. -/
theorem body_decoded {settings : RecipientSettings} {reader : Reader} {headers : Headers}
    {s : HTTP1Recipient} {body wire rest : Bytes}
    (hbind : bind settings reader headers=.ok s)
    (hcarries : Carries (Framing.ofHeaders headers) body wire)
    (hstream : reader.stream=wire++rest) (hsize : 0<settings.chunkSize)
    (hcap : settings.maxBody=0 ∨ body.length ≤ settings.maxBody) :
    (∀ steps x,x=run (readStep nextChunk) ⟨s,[]⟩ steps →
      Along (readStep nextChunk) Prompt ⟨s,[]⟩ steps →
      ∃ (chunks : List Bytes) (k : ℕ),
        x.results=chunks.map (fun chunk => .ok (some chunk))++.replicate k (.ok none) ∧
        chunks.flatten <+: body ∧
        (k≠0 → chunks.flatten=body ∧ x.recipient.reader.stream=rest) ∧
        (body.length<x.results.length → k≠0)) ∧
    (∀ steps x,x=run (readStep receive) ⟨s,[]⟩ steps →
      Along (readStep receive) Prompt ⟨s,[]⟩ steps →
      (∃ chunks : List Bytes,
        x.results=chunks.map (fun chunk => .ok (.request chunk true)) ∧
        chunks.flatten <+: body ∧ x.results.length≤body.length) ∨
      ∃ (chunks : List Bytes) (last : Bytes) (k : ℕ),
        x.results=chunks.map (fun chunk => .ok (.request chunk true)) ++
          .ok (.request last false)::.replicate k (.ok .disconnect) ∧
        chunks.flatten++last=body ∧ x.recipient.reader.stream=rest) := by
  have ho := bind_owes hbind hcarries hstream
  have hl := bind_unlimited hbind hsize hcap
  have hd : s.done=false := (bind_eq_ok hbind).2.2.2.1
  refine ⟨?_,?_⟩
  · rintro steps x rfl hs
    have hst : ∃ chunks later k,Native body rest ⟨s,[]⟩ chunks later k :=
      ⟨[],body,0,rfl,nofun,rfl,ho,fun _ => hl,fun hk => absurd rfl hk⟩
    obtain ⟨chunks,later,k,h⟩ := hs.invariant native_step hst
    have hb := h.body
    refine ⟨chunks,k,h.results,⟨later,hb.symm⟩,fun hk => ?_,fun hm hk => ?_⟩
    · obtain ⟨rfl,hr⟩ := h.owes.eq_nil (h.ended hk)
      exact ⟨by simpa using hb.symm,hr⟩
    · have hc := length_le_flatten h.nonempty
      rw [h.results,hk,hb] at hm
      simp only [List.length_append,List.length_map,List.replicate_zero,List.length_nil] at hm
      omega
  · rintro steps x rfl hs
    have hst : ∃ chunks later,Streaming body rest ⟨s,[]⟩ chunks later :=
      ⟨[],body,rfl,nofun,rfl,ho,hl,hd⟩
    obtain ⟨chunks,later,h⟩ | ⟨chunks,last,k,h⟩ := hs.invariant asgi_step (.inl hst)
    · refine .inl ⟨chunks,h.results,⟨later,h.body.symm⟩,?_⟩
      have hc := length_le_flatten h.nonempty
      have hb := congrArg List.length h.body
      rw [h.results]
      simp only [List.length_append,List.length_map] at hb ⊢
      omega
    · exact .inr ⟨chunks,last,k,h.results,h.body.symm,h.stream⟩

def chunkedHead : Headers := Headers.fromLowered [(ascii "transfer-encoding",ascii "chunked")]

def smallWire : Bytes :=
  ascii "3" ++ ascii ";x" ++ crlf++ascii "abc" ++ crlf ++
    (ascii "0" ++ []++crlf++(ascii "a: b" ++ crlf++crlf))

def smallReader : Reader :=
  ⟨ascii "3",.arrival ⟨(smallWire++ascii "GET").drop 1,by decide⟩ .hangup,none⟩

theorem smallWire_carries : Carries .chunked (ascii "abc") smallWire := by
  have he : Extensions noSemicolon ([]++59::([]++ascii "x" ++ [])) :=
    .cons blankText_nil blankText_nil (.flag ⟨by decide +kernel,by decide +kernel⟩) .nil
  have ht : SizeLine requestGrammar (ascii "abc").length (ascii "3" ++ ascii ";x" ++ crlf) :=
    .intro _ _ ⟨by decide +kernel,by decide +kernel,by decide +kernel⟩ ⟨he,by decide +kernel⟩
  have hz : SizeLine requestGrammar 0 (ascii "0" ++ []++crlf) :=
    .intro _ _ ⟨by decide +kernel,by decide +kernel,by decide +kernel⟩ ⟨.nil,by decide +kernel⟩
  have htr : TrailerSection requestGrammar (ascii "a: b" ++ crlf++crlf) :=
    .field ⟨by decide +kernel,by decide +kernel,by decide +kernel,by decide +kernel⟩ .done
  exact .chunk ht (by decide +kernel) (.last hz htr)

theorem body_decoded_small :
    ∃ s,bind {minRate:=0} smallReader chunkedHead=.ok s ∧
      ∃ (chunks : List Bytes) (k : ℕ),
        (run (readStep nextChunk) ⟨s,[]⟩ [.call {},.arrive,.call {},.call {},.call {}]).results =
          chunks.map (fun chunk => .ok (some chunk))++.replicate k (.ok none) ∧
        k≠0 ∧ chunks.flatten=ascii "abc" := by
  have hb : bind {minRate:=0} smallReader chunkedHead=.ok _ := rfl
  refine ⟨_,hb,?_⟩
  have hr : ∀ s : HTTP1Recipient,s.settings.minRate=0 → ∀ waits,KeepsRate s waits :=
    fun s hs waits k hl => hl.1 hs
  have hst : smallReader.stream=smallWire++ascii "GET" := by decide
  obtain ⟨chunks,k,hre,-,he,hm⟩ := (body_decoded hb smallWire_carries hst (by decide) (by decide)).1
    [.call {},.arrive,.call {},.call {},.call {}] _ rfl
    ⟨⟨.inr rfl,hr _ rfl _⟩,trivial,⟨.inr rfl,hr _ rfl _⟩,⟨.inr rfl,hr _ rfl _⟩,
      ⟨.inr rfl,hr _ rfl _⟩,trivial⟩
  have hk := hm (by decide)
  exact ⟨chunks,k,hre,hk,(he hk).1⟩

/-- The coding with every extension and every trailer field line of the standard. -/
def standardGrammar : ChunkedGrammar where
  extension _ ext := Extensions (fun _ => True) ext
  trailer line := ∃ name value,Token name ∧ (∀ b∈value,isQuotable b=true) ∧
    line=name++58::value
  extension_oneLine h := h.ne_lf
  extension_start h := h.start
  trailer_oneLine := by
    rintro _ ⟨name,value,hname,hvalue,rfl⟩
    have hlf : 10∉value := fun hm => absurd (hvalue 10 hm) (by decide)
    simp [hname.ne_lf,hlf]
  trailer_ne_nil := by
    rintro _ ⟨name,value,-,-,rfl⟩
    simp

def hostTrailer : Bytes := ascii "0" ++ []++crlf++(ascii "Host: a" ++ crlf++crlf)

/-- A well-formed empty body whose trailer section names a prohibited field is answered with
an error. -/
theorem hostTrailer_refused :
    ChunkedBody standardGrammar [] hostTrailer ∧
      ∃ s t,bind {} ⟨hostTrailer,.hangup,none⟩ chunkedHead=.ok s ∧
        nextChunk s=.error (.httpException
          (badRequest "prohibited trailer field b'host' (RFC 9110 §6.5.1)")) t := by
  have hz : SizeLine standardGrammar 0 (ascii "0" ++ []++crlf) :=
    .intro _ _ ⟨by decide +kernel,by decide +kernel,by decide +kernel⟩ .nil
  have hf : standardGrammar.trailer (ascii "Host: a") :=
    ⟨ascii "Host",ascii " a",⟨by decide +kernel,by decide +kernel⟩,by decide +kernel,
      by decide +kernel⟩
  exact ⟨.last hz (.field hf .done),_,_,rfl,rfl⟩

end BlackBull.HTTP1Recipient
