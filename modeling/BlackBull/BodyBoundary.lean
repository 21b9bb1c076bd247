import BlackBull.BodyReading

/-!
# The boundary of a request body

A recipient that has neither rejected nor given up its body stands at a definite place in it: the
octets taken since the request was bound are a well-formed beginning of the framed body. `nextChunk`
keeps it at such a place, finishes the body, or fails as `Abandons` lists.
-/

namespace BlackBull

open ByteString

inductive Framing where
  | chunked
  | sized (n : ℕ)
  | empty
  deriving DecidableEq

namespace Framing

def ofHeaders (headers : Headers) : Framing :=
  if lower (strip isSpace (headers.get (ascii "transfer-encoding") []))=ascii "chunked" then
    .chunked
  else if headers.get (ascii "content-length") []=[] then .empty
  else .sized (ofDigits 10 (headers.get (ascii "content-length") []))

/-- The octets are a whole body in this framing. -/
def Encodes : Framing → Bytes → Prop
  | chunked,wire => ∃ body,ChunkedBody lineGrammar body wire
  | sized n,wire => wire.length=n
  | empty,wire => wire=[]

/-- A stream begins with at most one framed body. -/
theorem Encodes.unique {f : Framing} {wi w stream : Bytes}
    (h : f.Encodes wi) (h' : f.Encodes w) (hs : wi <+: stream)
    (hs' : w <+: stream) : wi=w := by
  cases f with
  | chunked =>
    obtain ⟨body,hb⟩ := h
    obtain ⟨b,hb'⟩ := h'
    obtain ⟨rest,rfl⟩ := hs
    obtain ⟨r,hr⟩ := hs'
    exact (hb.unique hb' hr.symm).2.1
  | sized n =>
    have hl : wi.length=w.length := Eq.trans h (Eq.symm h')
    exact (List.prefix_of_prefix_length_le hs hs' hl.le).eq_of_length hl
  | empty => exact h.trans h'.symm

end Framing

namespace HTTP1Recipient

/-- The recipient's place in a body of the given framing, of which `wire` has been taken. -/
def Position (s : HTTP1Recipient) (wire : Bytes) : Framing → Prop
  | .chunked => s.chunked=true ∧
      if s.done then Framing.chunked.Encodes wire
      else ChunkPosition lineGrammar s.chunkRemaining wire
  | .sized n => s.chunked=false ∧
      ∃ owed,s.contentLength=some owed ∧ wire.length+owed=n ∧ (s.done=true → owed=0)
  | .empty => s.chunked=false ∧ s.contentLength=none ∧ wire=[]

/-- The octets taken from `stream` put the recipient at a place in its body. -/
def AtBoundary (stream : Bytes) (framing : Framing) (s : HTTP1Recipient) : Prop :=
  ∃ wire,stream=wire++s.reader.stream ∧ s.Position wire framing

variable {s t : HTTP1Recipient} {stream : Bytes} {fr : Framing} {e : RecipientError}

theorem bind_eq_ok {cfg : RecipientSettings} {r : Reader} {hdrs : Headers}
    (h : bind cfg r hdrs=.ok s) :
    s.reader=r ∧ s.settings={cfg with chunkMax:=max cfg.chunkMax 1} ∧
      s.bodySeen=0 ∧ s.done=false ∧ s.chunkRemaining=0 ∧
      s.chunked=decide (Framing.ofHeaders hdrs=.chunked) ∧
      (s.chunked=false → Framing.ofHeaders hdrs=match s.contentLength with
          | none => .empty
          | some n => .sized n) := by
  unfold HTTP1Recipient.bind declaredLength int? at h
  unfold Framing.ofHeaders
  generalize lower (strip isSpace (hdrs.get (ascii "transfer-encoding") []))=te at h ⊢
  generalize hdrs.get (ascii "content-length") []=cl at h ⊢
  dsimp only at h
  split_ifs at h with hte hcl hd hs
  · cases h
    by_cases hc : te=ascii "chunked" <;> simp [hc,hcl]
  · cases h
    by_cases hc : te=ascii "chunked" <;> simp [hc,hcl]
  · cases h
  · cases h

def Abandons (s : HTTP1Recipient) (e : RecipientError) (t : HTTP1Recipient) : Prop :=
  (∃ exception,e=.httpException exception) ∧
      (t.framingBroken=true ∨ t.bodyRefused=true ∧ t.done=true) ∨
    e=.clientDisconnected ∧ t.done=true ∧
      ((t.reader.stream=[] ∨ s.Deadline) ∧ t.bodyRefused=s.bodyRefused ∨
        t.mustClose=true ∧ ∃ k,s.BelowRate (s.bodyWaitAfter k))

theorem Rejects.abandons (h : Rejects e t) : Abandons s e t := .inl ⟨h.1,.inl h.2⟩

def Advances (stream : Bytes) (framing : Framing) (s : HTTP1Recipient) (out : Option Bytes)
    (t : HTTP1Recipient) : Prop :=
  AtBoundary stream framing t ∧ t.mustClose=s.mustClose ∧ (out=none → t.done=true)

/-- What the body of `nextChunk` may raise, before its handler turns read errors into a
disconnect. -/
def Raises (s : HTTP1Recipient) (e : RecipientError) (t : HTTP1Recipient) : Prop :=
  ReadFails s True e t ∨ Rejects e t ∨ ∃ n,Refuses s n e t

theorem Raises.of_reads {u : HTTP1Recipient} (h : Raises u e t) (hsu : Reads s u) :
    Raises s e t := by
  obtain hf | hr | ⟨n,hre⟩ := h
  · exact .inl (hf.mono hsu id)
  · exact .inr (.inl hr)
  · exact .inr (.inr ⟨n,hre.of_reads hsu⟩)

theorem Reads.mustClose (h : Reads s t) : t.mustClose=s.mustClose := by
  simp only [HTTP1Recipient.mustClose,h.framingBroken,h.bodyRefused]

theorem slice_ensures {w : Bytes} (hc : s.chunked=true) (hd : s.done=false)
    (hst : stream=w++s.reader.stream) (ho : s.chunkRemaining≠0)
    (hp : ChunkPosition lineGrammar s.chunkRemaining w) :
    Ensures (some <$> (readChunkSlice >>= account)) s (Advances stream .chunked s) (Raises s) := by
  simp only [ensures_map,ensures_bind]
  refine (readChunkSlice_ensures s).mono ?_ ?_
  · rintro d t ⟨hr,hl,hre,hs⟩
    refine (account_ensures t d).mono ?_ fun e u h => .inr (.inr ⟨_,h.of_reads hr⟩)
    rintro out u ⟨rfl,ha⟩
    refine ⟨⟨w++out++sliceEnd t.chunkRemaining,?_,ha.chunked.trans
      (hr.chunked.trans hc),?_⟩,?_,by rintro ⟨⟩⟩
    · rw [hst,hs,ha.reader]
      simp only [List.append_assoc]
    · rw [if_neg (by rw [ha.done,hr.done,hd]; decide),ha.chunkRemaining,hre,sliceEnd]
      split_ifs with hz
      · rw [hz]
        exact hp.lastSlice ho (by omega)
      · rw [List.append_nil]
        exact hp.slice ho (by omega)
    · simp only [mustClose,ha.framingBroken,ha.bodyRefused,hr.framingBroken,hr.bodyRefused]
  · rintro e t (hf | hrej)
    · exact .inl (hf.mono (Reads.refl s) fun _ => trivial)
    · exact .inr (.inl hrej.1)

theorem nextChunked_ensures (hb : AtBoundary stream .chunked s) (hd : s.done=false) :
    Ensures nextChunked s (Advances stream .chunked s) (Raises s) := by
  obtain ⟨wire,hst,hc,hp⟩ := hb
  rw [hd,if_neg (by decide)] at hp
  simp only [nextChunked,ensures_bind,ensures_get,ensures_ite]
  refine ⟨fun ho => slice_ensures hc hd hst ho hp,fun hz => ?_⟩
  rw [not_not.mp hz] at hp
  refine (readChunkLine_ensures s).mono ?_ ?_
  · rintro line t ⟨hr,-,hs,-,-⟩
    refine (parseChunkSizeOr400_ensures t line).mono ?_ fun e u h => .inr (.inl h.1)
    rintro n u ⟨rfl,hpa⟩
    have hl := parseChunkSize_sound hpa
    refine ⟨fun hn => ?_,fun hn => ?_⟩
    · -- the last chunk and the trailer section
      subst hn
      refine (readTrailers_ensures _ u).mono ?_ ?_
      · rintro - v ⟨hr',-,tr,ht,hs'⟩
        have ha := hr.trans hr'
        simp only [finish,ensures_bind,ensures_modify,ensures_pure]
        refine ⟨⟨wire++line++tr,?_,ha.chunked.trans hc,?_⟩,ha.mustClose,fun _ => rfl⟩
        · rw [hst,hs,hs']
          simp only [List.append_assoc]
        · exact hp.last hl ht
      · rintro e v (hf | hre | ⟨-,hfu⟩)
        · exact .inl (hf.mono hr fun _ => trivial)
        · exact .inr (.inl hre)
        · exact absurd hfu (by omega)
    · simp only [ensures_modify]
      have hr' := hr.trans (reads_chunkRemaining u n)
      have hp' := hp.sizeLine hl hn
      have hst' : stream=wire++line++u.reader.stream := by rw [hst,hs,List.append_assoc]
      refine Ensures.mono (slice_ensures (s := {u with chunkRemaining:=n})
        (hr'.chunked.trans hc) (hr'.done.trans hd) hst' hn hp') ?_ ?_
      · rintro out v ⟨hb,hcl,hno⟩
        exact ⟨hb,hcl.trans hr'.mustClose,hno⟩
      · exact fun e v h => h.of_reads hr'
  · rintro e t (hf | hre)
    · exact .inl (hf.mono (Reads.refl s) fun _ => trivial)
    · exact .inr (.inl hre.1)

theorem Position.not_chunked {w : Bytes} (h : s.Position w fr) (hc : s.chunked=false) :
    (∃ n owed,fr=.sized n ∧ s.contentLength=some owed ∧ w.length+owed=n) ∨
      fr=.empty ∧ s.contentLength=none ∧ w=[] := by
  cases fr with
  | chunked => exact absurd (h.1.symm.trans hc) (by decide)
  | sized n =>
    obtain ⟨-,owed,ho,hs,-⟩ := h
    exact .inl ⟨n,owed,rfl,ho,hs⟩
  | empty => exact .inr ⟨rfl,h.2⟩

theorem nextSized_ensures (hm : 0<s.settings.chunkMax) (hb : AtBoundary stream fr s)
    (hc : s.chunked=false) (hdo : s.done=false) :
    Ensures nextSized s (Advances stream fr s) (Raises s) := by
  obtain ⟨wire,hst,hp⟩ := hb
  simp only [nextSized,finish,ensures_bind,ensures_get,ensures_ite,ensures_modify,
    ensures_pure,ensures_throw,ensures_map]
  refine ⟨fun ho => ?_,fun ho => ⟨⟨wire,hst,?_⟩,rfl,fun _ => rfl⟩⟩
  · obtain ⟨n,owed,rfl,hcl,hsu⟩ | ⟨-,hcl,-⟩ := hp.not_chunked hc
    swap
    · exact absurd (by rw [hcl]; rfl) ho
    rw [hcl,Option.getD_some] at ho ⊢
    refine (timedRead_ensures s _ (by omega)).mono ?_ fun e t hf =>
      .inl (hf.mono (Reads.refl s) fun _ => trivial)
    rintro body t ⟨hr,-,hs,hl,hn⟩
    refine ⟨fun hz => .inl ⟨⟨_,rfl⟩,.inr ⟨?_,trivial⟩,hr.bodyRefused⟩,fun hso => ?_⟩
    · have he := hn (List.length_eq_zero_iff.mp hz)
      rw [hs] at he
      exact (List.append_eq_nil_iff.mp he).2
    · refine Ensures.mono (account_ensures _ body) ?_ ?_
      · rintro out u ⟨rfl,ha⟩
        refine ⟨⟨wire++out,?_,ha.chunked.trans (hr.chunked.trans hc),
          owed - out.length,ha.contentLength,?_,?_⟩,?_,by rintro ⟨⟩⟩
        · rw [hst,hs,ha.reader,List.append_assoc]
        · rw [List.length_append]
          omega
        · intro hd
          rw [ha.done] at hd
          simpa [hr.done,hdo] using hd
        · simp only [mustClose,ha.framingBroken,ha.bodyRefused,hr.framingBroken,hr.bodyRefused]
      · intro e u h
        exact .inr (.inr ⟨_,(show Refuses t _ e u from h).of_reads hr⟩)
  · have hz : s.contentLength.getD 0=0 := not_not.mp ho
    obtain ⟨n,owed,rfl,hcl,hsu⟩ | ⟨rfl,hcl,hw⟩ := hp.not_chunked hc
    · rw [hcl] at hz
      exact ⟨hc,owed,hcl,hsu,fun _ => hz⟩
    · exact ⟨hc,hcl,hw⟩

theorem surfaceReadError_ensures (h : Raises s e t) {v : Option Bytes → HTTP1Recipient → Prop} :
    Ensures (surfaceReadError e) t v (Abandons s) := by
  obtain ⟨⟨error,rfl⟩,hf,hs⟩ | hr | ⟨n,hre,hd,href⟩ := h
  · simp only [surfaceReadError,ensures_bind,ensures_modify,ensures_throw]
    exact .inr ⟨rfl,rfl,.inl ⟨hf.symm.imp And.left id,hs⟩⟩
  · obtain ⟨ex,rfl⟩ := hr.1
    exact hr.abandons
  · obtain ⟨⟨ex,rfl⟩,-⟩ | ⟨rfl,hl⟩ := href
    · exact .inl ⟨⟨ex,rfl⟩,.inr ⟨hre,hd⟩⟩
    · exact .inr ⟨rfl,hd,.inr ⟨by simp [mustClose,hre],hl⟩⟩

theorem AtBoundary.framing_eq (hb : AtBoundary stream fr s) (hc : s.chunked=true) :
    fr=.chunked := by
  obtain ⟨wire,-,hp⟩ := hb
  cases fr with
  | chunked => rfl
  | sized n | empty => exact absurd (hp.1.symm.trans hc) (by decide)

theorem nextChunk_ensures (hm : 0<s.settings.chunkMax) (hb : AtBoundary stream fr s) :
    Ensures nextChunk s (Advances stream fr s) (Abandons s) := by
  simp only [nextChunk,ensures_bind,ensures_get,ensures_ite,ensures_tryCatch,ensures_pure]
  refine ⟨fun hd => ⟨hb,rfl,fun _ => hd⟩,fun hd => ⟨fun hc => ?_,fun hc => ?_⟩⟩
  all_goals rw [Bool.not_eq_true] at hd
  · obtain rfl := hb.framing_eq hc
    exact (nextChunked_ensures hb hd).mono (fun _ _ => id) fun e t h => surfaceReadError_ensures h
  · rw [Bool.not_eq_true] at hc
    exact (nextSized_ensures hm hb hc hd).mono (fun _ _ => id) fun e t h =>
      surfaceReadError_ensures h

theorem nextChunk_of_done (hd : s.done=true) : nextChunk s=.ok none s := by
  change (if s.done=true then pure none
    else tryCatch (if s.chunked then nextChunked else nextSized) surfaceReadError :
      RecipientM (Option Bytes)) s=_
  rw [if_pos hd]
  rfl

/-- The settings stay, octets are only consumed and counted, and the verdicts on the body are
permanent. -/
structure Evolves (s t : HTTP1Recipient) : Prop where
  settings : t.settings=s.settings
  stream : t.reader.stream <:+ s.reader.stream
  bodySeen : s.bodySeen≤t.bodySeen
  framingBroken : s.framingBroken=true → t.framingBroken=true
  bodyRefused : s.bodyRefused=true → t.bodyRefused=true

theorem Evolves.mustClose (h : Evolves s t) (hs : s.mustClose=true) : t.mustClose=true := by
  rw [HTTP1Recipient.mustClose,Bool.or_eq_true] at hs ⊢
  exact hs.imp h.framingBroken h.bodyRefused

instance : IsPreorder HTTP1Recipient Evolves where
  refl _ := ⟨rfl,List.suffix_rfl,le_rfl,id,id⟩
  trans _ _ _ h h' := ⟨h'.settings.trans h.settings,h'.stream.trans h.stream,
    h.bodySeen.trans h'.bodySeen,h'.framingBroken ∘ h.framingBroken,
    h'.bodyRefused ∘ h.bodyRefused⟩

theorem moves_update {f : HTTP1Recipient → HTTP1Recipient} (hf : ∀ s,(f s).settings=s.settings ∧
    (f s).reader=s.reader ∧ s.bodySeen≤(f s).bodySeen ∧ (s.framingBroken=true → (f
    s).framingBroken=true) ∧ (s.bodyRefused=true → (f s).bodyRefused=true)) :
    Moves Evolves (modify f : RecipientM PUnit) := by
  intro s
  obtain ⟨hs,hr,hse,hb,hre⟩ := hf s
  exact ⟨hs,hr ▸ List.suffix_rfl,hse,hb,hre⟩

theorem moves_readWithTimeout {op : ReaderM Bytes} (hop : Reader.Consumes op) :
    Moves Evolves (readWithTimeout op) := by
  intro s
  have hre (r : Reader) (hr : r.stream <:+ s.reader.stream) : Evolves s (s.afterRead r) := by
    unfold afterRead
    split_ifs <;> exact ⟨rfl,hr,le_rfl,id,id⟩
  have h := hop s.timedReader
  rw [stream_timedReader] at h
  refine (readWithTimeout_ensures s h).mono ?_ ?_
  · rintro out t ⟨r,rfl,hr⟩
    exact hre r hr
  · rintro e t ⟨error,r,-,rfl,hr⟩
    exact hre r hr

theorem moves_breakFraming {α : Type} (d : String) :
    Moves Evolves (breakFraming d : RecipientM α) :=
  .bind (moves_update fun _ => by simp) fun _ => .throw

theorem moves_account (c : Bytes) : Moves Evolves (account c) := by
  refine .bind (moves_update fun _ => by simp) fun _ => .bind .get fun s =>
    .ite ?_ (.ite (.ite (.ite ?_ ?_) .pure) .pure)
  · exact .bind (moves_update fun _ => by simp) fun _ => .throw
  · exact .bind (moves_update fun _ => by simp) fun _ => .throw
  · exact .bind (moves_update fun _ => by simp) fun _ => .pure

theorem moves_readChunkSlice : Moves Evolves readChunkSlice :=
  .bind .get fun _ => .bind (moves_readWithTimeout (Reader.consumes_readexactly _)) fun _ =>
    .bind (moves_update fun _ => by simp) fun _ => .bind .get fun _ =>
      .ite (.bind (moves_readWithTimeout (Reader.consumes_readexactly _)) fun _ =>
        .ite (moves_breakFraming _) .pure) .pure

theorem moves_readChunkLine : Moves Evolves readChunkLine :=
  .bind (moves_readWithTimeout (Reader.consumes_readuntil _)) fun _ =>
    .ite (moves_breakFraming _) .pure

theorem moves_parseChunkSizeOr400 (l : Bytes) : Moves Evolves (parseChunkSizeOr400 l) := by
  unfold parseChunkSizeOr400
  cases parseChunkSize l with
  | ok n => exact .pure
  | error e => exact .bind (moves_update fun _ => by simp) fun _ => .throw

theorem moves_readTrailers (k : ℕ) : Moves Evolves (readTrailers k) := by
  induction k with
  | zero => exact .throw
  | succ k ih =>
    exact .bind moves_readChunkLine fun _ => .ite .pure
      (.ite (moves_breakFraming _) (.ite (moves_breakFraming _) ih))

theorem moves_nextChunk : Moves Evolves nextChunk := by
  have hf : Moves Evolves finish := .bind (moves_update fun _ => by simp) fun _ => .pure
  have hs : Moves Evolves (some <$> (readChunkSlice >>= account)) :=
    .map _ (.bind moves_readChunkSlice moves_account)
  have hc : Moves Evolves nextChunked :=
    .bind .get fun _ => .ite hs <| .bind moves_readChunkLine fun _ =>
      .bind (moves_parseChunkSizeOr400 _) fun _ =>
        .ite (.bind .get fun _ => .bind (moves_readTrailers _) fun _ => hf)
          (.bind (moves_update fun _ => by simp) fun _ => hs)
  have hsi : Moves Evolves nextSized :=
    .bind .get fun _ => .ite (.bind (moves_readWithTimeout (Reader.consumes_read _)) fun _ =>
      .ite .throw (.bind (moves_update fun _ => by simp) fun _ => .map _ (moves_account _))) hf
  refine .bind .get fun _ => .ite .pure (.tryCatch (.ite hc hsi) ?_)
  intro e
  cases e with
  | read error => exact .bind (moves_update fun _ => by simp) fun _ => .throw
  | _ => exact .throw

/-- The ASGI channel reads the body only through `nextChunk`. -/
theorem receive_ensures {holds : HTTP1Recipient → Prop} (hs : holds s)
    (h : Ensures nextChunk s (fun _ => holds) (fun _ => holds)) :
    Ensures receive s (fun _ => holds) (fun _ => holds) := by
  simp only [receive,ensures_bind,ensures_get,ensures_ite,ensures_tryCatch,ensures_pure]
  refine ⟨fun _ => hs,fun _ => h.mono ?_ ?_⟩
  · rintro (_ | c) t ht
    · exact ht
    · simpa only [ensures_bind,ensures_get,ensures_pure] using ht
  · intro e t ht
    cases e <;> exact ht

end HTTP1Recipient
end BlackBull
