import BlackBull.ByteString

/-!
# The chunked transfer coding

The coding of RFC 9112, section 7.1, as a relation between a body and the octets that carry it.
Recipients differ in the chunk extensions and trailer lines they let through; a `ChunkedGrammar`
fixes both.
-/

namespace BlackBull

open ByteString

structure ChunkedGrammar where
  /-- What may stand after the text of a chunk size, up to the end of its line. -/
  extension : Bytes → Bytes → Prop
  /-- A trailer line without its line end. -/
  trailer : Bytes → Prop
  extension_oneLine : ∀ {size ext},extension size ext → 10∉ext
  extension_start : ∀ {size b ext},extension size (b::ext) → isHexDigit b=false
  trailer_oneLine : ∀ {line},trailer line → 10∉line
  trailer_ne_nil : ∀ {line},trailer line → line≠[]

structure HexSize (text : Bytes) (n : ℕ) : Prop where
  ne_nil : text≠[]
  digits : ∀ b∈text,isHexDigit b=true
  value : ofDigits 16 text=n

variable (G : ChunkedGrammar)

inductive SizeLine (n : ℕ) : Bytes → Prop
  | intro (size ext : Bytes) (hsize : HexSize size n) (hext : G.extension size ext) :
      SizeLine n (size++ext++crlf)

/-- The trailer section with the empty line that ends it. -/
inductive TrailerSection : Bytes → Prop
  | done : TrailerSection crlf
  | field {line rest : Bytes} (hline : G.trailer line) (hrest : TrailerSection rest) :
      TrailerSection (line++crlf++rest)

inductive ChunkedBody : Bytes → Bytes → Prop
  | last {line trailers : Bytes} (hline : SizeLine G 0 line)
      (htrailers : TrailerSection G trailers) : ChunkedBody [] (line++trailers)
  | chunk {line data body wire : Bytes} (hline : SizeLine G data.length line)
      (hdata : data≠[]) (hrest : ChunkedBody body wire) :
      ChunkedBody (data++body) (line++data++crlf++wire)

/-- A run of whole chunks, none of them the last one. -/
inductive ChunkRun : Bytes → Bytes → Prop
  | nil : ChunkRun [] []
  | snoc {body wire line data : Bytes} (hrun : ChunkRun body wire)
      (hline : SizeLine G data.length line) (hdata : data≠[]) :
      ChunkRun (body++data) (wire++(line++data++crlf))

variable {G}

theorem isHexDigit_ne_lf {b : UInt8} (h : isHexDigit b=true) : b≠10 := by
  rintro rfl
  exact absurd h (by decide)

variable {qt : Bytes → Prop} {n : ℕ} {ext rest rs wire wr text : Bytes}

theorem SizeLine.exists_line {line : Bytes} (h : SizeLine G n line) :
    ∃ text,10∉text ∧ line=text++[10] := by
  obtain ⟨size,ext,hsi,he⟩ := h
  refine ⟨size++ext++[13],?_,by simp [crlf]⟩
  have hs : (10 : UInt8)∉size := fun hm => isHexDigit_ne_lf (hsi.digits 10 hm) rfl
  simp [hs,G.extension_oneLine he]

theorem HexSize.takeWhile {size : Bytes} (hs : HexSize size n) (he : G.extension size ext) :
    (size++ext++crlf).takeWhile isHexDigit=size := by
  rw [List.append_assoc,List.takeWhile_append_of_pos hs.digits]
  cases ext with
  | nil => simp [crlf,show isHexDigit 13=false by decide]
  | cons b ext => simp [G.extension_start he]

/-- The size line at the front of a stream, and the size it announces. -/
theorem SizeLine.unique {n' : ℕ} {line l : Bytes} (h : SizeLine G n line)
    (h' : SizeLine G n' l) (heq : line++rest=l++rs) : n=n' ∧ line=l ∧ rest=rs := by
  obtain ⟨text,ht,hte⟩ := h.exists_line
  obtain ⟨t,ht',hte'⟩ := h'.exists_line
  obtain ⟨rfl,hr⟩ : text=t ∧ rest=rs := append_sep_inj ht ht' (by simpa [hte,hte'] using heq)
  have hl : line=l := hte.trans hte'.symm
  refine ⟨?_,hl,hr⟩
  obtain ⟨size,ext,hs,he⟩ := h
  obtain ⟨s,e,hs',he'⟩ := h'
  have hsa : size=s := by rw [← hs.takeWhile he,← hs'.takeWhile he',hl]
  rw [← hs.value,← hs'.value,hsa]

theorem TrailerSection.unique (h : TrailerSection G wire) (h' : TrailerSection G wr)
    (heq : wire++rest=wr++rs) : wire=wr ∧ rest=rs := by
  have hcr : (10 : UInt8)∉[(13 : UInt8)] := by decide
  have hf {line} (hl : G.trailer line) : (10 : UInt8)∉line++[13] := by simp [G.trailer_oneLine hl]
  induction h generalizing wr rs with
  | done =>
    cases h' with
    | done => exact ⟨rfl,List.append_cancel_left heq⟩
    | field hli hr =>
      obtain ⟨hn,-⟩ := append_sep_inj hcr (hf hli)
        (show [13]++10::rest=_++10::(_++rs) by simpa [crlf] using heq)
      simp [G.trailer_ne_nil hli] at hn
  | @field line l hli hla ih =>
    cases h' with
    | done =>
      obtain ⟨hn,-⟩ := append_sep_inj (hf hli) hcr
        (show _++10::(l++rest)=[13]++10::rs by simpa [crlf] using heq)
      simp [G.trailer_ne_nil hli] at hn
    | @field ln l' hl' hla' =>
      obtain ⟨hs,ht⟩ := append_sep_inj (hf hli) (hf hl')
        (show _++10::(l++rest)=_++10::(l'++rs) by simpa [crlf] using heq)
      obtain ⟨rfl,hr⟩ := ih hla' ht
      exact ⟨by rw [List.append_cancel_right hs],hr⟩

theorem ChunkedBody.unique {bd b : Bytes} (h : ChunkedBody G bd wire)
    (h' : ChunkedBody G b wr) (heq : wire++rest=wr++rs) : bd=b ∧ wire=wr ∧ rest=rs := by
  induction h generalizing b wr rs with
  | last hl ht =>
    cases h' with
    | last hl' ht' =>
      obtain ⟨-,rfl,hta⟩ := hl.unique hl' (by simpa using heq)
      obtain ⟨rfl,hr⟩ := ht.unique ht' hta
      exact ⟨rfl,rfl,hr⟩
    | chunk hl' hd' =>
      obtain ⟨hz,-⟩ := hl.unique hl' (by simpa using heq)
      exact absurd (List.length_eq_zero_iff.mp hz.symm) hd'
  | chunk hl hd _ ih =>
    cases h' with
    | last hl' =>
      obtain ⟨hz,-⟩ := hl.unique hl' (by simpa using heq)
      exact absurd (List.length_eq_zero_iff.mp hz) hd
    | chunk hl' _ hr' =>
      obtain ⟨hle,rfl,hta⟩ := hl.unique hl' (by simpa using heq)
      obtain ⟨rfl,ha⟩ := List.append_inj hta hle
      obtain ⟨rfl,rfl,hr⟩ := ih hr' (List.append_cancel_left ha)
      exact ⟨rfl,rfl,hr⟩

theorem ChunkRun.append {bd b : Bytes} (hr : ChunkRun G bd wire)
    (hre : ChunkedBody G b wr) : ChunkedBody G (bd++b) (wire++wr) := by
  induction hr generalizing b wr with
  | nil => exact hre
  | snoc _ hl hd ih => simpa using ih (.chunk hl hd hre)

/-- How far a reader has come in a coded body whose chunk in progress still owes `owed`
octets. -/
inductive ChunkPosition (G : ChunkedGrammar) : ℕ → Bytes → Prop
  | between {body wire : Bytes} (hrun : ChunkRun G body wire) : ChunkPosition G 0 wire
  | inside {body wire line data : Bytes} {owed : ℕ} (hrun : ChunkRun G body wire)
      (hline : SizeLine G (data.length+owed) line) (howed : owed≠0) :
      ChunkPosition G owed (wire++(line++data))

namespace ChunkPosition

variable {w l d : Bytes} {ow n : ℕ}

theorem start : ChunkPosition G 0 [] := .between .nil

theorem sizeLine (h : ChunkPosition G 0 w) (hl : SizeLine G n l) (hn : n≠0) :
    ChunkPosition G n (w++l) := by
  cases h with
  | between hr =>
    have hp : ChunkPosition G n (w++(l++[])) := .inside hr (by simpa using hl) hn
    simpa using hp
  | inside _ _ ho => exact absurd rfl ho

theorem slice (h : ChunkPosition G ow w) (ho : ow≠0) (hl : d.length<ow) :
    ChunkPosition G (ow - d.length) (w++d) := by
  cases h with
  | between => exact absurd rfl ho
  | @inside body w l b _ hr hli _ =>
    have hs : b.length + ow = (b++d).length + (ow - d.length) := by
      simp only [List.length_append]
      omega
    simpa using ChunkPosition.inside hr (hs ▸ hli) (by omega)

theorem lastSlice (h : ChunkPosition G ow w) (ho : ow≠0)
    (ha : d.length=ow) : ChunkPosition G 0 (w++d++crlf) := by
  cases h with
  | between => exact absurd rfl ho
  | @inside body w l b _ hr hl _ =>
    have hd : b++d≠[] := by
      intro hn
      rw [(List.append_eq_nil_iff.mp hn).2] at ha
      exact ho ha.symm
    have hl' : SizeLine G (b++d).length l := by
      rw [List.length_append,ha]
      exact hl
    simpa using ChunkPosition.between (hr.snoc hl' hd)

theorem last {tr : Bytes} (h : ChunkPosition G 0 w) (hl : SizeLine G 0 l)
    (ht : TrailerSection G tr) : ∃ body,ChunkedBody G body (w++l++tr) := by
  cases h with
  | between hr => exact ⟨_,by simpa using hr.append (.last hl ht)⟩
  | inside _ _ ho => exact absurd rfl ho

end ChunkPosition

def BlankText (text : Bytes) : Prop := ∀ b∈text,isBlank b=true

structure Token (text : Bytes) : Prop where
  ne_nil : text≠[]
  tchars : ∀ b∈text,isTchar b=true

/-- The octets a quoted string holds as they are. -/
def isQdtext (b : UInt8) : Bool :=
  b=9 || b=32 || b=33 || (35≤b && b≤91) || (93≤b && b≤126) || 128≤b

def isQuotable (b : UInt8) : Bool := b=9 || (32≤b && b≤126) || 128≤b

/-- What stands between the quotes of a quoted string. -/
inductive QuotedText : Bytes → Prop
  | nil : QuotedText []
  | plain {b : UInt8} {rest : Bytes} (hb : isQdtext b=true) (hrest : QuotedText rest) :
      QuotedText (b::rest)
  | pair {b : UInt8} {rest : Bytes} (hb : isQuotable b=true) (hrest : QuotedText rest) :
      QuotedText (92::b::rest)

/-- The value of one extension: a token, or a quoted string whose text is admitted. -/
inductive ExtValue (quoted : Bytes → Prop) : Bytes → Prop
  | token {text : Bytes} (h : Token text) : ExtValue quoted text
  | quoted {text : Bytes} (h : QuotedText text) (hq : quoted text) :
      ExtValue quoted (34::text++[34])

/-- One extension without the blanks and the semicolon in front of it. -/
inductive ExtElement (quoted : Bytes → Prop) : Bytes → Prop
  | flag {name : Bytes} (hname : Token name) : ExtElement quoted name
  | assign {name before after value : Bytes} (hname : Token name) (hbefore : BlankText before)
      (hafter : BlankText after) (hvalue : ExtValue quoted value) :
      ExtElement quoted (name++before++61::(after++value))

/-- `*( BWS ";" BWS chunk-ext-name [ BWS "=" BWS chunk-ext-val ] )`. -/
inductive Extensions (quoted : Bytes → Prop) : Bytes → Prop
  | nil : Extensions quoted []
  | cons {before after element rest : Bytes} (hbefore : BlankText before)
      (hafter : BlankText after) (helement : ExtElement quoted element)
      (hrest : Extensions quoted rest) :
      Extensions quoted (before++59::(after++element++rest))

theorem BlankText.ne_lf (h : BlankText text) : 10∉text := by
  intro hm
  exact absurd (h 10 hm) (by decide)

theorem Token.ne_lf (h : Token text) : 10∉text := by
  intro hm
  exact absurd (h.tchars 10 hm) (by decide)

theorem QuotedText.ne_lf (h : QuotedText text) : 10∉text := by
  induction h with
  | nil => simp
  | @plain b rest hb _ ih =>
    have : (10 : UInt8)≠b := by rintro rfl; exact absurd hb (by decide)
    simp [this,ih]
  | @pair b rest hb _ ih =>
    have : (10 : UInt8)≠b := by rintro rfl; exact absurd hb (by decide)
    simp [this,ih]

theorem ExtValue.ne_lf {v : Bytes} (h : ExtValue qt v) : 10∉v := by
  cases h with
  | token h => exact h.ne_lf
  | quoted h => simp [h.ne_lf]

theorem ExtElement.ne_lf {e : Bytes} (h : ExtElement qt e) : 10∉e := by
  cases h with
  | flag h => exact h.ne_lf
  | assign hn hb ha hv => simp [hn.ne_lf,hb.ne_lf,ha.ne_lf,hv.ne_lf]

theorem Extensions.ne_lf (h : Extensions qt ext) : 10∉ext := by
  induction h with
  | nil => simp
  | cons hb ha he _ ih => simp [hb.ne_lf,ha.ne_lf,he.ne_lf,ih]

theorem isHexDigit_not_blank {b : UInt8} (h : isHexDigit b=true) : isBlank b=false ∧ b≠59 := by
  constructor
  · by_contra hb
    simp only [isBlank,Bool.not_eq_false,Bool.or_eq_true,decide_eq_true_eq] at hb
    obtain rfl | rfl := hb <;> exact absurd h (by decide)
  · rintro rfl
    exact absurd h (by decide)

theorem Extensions.start {b : UInt8} (h : Extensions qt (b::ext)) : isHexDigit b=false := by
  generalize hx : b::ext=text at h
  cases h with
  | nil => cases hx
  | @cons be a e rest hb ha he hr =>
    cases be with
    | nil => exact (List.cons.inj hx).1 ▸ rfl
    | cons c be =>
      obtain ⟨rfl,-⟩ := List.cons.inj hx
      exact Bool.eq_false_iff.mpr fun hh =>
        Bool.eq_false_iff.mp (isHexDigit_not_blank hh).1 (hb b List.mem_cons_self)

end BlackBull
