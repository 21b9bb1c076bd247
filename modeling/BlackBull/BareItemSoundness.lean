import BlackBull.ParsingRules
import BlackBull.FieldGrammar

/-!
# What the parsers of bare items take

Each parser of keys and bare items takes a text of its own kind, gives the value that the text
stands for, and raises nothing but `ValueError`. `advance` is the one source of an `IndexError`, so
every use of it is shown to stand behind a look at the text.
-/

namespace BlackBull.StructuredFields

open ByteString

variable {α β δ : Type}

/-- A parser that takes only such texts and fails only with `ValueError`. -/
abbrev Sound (means : Bytes → α → Prop) (p : ParserM α) (input : Bytes) : Prop :=
  Derives Fault.isValueError means p input

variable {ms : Bytes → α → Prop} {dec : Bool} {c : UInt8} {tx : Bytes} (k : ℕ)

theorem sound_throw {e : Fault} (h : e≠.indexError) {i : Bytes} :
    Sound ms (throw e : ParserM α) i :=
  Derives.throw h

theorem sound_advance {rs : Bytes} {f : UInt8 → ParserM α}
    (h : Sound (fun tx a => ms (c::tx) a) (f c) rs) : Sound ms (advance >>= f) (c::rs) := by
  refine Derives.bind (M := fun tx a => tx=[c] ∧ a=c) ?_ ?_
  · exact ⟨[c],rfl,rfl,rfl⟩
  · rintro tx r a hi ⟨rfl,rfl⟩
    obtain ⟨-,rfl⟩ := List.cons.inj hi
    exact h

theorem sound_peek {i : Bytes} {f : Option UInt8 → ParserM α}
    (h : Sound ms (f i.head?) i) : Sound ms (peek >>= f) i := by
  refine Derives.bind (M := fun tx a => tx=[] ∧ a=i.head?) ?_ ?_
  · exact ⟨[],rfl,rfl,rfl⟩
  · rintro tx rest a hi ⟨rfl,rfl⟩
    obtain rfl : i=rest := hi
    exact h

theorem sound_eof {i : Bytes} {f : Bool → ParserM α} (h : Sound ms (f i.isEmpty) i) :
    Sound ms (eof >>= f) i := by
  refine Derives.bind (M := fun tx a => tx=[] ∧ a=i.isEmpty) ?_ ?_
  · exact ⟨[],rfl,rfl,rfl⟩
  · rintro tx rest a hi ⟨rfl,rfl⟩
    obtain rfl : i=rest := hi
    exact h

/-- A character is taken behind the look that there is one. -/
theorem sound_next {e : Fault} {i : Bytes} {f : UInt8 → ParserM α} (he : e≠.indexError)
    (h : ∀ c rs,Sound (fun tx a => ms (c::tx) a) (f c) rs) :
    Sound ms (do if ← eof then throw e else advance >>= f) i := by
  refine sound_eof ?_
  cases i with
  | nil => exact sound_throw he
  | cons c i => exact Derives.ite (fun he => absurd he (by simp)) fun _ => sound_advance (h c i)

theorem sound_expect {ch : UInt8} {i : Bytes} {f : Unit → ParserM α}
    (h : ∀ rest,i=ch::rest → Sound (fun tx a => ms (ch::tx) a) (f ()) rest) :
    Sound ms (expect ch >>= f) i := by
  refine Derives.bind (M := fun tx _ => tx=[ch]) ?_ ?_
  · refine sound_peek (Derives.ite (fun hh => ?_) fun _ => sound_throw (by simp))
    obtain ⟨rest,rfl⟩ := List.head?_eq_some_iff.mp hh
    exact ⟨[ch],rfl,rfl⟩
  · rintro tx rest _ hi rfl
    exact h rest hi

theorem sound_skip {ch : UInt8 → Bool} {i : Bytes} {f : PUnit → ParserM α} (h : ∀ tx rest,i =
    tx++rest → (∀ c∈tx,ch c=true) → Sound (fun t a => ms (tx++t) a) (f ⟨⟩) rest) :
    Sound ms (modify (·.dropWhile ch) >>= f) i := by
  refine Derives.bind (M := fun tx _ => ∀ c∈tx,ch c=true) ?_ ?_
  · exact ⟨i.takeWhile ch,List.takeWhile_append_dropWhile.symm,
      fun _ hc => List.mem_takeWhile_imp hc⟩
  · intro tx rest _ hi ht
    exact h tx rest hi ht

theorem sound_word {s ch : UInt8 → Bool} (hch : ∀ c,s c=true → ch c=true)
    {f : Fault} (hf : f≠.indexError) (i : Bytes) :
    Sound (fun tx w => w=tx ∧ IsWord s ch tx)
      (do if (← peek).any s then scan ch else throw f) i := by
  refine sound_peek (Derives.ite (fun hs => ?_) fun _ => sound_throw hf)
  cases i with
  | nil => exact absurd hs (by simp)
  | cons c rest =>
    have hc : s c=true := by simpa using hs
    refine ⟨(c::rest).takeWhile ch,List.takeWhile_append_dropWhile.symm,rfl,?_,
      fun _ hc => List.mem_takeWhile_imp hc⟩
    simp [hch c hc,hc]

theorem isKeyChar_of_isKeyStart (c : UInt8) (h : isKeyStart c=true) : isKeyChar c=true := by
  simp only [isKeyStart,isKeyChar,Bool.or_eq_true] at h ⊢
  tauto

theorem isTokenChar_of_isTokenStart (c : UInt8) (h : isTokenStart c=true) : isTokenChar c=true := by
  revert c
  decide +kernel

theorem sound_parseKey (i : Bytes) : Sound (fun tx key => key=tx ∧ IsKey tx) parseKey i :=
  sound_word isKeyChar_of_isKeyStart (by simp) i

theorem sound_parseToken (i : Bytes) : Sound (fun tx t => t=tx ∧ IsToken tx) parseToken i :=
  sound_word isTokenChar_of_isTokenStart (by simp) i

/-- What `_parse_number` has read: an integer, or one with a point and digits after it. -/
def Reading (text : Bytes) : Bool → Prop
  | false => IsDigits 15 text
  | true => ∃ whole fraction,text=whole++dot::fraction ∧ IsDigits 12 whole ∧
      ∀ c∈fraction,isDigit c=true

theorem Reading.snoc (h : Reading tx dec) (hc : isDigit c=true)
    (hl : dec=false → tx.length+1≤15) : Reading (tx++[c]) dec := by
  cases dec with
  | false =>
    refine ⟨fun d hd => ?_,by simp,by simpa using hl rfl⟩
    rcases List.mem_append.mp hd with hd | hd
    · exact h.digits d hd
    · rwa [List.mem_singleton.mp hd]
  | true =>
    obtain ⟨w,fr,rfl,hw,hf⟩ := h
    refine ⟨w,fr++[c],by simp,hw,fun d hd => ?_⟩
    rcases List.mem_append.mp hd with hd | hd
    · exact hf d hd
    · rwa [List.mem_singleton.mp hd]

theorem sound_checkLength {ds i : Bytes} {M : Bytes → α → Prop} {f : PUnit → ParserM α}
    (h : (dec=false → ds.length≤15) → Sound M (f ⟨⟩) i) : Sound M (checkLength ds dec >>= f) i := by
  refine Derives.bind (M := fun tx _ => tx=[] ∧ (dec=false → ds.length≤15)) ?_ ?_
  · unfold checkLength
    refine Derives.ite (fun _ => sound_throw (by simp)) fun hi => ?_
    refine Derives.ite (fun _ => sound_throw (by simp)) fun _ => ?_
    exact Derives.pure ⟨rfl,fun hf => by simpa [hf] using hi⟩
  · rintro tx rest _ hin ⟨rfl,hl⟩
    obtain rfl : i=rest := hin
    exact h hl

theorem sound_numberLoop {ds : Bytes} (h : Reading ds dec) (i : Bytes) :
    Sound (fun tx read => read.1=ds++tx ∧ Reading read.1 read.2)
      (numberLoop k ds dec) i := by
  induction k generalizing ds dec i with
  | zero => exact Derives.pure ⟨by simp,h⟩
  | succ k ih =>
    refine sound_peek ?_
    cases i with
    | nil => exact Derives.pure ⟨by simp,h⟩
    | cons c rest =>
      refine Derives.ite (fun hc => sound_advance (sound_checkLength fun hl => ?_))
        fun _ => Derives.ite (fun hd => ?_) fun _ => Derives.pure ⟨by simp,h⟩
      · refine (ih (h.snoc hc fun hf => by simpa using hl hf) rest).mono ?_
        rintro tx read ⟨hr,hre⟩
        exact ⟨by simpa using hr,hre⟩
      · refine Derives.ite (fun _ => sound_throw (by simp)) fun hw => ?_
        refine sound_advance (sound_checkLength fun _ => ?_)
        obtain ⟨hi,rfl⟩ : dec=false ∧ c=dot := by simpa using hd
        subst hi
        have hre : Reading (ds++[dot]) true := ⟨ds,[],rfl,⟨h.digits,h.ne_nil,by omega⟩,by simp⟩
        refine (ih hre rest).mono ?_
        rintro tx read ⟨hr,hre⟩
        exact ⟨by simpa using hr,hre⟩

theorem sound_parseSign (i : Bytes) : Sound (fun tx n => tx=signText n) parseSign i := by
  refine sound_peek (Derives.ite (fun hh => ?_) fun _ => Derives.pure rfl)
  obtain ⟨rest,rfl⟩ := List.head?_eq_some_iff.mp hh
  exact sound_advance (Derives.pure rfl)

theorem dot_notMem_of_digits (h : ∀ c∈tx,isDigit c=true) : dot∉tx :=
  fun hd => absurd (h dot hd) (by decide)

theorem sound_toNumber (h : Reading tx dec) (n : Bool) (i : Bytes) :
    Sound (fun t num => t=[] ∧ NumberText (signText n++tx) num)
      (toNumber n tx dec) i := by
  cases dec with
  | false => exact Derives.pure ⟨rfl,.integer n h⟩
  | true =>
    obtain ⟨whole,fr,rfl,hw,hf⟩ := h
    unfold toNumber
    rw [partition_append dot whole fr (dot_notMem_of_digits hw.digits)]
    refine Derives.ite (fun hfa => absurd hfa (by simp)) fun _ => ?_
    refine Derives.ite (fun _ => sound_throw (by simp)) fun hne => ?_
    refine Derives.ite (fun _ => sound_throw (by simp)) fun hl => ?_
    exact Derives.pure ⟨rfl,.decimal n hw ⟨hf,hne,not_lt.mp hl⟩⟩

theorem reading_singleton (hc : isDigit c=true) : Reading [c] false :=
  ⟨by simpa using hc,by simp,by simp⟩

theorem sound_parseNumber (i : Bytes) : Sound NumberText parseNumber i := by
  refine (sound_parseSign i).bind ?_
  rintro _ rest n - rfl
  refine sound_peek (Derives.ite (fun hd => Derives.get ?_) fun _ => sound_throw (by simp))
  -- The first turn of the loop takes the digit just seen.
  obtain ⟨c,rest,rfl⟩ : ∃ c tail,rest=c::tail := by
    cases rest with
    | nil => exact absurd hd (by simp)
    | cons c rest => exact ⟨c,rest,rfl⟩
  have hc : isDigit c=true := by simpa using hd
  have hl : Sound (fun tx read => read.1=tx ∧ Reading read.1 read.2)
      (numberLoop (c::rest).length [] false) (c::rest) := by
    refine sound_peek (Derives.ite (fun _ => sound_advance (sound_checkLength fun _ => ?_))
      fun hn => absurd hc hn)
    refine (sound_numberLoop rest.length (reading_singleton hc) rest).mono ?_
    rintro tx read ⟨hr,hre⟩
    exact ⟨by simpa using hr,hre⟩
  refine hl.bind ?_
  rintro _ r read - ⟨rfl,hre⟩
  refine (sound_toNumber hre n r).mono ?_
  rintro _ num ⟨rfl,ht⟩
  simpa using ht

theorem sound_stringLoop (out i : Bytes) :
    Sound (fun tx v => ∃ body rest,tx=body++[dquote] ∧ StringText body rest ∧
      v=out++rest) (stringLoop k out) i := by
  induction k generalizing out i with
  | zero => exact sound_throw (by simp)
  | succ k ih =>
    refine sound_next (by simp) fun c i => ?_
    refine Derives.ite (fun hb => sound_next (by simp) fun next i => ?_) fun hb =>
      Derives.ite (fun hq => ?_) fun hq => Derives.ite (fun hp => ?_) fun _ => sound_throw (by simp)
    · refine Derives.ite (fun hn => ?_) fun _ => sound_throw (by simp)
      refine (ih (out++[next]) i).mono ?_
      rintro _ _ ⟨body,rest,rfl,hbo,rfl⟩
      exact ⟨backslash::next::body,next::rest,by simp [hb],.escaped hn hbo,by simp⟩
    · exact Derives.pure ⟨[],[],by simp [hq],.nil,by simp⟩
    · refine (ih (out++[c]) i).mono ?_
      rintro _ _ ⟨body,rest,rfl,hbo,rfl⟩
      exact ⟨c::body,c::rest,rfl,.plain hp hq hb hbo,by simp⟩

theorem sound_parseString (i : Bytes) :
    Sound (fun tx v => ∃ body,tx=dquote::(body++[dquote]) ∧ StringText body v)
      parseString i := by
  refine sound_expect fun rest _ => Derives.get ?_
  refine (sound_stringLoop rest.length [] rest).mono ?_
  rintro _ _ ⟨body,v,rfl,hb,rfl⟩
  exact ⟨body,rfl,hb⟩

theorem sound_displayLoop (raw i : Bytes) :
    Sound (fun tx octets => ∃ body rest,tx=body++[dquote] ∧ DisplayText body rest ∧
      octets=raw++rest) (displayLoop k raw) i := by
  induction k generalizing raw i with
  | zero => exact sound_throw (by simp)
  | succ k ih =>
    refine sound_next (by simp) fun c i => ?_
    refine Derives.ite (fun _ => sound_throw (by simp)) fun hp => ?_
    refine Derives.ite (fun hpe => Derives.get (Derives.ite
      (fun _ => sound_throw (by simp)) fun hl => ?_)) fun hpe =>
        Derives.ite (fun hq => ?_) fun hq => ?_
    · obtain ⟨high,low,i,rfl⟩ : ∃ high low tail,i=high::low::tail := by
        match i with
        | [] => exact absurd hl (by simp)
        | [_] => exact absurd hl (by simp)
        | high::low::tail => exact ⟨high,low,tail,rfl⟩
      refine sound_advance (sound_advance (Derives.ite (fun hh => ?_)
        fun _ => sound_throw (by simp)))
      refine (ih _ i).mono ?_
      rintro _ _ ⟨body,rest,rfl,hb,rfl⟩
      exact ⟨percent::high::low::body,_::rest,by simp [hpe],.escaped hh.1 hh.2 hb,by simp⟩
    · exact Derives.pure ⟨[],[],by simp [hq],.nil,by simp⟩
    · refine (ih (raw++[c]) i).mono ?_
      rintro _ _ ⟨body,rest,rfl,hb,rfl⟩
      exact ⟨c::body,c::rest,rfl,.plain (by simpa using hp) hpe hq hb,by simp⟩

theorem sound_parseBoolean (i : Bytes) :
    Sound (fun tx v => tx=[question,if v then 49 else 48]) parseBoolean i := by
  refine sound_expect fun rest _ => sound_peek ?_
  split
  · rename_i hh
    obtain ⟨rest,rfl⟩ := List.head?_eq_some_iff.mp hh
    exact sound_advance (Derives.pure rfl)
  · rename_i hh
    obtain ⟨rest,rfl⟩ := List.head?_eq_some_iff.mp hh
    exact sound_advance (Derives.pure rfl)
  · exact sound_throw (by simp)

theorem sound_parseDate (i : Bytes) :
    Sound (fun tx s => ∃ n,tx=commercialAt::n ∧
      NumberText n (.integer s)) parseDate i := by
  refine sound_expect fun rest _ => (sound_parseNumber rest).bind ?_
  intro tx r n _ ht
  cases n with
  | integer s => exact Derives.pure ⟨tx,by simp,ht⟩
  | decimal v => exact sound_throw (by simp)

variable (co : Codec δ)

theorem sound_parseDisplayString (i : Bytes) :
    Sound (fun tx v => ∃ body octets,tx=percent::dquote::(body++[dquote]) ∧
      DisplayText body octets ∧ co.utf8decode octets=some v)
      (parseDisplayString co) i := by
  refine sound_expect fun _ _ => sound_expect fun rest _ => Derives.get ?_
  refine (sound_displayLoop rest.length [] rest).bind ?_
  rintro _ r octets - ⟨body,_,rfl,hb,rfl⟩
  split
  · exact sound_throw (by simp)
  · rename_i v hd
    exact Derives.pure ⟨body,_,by simp,hb,hd⟩

theorem sound_parseByteSequence (i : Bytes) :
    Sound (fun tx octets => ∃ body,tx=colon::(body++[colon]) ∧
      (∀ c∈body,isBase64Char c=true) ∧ co.b64decode body=some octets)
      (parseByteSequence co) i := by
  refine sound_expect fun rest _ => Derives.get ?_
  refine Derives.ite (fun _ => sound_throw (by simp)) fun hc => ?_
  -- The text up to the next colon, the colon, and what is left.
  obtain ⟨c,tail,hd⟩ := List.exists_cons_of_ne_nil hc
  obtain rfl : c=colon := by
    have hh := List.head?_dropWhile_not (· ≠ colon) rest
    rw [hd] at hh
    simpa using hh
  have hr : rest=rest.takeWhile (· ≠ colon)++[colon]++tail := by
    rw [List.append_assoc,List.singleton_append,← hd,List.takeWhile_append_dropWhile]
  refine Derives.bind (M := fun tx _ => tx=rest.takeWhile (· ≠ colon)++[colon]) ?_ ?_
  · exact ⟨_,by rwa [hd,List.tail_cons],rfl⟩
  · rintro _ r _ - rfl
    refine Derives.ite (fun _ => sound_throw (by simp)) fun ha => ?_
    split
    · exact sound_throw (by simp)
    · rename_i octets hde
      exact Derives.pure ⟨_,by simp,by simpa using ha,hde⟩

theorem sound_parseBareItem (i : Bytes) : Sound (BareItemText co) (parseBareItem co) i := by
  refine sound_peek ?_
  cases i with
  | nil => exact sound_throw (by simp)
  | cons c i =>
    refine Derives.ite (fun _ => (sound_parseNumber _).map ?_) fun _ => ?_
    · exact fun tx n ht => .number ht
    refine Derives.ite (fun _ => (sound_parseString _).map ?_) fun _ => ?_
    · rintro _ v ⟨body,rfl,hb⟩
      exact .string hb
    refine Derives.ite (fun _ => (sound_parseToken _).map ?_) fun _ => ?_
    · rintro tx _ ⟨rfl,ht⟩
      exact .token ht
    refine Derives.ite (fun _ => (sound_parseByteSequence co _).map ?_) fun _ => ?_
    · rintro _ octets ⟨body,rfl,hb,hd⟩
      exact .bytes hb hd
    refine Derives.ite (fun _ => (sound_parseBoolean _).map ?_) fun _ => ?_
    · rintro _ v rfl
      exact .boolean v
    refine Derives.ite (fun _ => (sound_parseDate _).map ?_) fun _ => ?_
    · rintro _ s ⟨n,rfl,hn⟩
      exact .date hn
    refine Derives.ite (fun _ => (sound_parseDisplayString co _).map ?_) fun _ =>
      sound_throw (by simp)
    rintro _ v ⟨body,octets,rfl,hb,hd⟩
    exact .displayString hb hd

end BlackBull.StructuredFields
