import BlackBull.BareItemSoundness

/-!
# The parsers of bare items take their texts

In front of what may follow it, each text of the language of keys and bare items is taken whole and
gives the value it stands for. What may follow matters to the parsers that stop at the first other
character.
-/

namespace BlackBull.StructuredFields

open ByteString

variable {α β δ : Type}

/-- What is left begins with such a character, if with any. -/
def Follows (char : UInt8 → Bool) (rest : Bytes) : Prop := ∀ c∈rest.head?,char c=true

def endsItem (c : UInt8) : Bool := c=space || c=tab || c=comma || c=rightParen

def endsBareItem (c : UInt8) : Bool := endsItem c || c=semicolon

def endsKey (c : UInt8) : Bool := endsBareItem c || c=equals

theorem follows_nil (char : UInt8 → Bool) : Follows char [] := by simp [Follows]

variable {rest t : Bytes} {a : α} {b : Bytes} {char : UInt8 → Bool} {rs ds : Bytes}
  {k : ℕ} {i : Bytes} {num : Number} {o : Bytes} (c : UInt8)

theorem follows_cons {c : UInt8} (hc : char c=true) (rest : Bytes) :
    Follows char (c::rest) := by simpa [Follows] using hc

theorem Follows.mono {ch : UInt8 → Bool} (h : Follows char rest)
    (hi : ∀ c,char c=true → ch c=true) : Follows ch rest :=
  fun c hc => hi c (h c hc)

/-- What follows a text of such characters follows or is one of them. -/
theorem Follows.append (ht : ∀ c∈t,char c=true) (hr : Follows char rest) :
    Follows char (t++rest) := by
  cases t with
  | nil => exact hr
  | cons c t => exact follows_cons (ht c List.mem_cons_self) _

theorem takes_advance {c : UInt8} {f : UInt8 → ParserM α} (h : Takes (f c) rest a rs) :
    Takes (advance >>= f) (c::rest) a rs := h

theorem takes_peek {f : Option UInt8 → ParserM α} (h : Takes (f i.head?) i a rest) :
    Takes (peek >>= f) i a rest := h

theorem takes_eof {f : Bool → ParserM α} (h : Takes (f i.isEmpty) i a rest) :
    Takes (eof >>= f) i a rest := h

theorem takes_expect {char : UInt8} {f : Unit → ParserM α} (h : Takes (f ()) rest a rs) :
    Takes (expect char >>= f) (char::rest) a rs :=
  .bind (takes_peek (.ite_pos rfl rfl)) h

theorem takes_skip {ch : UInt8 → Bool} {f : PUnit → ParserM α} (ht : ∀ c∈t,ch c=true) (hr :
    Follows (fun c => !ch c) rest) (h : Takes (f ⟨⟩) rest a rs) :
    Takes (modify (·.dropWhile ch) >>= f) (t++rest) a rs := by
  refine .bind (a := ⟨⟩) ?_ h
  change EStateM.Result.ok PUnit.unit ((t++rest).dropWhile ch)=.ok ⟨⟩ rest
  rw [(takeWhile_append_of_stop ht fun c hc => by simpa using hr c hc).2]

theorem takes_scan {ch : UInt8 → Bool} (ht : ∀ c∈t,ch c=true)
    (hr : Follows (fun c => !ch c) rest) : Takes (scan ch) (t++rest) t rest := by
  obtain ⟨hta,hd⟩ := takeWhile_append_of_stop ht fun c hc => by simpa using hr c hc
  change EStateM.Result.ok ((t++rest).takeWhile ch) ((t++rest).dropWhile ch)=_
  rw [hta,hd]

theorem IsWord.exists_cons {s : UInt8 → Bool} (h : IsWord s char t) :
    ∃ c tail,t=c::tail ∧ s c=true := by
  cases t with
  | nil => exact absurd h.starts (by simp)
  | cons c tail => exact ⟨c,tail,rfl,by simpa using h.starts⟩

theorem takes_word {s : UInt8 → Bool} {f : Fault} (h : IsWord s char t)
    (hr : Follows (fun c => !char c) rest) :
    Takes (do if (← peek).any s then scan char else throw f) (t++rest) t rest := by
  obtain ⟨c,tail,rfl,hc⟩ := h.exists_cons
  exact takes_peek (.ite_pos (by simpa using hc) (takes_scan h.chars hr))

theorem not_isKeyChar_of_endsKey : endsKey c=true → (!isKeyChar c)=true := by
  revert c
  decide +kernel

theorem takes_parseKey {key : Bytes} (hk : IsKey key) (hr : Follows endsKey rest) :
    Takes parseKey (key++rest) key rest :=
  takes_word hk (hr.mono not_isKeyChar_of_endsKey)

theorem not_isTokenChar_of_endsBareItem : endsBareItem c=true → (!isTokenChar c)=true := by
  revert c
  decide +kernel

theorem takes_parseToken {t : Bytes} (ht : IsToken t)
    (hr : Follows endsBareItem rest) : Takes parseToken (t++rest) t rest :=
  takes_word ht (hr.mono not_isTokenChar_of_endsBareItem)

theorem takes_checkLength {id : Bool} {f : PUnit → ParserM α}
    (hl : ds.length ≤ if id then 16 else 15) (h : Takes (f ⟨⟩) i a rest) :
    Takes (checkLength ds id >>= f) i a rest := by
  refine .bind (a := ⟨⟩) (.ite_neg ?_ (.ite_neg ?_ .pure)) h
  · rintro ⟨hi,hlo⟩
    simp only [Bool.not_eq_true',← Bool.not_eq_true] at hi
    rw [if_neg hi] at hl
    omega
  · rintro ⟨hd,hlo⟩
    rw [if_pos hd] at hl
    omega

theorem takes_numberLoop_digits (hd : ∀ c∈ds,isDigit c=true) (read : Bytes)
    {id : Bool} {r : Bytes × Bool} (hl : read.length+ds.length ≤ if id then 16 else 15)
    (h : Takes (numberLoop k (read++ds) id) rest r rs) :
    Takes (numberLoop (k+ds.length) read id) (ds++rest) r rs := by
  induction ds generalizing read with
  | nil => simpa using h
  | cons c ds ih =>
    obtain ⟨hc,hd⟩ := List.forall_mem_cons.mp hd
    rw [List.length_cons] at hl
    refine takes_peek (.ite_pos hc (takes_advance (takes_checkLength ?_
      (ih hd (read++[c]) ?_ ?_))))
    · rw [List.length_append,List.length_singleton]
      omega
    · rw [List.length_append,List.length_singleton]
      omega
    · simpa using h

def endsNumber (c : UInt8) : Bool := !isDigit c && c≠dot

theorem endsNumber_of_endsBareItem : endsBareItem c=true → endsNumber c=true := by
  revert c
  decide +kernel

theorem takes_numberLoop_stop (k : ℕ) (read : Bytes) (id : Bool) (hr : Follows endsNumber rest) :
    Takes (numberLoop k read id) rest (read,id) rest := by
  cases k with
  | zero => exact .pure
  | succ k =>
    refine takes_peek ?_
    cases rest with
    | nil => exact .pure
    | cons c rest =>
      have hc : endsNumber c=true := hr c rfl
      obtain ⟨hd,hdo⟩ : isDigit c=false ∧ c≠dot := by simpa [endsNumber] using hc
      exact .ite_neg (by simp [hd]) (.ite_neg (by simp [hdo]) .pure)

theorem takes_numberLoop_dot {w : Bytes} {r : Bytes × Bool} (hw : w.length≤12)
    (h : Takes (numberLoop k (w++[dot]) true) rest r rs) :
    Takes (numberLoop (k+1) w false) (dot::rest) r rs := by
  refine takes_peek (.ite_neg (by decide) (.ite_pos (by simp) (.ite_neg
    (not_lt.mpr hw) (takes_advance (takes_checkLength ?_ h)))))
  rw [List.length_append,List.length_singleton,if_pos rfl]
  omega

theorem takes_parseSign (n : Bool) (hr : rest.head? ≠ some hyphen) :
    Takes parseSign (signText n++rest) n rest := by
  cases n with
  | false => exact takes_peek (.ite_neg hr .pure)
  | true => exact takes_peek (.ite_pos rfl (takes_advance .pure))

theorem IsDigits.exists_cons {l : ℕ} (h : IsDigits l t) :
    ∃ c tail,t=c::tail ∧ isDigit c=true := by
  obtain ⟨c,tail,rfl⟩ := List.exists_cons_of_ne_nil h.ne_nil
  exact ⟨c,tail,rfl,h.digits c List.mem_cons_self⟩

theorem takes_parseNumber_of_loop {n : Bool} {c : UInt8} (hc : isDigit c=true) {read : Bytes ×
    Bool} (hl : Takes (numberLoop (c::ds++rest).length [] false) (c::ds++rest) read
    rest) (hn : Takes (toNumber n read.1 read.2) rest num rest) :
    Takes parseNumber (signText n++(c::ds)++rest) num rest := by
  rw [List.append_assoc]
  refine .bind (takes_parseSign n ?_) ?_
  · simp only [List.cons_append,List.head?_cons,ne_eq,Option.some.injEq]
    rintro rfl
    exact absurd hc (by decide)
  · exact takes_peek (.ite_pos (by simpa using hc) (.get (hl.bind hn)))

theorem takes_numberLoop_integer (hd : IsDigits 15 ds) (hr : Follows endsNumber rest) :
    Takes (numberLoop (ds++rest).length [] false) (ds++rest) (ds,false) rest := by
  have hs := takes_numberLoop_stop rest.length ds false hr
  rw [List.length_append,Nat.add_comm]
  exact takes_numberLoop_digits hd.digits [] (by simpa using hd.length_le) hs

theorem takes_numberLoop_decimal {w f : Bytes} (hw : IsDigits 12 w)
    (hf : IsDigits 3 f) (hr : Follows endsNumber rest) :
    Takes (numberLoop (w++dot::f++rest).length [] false)
      (w++dot::f++rest) (w++dot::f,true) rest := by
  have hw' := hw.length_le
  have hf' := hf.length_le
  have hs := takes_numberLoop_stop rest.length (w++[dot]++f) true hr
  have hp := takes_numberLoop_digits hf.digits (w++[dot])
    (by rw [List.length_append,List.length_singleton,if_pos rfl]; omega) hs
  have hl := takes_numberLoop_digits hw.digits [] (by simp; omega) (takes_numberLoop_dot hw' hp)
  have hfu : (w++dot::f++rest).length = rest.length+f.length+1+w.length := by
    simp only [List.length_append,List.length_cons]
    omega
  rw [hfu]
  simpa using hl

theorem takes_parseNumber (h : NumberText t num) (hr : Follows endsBareItem rest) :
    Takes parseNumber (t++rest) num rest := by
  have he : Follows endsNumber rest := hr.mono endsNumber_of_endsBareItem
  cases h with
  | @integer n ds hd =>
    have hl := takes_numberLoop_integer hd he
    obtain ⟨c,tail,rfl,hc⟩ := hd.exists_cons
    exact takes_parseNumber_of_loop hc hl .pure
  | @decimal n w f hw hf =>
    have hl := takes_numberLoop_decimal hw hf he
    have hcu := partition_append dot w f (dot_notMem_of_digits hw.digits)
    have hn : Takes (toNumber n (w++dot::f) true) rest
        (.decimal (signed n ((ofDigits 10 (w++f) : ℚ) / 10^f.length))) rest := by
      unfold toNumber
      rw [hcu]
      exact .ite_neg (by simp) (.ite_neg hf.ne_nil (.ite_neg
        (not_lt.mpr hf.length_le) .pure))
    obtain ⟨c,tail,rfl,hc⟩ := hw.exists_cons
    exact takes_parseNumber_of_loop hc hl hn

theorem takes_stringLoop {v : Bytes} (h : StringText b v) (hf : b.length<k)
    (out rest : Bytes) : Takes (stringLoop k out) (b++dquote::rest) (out++v) rest := by
  induction h generalizing k out
  all_goals obtain ⟨k,rfl⟩ := Nat.exists_eq_succ_of_ne_zero (Nat.ne_zero_of_lt hf)
  case nil =>
    rw [List.append_nil]
    exact takes_eof (.ite_neg (by simp) (takes_advance (.ite_neg (by decide)
      (.ite_pos rfl .pure))))
  case plain c t v hp hq hb ht ih =>
    have hl := ih (Nat.lt_of_succ_lt_succ hf) (out++[c])
    rw [List.append_assoc] at hl
    exact takes_eof (.ite_neg (by simp) (takes_advance (.ite_neg hb
      (.ite_neg hq (.ite_pos hp hl)))))
  case escaped c t v hc ht ih =>
    have ht : t.length<k := by
      simp only [List.length_cons] at hf
      omega
    have hl := ih ht (out++[c])
    rw [List.append_assoc] at hl
    exact takes_eof (.ite_neg (by simp) (takes_advance (.ite_pos rfl (takes_eof
      (.ite_neg (by simp) (takes_advance (.ite_pos hc hl)))))))

theorem takes_parseString {v : Bytes} (h : StringText b v) :
    Takes parseString (dquote::(b++[dquote])++rest) v rest := by
  have hl := takes_stringLoop h (Nat.lt_add_of_pos_right (Nat.succ_pos rest.length)) [] rest
  refine takes_expect (.get ?_)
  simpa using hl

theorem takes_displayLoop (h : DisplayText b o) (hf : b.length<k) (raw rest : Bytes) :
    Takes (displayLoop k raw) (b++dquote::rest) (raw++o) rest := by
  induction h generalizing k raw
  all_goals obtain ⟨k,rfl⟩ := Nat.exists_eq_succ_of_ne_zero (Nat.ne_zero_of_lt hf)
  case nil =>
    rw [List.append_nil]
    exact takes_eof (.ite_neg (by simp) (takes_advance (.ite_neg (by decide)
      (.ite_neg (by decide) (.ite_pos rfl .pure)))))
  case plain c t o hp hpe hq ht ih =>
    have hl := ih (Nat.lt_of_succ_lt_succ hf) (raw++[c])
    rw [List.append_assoc] at hl
    exact takes_eof (.ite_neg (by simp) (takes_advance (.ite_neg (by simp [hp])
      (.ite_neg hpe (.ite_neg hq hl)))))
  case escaped high low t o hh hlo ht ih =>
    have ht : t.length<k := by
      simp only [List.length_cons] at hf
      omega
    have hl := ih ht (raw++[UInt8.ofNat (ofDigits 16 [high,low])])
    rw [List.append_assoc] at hl
    exact takes_eof (.ite_neg (by simp) (takes_advance (.ite_neg (by decide)
      (.ite_pos rfl (.get (.ite_neg (by simp) (takes_advance (takes_advance
        (.ite_pos ⟨hh,hlo⟩ hl)))))))))

theorem takes_parseBoolean (v : Bool) (rest : Bytes) :
    Takes parseBoolean ([question,if v then 49 else 48]++rest) v rest := by
  cases v with
  | false | true => exact takes_expect (takes_peek (takes_advance .pure))

theorem takes_parseDate {s : ℤ} (h : NumberText t (.integer s))
    (hr : Follows endsBareItem rest) : Takes parseDate (commercialAt::t++rest) s rest :=
  takes_expect (.bind (takes_parseNumber h hr) .pure)

variable (co : Codec δ)

theorem takes_parseDisplayString {v : δ} (h : DisplayText b o) (hd : co.utf8decode o=some v) :
    Takes (parseDisplayString co) (percent::dquote::(b++[dquote])++rest) v rest := by
  have hl := takes_displayLoop h (Nat.lt_add_of_pos_right (Nat.succ_pos rest.length)) [] rest
  have hr : Takes (displayLoop (b++[dquote]++rest).length []) (b++[dquote]++rest) o rest := by
    simpa using hl
  refine takes_expect (takes_expect (.get (hr.bind ?_)))
  simp only [hd]
  exact .pure

theorem colon_notMem_of_base64 (h : ∀ c∈b,isBase64Char c=true) :
    ∀ c∈b,decide (c≠colon)=true := by
  intro c hc
  rw [decide_eq_true_iff]
  rintro rfl
  exact absurd (h colon hc) (by decide)

theorem takes_parseByteSequence (hb : ∀ c∈b,isBase64Char c=true) (hd : co.b64decode b=some o) :
    Takes (parseByteSequence co) (colon::(b++[colon])++rest) o rest := by
  have hs : ∀ c∈(colon::rest).head?,decide (c≠colon)=false := by simp
  obtain ⟨ht,hdr⟩ := takeWhile_append_of_stop (colon_notMem_of_base64 hb) hs
  rw [List.cons_append,List.append_assoc,List.singleton_append]
  refine takes_expect (.get ?_)
  simp only [ht,hdr]
  have hse : Takes (set rest : ParserM PUnit) (b++colon::rest) ⟨⟩ rest := rfl
  refine .ite_neg (by simp) (hse.bind (.ite_neg ?_ ?_))
  · simpa using hb
  · simp only [hd]
    exact .pure

def startsBareItem (c : UInt8) : Bool :=
  c=hyphen || isDigit c || c=dquote || isTokenStart c || c=colon || c=question ||
    c=commercialAt || c=percent

theorem NumberText.exists_cons (h : NumberText t num) :
    ∃ c tail,t=c::tail ∧ (c=hyphen ∨ isDigit c=true) := by
  cases h with
  | @integer n ds hd =>
    cases n with
    | true => exact ⟨hyphen,ds,rfl,.inl rfl⟩
    | false =>
      obtain ⟨c,tail,rfl,hc⟩ := hd.exists_cons
      exact ⟨c,tail,rfl,.inr hc⟩
  | @decimal n w f hw hf =>
    cases n with
    | true => exact ⟨hyphen,_,rfl,.inl rfl⟩
    | false =>
      obtain ⟨c,tail,rfl,hc⟩ := hw.exists_cons
      exact ⟨c,_,rfl,.inr hc⟩

theorem BareItemText.exists_cons {co : Codec δ} {br : BareItem δ}
    (h : BareItemText co t br) : ∃ c tail,t=c::tail ∧ startsBareItem c=true := by
  cases h with
  | number ht =>
    obtain ⟨c,tail,rfl,hc⟩ := ht.exists_cons
    refine ⟨c,tail,rfl,?_⟩
    rcases hc with rfl | hc
    · decide
    · simp [startsBareItem,hc]
  | token ht =>
    obtain ⟨c,tail,rfl,hc⟩ := ht.exists_cons
    exact ⟨c,tail,rfl,by simp [startsBareItem,hc]⟩
  | string ht => exact ⟨dquote,_,rfl,by decide⟩
  | bytes ht hd => exact ⟨colon,_,rfl,by decide⟩
  | boolean v => exact ⟨question,_,rfl,by decide⟩
  | date ht => exact ⟨commercialAt,_,rfl,by decide⟩
  | displayString ht hd => exact ⟨percent,_,rfl,by decide⟩

theorem tokenStart_facts : isTokenStart c=true →
    ¬ (c=hyphen ∨ isDigit c=true) ∧ c≠dquote := by
  revert c
  decide +kernel

theorem takes_parseBareItem {br : BareItem δ} (h : BareItemText co t br)
    (hr : Follows endsBareItem rest) : Takes (parseBareItem co) (t++rest) br rest := by
  refine takes_peek ?_
  cases h with
  | number ht =>
    have hn := takes_parseNumber ht hr
    obtain ⟨c,tail,rfl,hc⟩ := ht.exists_cons
    exact .ite_pos hc (.map hn)
  | token ht =>
    have hto := takes_parseToken ht hr
    obtain ⟨c,tail,rfl,hc⟩ := ht.exists_cons
    obtain ⟨hn,hq⟩ := tokenStart_facts c hc
    exact .ite_neg hn (.ite_neg hq (.ite_pos hc (.map hto)))
  | string ht => exact .ite_neg (by decide) (.ite_pos rfl (.map (takes_parseString ht)))
  | bytes ht hd =>
    iterate 3 refine .ite_neg (by decide) ?_
    exact .ite_pos rfl (.map (takes_parseByteSequence co ht hd))
  | boolean v =>
    iterate 4 refine .ite_neg (by decide) ?_
    exact .ite_pos rfl (.map (takes_parseBoolean v rest))
  | date ht =>
    iterate 5 refine .ite_neg (by decide) ?_
    exact .ite_pos rfl (.map (takes_parseDate ht hr))
  | displayString ht hd =>
    iterate 6 refine .ite_neg (by decide) ?_
    exact .ite_pos rfl (.map (takes_parseDisplayString co ht hd))

end BlackBull.StructuredFields
