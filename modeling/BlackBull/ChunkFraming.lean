import BlackBull.ChunkedCoding

/-!
# Chunk-size lines and trailer names

The checks `recipient.py` makes on the lines of a chunked body, with the errors
they answer, and how the lines they accept relate to the coding.
-/

namespace BlackBull

open ByteString

structure HTTPException where
  status : ℕ
  detail : String
  deriving DecidableEq

def badRequest (detail : String) : HTTPException := ⟨400,detail⟩

def contentTooLarge (detail : String) : HTTPException := ⟨413,detail⟩

def chunkLineMax : ℕ := 8192

def prohibitedTrailerFields : List Bytes :=
  ["transfer-encoding", "content-length", "host", "content-type",
    "content-encoding", "content-range", "trailer", "te",
    "authorization", "proxy-authorization", "cookie", "set-cookie",
    "cache-control", "expect", "max-forwards", "pragma", "range"].map ascii

def isToken (text : Bytes) : Bool := !text.isEmpty && text.all isTchar

def validateChunkExtVal (val : Bytes) : Except HTTPException Unit :=
  if val.take 1=[34] then
    if val.length<2 || !endsWith val [34] || val.any (fun c => c<32 && c != 9) then
      .error (badRequest ("invalid quoted chunk-ext-val " ++ reprBytes val))
    else .ok ()
  else if isToken val then .ok ()
  else .error (badRequest ("invalid chunk-ext-val " ++ reprBytes val))

/-- One element of `ext.split(b';')[1:]`. -/
def validateChunkExtElement (element : Bytes) : Except HTTPException Unit :=
  let (name,eq,val) := partition 61 (strip isBlank element)
  let name := rstrip isBlank name
  if !isToken name then .error (badRequest ("invalid chunk-ext-name " ++ reprBytes name))
  else if eq then validateChunkExtVal (strip isBlank val)
  else .ok ()

/-- `ext` is the chunk line from the end of the size onward. -/
def validateChunkExt (ext : Bytes) : Except HTTPException Unit :=
  forM (splitByte 59 ext).tail validateChunkExtElement

def chunkSizeOf (sizePart : Bytes) : Except HTTPException ℕ :=
  if sizePart=[] || sizePart.any (fun c => !isHexDigit c) then
    throw (badRequest ("invalid chunk-size " ++ reprBytes sizePart))
  else pure (ofDigits 16 sizePart)

def parseChunkSize (line : Bytes) : Except HTTPException ℕ :=
  if !endsWith line crlf || line.count 10 != 1 then
    throw (badRequest ("chunk-size line not CRLF-terminated: " ++ reprBytes line))
  else
    let line := line.take (line.length - 2)
    if 59∈line then do
      let sizePart := rstrip isBlank (partition 59 line).1
      validateChunkExt (line.drop sizePart.length)
      chunkSizeOf sizePart
    else chunkSizeOf line

/-- The field name of a trailer line, as the prohibition looks it up. -/
def trailerName (line : Bytes) : Bytes :=
  lower (strip isBlank (partition 58 line).1)

example : parseChunkSize (ascii "1A ; a=\"b\"" ++ crlf)=.ok 26 := by decide

/-- The coding as the recipient delimits it: it reads lines, and looks inside a line only
for the end of the size. -/
def lineGrammar : ChunkedGrammar where
  extension _ ext := 10∉ext ∧
    (ext=[] ∨ ∃ blanks rest,BlankText blanks ∧ ext=blanks++59::rest)
  trailer line := 10∉line ∧ line≠[]
  extension_oneLine h := h.1
  extension_start := by
    rintro - b ext ⟨-,hnil | ⟨blanks,rest,hblanks,heq⟩⟩
    · cases hnil
    · cases blanks with
      | nil =>
        obtain ⟨rfl,-⟩ := List.cons.inj heq
        decide
      | cons c blanks =>
        obtain ⟨rfl,-⟩ := List.cons.inj heq
        have hb := hblanks b List.mem_cons_self
        simp only [isBlank,Bool.or_eq_true,decide_eq_true_eq] at hb
        obtain rfl | rfl := hb <;> decide
  trailer_oneLine h := h.1
  trailer_ne_nil h := h.2

variable {text : Bytes} {b : UInt8} {ext : Bytes} {n : ℕ} {line value element : Bytes}

theorem chunkSizeOf_eq_ok {sp : Bytes} : chunkSizeOf sp=.ok n ↔ HexSize sp n := by
  unfold chunkSizeOf
  split_ifs with h
  · constructor
    · intro hc
      cases hc
    · rintro ⟨hne,hd,-⟩
      simp only [Bool.or_eq_true,decide_eq_true_eq,List.any_eq_true] at h
      obtain h | ⟨b,hb,hh⟩ := h
      · exact absurd h hne
      · simp [hd b hb] at hh
  · simp only [Bool.or_eq_true,decide_eq_true_eq,List.any_eq_true,not_or,not_exists,not_and] at h
    constructor
    · intro hc
      exact ⟨h.1,fun b hb => by simpa using h.2 b hb,by simpa [pure,Except.pure] using hc⟩
    · rintro ⟨-,-,rfl⟩
      rfl

theorem crlf_line : (endsWith line crlf=true ∧ line.count 10=1) ↔
      ∃ text,10∉text ∧ line=text++crlf := by
  constructor
  · rintro ⟨he,hc⟩
    obtain ⟨text,rfl⟩ := List.isSuffixOf_iff_suffix.mp he
    refine ⟨text,?_,rfl⟩
    rw [List.count_append] at hc
    exact List.count_eq_zero.mp (by simpa [crlf] using hc)
  · rintro ⟨text,ht,rfl⟩
    refine ⟨List.isSuffixOf_iff_suffix.mpr (List.suffix_append _ _),?_⟩
    rw [List.count_append,List.count_eq_zero.mpr ht]
    decide

theorem sizePart_split (h : 59∈text) : ∃ bl rest,BlankText bl ∧
      text=rstrip isBlank (partition 59 text).1++(bl++59::rest) := by
  obtain ⟨f,rest,hf,rfl⟩ : ∃ f rest,59∉f ∧ text=f++59::rest := by
    obtain ⟨f,rest,heq,hf⟩ := List.eq_append_cons_of_mem h
    exact ⟨f,rest,hf,heq⟩
  rw [partition_append 59 f rest hf]
  refine ⟨f.rtakeWhile isBlank,rest,fun b hb => List.mem_rtakeWhile_imp hb,?_⟩
  rw [← List.append_assoc]
  congr 1
  exact List.rdropWhile_append_rtakeWhile.symm

theorem parseChunkSize_crlf (h : 10∉text) : parseChunkSize (text++crlf)=if 59∈text then do
        let sp := rstrip isBlank (partition 59 text).1
        validateChunkExt (text.drop sp.length)
        chunkSizeOf sp
      else chunkSizeOf text := by
  have hl := crlf_line.mpr ⟨text,h,rfl⟩
  have ht : (text++crlf).take ((text++crlf).length - 2) = text := by simp [crlf]
  simp only [parseChunkSize,hl.1,hl.2,ht]
  rfl

/-! ## The extensions that are let through

The check cuts at every semicolon, and looks into a quoted value for control octets only. -/

theorem isToken_iff : isToken text=true ↔ Token text := by
  simp only [isToken,Bool.and_eq_true,Bool.not_eq_true',List.isEmpty_eq_false_iff,List.all_eq_true]
  exact ⟨fun h => ⟨h.1,h.2⟩,fun h => ⟨h.1,h.2⟩⟩

theorem isTchar_not_blank (h : isTchar b=true) : isBlank b=false := by
  by_contra hb
  simp only [isBlank,Bool.not_eq_false,Bool.or_eq_true,decide_eq_true_eq] at hb
  obtain rfl | rfl := hb <;> exact absurd h (by decide)

theorem Token.notMem (h : Token text) (hb : isTchar b=false) : b∉text := by
  intro hm
  rw [h.tchars b hm] at hb
  cases hb

theorem BlankText.notMem (h : BlankText text) (hb : isBlank b=false) : b∉text := by
  intro hm
  rw [h b hm] at hb
  cases hb

theorem blankText_nil : BlankText [] := by simp [BlankText]

theorem Token.trimmed (h : Token text) : Trimmed isBlank text :=
  ⟨fun b hb => isTchar_not_blank (h.tchars b (List.mem_of_mem_head? hb)),
    fun b hb => isTchar_not_blank (h.tchars b (List.mem_of_mem_getLast? hb))⟩

theorem QuotedText.printable (h : QuotedText text) : ∀ b∈text,(b<32 && b != 9)=false := by
  have hq : ∀ b,isQuotable b=true → (b<32 && b != 9)=false := by
    intro b hb
    by_contra hc
    simp only [isQuotable,Bool.or_eq_true,Bool.and_eq_true,decide_eq_true_eq,
      Bool.not_eq_false,bne_iff_ne] at hb hc
    grind
  have hd : ∀ b,isQdtext b=true → isQuotable b=true := by
    intro b hb
    simp only [isQdtext,isQuotable,Bool.or_eq_true,Bool.and_eq_true,decide_eq_true_eq] at hb ⊢
    grind
  induction h with
  | nil => simp
  | plain hb _ ih => simpa only [List.forall_mem_cons] using ⟨hq _ (hd _ hb),ih⟩
  | pair hb _ ih => simpa only [List.forall_mem_cons] using ⟨by decide,hq _ hb,ih⟩

/-- A quoted value may hold anything but the semicolon the check cuts at. -/
def noSemicolon (text : Bytes) : Prop := 59∉text

/-- A value that is let through: a token, or a text between two quotes. -/
inductive TakenValue : Bytes → Prop
  | token {text : Bytes} (h : Token text) : TakenValue text
  | quoted {text : Bytes} (hplain : ∀ b∈text,(b<32 && b != 9)=false)
      (hsemi : noSemicolon text) : TakenValue (34::text++[34])

inductive TakenElement : Bytes → Prop
  | flag {name : Bytes} (hname : Token name) : TakenElement name
  | assign {name before after value : Bytes} (hname : Token name) (hbefore : BlankText before)
      (hafter : BlankText after) (hvalue : TakenValue value) :
      TakenElement (name++before++61::(after++value))

/-- Blanks are let through after the last extension, too. -/
inductive TakenExtensions : Bytes → Prop
  | nil : TakenExtensions []
  | cons {before after element tail rest : Bytes} (hbefore : BlankText before)
      (hafter : BlankText after) (helement : TakenElement element) (htail : BlankText tail)
      (hrest : TakenExtensions rest) :
      TakenExtensions (before++59::(after++element++tail++rest))

theorem Extensions.taken (h : Extensions noSemicolon ext) : TakenExtensions ext := by
  have hva {value : Bytes} (h : ExtValue noSemicolon value) : TakenValue value := by
    cases h with
    | token h => exact .token h
    | quoted h hq => exact .quoted h.printable hq
  induction h with
  | nil => exact .nil
  | @cons be a element rest hbe haf he _ ih =>
    have ht : TakenElement element := by
      cases he with
      | flag hn => exact .flag hn
      | assign hn hb ha hv => exact .assign hn hb ha (hva hv)
    simpa using TakenExtensions.cons hbe haf ht blankText_nil ih

theorem TakenValue.trimmed (h : TakenValue value) : value≠[] ∧ Trimmed isBlank value := by
  cases h with
  | token h => exact ⟨h.ne_nil,h.trimmed⟩
  | @quoted text h =>
    refine ⟨by simp,?_,?_⟩
    · simp
      decide
    · rw [List.getLast?_concat]
      simp
      decide

theorem TakenElement.trimmed (h : TakenElement element) : element≠[] ∧ Trimmed isBlank element := by
  cases h with
  | flag h => exact ⟨h.ne_nil,h.trimmed⟩
  | @assign name be a value hn hbe ha hv =>
    refine ⟨by simp,?_,?_⟩
    · intro b hb
      refine hn.trimmed.first b ?_
      obtain ⟨c,name,rfl⟩ := List.exists_cons_of_ne_nil hn.ne_nil
      simpa using hb
    · intro b hb
      refine hv.trimmed.2.last b ?_
      simpa [List.getLast?_append,List.getLast?_cons,
        List.getLast?_eq_some_getLast hv.trimmed.1] using hb

theorem TakenElement.notMem (h : TakenElement element) (hb : b=10 ∨ b=59) : b∉element := by
  have ht : isTchar b=false := by rcases hb with rfl | rfl <;> decide
  have hbl : isBlank b=false := by rcases hb with rfl | rfl <;> decide
  cases h with
  | flag h => exact h.notMem ht
  | @assign name be a value hn hbe ha hv =>
    have hv : b∉value := by
      cases hv with
      | token h => exact h.notMem ht
      | @quoted text hp hs =>
        have hlf : (10 : UInt8)∉text := fun hm => absurd (hp 10 hm) (by decide)
        rcases hb with rfl | rfl
        · simp [hlf]
        · simpa [noSemicolon] using hs
    have heq : b≠61 := by rcases hb with rfl | rfl <;> decide
    simp [hn.notMem ht,hbe.notMem hbl,ha.notMem hbl,hv,heq]

theorem TakenExtensions.ne_lf (h : TakenExtensions ext) : 10∉ext := by
  induction h with
  | nil => simp
  | cons hb ha he ht _ ih => simp [hb.ne_lf,ha.ne_lf,he.notMem (.inl rfl),ht.ne_lf,ih]

theorem validateChunkExtVal_accepts (h : TakenValue value) : validateChunkExtVal value=.ok () := by
  cases h with
  | token h =>
    have hqu : ¬ value.take 1=[34] := by
      intro hq
      have hm : (34 : UInt8)∈value.take 1 := by simp [hq]
      exact h.notMem (by decide) (List.mem_of_mem_take hm)
    rw [validateChunkExtVal,if_neg hqu,if_pos (isToken_iff.mpr h)]
  | @quoted text hp =>
    have he : endsWith (34::text++[34]) [34]=true :=
      List.isSuffixOf_iff_suffix.mpr (List.suffix_append _ _)
    have hc : (34::text++[34]).any (fun c => c<32 && c != 9)=false := by
      rw [List.any_eq_false]
      intro b hb
      simp only [List.cons_append,List.mem_cons,List.mem_append,List.not_mem_nil,or_false] at hb
      obtain rfl | hb | rfl := hb
      · decide
      · simpa using hp b hb
      · decide
    rw [validateChunkExtVal,if_pos (by simp),if_neg]
    rw [he,hc]
    simp

theorem validateChunkExtElement_accepts {f tail : Bytes} (hf : BlankText f)
    (he : TakenElement element) (ht : BlankText tail) :
    validateChunkExtElement (f++element++tail)=.ok () := by
  have htr := he.trimmed
  rw [validateChunkExtElement,strip_append hf htr.2 htr.1 ht]
  cases he with
  | flag hn =>
    have hs : rstrip isBlank element=element := by
      simpa using rstrip_append blankText_nil hn.trimmed.last
    simp [partition_of_notMem 61 element (hn.notMem (by decide)),hs,isToken_iff.mpr hn]
  | @assign name be a value hn hb ha hv =>
    have heq : 61∉name++be := by
      simp [hn.notMem (b := 61) (by decide),hb.notMem (b := 61) (by decide)]
    have hvt := hv.trimmed
    have hva : strip isBlank (a++value)=value := by
      simpa using strip_append ha hvt.2 hvt.1 blankText_nil
    rw [partition_append 61 _ _ heq]
    simp [rstrip_append hb hn.trimmed.last,isToken_iff.mpr hn,hva,validateChunkExtVal_accepts hv]

theorem TakenExtensions.split (h : TakenExtensions ext) :
    ∃ bl p,splitByte 59 ext=bl::p ∧ BlankText bl ∧
      forM p validateChunkExtElement=.ok () := by
  have hbl : isBlank 59=false := by decide
  induction h with
  | nil => exact ⟨[],[],rfl,blankText_nil,rfl⟩
  | @cons be a element tail rest hbe ha he ht _ ih =>
    obtain ⟨bl,p,hs,hbla,hp⟩ := ih
    obtain ⟨f,later,hf,hal⟩ := splitByte_append 59 (a++element++tail) rest
      (by simp [ha.notMem hbl,he.notMem,ht.notMem hbl])
    rw [hs] at hf
    obtain ⟨rfl,rfl⟩ := List.cons.inj hf
    refine ⟨be,_,splitByte_append_sep 59 be _ (hbe.notMem hbl),hbe,?_⟩
    have hl : BlankText (tail++bl) := fun b hb => (List.mem_append.mp hb).elim (ht b) (hbla b)
    rw [hal,List.forM_cons,List.append_assoc,validateChunkExtElement_accepts ha he hl]
    exact hp

theorem parseChunkSize_accepts {size : Bytes} (hs : HexSize size n)
    (he : TakenExtensions ext) : parseChunkSize (size++ext++crlf)=.ok n := by
  have hse : 59∉size := fun hm => (isHexDigit_not_blank (hs.digits 59 hm)).2 rfl
  have hlf : 10∉size++ext := by
    simpa [he.ne_lf] using fun hm => isHexDigit_ne_lf (hs.digits 10 hm) rfl
  obtain ⟨bl,p,hsp,-,hp⟩ := he.split
  rw [parseChunkSize_crlf hlf]
  cases he with
  | nil => simpa [hse] using chunkSizeOf_eq_ok.mpr hs
  | @cons be a element tail rest hbe ha hel ht hr =>
    have hc : 59∉size++be := by simp [hse,hbe.notMem (b := 59) (by decide)]
    have hl : ∀ b∈size.getLast?,isBlank b=false := fun b hb =>
      (isHexDigit_not_blank (hs.digits b (List.mem_of_mem_getLast? hb))).1
    rw [← List.append_assoc,if_pos (by simp),partition_append 59 _ _ hc]
    simp only [rstrip_append hbe hl]
    rw [List.append_assoc,List.drop_left,validateChunkExt,hsp,List.tail_cons,hp]
    exact chunkSizeOf_eq_ok.mpr hs

theorem takenValue_of_ok (hs : 59∉value) (h : validateChunkExtVal value=.ok ()) :
    TakenValue value := by
  unfold validateChunkExtVal at h
  split_ifs at h with hq hba ht
  · cases value with
    | nil => simp at hq
    | cons b rest =>
      obtain rfl : b=34 := by simpa using hq
      simp only [Bool.or_eq_true,not_or,decide_eq_true_eq,Bool.not_eq_true',
        Bool.not_eq_false,Bool.not_eq_true,List.any_eq_false] at hba
      obtain ⟨⟨hl,he⟩,hp⟩ := hba
      obtain ⟨f,hf⟩ := List.isSuffixOf_iff_suffix.mp he
      cases f with
      | nil =>
        obtain ⟨-,rfl⟩ := List.cons.inj hf
        simp at hl
      | cons c text =>
        obtain ⟨rfl,rfl⟩ := List.cons.inj hf
        refine .quoted (fun b hb => hp b ?_) fun hm => hs ?_ <;> simp [*]
  · exact .token (isToken_iff.mp ht)

theorem takenElement_of_ok {p : Bytes} (hs : 59∉p)
    (h : validateChunkExtElement p=.ok ()) : ∃ f element tail,BlankText f ∧
      TakenElement element ∧ BlankText tail ∧ p=f++element++tail := by
  obtain ⟨f,tail,hf,ht,hp⟩ := strip_split isBlank p
  rw [validateChunkExtElement] at h
  generalize strip isBlank p=element at h hp
  subst hp
  by_cases heq : 61∈element
  · obtain ⟨left,right,rfl,hl⟩ := List.eq_append_cons_of_mem heq
    rw [partition_append 61 left right hl] at h
    obtain ⟨be,hbe,hn⟩ := rstrip_split isBlank left
    obtain ⟨a,t,ha,ht',hv⟩ := strip_split isBlank right
    simp only [if_true] at h
    split_ifs at h with hto
    have hv' : 59∉strip isBlank right := fun hm => hs (by
      rw [hv]
      simp [hm])
    refine ⟨f,_,t++tail,hf,.assign
      (isToken_iff.mp (by simpa using hto)) hbe ha (takenValue_of_ok hv' h),?_,?_⟩
    · exact fun b hb => (List.mem_append.mp hb).elim (ht' b) (ht b)
    · rw [← hn]
      nth_rewrite 1 [hv]
      simp
  · rw [partition_of_notMem 61 element heq] at h
    obtain ⟨bl,hbl,hn⟩ := rstrip_split isBlank element
    simp only [Bool.false_eq_true,if_false] at h
    split_ifs at h with hto
    refine ⟨f,_,bl++tail,hf,.flag (isToken_iff.mp (by simpa using hto)),
      fun b hb => (List.mem_append.mp hb).elim (hbl b) (ht b),?_⟩
    nth_rewrite 1 [hn]
    simp

/-- Induction on the rest of the line, semicolon by semicolon. -/
theorem takenExtensions_of_ok {be r : Bytes} (hb : BlankText be)
    (h : forM (splitByte 59 r) validateChunkExtElement=.ok ()) : TakenExtensions (be++59::r) := by
  induction hn : r.length using Nat.strongRecOn generalizing be r with
  | ind n ih =>
    by_cases hs : 59∈r
    · obtain ⟨p,later,rfl,hp⟩ := List.eq_append_cons_of_mem hs
      rw [splitByte_append_sep 59 p later hp,List.forM_cons] at h
      cases hok : validateChunkExtElement p with
      | error e => simp [hok,bind,Except.bind] at h
      | ok =>
        simp only [hok,bind,Except.bind] at h
        have hl := ih later.length (by simp [← hn]; omega) blankText_nil h rfl
        obtain ⟨f,element,tail,hf,he,ht,rfl⟩ := takenElement_of_ok hp hok
        exact .cons hb hf he ht hl
    · rw [splitByte_of_notMem 59 r hs] at h
      obtain ⟨f,element,tail,hf,he,ht,rfl⟩ :=
        takenElement_of_ok hs (by
          cases hok : validateChunkExtElement r with
          | error e => simp [hok,bind,Except.bind] at h
          | ok => rfl)
      simpa using TakenExtensions.cons hb hf he ht .nil

theorem parseChunkSize_eq_ok_iff : parseChunkSize line=.ok n ↔
    ∃ size ext,HexSize size n ∧ TakenExtensions ext ∧ line=size++ext++crlf := by
  constructor
  · intro h
    by_cases he : endsWith line crlf=true ∧ line.count 10=1
    · obtain ⟨text,ht,rfl⟩ := crlf_line.mp he
      rw [parseChunkSize_crlf ht] at h
      dsimp only at h
      split_ifs at h with hs
      · obtain ⟨bl,rest,hb,hsp⟩ := sizePart_split hs
        generalize rstrip isBlank (partition 59 text).1=size at h hsp
        subst hsp
        rw [List.drop_left,validateChunkExt,
          splitByte_append_sep 59 bl rest (hb.notMem (by decide)),List.tail_cons] at h
        cases hext : forM (splitByte 59 rest) validateChunkExtElement with
        | error e => simp [hext,bind,Except.bind] at h
        | ok =>
          simp only [hext,bind,Except.bind] at h
          exact ⟨size,_,chunkSizeOf_eq_ok.mp h,takenExtensions_of_ok hb hext,rfl⟩
      · exact ⟨text,[],chunkSizeOf_eq_ok.mp h,.nil,by simp⟩
    · have hba : (!endsWith line crlf || line.count 10 != 1)=true := by
        revert he
        cases endsWith line crlf <;> simp
      rw [parseChunkSize,if_pos hba] at h
      cases h
  · rintro ⟨size,ext,hsi,hext,rfl⟩
    exact parseChunkSize_accepts hsi hext

theorem parseChunkSize_sound (h : parseChunkSize line=.ok n) : SizeLine lineGrammar n line := by
  obtain ⟨size,ext,hs,he,rfl⟩ := parseChunkSize_eq_ok_iff.mp h
  refine .intro size ext hs ⟨he.ne_lf,?_⟩
  cases he with
  | nil => exact .inl rfl
  | cons hb => exact .inr ⟨_,_,hb,rfl⟩

/-- The lines of the standard are taken for their value unless a quoted value holds a
semicolon, and nothing is taken but digits with extensions as the check sees them. -/
theorem chunkSize_lines :
    (∀ size ext n,HexSize size n → Extensions noSemicolon ext →
      parseChunkSize (size++ext++crlf)=.ok n) ∧
    ∀ line n,parseChunkSize line=.ok n →
      ∃ size ext,HexSize size n ∧ TakenExtensions ext ∧ line=size++ext++crlf :=
  ⟨fun _ _ _ hsize hext => parseChunkSize_accepts hsize hext.taken,
    fun _ _ => parseChunkSize_eq_ok_iff.mp⟩

theorem chunkSize_lines_quoted :
    parseChunkSize (ascii "1a" ++ ascii ";a=\"b\"" ++ crlf)=.ok 26 ∧
    ∃ size ext,HexSize size 26 ∧ TakenExtensions ext ∧
      ascii "1a" ++ ascii ";a=\"b\"" ++ crlf=size++ext++crlf := by
  have hv : ExtValue noSemicolon (34::[98]++[34]) :=
    .quoted (.plain (by decide) .nil) (by simp [noSemicolon])
  have hn : Token [97] := ⟨by decide,by decide +kernel⟩
  have he : Extensions noSemicolon (ascii ";a=\"b\"") :=
    .cons blankText_nil blankText_nil (.assign hn blankText_nil blankText_nil hv) .nil
  have hs : HexSize (ascii "1a") 26 := ⟨by decide,by decide +kernel,by decide⟩
  have hl := chunkSize_lines.1 _ _ _ hs he
  exact ⟨hl,chunkSize_lines.2 _ _ hl⟩

theorem QuotedText.notMem_quote (h : QuotedText text) (hba : 92∉text) : 34∉text := by
  induction h with
  | nil => simp
  | @plain b rest hb _ ih =>
    have hne : (34 : UInt8)≠b := by
      rintro rfl
      exact absurd hb (by decide)
    simp_all
  | pair => simp at hba

/-- Without a backslash, the quotes of a line of the standard come in pairs. -/
theorem Extensions.even_quotes {q : Bytes → Prop} (h : Extensions q ext)
    (hba : 92∉ext) : Even (ext.count 34) := by
  have hbl {text : Bytes} (h : BlankText text) : text.count 34=0 :=
    List.count_eq_zero.mpr (h.notMem (by decide))
  have hva {value : Bytes} (h : ExtValue q value) (hba : 92∉value) : Even (value.count 34) := by
    cases h with
    | token h => simp [List.count_eq_zero.mpr (h.notMem (b := 34) (by decide))]
    | @quoted text h =>
      have hc := List.count_eq_zero.mpr (h.notMem_quote (by simp_all))
      simp [hc,even_two]
  induction h with
  | nil => simp
  | @cons bf after element rest hbe haf he _ ih =>
    have he : Even (element.count 34) := by
      cases he with
      | flag h => simp [List.count_eq_zero.mpr (h.notMem (b := 34) (by decide))]
      | assign hn hb ha hv =>
        have hc := List.count_eq_zero.mpr (hn.notMem (b := 34) (by decide))
        simpa [hc,hbl hb,hbl ha] using hva hv (by simp_all)
    have hr := ih (by simp_all)
    simpa [hbl hbe,hbl haf] using he.add hr

/-- A quote inside a quoted value is let through, and a semicolon there is not. -/
theorem chunkSize_lines_lenient :
    (parseChunkSize (ascii "5;a=\"b\"c\"" ++ crlf)=.ok 5 ∧
      ¬ ∃ size ext,HexSize size 5 ∧ Extensions (fun _ => True) ext ∧
        ascii "5;a=\"b\"c\"" ++ crlf=size++ext++crlf) ∧
    HexSize (ascii "5") 5 ∧ Extensions (fun _ => True) (ascii ";a=\";\"") ∧
      parseChunkSize (ascii "5" ++ ascii ";a=\";\"" ++ crlf) =
        .error (badRequest "invalid quoted chunk-ext-val b'\"'") := by
  refine ⟨⟨by decide,?_⟩,⟨by decide,by decide +kernel,by decide⟩,?_,by decide⟩
  · rintro ⟨size,ext,hs,he,heq⟩
    have heq : ascii "5;a=\"b\"c\"" = size++ext := List.append_cancel_right heq
    have hq : 34∉size := fun hm => absurd (hs.digits 34 hm) (by decide)
    have hb : 92∉size++ext := heq ▸ by decide
    have hev := he.even_quotes fun hm => hb (List.mem_append_right _ hm)
    have hc : ext.count 34=3 := by
      have ha := congrArg (List.count 34) heq
      rw [List.count_append,List.count_eq_zero.mpr hq,Nat.zero_add] at ha
      exact ha.symm.trans (by decide)
    rw [hc] at hev
    exact absurd hev (by decide)
  · have hv : ExtValue (fun _ => True) (34::[59]++[34]) :=
      .quoted (.plain (by decide) .nil) trivial
    have hn : Token [97] := ⟨by decide,by decide +kernel⟩
    exact .cons blankText_nil blankText_nil (.assign hn blankText_nil blankText_nil hv) .nil

end BlackBull
