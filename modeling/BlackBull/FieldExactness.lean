import BlackBull.FieldCompleteness

/-!
# The parser takes the language and nothing else

A field value parses exactly to what it stands for, and whatever is not in the language raises
`ValueError`. The language is one of ASCII texts, so that `_to_text` refuses nothing of it.
-/

namespace BlackBull.StructuredFields

open ByteString

variable {α δ : Type} {co : Codec δ}

def IsAscii (text : Bytes) : Prop := ∀ c∈text,c<128

namespace IsAscii

theorem nil : IsAscii [] := by simp [IsAscii]

theorem cons {c : UInt8} {text : Bytes} (hc : c<128) (ht : IsAscii text) :
    IsAscii (c::text) := List.forall_mem_cons.mpr ⟨hc,ht⟩

theorem append {text t : Bytes} (ht : IsAscii text) (ht' : IsAscii t) :
    IsAscii (text++t) := List.forall_mem_append.mpr ⟨ht,ht'⟩

theorem of_class {ch : UInt8 → Bool} (hch : ∀ c,ch c=true → c<128) {text : Bytes}
    (ht : ∀ c∈text,ch c=true) : IsAscii text :=
  fun c hc => hch c (ht c hc)

end IsAscii

/-- The characters that a text of the language may have. -/
def isFieldChar (c : UInt8) : Bool :=
  isDigit c || isKeyChar c || isTokenChar c || isBase64Char c || isLowerHex c || isPrintable c ||
    isOws c

theorem lt_of_isFieldChar (c : UInt8) : isFieldChar c=true → c<128 := by
  revert c
  decide +kernel

variable {t : Bytes}

theorem IsDigits.isAscii {l : ℕ} (h : IsDigits l t) : IsAscii t :=
  .of_class (fun c hc => lt_of_isFieldChar c (by simp [isFieldChar,hc])) h.digits

theorem IsKey.isAscii (h : IsKey t) : IsAscii t :=
  .of_class (fun c hc => lt_of_isFieldChar c (by simp [isFieldChar,hc])) h.chars

theorem IsToken.isAscii (h : IsToken t) : IsAscii t :=
  .of_class (fun c hc => lt_of_isFieldChar c (by simp [isFieldChar,hc])) h.chars

theorem IsOws.isAscii (h : IsOws t) : IsAscii t :=
  .of_class (fun c hc => lt_of_isFieldChar c (by simp [isFieldChar,hc])) h

theorem IsSpaces.isAscii (h : IsSpaces t) : IsAscii t := fun c hc => by rw [h c hc]; decide

theorem isAscii_signText (n : Bool) : IsAscii (signText n) := by
  cases n with
  | false => exact .nil
  | true => exact .cons (by decide) .nil

theorem NumberText.isAscii {n : Number} (h : NumberText t n) : IsAscii t := by
  cases h with
  | integer ne hd => exact (isAscii_signText ne).append hd.isAscii
  | decimal ne hw hf =>
    exact (isAscii_signText ne).append (hw.isAscii.append (.cons (by decide) hf.isAscii))

theorem StringText.isAscii {v : Bytes} (h : StringText t v) : IsAscii t := by
  induction h with
  | nil => exact .nil
  | plain hp hq hb ht ih => exact .cons (lt_of_isFieldChar _ (by simp [isFieldChar,hp])) ih
  | escaped hc ht ih =>
    refine .cons (by decide) (.cons ?_ ih)
    rcases hc with rfl | rfl
    · decide
    · decide

theorem DisplayText.isAscii {bs : Bytes} (h : DisplayText t bs) : IsAscii t := by
  induction h with
  | nil => exact .nil
  | plain hp hpe hq ht ih => exact .cons (lt_of_isFieldChar _ (by simp [isFieldChar,hp])) ih
  | escaped hh hl ht ih =>
    exact .cons (by decide) (.cons (lt_of_isFieldChar _ (by simp [isFieldChar,hh]))
      (.cons (lt_of_isFieldChar _ (by simp [isFieldChar,hl])) ih))

theorem BareItemText.isAscii {b : BareItem δ} (h : BareItemText co t b) : IsAscii t := by
  have hq : IsAscii [dquote] := .cons (by decide) .nil
  cases h with
  | number ht => exact ht.isAscii
  | string ht => exact .cons (by decide) (ht.isAscii.append hq)
  | token ht => exact IsToken.isAscii ht
  | bytes ht hd =>
    refine .cons (by decide) (.append (.of_class (fun c hc => ?_) ht) (.cons (by decide) .nil))
    exact lt_of_isFieldChar c (by simp [isFieldChar,hc])
  | boolean v => cases v <;> exact .cons (by decide) (.cons (by decide) .nil)
  | date ht => exact .cons (by decide) ht.isAscii
  | displayString ht hd => exact .cons (by decide) (.cons (by decide) (ht.isAscii.append hq))

theorem ParametersText.isAscii {ps : List (Bytes × BareItem δ)}
    (h : ParametersText co t ps) : IsAscii t := by
  induction h with
  | nil => exact .nil
  | flag hs hk ht ih => exact .cons (by decide) (hs.isAscii.append ((IsKey.isAscii hk).append ih))
  | valued hs hk hv ht ih =>
    exact .cons (by decide) (hs.isAscii.append ((IsKey.isAscii hk).append
      (.cons (by decide) (hv.isAscii.append ih))))

theorem ItemText.isAscii {i : Item δ} (h : ItemText co t i) : IsAscii t := by
  obtain ⟨hv,ht⟩ := h
  exact hv.isAscii.append ht.isAscii

theorem InnerText.isAscii {xs : List (Item δ)} (h : InnerText co t xs) : IsAscii t := by
  induction h with
  | close hs => exact hs.isAscii.append (.cons (by decide) .nil)
  | item hs hi hn hr ih => exact hs.isAscii.append (hi.isAscii.append ih)

theorem MemberText.isAscii {m : Member δ} (h : MemberText co t m) : IsAscii t := by
  cases h with
  | item ht => exact ht.isAscii
  | innerList hi ht => exact .cons (by decide) (hi.isAscii.append ht.isAscii)

theorem EntryText.isAscii {e : Bytes × Member δ} (h : EntryText co t e) : IsAscii t := by
  cases h with
  | flag hk ht => exact (IsKey.isAscii hk).append ht.isAscii
  | valued hk hm => exact (IsKey.isAscii hk).append (.cons (by decide) hm.isAscii)

theorem Elements.isAscii {e : Bytes → α → Prop} (he : ∀ t a,e t a → IsAscii t) {as : List
    α} (h : Elements e t as) : IsAscii t := by
  cases h with
  | nil => exact .nil
  | some h =>
    induction h with
    | last ht ho => exact (he _ _ ht).append ho.isAscii
    | next ht hb ha hr ih =>
      exact (he _ _ ht).append (hb.isAscii.append (.cons (by decide) (ha.isAscii.append ih)))

/-- A parser that is sound and covers its texts decides the language of field values. -/
theorem parseTop_iff {m : Bytes → α → Prop} {p : ParserM α} (hs : ∀ i,Sound m p i) (hc : Covers m
    p) (ha : ∀ t a,m t a → IsAscii t) (v : Bytes) (a : α) : parseTop p v=.ok a ↔ Padded m v a := by
  refine ⟨padded_of_parseTop hs,fun h => parseTop_eq_ok_iff.mpr ⟨?_,[],takes_parseBody hc h⟩⟩
  obtain ⟨hb,ht,haf⟩ := h
  exact hb.isAscii.append ((ha _ _ ht).append haf.isAscii)

theorem parseItem_iff (v : Bytes) (i : Item δ) : parseItem co v=.ok i ↔ ItemField co v i :=
  parseTop_iff (sound_parseItemBody co) (covers_parseItemBody co) (fun _ _ => ItemText.isAscii) v i

theorem parseList_iff (v : Bytes) (m : List (Member δ)) : parseList co v=.ok m ↔ ListField co v m :=
  parseTop_iff (sound_parseMembers co) (covers_parseMembers co)
    (fun _ _ => Elements.isAscii fun _ _ => MemberText.isAscii) v m

theorem parseDictionary_iff (v : Bytes) (d : Table (Member δ)) :
    parseDictionary co v=.ok d ↔ DictionaryField co v d := by
  refine (parseTop_iff (sound_parseEntries co) (covers_parseEntries co) ?_ v d).trans ?_
  · rintro t _ ⟨es,he,-⟩
    exact he.isAscii fun _ _ => EntryText.isAscii
  · constructor
    · rintro ⟨hb,⟨es,ht,rfl⟩,ha⟩
      exact ⟨es,⟨hb,ht,ha⟩,rfl⟩
    · rintro ⟨es,⟨hb,ht,ha⟩,rfl⟩
      exact ⟨hb,⟨es,ht,rfl⟩,ha⟩

namespace Table

theorem get?_setAll (t : Table α) (ps : List (Bytes × α)) (key : Bytes) :
    (t.setAll ps).items.get? key=(ps.reverse.lookup key).or (t.items.get? key) := by
  induction ps generalizing t with
  | nil => simp [setAll]
  | cons p ps ih =>
    change ((t.set p.1 p.2).setAll ps).items.get? key=_
    have hs : (t.set p.1 p.2).items.get? key = if p.1=key then some p.2 else t.items.get? key :=
      Dict.get?_set t.items p.1 key p.2
    rw [ih,List.reverse_cons,List.lookup_append,Option.or_assoc,hs]
    congr 1
    by_cases hk : p.1=key
    · simp [List.lookup,hk]
    · simp [List.lookup,hk,beq_eq_false_iff_ne.mpr (Ne.symm hk)]

theorem get?_ofPairs (ps : List (Bytes × α)) (key : Bytes) :
    (ofPairs ps).items.get? key=ps.reverse.lookup key := by
  unfold ofPairs
  rw [get?_setAll]
  simp [empty]

end Table

/-- The three parsers succeed exactly on the field values of their language, with the value each
stands for, the last one given for a key, and raise nothing but `ValueError`. -/
theorem parsers_exact (codec : Codec δ) (value : Bytes) :
    (∀ item,parseItem codec value=.ok item ↔ ItemField codec value item) ∧
    (∀ members,parseList codec value=.ok members ↔ ListField codec value members) ∧
    (∀ dictionary,parseDictionary codec value=.ok dictionary ↔
      DictionaryField codec value dictionary) ∧
    (∀ fault,parseItem codec value=.error fault ∨ parseList codec value=.error fault ∨
      parseDictionary codec value=.error fault → fault.isValueError) ∧
    ∀ (α : Type) (pairs : List (Bytes × α)) (key : Bytes),
      (Table.ofPairs pairs).items.get? key=pairs.reverse.lookup key := by
  refine ⟨parseItem_iff value,parseList_iff value,parseDictionary_iff value,?_,
    fun α => Table.get?_ofPairs⟩
  rintro fault (h | h | h)
  · exact isValueError_of_parseTop (sound_parseItemBody codec) h
  · exact isValueError_of_parseTop (sound_parseMembers codec) h
  · exact isValueError_of_parseTop (sound_parseEntries codec) h

end BlackBull.StructuredFields
