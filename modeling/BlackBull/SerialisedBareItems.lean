import BlackBull.FieldGrammar
import BlackBull.FieldSerialisers

/-!
# Serialised bare items

The text that a serialiser gives for a bare item is in the language and stands for that item: its
digits make the number again, its escapes the string, and what base64 and UTF-8 carry comes back
by what is assumed of them.
-/

namespace BlackBull.StructuredFields

open ByteString

theorem ofDigits_append (ba : ℕ) (f b : Bytes) : ofDigits ba (f++b) =
      ofDigits ba f*ba^b.length+ofDigits ba b := by
  induction b using List.reverseRecOn with
  | nil => simp [ofDigits]
  | append_singleton b c ih =>
    have hs : ∀ text : Bytes,ofDigits ba (text++[c]) =
        ofDigits ba text*ba+digitValue c := fun text => by simp [ofDigits]
    rw [← List.append_assoc,hs,hs,ih,List.length_append,List.length_singleton,pow_succ]
    ring

theorem length_toDigits_le_iff {n k : ℕ} (hk : 0<k) : (toDigits 10 n).length≤k ↔ n<10^k := by
  unfold toDigits
  split_ifs with hn
  · subst hn
    simpa using Nat.succ_le_of_lt hk
  · rw [List.length_reverse,List.length_map,Nat.digits_length_le_iff (by decide)]

theorem isDigits_toDigits {n k : ℕ} (hk : 0<k) (hn : n<10^k) : IsDigits k (toDigits 10 n) := by
  exact ⟨fun _ => isDigit_of_mem_toDigits,toDigits_ne_nil 10 n,(length_toDigits_le_iff hk).mpr hn⟩

theorem signed_abs {α : Type} [AddCommGroup α] [LinearOrder α] [IsOrderedAddMonoid α] (v : α) :
    signed (decide (v<0)) |v| = v := by
  unfold signed
  split_ifs with hn
  · rw [abs_of_neg (by simpa using hn),neg_neg]
  · exact abs_of_nonneg (by simpa using hn)

theorem signText_lt {α : Type} [LT α] [OfNat α 0] (v : α) [Decidable (v<0)] :
    signText (decide (v<0))=if v<0 then [hyphen] else [] := by
  simp [signText]

variable {text : Bytes}

theorem serInteger_text {v : ℤ} (h : serInteger v=.ok text) : NumberText text (.integer v) := by
  unfold serInteger at h
  by_cases hr : -999999999999999≤v ∧ v≤999999999999999
  · rw [if_pos hr] at h
    obtain rfl := Except.ok.inj h
    have ht := NumberText.integer (decide (v<0))
      (isDigits_toDigits (n := v.natAbs) (k := 15) (by decide) (by omega))
    rwa [ofDigits_toDigits (by decide) (by decide),Int.natCast_natAbs,signed_abs,signText_lt] at ht
  · rw [if_neg hr] at h
    exact absurd h (by simp)

theorem roundHalfEven_natCast (n : ℕ) : roundHalfEven n=n := by simp [roundHalfEven]

/-- The digits behind the point are those of the thousandths, without the zeros at the end. -/
theorem trimFraction_threeDigits (n : Fin 1000) :
    IsDigits 3 (trimFraction (threeDigits n)) ∧ ofDigits 10 (trimFraction (threeDigits n))*1000 =
        n*10^(trimFraction (threeDigits n)).length := by
  have ha : ∀ n : Fin 1000,(trimFraction (threeDigits n)).all isDigit=true ∧
      trimFraction (threeDigits n)≠[] ∧ (trimFraction (threeDigits n)).length≤3 ∧
      ofDigits 10 (trimFraction (threeDigits n))*1000 =
        n*10^(trimFraction (threeDigits n)).length := by decide +kernel
  obtain ⟨hd,hne,hl,hv⟩ := ha n
  exact ⟨⟨by simpa using hd,hne,hl⟩,hv⟩

def IsThousandths (value : ℚ) : Prop := (value*1000).den=1

theorem IsThousandths.abs_eq {v : ℚ} (h : IsThousandths v) :
    |v| * 1000 = ((v*1000).num.natAbs : ℚ) := by
  have hn : ((v*1000).num : ℚ)=v*1000 := (Rat.den_eq_one_iff _).mp h
  rw [Nat.cast_natAbs,Int.cast_abs,hn,abs_mul]
  norm_num

theorem thousandths_eq (n : ℕ) : let fr := trimFraction (threeDigits (n % 1000))
    ((ofDigits 10 (toDigits 10 (n / 1000)++fr) : ℕ) : ℚ) / 10^fr.length = n / 1000 := by
  intro fr
  obtain ⟨-,hv⟩ := trimFraction_threeDigits ⟨n % 1000,Nat.mod_lt n (by decide)⟩
  have hp : (10 : ℚ)^fr.length≠0 := by positivity
  have hf : (ofDigits 10 fr : ℚ) * 1000 = (n % 1000 : ℕ) * 10^fr.length := by exact_mod_cast hv
  have hn : (n : ℚ) = 1000 * (n / 1000 : ℕ) + (n % 1000 : ℕ) := by
    exact_mod_cast (Nat.div_add_mod n 1000).symm
  rw [ofDigits_append,ofDigits_toDigits (by decide) (by decide),div_eq_div_iff hp (by norm_num)]
  push_cast
  rw [add_mul,hf,hn]
  ring

theorem serDecimal_text {v : ℚ} (hv : IsThousandths v)
    (h : serDecimal v=.ok text) : NumberText text (.decimal v) := by
  unfold serDecimal at h
  rw [hv.abs_eq,roundHalfEven_natCast] at h
  generalize hn : (v*1000).num.natAbs=n at h
  simp only at h
  by_cases hw : 10^28≤n
  · rw [if_pos hw] at h
    exact absurd h (by simp)
  rw [if_neg hw] at h
  by_cases hl : 12+3<(toDigits 10 n).length
  · rw [if_pos hl] at h
    exact absurd h (by simp)
  rw [if_neg hl] at h
  obtain rfl := Except.ok.inj h
  have hb : n<10^15 := (length_toDigits_le_iff (by decide)).mp (not_lt.mp hl)
  have hwh : IsDigits 12 (toDigits 10 (n / 1000)) := isDigits_toDigits (by decide) (by omega)
  obtain ⟨hf,-⟩ := trimFraction_threeDigits ⟨n % 1000,Nat.mod_lt n (by decide)⟩
  have ha : (n : ℚ) / 1000 = |v| := by
    rw [← hn,← hv.abs_eq]
    norm_num
  have ht := NumberText.decimal (decide (v<0)) hwh hf
  rw [thousandths_eq,ha,signed_abs,signText_lt] at ht
  simpa using ht

theorem serWord_isWord {s c : UInt8 → Bool} {r : Refusal} {v : Bytes}
    (h : serWord s c r v=.ok text) : text=v ∧ IsWord s c v := by
  unfold serWord at h
  split_ifs at h with hw
  exact ⟨(Except.ok.inj h).symm,hw.1,by simpa using hw.2⟩

theorem serStringBody_text {v : Bytes} (h : serStringBody v=.ok text) : StringText text v := by
  induction v generalizing text with
  | nil =>
    obtain rfl := Except.ok.inj h
    exact .nil
  | cons c v ih =>
    unfold serStringBody at h
    split_ifs at h with hp hs
    · obtain ⟨rest,hr,hpu⟩ := bind_eq_ok_iff.mp h
      obtain rfl := Except.ok.inj hpu
      exact (ih hr).escaped hs
    · obtain ⟨rest,hr,hpu⟩ := bind_eq_ok_iff.mp h
      obtain rfl := Except.ok.inj hpu
      exact (ih hr).plain hp (fun hc => hs (.inl hc)) fun hc => hs (.inr hc)

theorem ofNat_hexDigits (c : UInt8) :
    UInt8.ofNat (ofDigits 16 [digitOctet (c.toNat / 16),digitOctet (c.toNat % 16)]) = c := by
  revert c
  decide +kernel

theorem serOctet_text (c : UInt8) {bs : Bytes} (h : DisplayText text bs) :
    DisplayText (serOctet c++text) (c::bs) := by
  unfold serOctet
  split_ifs with he
  · have hh : ∀ n : Fin 16,isLowerHex (digitOctet n)=true := by decide
    have hhi := hh ⟨c.toNat / 16,by have := c.toNat_lt; omega⟩
    have hl := hh ⟨c.toNat % 16,Nat.mod_lt _ (by decide)⟩
    have ht := h.escaped hhi hl
    rwa [ofNat_hexDigits] at ht
  · simp only [not_or,Bool.not_eq_true',Bool.not_eq_false] at he
    obtain ⟨hp,hq,hpr⟩ := he
    exact h.plain hpr hp hq

theorem flatMap_serOctet_text (bs : Bytes) : DisplayText (bs.flatMap serOctet) bs := by
  induction bs with
  | nil => exact .nil
  | cons c bs ih => exact serOctet_text c ih

variable {δ : Type} {co : Codec δ}

/-- What is assumed of the standard library: decoding gives back what was encoded, and base64
text is made of its alphabet. -/
structure Codec.Lawful (codec : Codec δ) : Prop where
  b64decode_encode : ∀ octets,codec.b64decode (codec.b64encode octets)=some octets
  isBase64Char_encode : ∀ octets,∀ c∈codec.b64encode octets,isBase64Char c=true
  utf8decode_encode : ∀ {text octets},codec.utf8encode text=some octets →
    codec.utf8decode octets=some text

def BareItem.IsExact : BareItem δ → Prop
  | .decimal value => IsThousandths value
  | _ => True

theorem serBareItem_text (hc : co.Lawful) {b : BareItem δ} (he : b.IsExact)
    (h : serBareItem co b=.ok text) : BareItemText co text b := by
  cases b with
  | integer v => exact .number (serInteger_text h)
  | decimal v => exact .number (serDecimal_text he h)
  | string v =>
    obtain ⟨body,hb,hp⟩ := bind_eq_ok_iff.mp h
    obtain rfl := Except.ok.inj hp
    exact .string (serStringBody_text hb)
  | token v =>
    obtain ⟨rfl,hw⟩ := serWord_isWord h
    exact .token hw
  | bytes v =>
    obtain rfl := Except.ok.inj h
    exact .bytes (hc.isBase64Char_encode v) (hc.b64decode_encode v)
  | boolean v =>
    obtain rfl := Except.ok.inj h
    exact .boolean v
  | date s =>
    obtain ⟨n,hn,hp⟩ := bind_eq_ok_iff.mp h
    obtain rfl := Except.ok.inj hp
    exact .date (serInteger_text hn)
  | displayString v =>
    change serDisplayString co v=.ok text at h
    unfold serDisplayString at h
    cases hen : co.utf8encode v with
    | none =>
      rw [hen] at h
      exact absurd h (by simp)
    | some bs =>
      rw [hen] at h
      obtain rfl := Except.ok.inj h
      exact .displayString (flatMap_serOctet_text bs) (hc.utf8decode_encode hen)

end BlackBull.StructuredFields
