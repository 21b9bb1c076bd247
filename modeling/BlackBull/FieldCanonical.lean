import BlackBull.FieldRoundTrip

/-!
# Parsed values serialise

What the parser accepts is within the range and the characters that the serialisers check, so a
parsed value has a canonical text, and that text parses to the value again.
-/

namespace BlackBull.StructuredFields

open ByteString

variable {δ : Type} {codec : Codec δ} {text : Bytes}

theorem ofDigits_lt (h : ∀ c∈text,isDigit c=true) : ofDigits 10 text<10^text.length := by
  induction text using List.reverseRecOn with
  | nil => simp [ofDigits]
  | append_singleton text c ih =>
    have hd : digitValue c<10 := by
      have ha : ∀ c : UInt8,isDigit c=true → digitValue c<10 := by decide +kernel
      exact ha c (h c (by simp))
    have ht := ih fun d hd => h d (by simp [hd])
    have ho : ofDigits 10 [c]=digitValue c := by simp [ofDigits]
    rw [ofDigits_append,ho,List.length_append,List.length_singleton,pow_succ]
    omega

theorem IsDigits.ofDigits_lt {k : ℕ} (h : IsDigits k text) : ofDigits 10 text<10^k :=
  (StructuredFields.ofDigits_lt h.digits).trans_le (Nat.pow_le_pow_right (by decide) h.length_le)

theorem serInteger_ok {n : ℕ} (neg : Bool) (h : n<10^15) :
    ∃ out,serInteger (signed neg (n : ℤ))=.ok out := by
  unfold serInteger
  rw [if_pos]
  · exact ⟨_,rfl⟩
  · cases neg <;> simp [signed] <;> omega

/-- Digits before and behind the point, as a number of thousandths. -/
theorem thousandths_of_digits {n k : ℕ} (neg : Bool) (hk : k≤3) :
    signed neg ((n : ℚ) / 10^k) * 1000 = signed neg ((n * 10^(3 - k) : ℕ) : ℚ) := by
  have hp : (10 : ℚ)^k * 10^(3 - k) = 1000 := by
    rw [← pow_add,Nat.add_sub_cancel' hk]
    norm_num
  have ht : (n : ℚ) / 10^k * 1000 = (n * 10^(3 - k) : ℕ) := by
    rw [← hp]
    push_cast
    field_simp
  cases neg
  · exact ht
  · simpa [signed] using ht

theorem serDecimal_ok {v : ℚ} {n : ℕ} {neg : Bool} (h : v*1000=signed neg (n : ℚ))
    (hn : n<10^15) : IsThousandths v ∧ ∃ out,serDecimal v=.ok out := by
  have hi : v*1000=((signed neg (n : ℤ) : ℤ) : ℚ) := by
    rw [h]
    cases neg <;> simp [signed]
  have hv : IsThousandths v := by
    rw [IsThousandths,hi]
    exact Rat.den_intCast _
  have ha : (v*1000).num.natAbs=n := by
    rw [hi,Rat.num_intCast]
    cases neg <;> simp [signed]
  refine ⟨hv,?_⟩
  unfold serDecimal
  rw [hv.abs_eq,roundHalfEven_natCast,ha]
  have hl := (length_toDigits_le_iff (n := n) (k := 15) (by decide)).mpr hn
  simp only
  rw [if_neg (by omega),if_neg (by omega)]
  exact ⟨_,rfl⟩

theorem serWord_ok {i c : UInt8 → Bool} (e : Refusal) (h : IsWord i c text) :
    ∃ out,serWord i c e text=.ok out := by
  unfold serWord
  rw [if_pos ⟨h.starts,by simpa using h.chars⟩]
  exact ⟨_,rfl⟩

theorem serStringBody_ok {v : Bytes} (h : StringText text v) :
    ∃ out,serStringBody v=.ok out := by
  have hc (c : UInt8) (v : Bytes) (hp : isPrintable c=true)
      (h : ∃ out,serStringBody v=.ok out) : ∃ out,serStringBody (c::v)=.ok out := by
    obtain ⟨out,ho⟩ := h
    rw [serStringBody,if_pos hp,ho]
    exact ⟨_,rfl⟩
  induction h with
  | nil => exact ⟨_,rfl⟩
  | plain hp _ _ _ ih => exact hc _ _ hp ih
  | escaped he _ ih =>
    refine hc _ _ ?_ ih
    obtain rfl | rfl := he <;> rfl

def Codec.Encodes (codec : Codec δ) : Prop :=
  ∀ octets value,codec.utf8decode octets=some value → (codec.utf8encode value).isSome

def BareItem.Serialises (codec : Codec δ) (bare : BareItem δ) : Prop :=
  bare.IsExact ∧ ∃ out,serBareItem codec bare=.ok out

theorem NumberText.serialises {n : Number} (h : NumberText text n) : n.toItem.Serialises codec := by
  cases h with
  | integer neg hd => exact ⟨trivial,serInteger_ok neg hd.ofDigits_lt⟩
  | decimal neg hw hf =>
    refine serDecimal_ok (thousandths_of_digits neg hf.length_le) ?_
    calc ofDigits 10 (_++_) * 10^(3 - _) < 10^(_++_ : Bytes).length * 10^(3 - _) := by
          refine Nat.mul_lt_mul_of_pos_right (ofDigits_lt fun c hc => ?_) (by positivity)
          exact (List.mem_append.mp hc).elim (hw.digits c) (hf.digits c)
      _≤10^15 := by
          rw [← pow_add,List.length_append]
          have := hw.length_le
          have := hf.length_le
          exact Nat.pow_le_pow_right (by decide) (by omega)

theorem BareItemText.serialises (hu : codec.Encodes) {b : BareItem δ}
    (h : BareItemText codec text b) : b.Serialises codec := by
  cases h with
  | number ht => exact ht.serialises
  | string ht =>
    obtain ⟨out,ho⟩ := serStringBody_ok ht
    exact ⟨trivial,dquote::out++[dquote],by rw [serBareItem,serString,ho]; rfl⟩
  | token ht => exact ⟨trivial,serWord_ok _ ht⟩
  | bytes _ _ | boolean v => exact ⟨trivial,_,rfl⟩
  | date ht =>
    obtain ⟨-,out,ho⟩ := @NumberText.serialises δ codec _ _ ht
    exact ⟨trivial,commercialAt::out,bind_eq_ok_iff.mpr ⟨out,ho,rfl⟩⟩
  | displayString _ hd =>
    obtain ⟨octets,ho⟩ := Option.isSome_iff_exists.mp (hu _ _ hd)
    exact ⟨trivial,_,by rw [serBareItem,serDisplayString,ho]⟩

theorem Table.mem_setAll {α : Type} {pr : Bytes × α} (ps : List (Bytes × α)) (t : Table α)
    (h : pr∈(t.setAll ps).items) : pr∈t.items ∨ pr∈ps := by
  induction ps generalizing t with
  | nil => exact .inl h
  | cons p ps ih =>
    obtain ht | hp := ih (t.set p.1 p.2) h
    · obtain rfl | hm := Dict.mem_set ht
      · exact .inr List.mem_cons_self
      · exact .inl hm
    · exact .inr (List.mem_cons_of_mem _ hp)

theorem Table.mem_ofPairs {α : Type} {p : Bytes × α} {ps : List (Bytes × α)}
    (h : p∈(ofPairs ps).items) : p∈ps :=
  (mem_setAll ps empty h).resolve_left List.not_mem_nil

theorem mapM_ok {ε α β : Type} {f : α → Except ε β} {as : List α}
    (h : ∀ a∈as,∃ b,f a=.ok b) : ∃ bs,as.mapM f=.ok bs := by
  induction as with
  | nil => exact ⟨[],rfl⟩
  | cons a as ih =>
    obtain ⟨⟨b,hb⟩,ht⟩ := List.forall_mem_cons.mp h
    obtain ⟨bs,hbs⟩ := ih ht
    exact ⟨b::bs,by rw [List.mapM_cons,hb,hbs]; rfl⟩

theorem serParameters_ok {ps : List (Bytes × BareItem δ)}
    (h : ∀ p∈ps,IsKey p.1 ∧ p.2.Serialises codec) :
    ∃ out,serParameters codec ps=.ok out := by
  induction ps with
  | nil => exact ⟨[],rfl⟩
  | cons p ps ih =>
    obtain ⟨⟨hk,-,v,hv⟩,ht⟩ := List.forall_mem_cons.mp h
    obtain ⟨name,hn⟩ := serWord_ok .invalidKey hk
    obtain ⟨rest,hr⟩ := ih ht
    have hg : ∃ gv,serGiven codec p.2=.ok gv := by
      unfold serGiven
      split_ifs
      · exact ⟨[],rfl⟩
      · exact ⟨equals::v,bind_eq_ok_iff.mpr ⟨v,hv,rfl⟩⟩
    obtain ⟨gv,hg⟩ := hg
    exact ⟨_,bind_eq_ok_iff.mpr ⟨name,hn,bind_eq_ok_iff.mpr ⟨gv,hg,
      bind_eq_ok_iff.mpr ⟨rest,hr,rfl⟩⟩⟩⟩

theorem ParametersText.serialises (hu : codec.Encodes) {ps : List (Bytes × BareItem δ)}
    (h : ParametersText codec text ps) :
    ∀ p∈ps,IsKey p.1 ∧ p.2.Serialises codec := by
  induction h with
  | nil => exact List.forall_mem_nil _
  | flag _ hk _ ih => exact List.forall_mem_cons.mpr ⟨⟨hk,trivial,_,rfl⟩,ih⟩
  | valued _ hk hv _ ih => exact List.forall_mem_cons.mpr ⟨⟨hk,hv.serialises hu⟩,ih⟩

theorem serParameters_of_text (hu : codec.Encodes) {ps : List (Bytes × BareItem δ)}
    (h : ParametersText codec text ps) : ExactParameters (.ofPairs ps) ∧
      ∃ out,serParameters codec (Table.ofPairs ps).items=.ok out := by
  have hp (p) (hm : p∈(Table.ofPairs ps).items) := h.serialises hu p (Table.mem_ofPairs hm)
  exact ⟨fun p hm => (hp p hm).2.1,serParameters_ok hp⟩

theorem ItemText.serialises (hu : codec.Encodes) {i : Item δ} (h : ItemText codec text i) :
    ExactItem i ∧ ∃ out,serItem codec i=.ok out := by
  obtain ⟨hv,ht⟩ := h
  obtain ⟨he,v,hv⟩ := hv.serialises hu
  obtain ⟨hp,tail,ht⟩ := serParameters_of_text hu ht
  exact ⟨⟨he,hp⟩,_,bind_eq_ok_iff.mpr ⟨v,hv,bind_eq_ok_iff.mpr ⟨tail,ht,rfl⟩⟩⟩

theorem InnerText.serialises (hu : codec.Encodes) {xs : List (Item δ)}
    (h : InnerText codec text xs) :
    ∀ i∈xs,ExactItem i ∧ ∃ out,serItem codec i=.ok out := by
  induction h with
  | close _ => exact List.forall_mem_nil _
  | item _ hi _ _ ih => exact List.forall_mem_cons.mpr ⟨hi.serialises hu,ih⟩

def Member.Serialises (codec : Codec δ) (member : Member δ) : Prop :=
  member.IsExact ∧ ∃ out,serItemOrInnerList codec member=.ok out

theorem MemberText.serialises (hu : codec.Encodes) {m : Member δ}
    (h : MemberText codec text m) : m.Serialises codec := by
  cases h with
  | item hi => exact hi.serialises hu
  | innerList hi ht =>
    have hs := hi.serialises hu
    obtain ⟨hp,tail,ht⟩ := serParameters_of_text hu ht
    obtain ⟨t,hm⟩ := mapM_ok fun i h => (hs i h).2
    exact ⟨⟨fun i h => (hs i h).1,hp⟩,_,bind_eq_ok_iff.mpr ⟨t,hm,bind_eq_ok_iff.mpr ⟨tail,ht,rfl⟩⟩⟩

theorem EntryText.serialises (hu : codec.Encodes) {e : Bytes × Member δ}
    (h : EntryText codec text e) : e.2.IsExact ∧ ∃ out,serEntry codec e.1 e.2=.ok out := by
  cases h with
  | flag hk ht =>
    obtain ⟨hp,tail,ht⟩ := serParameters_of_text hu ht
    obtain ⟨name,hn⟩ := serWord_ok .invalidKey hk
    exact ⟨⟨trivial,hp⟩,_,bind_eq_ok_iff.mpr ⟨name,hn,bind_eq_ok_iff.mpr ⟨tail,ht,rfl⟩⟩⟩
  | @valued key text m hk hm =>
    obtain ⟨he,out,ho⟩ := hm.serialises hu
    obtain ⟨name,hn⟩ := serWord_ok .invalidKey hk
    refine ⟨he,?_⟩
    cases m with
    | innerList i => exact ⟨_,bind_eq_ok_iff.mpr ⟨name,hn,bind_eq_ok_iff.mpr ⟨out,ho,rfl⟩⟩⟩
    | item it =>
      obtain ⟨b,ps⟩ := it
      obtain ⟨v,-,h⟩ := bind_eq_ok_iff.mp ho
      obtain ⟨tail,ht,-⟩ := bind_eq_ok_iff.mp h
      by_cases hb : b.isTrue=true
      · exact ⟨name++tail,bind_eq_ok_iff.mpr ⟨name,hn,by
          simp only [hb,if_true]
          exact bind_eq_ok_iff.mpr ⟨tail,ht,rfl⟩⟩⟩
      · exact ⟨name++equals::out,bind_eq_ok_iff.mpr ⟨name,hn,by
          simp only [hb,Bool.false_eq_true,if_false]
          exact bind_eq_ok_iff.mpr ⟨out,ho,rfl⟩⟩⟩

theorem Elements.forall_mem {α : Type} {x : Bytes → α → Prop} {as : List α} {p : α → Prop}
    (h : Elements x text as) (hp : ∀ text a,x text a → p a) : ∀ a∈as,p a := by
  cases h with
  | nil => exact List.forall_mem_nil _
  | some h =>
    induction h with
    | last ht _ => exact List.forall_mem_singleton.mpr (hp _ _ ht)
    | next ht _ _ _ ih => exact List.forall_mem_cons.mpr ⟨hp _ _ ht,ih⟩

/-- Every field value that the parser accepts has a canonical form: the parsed item, list or
dictionary serialises, and the text parses to it again. -/
theorem parsed_values_serialise (hcodec : codec.Lawful) (hencodes : codec.Encodes) (value : Bytes) :
    (∀ item,parseItem codec value=.ok item →
      ∃ text,serializeItem codec item=.ok text ∧ parseItem codec text=.ok item) ∧
    (∀ members,parseList codec value=.ok members →
      ∃ text,serializeList codec members=.ok text ∧ parseList codec text=.ok members) ∧
    ∀ dictionary,parseDictionary codec value=.ok dictionary →
      ∃ text,serializeDictionary codec dictionary=.ok text ∧
        parseDictionary codec text=.ok dictionary := by
  refine ⟨fun item h => ?_,fun members h => ?_,fun dictionary h => ?_⟩
  · obtain ⟨-,ht,-⟩ := (parseItem_iff value item).mp h
    obtain ⟨he,text,hs⟩ := ht.serialises hencodes
    exact ⟨text,hs,parseItem_serializeItem hcodec he hs⟩
  · obtain ⟨-,ht,-⟩ := (parseList_iff value members).mp h
    have hm := ht.forall_mem fun _ _ h => h.serialises hencodes
    obtain ⟨texts,hs⟩ := mapM_ok fun member h => (hm member h).2
    have hl : serializeList codec members=.ok ([comma,space].intercalate texts) :=
      bind_eq_ok_iff.mpr ⟨texts,hs,rfl⟩
    exact ⟨_,hl,parseList_serializeList hcodec (fun member h => (hm member h).1) hl⟩
  · obtain ⟨entries,⟨-,ht,-⟩,rfl⟩ := (parseDictionary_iff value dictionary).mp h
    have hm := ht.forall_mem fun _ _ h => h.serialises hencodes
    have he (entry) (h : entry∈(Table.ofPairs entries).items) := hm entry (Table.mem_ofPairs h)
    obtain ⟨texts,hs⟩ := mapM_ok fun entry h => (he entry h).2
    have hl : serializeDictionary codec (.ofPairs entries) =
        .ok ([comma,space].intercalate texts) := bind_eq_ok_iff.mpr ⟨texts,hs,rfl⟩
    exact ⟨_,hl,parseDictionary_serializeDictionary hcodec (fun entry h => (he entry h).1) hl⟩

theorem codecs_encodes : codecs.Encodes := fun _ _ _ => rfl

/-- Leading zeros, spaces and a repeated parameter go. -/
theorem parsed_values_serialise_item :
    ∃ text,serializeItem codecs (.decimal (5 / 2),.ofPairs [(ascii "a",.boolean true)]) =
      .ok text ∧ parseItem codecs text =
        .ok (.decimal (5 / 2),.ofPairs [(ascii "a",.boolean true)]) :=
  (parsed_values_serialise codecs_lawful codecs_encodes (ascii " 002.50; a=?0;a ")).1 _
    (by decide +kernel)

end BlackBull.StructuredFields
