import BlackBull.SerialisedBareItems
import BlackBull.FieldExactness

/-!
# Serialised values parse back

The text that a serialiser gives is in the language, and stands for the value it was made of. So
the parser gives that value back, with the order of the parameters and the type of every item.
-/

namespace BlackBull.StructuredFields

open ByteString

variable {δ : Type} {codec : Codec δ}

namespace Table

variable {α : Type}

theorem items_setAll {t : Table α} {ps : List (Bytes × α)}
    (h : ((t.items++ps).map Prod.fst).Nodup) : (t.setAll ps).items=t.items++ps := by
  induction ps generalizing t with
  | nil => simp [setAll]
  | cons p ps ih =>
    have hn : t.items.get? p.1=none := by
      rw [List.map_append,List.map_cons,List.nodup_append] at h
      rw [Dict.get?_eq_none_iff]
      exact fun hm => h.2.2 _ hm _ List.mem_cons_self rfl
    have hs : (t.set p.1 p.2).items=t.items++[p] := Dict.set_of_get?_eq_none p.2 hn
    change ((t.set p.1 p.2).setAll ps).items=_
    rw [ih (by rw [hs]; simpa using h),hs]
    simp

theorem eq_of_items {t t' : Table α} (h : t.items=t'.items) : t=t' := by
  cases t
  cases t'
  congr

theorem ofPairs_items (t : Table α) : ofPairs t.items=t :=
  eq_of_items (items_setAll (by simpa [empty] using t.distinct))

end Table

theorem isSpaces_nil : IsSpaces [] := by simp [IsSpaces]

theorem BareItem.eq_of_isTrue {b : BareItem δ} (h : b.isTrue=true) : b=.boolean true := by
  cases b <;> simp_all [isTrue]

variable {text : Bytes} {α : Type}

theorem serParameters_text (hc : codec.Lawful) {p : List (Bytes × BareItem δ)}
    (he : ∀ pr∈p,pr.2.IsExact) (h : serParameters codec p=.ok text) :
    ParametersText codec text p := by
  induction p generalizing text with
  | nil =>
    obtain rfl := Except.ok.inj h
    exact .nil
  | cons pr p ih =>
    obtain ⟨key,b⟩ := pr
    obtain ⟨hb,hp⟩ := List.forall_mem_cons.mp he
    obtain ⟨name,hn,h⟩ := bind_eq_ok_iff.mp h
    obtain ⟨g,hg,h⟩ := bind_eq_ok_iff.mp h
    obtain ⟨rest,hr,hpu⟩ := bind_eq_ok_iff.mp h
    obtain rfl := Except.ok.inj hpu
    obtain ⟨rfl,hk⟩ := serWord_isWord hn
    have ht := ih hp hr
    unfold serGiven at hg
    split_ifs at hg with htr
    · obtain rfl := Except.ok.inj hg
      obtain rfl := BareItem.eq_of_isTrue htr
      simpa using ht.flag isSpaces_nil hk
    · obtain ⟨v,hv,hpu⟩ := bind_eq_ok_iff.mp hg
      obtain rfl := Except.ok.inj hpu
      simpa using ht.valued isSpaces_nil hk (serBareItem_text hc hb hv)

def ExactParameters (params : Parameters δ) : Prop := ∀ pair∈params.items,pair.2.IsExact

def ExactItem (item : Item δ) : Prop := item.1.IsExact ∧ ExactParameters item.2

def Member.IsExact : Member δ → Prop
  | .item value => ExactItem value
  | .innerList (items,params) => (∀ item∈items,ExactItem item) ∧ ExactParameters params

theorem serItem_text (hc : codec.Lawful) {i : Item δ} (he : ExactItem i)
    (h : serItem codec i=.ok text) : ItemText codec text i := by
  obtain ⟨b,p⟩ := i
  obtain ⟨v,hv,h⟩ := bind_eq_ok_iff.mp h
  obtain ⟨tail,ht,hp⟩ := bind_eq_ok_iff.mp h
  obtain rfl := Except.ok.inj hp
  have hte := ItemText.mk (serBareItem_text hc he.1 hv) (serParameters_text hc he.2 ht)
  rwa [Table.ofPairs_items] at hte

theorem forall₂_of_mapM {ε β : Type} {R : α → β → Prop} {f : α → Except ε β} {as : List α}
    {bs : List β} (hf : ∀ a∈as,∀ b,f a=.ok b → R a b) (h : as.mapM f=.ok bs) :
    List.Forall₂ R as bs := by
  induction as generalizing bs with
  | nil =>
    obtain rfl := Except.ok.inj h
    exact .nil
  | cons a as ih =>
    rw [List.mapM_cons] at h
    obtain ⟨ha,has⟩ := List.forall_mem_cons.mp hf
    obtain ⟨b,hb,h⟩ := bind_eq_ok_iff.mp h
    obtain ⟨bs,hbs,hp⟩ := bind_eq_ok_iff.mp h
    obtain rfl := Except.ok.inj hp
    exact .cons (ha b hb) (ih has hbs)

theorem InnerText.cons_space {xs : List (Item δ)} (h : InnerText codec text xs) :
    InnerText codec (space::text) xs := by
  have hc : ∀ {s : Bytes},IsSpaces s → IsSpaces (space::s) :=
    fun hs => List.forall_mem_cons.mpr ⟨rfl,hs⟩
  cases h with
  | close hs => exact .close (hc hs)
  | item hs hi hn hr => exact .item (hc hs) hi hn hr

theorem innerText_of_items {xs : List (Item δ)} {t : List Bytes}
    (h : List.Forall₂ (fun i text => ItemText codec text i) xs t) :
    InnerText codec ([space].intercalate t++[rightParen]) xs := by
  induction h with
  | nil => exact .close isSpaces_nil
  | @cons i text xs t hi hite ih =>
    cases hite with
    | nil => simpa using InnerText.item isSpaces_nil hi (.inr rfl) (.close isSpaces_nil)
    | cons hn hr =>
      have ht := InnerText.item isSpaces_nil hi (.inl rfl) ih.cons_space
      simpa [List.intercalate] using ht

theorem serItemOrInnerList_text (hc : codec.Lawful) {m : Member δ}
    (he : m.IsExact) (h : serItemOrInnerList codec m=.ok text) : MemberText codec text m := by
  cases m with
  | item it => exact .item (serItem_text hc he h)
  | innerList i =>
    obtain ⟨xs,p⟩ := i
    obtain ⟨t,ht,h⟩ := bind_eq_ok_iff.mp h
    obtain ⟨tail,hta,hp⟩ := bind_eq_ok_iff.mp h
    obtain rfl := Except.ok.inj hp
    have hi : List.Forall₂ (fun it text => ItemText codec text it) xs t :=
      forall₂_of_mapM (fun it hite _ => serItem_text hc (he.1 it hite)) ht
    have hte := MemberText.innerList (innerText_of_items hi) (serParameters_text hc he.2 hta)
    rw [Table.ofPairs_items] at hte
    simpa using hte

theorem serEntry_text (hc : codec.Lawful) {key : Bytes} {m : Member δ}
    (he : m.IsExact) (h : serEntry codec key m=.ok text) : EntryText codec text (key,m) := by
  obtain ⟨name,hn,hr⟩ := bind_eq_ok_iff.mp h
  obtain ⟨rfl,hk⟩ := serWord_isWord hn
  cases m with
  | innerList i =>
    obtain ⟨v,hv,hp⟩ := bind_eq_ok_iff.mp hr
    obtain rfl := Except.ok.inj hp
    exact .valued hk (serItemOrInnerList_text hc he hv)
  | item it =>
    obtain ⟨b,p⟩ := it
    simp only at hr
    split_ifs at hr with ht
    · obtain ⟨tail,hta,hp⟩ := bind_eq_ok_iff.mp hr
      obtain rfl := Except.ok.inj hp
      obtain rfl := BareItem.eq_of_isTrue ht
      have hte := EntryText.flag hk (serParameters_text hc he.2 hta)
      rwa [Table.ofPairs_items] at hte
    · obtain ⟨v,hv,hp⟩ := bind_eq_ok_iff.mp hr
      obtain rfl := Except.ok.inj hp
      exact .valued hk (.item (serItem_text hc he hv))

theorem elements_of_texts {e : Bytes → α → Prop} {as : List α} {t : List Bytes}
    (h : List.Forall₂ (fun a text => e text a) as t) :
    Elements e ([comma,space].intercalate t) as := by
  have ho : IsOws [] := by simp [IsOws]
  have hs : IsOws [space] := by simp [IsOws,isOws]
  have hse : as≠[] → Separated e ([comma,space].intercalate t) as := by
    induction h with
    | nil => exact fun hne => absurd rfl hne
    | cons ht hr ih =>
      intro _
      cases hr with
      | nil => simpa using Separated.last ht ho
      | cons hn hr => simpa [List.intercalate] using (ih (by simp)).next ht ho hs
  cases h with
  | nil => exact .nil
  | cons ht hr => exact .some (hse (by simp))

theorem padded_of_text {m : Bytes → α → Prop} {a : α} (h : m text a) : Padded m text a := by
  simpa using Padded.mk isSpaces_nil h isSpaces_nil

theorem parseItem_serializeItem (hc : codec.Lawful) {i : Item δ} (he : ExactItem i)
    (h : serializeItem codec i=.ok text) : parseItem codec text=.ok i :=
  (parseItem_iff text i).mpr (padded_of_text (serItem_text hc he h))

theorem parseList_serializeList (hc : codec.Lawful) {m : List (Member δ)}
    (he : ∀ me∈m,me.IsExact) (h : serializeList codec m=.ok text) : parseList codec text=.ok m := by
  obtain ⟨t,ht,hp⟩ := bind_eq_ok_iff.mp h
  obtain rfl := Except.ok.inj hp
  refine (parseList_iff _ m).mpr (padded_of_text (elements_of_texts ?_))
  exact forall₂_of_mapM (fun me hm _ => serItemOrInnerList_text hc (he me hm)) ht

theorem parseDictionary_serializeDictionary (hc : codec.Lawful) {d : Table (Member δ)}
    (he : ∀ e∈d.items,e.2.IsExact) (h : serializeDictionary codec d=.ok text) :
    parseDictionary codec text=.ok d := by
  obtain ⟨t,ht,hp⟩ := bind_eq_ok_iff.mp h
  obtain rfl := Except.ok.inj hp
  refine (parseDictionary_iff _ d).mpr ⟨d.items,
    padded_of_text (elements_of_texts ?_),d.ofPairs_items.symm⟩
  exact forall₂_of_mapM (fun e hen _ => serEntry_text hc (he e hen)) ht

/-- Whatever serialises parses back to itself: items, lists and dictionaries whose decimals have
at most three digits behind the point. -/
theorem serialized_values_parse_back (hcodec : codec.Lawful) :
    (∀ item text,ExactItem item → serializeItem codec item=.ok text →
      parseItem codec text=.ok item) ∧
    (∀ members text,(∀ member∈members,Member.IsExact member) →
      serializeList codec members=.ok text → parseList codec text=.ok members) ∧
    ∀ dictionary text,(∀ entry∈dictionary.items,entry.2.IsExact) →
      serializeDictionary codec dictionary=.ok text →
        parseDictionary codec text=.ok dictionary :=
  ⟨fun _ _ => parseItem_serializeItem hcodec,fun _ _ => parseList_serializeList hcodec,
    fun _ _ => parseDictionary_serializeDictionary hcodec⟩

def base64Alphabet : Bytes :=
  ascii "ABCDEFGHIJKLMNOPQRSTUVWXYZabcdefghijklmnopqrstuvwxyz0123456789+/"

def base64Char (n : ℕ) : UInt8 := base64Alphabet.getD n 0

def base64Group (a b c : UInt8) : Bytes :=
  let n := (a.toNat*256+b.toNat)*256+c.toNat
  [n / 262144,n / 4096 % 64,n / 64 % 64,n % 64].map base64Char

def b64encode : Bytes → Bytes
  | [] => []
  | [a] => (base64Group a 0 0).take 2++[61,61]
  | [a,b] => (base64Group a b 0).take 3++[61]
  | a::b::c::rest => base64Group a b c++b64encode rest

def base64Octets (group : Bytes) : Option Bytes :=
  if group⊆base64Alphabet then
    let n := group.foldl (fun n c => n*64+base64Alphabet.idxOf c) 0
    some [UInt8.ofNat (n / 65536),UInt8.ofNat (n / 256),UInt8.ofNat n]
  else none

/-- `base64.b64decode(text, validate=True)`: padding may follow whole groups as well. -/
def b64decode : Bytes → Option Bytes
  | [] => some []
  | a::b::c::d::rest =>
    if c=61 then
      if d=61 ∧ rest=[] then (base64Octets [a,b,65,65]).map (·.take 1) else none
    else if d=61 then
      if rest=[] then (base64Octets [a,b,c,65]).map (·.take 2) else none
    else
      (base64Octets [a,b,c,d]).bind fun octets =>
        if rest.all (·=61) then some octets else (b64decode rest).map (octets++·)
  | _ => none

/-- The codecs as they are. -/
def codecs : Codec String where
  b64decode := b64decode
  b64encode := b64encode
  utf8decode octets := String.fromUTF8? ⟨octets.toArray⟩
  utf8encode text := some text.toUTF8.data.toList

theorem base64Char_spec {n : ℕ} (h : n<64) :
    base64Char n∈base64Alphabet ∧ base64Alphabet.idxOf (base64Char n)=n ∧ base64Char n≠61 ∧
      isBase64Char (base64Char n)=true := by
  have hs : ∀ n<64,base64Char n∈base64Alphabet ∧ base64Alphabet.idxOf (base64Char n)=n ∧
      base64Char n≠61 ∧ isBase64Char (base64Char n)=true := by decide +kernel
  exact hs n h

/-- A group of three octets is four characters of the alphabet, which give the octets back. -/
theorem base64Group_spec (a b c : UInt8) : ∃ x y z w,base64Group a b c=[x,y,z,w] ∧
    (x≠61 ∧ z≠61 ∧ w≠61) ∧ base64Octets [x,y,z,w]=some [a,b,c] ∧
    (c=0 → w=65 ∧ (b=0 → z=65)) ∧ ∀ o∈[x,y,z,w],isBase64Char o=true := by
  have ha := a.toNat_lt
  have hb := b.toNat_lt
  have hc := c.toNat_lt
  refine ⟨_,_,_,_,rfl,?_⟩
  generalize hn : (a.toNat*256+b.toNat)*256+c.toNat=n
  obtain ⟨hx,hxi,hxn,hxc⟩ := base64Char_spec (n := n / 262144) (by omega)
  obtain ⟨hy,hyi,-,hyc⟩ := base64Char_spec (n := n / 4096 % 64) (by omega)
  obtain ⟨hz,hzi,hzn,hzc⟩ := base64Char_spec (n := n / 64 % 64) (by omega)
  obtain ⟨hw,hwi,hwn,hwc⟩ := base64Char_spec (n := n % 64) (by omega)
  refine ⟨⟨hxn,hzn,hwn⟩,?_,?_,by simp [hxc,hyc,hzc,hwc]⟩
  · rw [base64Octets,if_pos (by simp [hx,hy,hz,hw])]
    simp only [List.foldl_cons,List.foldl_nil,hxi,hyi,hzi,hwi,Option.some.injEq,List.cons.injEq,
      ← UInt8.toNat_inj,UInt8.toNat_ofNat',and_true]
    omega
  · rintro rfl
    rw [UInt8.toNat_zero] at hn
    refine ⟨by rw [show n % 64=0 by omega]; decide,?_⟩
    rintro rfl
    rw [UInt8.toNat_zero] at hn
    rw [show n / 64 % 64=0 by omega]
    decide

theorem b64decode_b64encode (bs : Bytes) : b64decode (b64encode bs)=some bs ∧
    (∀ c∈b64encode bs,isBase64Char c=true) ∧ ((b64encode bs).all (·=61)=true → bs=[]) := by
  fun_induction b64encode bs with
  | case1 => exact ⟨rfl,by simp,fun _ => rfl⟩
  | case2 a =>
    obtain ⟨x,y,z,w,hg,hn,ho,hp,hc⟩ := base64Group_spec a 0 0
    obtain ⟨rfl,hz⟩ := hp rfl
    obtain rfl := hz rfl
    have he : isBase64Char 61=true := by decide
    simp_all [b64decode]
  | case3 a b =>
    obtain ⟨x,y,z,w,hg,hn,ho,hp,hc⟩ := base64Group_spec a b 0
    obtain ⟨rfl,-⟩ := hp rfl
    have he : isBase64Char 61=true := by decide
    simp_all [b64decode]
  | case4 a b c rest ih =>
    obtain ⟨x,y,z,w,hg,⟨hx,hz,hw⟩,ho,-,hc⟩ := base64Group_spec a b c
    obtain ⟨hd,ha,he⟩ := ih
    refine ⟨?_,?_,by simp [hg,hx]⟩
    · rw [hg]
      simp only [List.cons_append,List.nil_append,b64decode,hz,hw,if_false,ho,Option.bind_some,hd]
      split_ifs with hp
      · rw [he hp]
      · rfl
    · rw [hg]
      exact List.forall_mem_append.mpr ⟨hc,ha⟩

theorem codecs_lawful : codecs.Lawful where
  b64decode_encode octets := (b64decode_b64encode octets).1
  isBase64Char_encode octets := (b64decode_b64encode octets).2.1
  utf8decode_encode {text octets} h := by
    obtain rfl := Option.some.inj h
    exact dif_pos text.isValidUTF8

def sampleParameters : Parameters String :=
  .ofPairs [(ascii "q",.decimal (-1 / 4)),(ascii "up",.boolean true)]

def sampleItem : Item String := (.token (ascii "gzip"),sampleParameters)

def sampleMembers : List (Member String) :=
  [.item sampleItem,
    .innerList ([(.string (ascii "a b"),.empty),(.bytes [255],.empty)],sampleParameters)]

def sampleDictionary : Table (Member String) :=
  .ofPairs [(ascii "a",.item sampleItem),(ascii "b",.item (.boolean true,.empty)),
    (ascii "c",.item (.date (-1),.empty))]

theorem exact_sampleParameters : ExactParameters sampleParameters := by
  intro p hp
  have hi : sampleParameters.items =
      [(ascii "q",.decimal (-1 / 4)),(ascii "up",.boolean true)] := by decide +kernel
  rw [hi] at hp
  rcases List.mem_pair.mp hp with rfl | rfl
  · change IsThousandths (-1 / 4)
    unfold IsThousandths
    norm_num
  · trivial

theorem exact_empty : ExactParameters (.empty : Parameters String) := by
  simp [ExactParameters,Table.empty]

/-- An item, a list with an inner list in it, and a dictionary. -/
theorem serialized_values_parse_back_samples :
    parseItem codecs (ascii "gzip;q=-0.25;up")=.ok sampleItem ∧
    parseList codecs (ascii "gzip;q=-0.25;up, (\"a b\" :/w==:);q=-0.25;up") =
      .ok sampleMembers ∧
    parseDictionary codecs (ascii "a=gzip;q=-0.25;up, b, c=@-1")=.ok sampleDictionary := by
  have hi : ExactItem sampleItem := ⟨trivial,exact_sampleParameters⟩
  obtain ⟨hp,hpa,hpar⟩ := serialized_values_parse_back codecs_lawful
  refine ⟨hp _ _ hi (by decide +kernel),
    hpa _ _ ?_ (by decide +kernel),hpar _ _ ?_ (by decide +kernel)⟩
  · intro member hm
    rcases List.mem_pair.mp hm with rfl | rfl
    · exact hi
    · refine ⟨fun item hi => ?_,exact_sampleParameters⟩
      rcases List.mem_pair.mp hi with rfl | rfl
      · exact ⟨trivial,exact_empty⟩
      · exact ⟨trivial,exact_empty⟩
  · intro entry he
    have hite : sampleDictionary.items=[(ascii "a",.item sampleItem),
        (ascii "b",.item (.boolean true,.empty)),(ascii "c",.item (.date (-1),.empty))] := by
      decide +kernel
    rw [hite] at he
    simp only [List.mem_cons,List.not_mem_nil,or_false] at he
    rcases he with rfl | rfl | rfl
    · exact hi
    · exact ⟨trivial,exact_empty⟩
    · exact ⟨trivial,exact_empty⟩

end BlackBull.StructuredFields
