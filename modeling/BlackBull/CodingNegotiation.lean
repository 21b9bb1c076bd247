import BlackBull.ByteString
import BlackBull.OrderedDict
import BlackBull.TransitionRuns

/-!
# The content coding of a response

`Compression._select_codec` takes the first coding of its own preference that the client names at
all. A weight only orders the names, so a coding that is refused with weight zero is taken too.
-/

namespace BlackBull.Compression

open ByteString

inductive Codec
  | br | zstd | gzip
  deriving DecidableEq

def Codec.name : Codec → Bytes
  | br => ascii "br"
  | zstd => ascii "zstd"
  | gzip => ascii "gzip"

def serverPreference : List Codec := [.br,.zstd,.gzip]

/-- `float` on octets, `none` for its `ValueError`. -/
structure Floats (δ : Type) where
  float? : Bytes → Option δ
  one : δ
  le : δ → δ → Bool

variable {δ : Type} (floats : Floats δ)

/-- The name a token begins with; octets that are not ASCII are dropped from it. -/
def nameOf (token : Bytes) : Bytes :=
  (lower (strip isSpace ((splitByte 59 (strip isSpace token)).headD []))).filter (·<128)

def weightOf (token : Bytes) : δ :=
  (splitByte 59 (strip isSpace token)).tail.foldl (fun q param =>
    if startsWith (strip isSpace param) (ascii "q=") then
      (floats.float? ((strip isSpace param).drop 2)).getD q
    else q) floats.one

def parseAcceptEncoding (header : Bytes) : List Bytes :=
  let result := ((splitByte 44 header).map fun token => (weightOf floats token,nameOf token)).filter
    (·.2≠[])
  (result.mergeSort fun x y => floats.le y.1 x.1).map Prod.snd

abbrev CodecCache := Dict Bytes (Option Codec)

def selectCodec (available : List Codec) (cache : CodecCache) (header : Bytes) :
    Option Codec × CodecCache :=
  match cache.get? header with
  | some result => (result,cache)
  | none =>
    let accepted := parseAcceptEncoding floats header
    let result := serverPreference.find? fun codec => codec.name∈accepted && codec∈available
    (result,if cache.length<256 then cache.set header result else cache)

/-- `qvalue` of section 12.4.2: whether it is above zero. -/
def qvalue? : Bytes → Option Bool
  | [] => none
  | b::rest =>
    if (rest=[] ∨ rest.head?=some 46 ∧ rest.length≤4) ∧ rest.tail.all isDigit ∧
        (b=48 ∨ b=49 ∧ rest.tail.all (·=48)) then some (b=49 || rest.tail.any (·≠48))
    else none

/-- An element of Accept-Encoding: the coding, and whether its weight is above zero. -/
def member? (element : Bytes) : Option (Bytes × Bool) :=
  let (coding,weighted,param) := partition 59 (strip isBlank element)
  let coding := lower (rstrip isBlank coding)
  let param := lstrip isBlank param
  if coding=[] ∨ !coding.all isTchar then none
  else if !weighted then some (coding,true)
  else if lower (param.take 2)=ascii "q=" then (qvalue? (param.drop 2)).map (coding,·)
  else none

/-- Section 12.5.3: the coding is listed with a weight above zero, or it is not listed and the
wildcard is. -/
def Accepts (header coding : Bytes) : Prop :=
  (coding,true)∈(splitByte 44 header).filterMap member? ∨
    (∀ m∈(splitByte 44 header).filterMap member?,m.1≠coding) ∧
      (ascii "*",true)∈(splitByte 44 header).filterMap member?

instance (header coding : Bytes) : Decidable (Accepts header coding) :=
  inferInstanceAs (Decidable (_ ∨ _ ∧ _))

/-- What is chosen is supported and accepted; so nothing is chosen where nothing is. -/
def Negotiates (available : List Codec) (cache : CodecCache) (header : Bytes) : Prop :=
  ∀ codec,(selectCodec floats available cache header).1=some codec →
    codec∈available ∧ Accepts header codec.name

def Names (header : Bytes) (codec : Codec) : Prop :=
  ∃ token∈splitByte 44 header,nameOf token=codec.name

/-- The codings that are preferred to this one. -/
def Codec.preferred (codec : Codec) : List Codec := serverPreference.takeWhile (·≠codec)

/-- The element names the coding, but with weight zero or not as an element is written. -/
def Spoils (codec : Codec) (element : Bytes) : Prop :=
  nameOf element=codec.name ∧ member? element≠some (codec.name,true)

/-- Where an element spoils a coding, another lists it as it should be, or names one that is
preferred, or the coding is not listed at all and the wildcard is. -/
def Unspoiled (available : List Codec) (header : Bytes) : Prop :=
  ∀ codec∈available,∀ element∈splitByte 44 header,Spoils codec element →
    (∃ other∈splitByte 44 header,member? other=some (codec.name,true)) ∨
    (∃ other∈splitByte 44 header,∃ better∈codec.preferred,better∈available ∧
      nameOf other=better.name) ∨
    (∀ other∈splitByte 44 header,member? other≠some (codec.name,false)) ∧
      ∃ other∈splitByte 44 header,member? other=some (ascii "*",true)

variable {av : List Codec} {cache : CodecCache} {header : Bytes}

theorem name_ne_nil (co : Codec) : co.name≠[] := by cases co <;> decide

theorem mem_parseAcceptEncoding (co : Codec) :
    co.name∈parseAcceptEncoding floats header ↔ Names header co := by
  simp only [parseAcceptEncoding,List.mem_map,List.mem_mergeSort,List.mem_filter,Names]
  constructor
  · rintro ⟨_,⟨⟨t,ht,rfl⟩,-⟩,hn⟩
    exact ⟨t,ht,hn⟩
  · rintro ⟨t,ht,hn⟩
    exact ⟨_,⟨⟨t,ht,rfl⟩,by simp [hn,name_ne_nil]⟩,hn⟩

/-- The choice without the cache. -/
def chosen (available : List Codec) (header : Bytes) : Option Codec :=
  serverPreference.find? fun codec =>
    codec.name∈parseAcceptEncoding floats header && codec∈available

def Fresh (available : List Codec) (cache : CodecCache) : Prop :=
  ∀ header result,cache.get? header=some result → result=chosen floats available header

theorem selectCodec_fst (h : Fresh floats av cache) (header : Bytes) :
    (selectCodec floats av cache header).1=chosen floats av header := by
  unfold selectCodec
  split
  · next r hg => exact h header r hg
  · rfl

theorem fresh_selectCodec (h : Fresh floats av cache) (header : Bytes) :
    Fresh floats av (selectCodec floats av cache header).2 := by
  unfold selectCodec
  split
  · exact h
  · dsimp only
    split_ifs
    · intro o r hg
      rw [Dict.get?_set] at hg
      split_ifs at hg with ho
      · exact ho ▸ (Option.some.inj hg).symm
      · exact h o r hg
    · exact h

theorem chosen_eq_some_iff (co : Codec) : chosen floats av header=some co ↔
    co∈av ∧ Names header co ∧ ∀ ot∈co.preferred,ot∈av → ¬ Names header ot := by
  have hm (o : Codec) : o.name∈parseAcceptEncoding floats header ↔ Names header o :=
    mem_parseAcceptEncoding floats o
  have hb : Codec.br.preferred=[] := by decide
  have hz : Codec.zstd.preferred=[.br] := by decide
  have hg : Codec.gzip.preferred=[.br,.zstd] := by decide
  cases co <;> simp only [chosen,serverPreference,List.find?,hb,hz,hg] <;> grind

theorem negotiates_iff (h : Fresh floats av cache) (header : Bytes) :
    Negotiates floats av cache header ↔ Unspoiled av header := by
  simp only [Negotiates,selectCodec_fst floats h,chosen_eq_some_iff]
  constructor
  · rintro hn co ha e he ⟨hna,-⟩
    by_cases hb : ∃ ot∈co.preferred,ot∈av ∧ Names header ot
    · obtain ⟨ot,hp,hoa,o,ho,hon⟩ := hb
      exact .inr (.inl ⟨o,ho,ot,hp,hoa,hon⟩)
    · obtain ⟨-,hac⟩ := hn co ⟨ha,⟨e,he,hna⟩,fun ot hp hoa hot => hb ⟨ot,hp,hoa,hot⟩⟩
      rcases hac with hl | ⟨hno,hw⟩
      · exact .inl (List.mem_filterMap.mp hl)
      · refine .inr (.inr ⟨fun o ho hm => ?_,List.mem_filterMap.mp hw⟩)
        exact hno _ (List.mem_filterMap.mpr ⟨o,ho,hm⟩) rfl
  · rintro hu co ⟨ha,⟨e,he,hna⟩,hb⟩
    refine ⟨ha,?_⟩
    by_cases hl : ∃ o∈splitByte 44 header,member? o=some (co.name,true)
    · exact .inl (List.mem_filterMap.mpr hl)
    · have hs : Spoils co e := ⟨hna,fun hm => hl ⟨e,he,hm⟩⟩
      rcases hu co ha e he hs with hg | ⟨o,ho,ot,hp,hoa,hon⟩ | ⟨hno,hw⟩
      · exact absurd hg hl
      · exact absurd ⟨o,ho,hon⟩ (hb ot hp hoa)
      · refine .inr ⟨?_,List.mem_filterMap.mpr hw⟩
        rintro ⟨_,w⟩ hm rfl
        obtain ⟨o,ho,hm⟩ := List.mem_filterMap.mp hm
        cases w with
        | true => exact hl ⟨o,ho,hm⟩
        | false => exact hno o ho hm

/-- Over any requests, the coding chosen is one the client accepts exactly where no element spoils
the most preferred of those it names. -/
theorem coding_negotiated_iff (floats : Floats δ) (available : List Codec) (headers : List Bytes) :
    Along (fun cache header => (selectCodec floats available cache header).2)
      (Negotiates floats available) [] headers ↔
    ∀ header∈headers,Unspoiled available header := by
  have hf : Fresh floats available [] := nofun
  generalize ([] : CodecCache)=cache at hf
  induction headers generalizing cache with
  | nil => simp
  | cons header headers ih =>
    rw [List.forall_mem_cons]
    exact and_congr (negotiates_iff floats hf header) (ih _ (fresh_selectCodec floats hf header))

/-- A coding that the client refuses. -/
theorem refused_coding_chosen : ¬ Along (fun cache header =>
      (selectCodec ⟨fun _ => none,(),fun _ _ => true⟩ [.gzip] cache header).2)
    (Negotiates ⟨fun _ => none,(),fun _ _ => true⟩ [.gzip]) [] [ascii "gzip;q=0"] := by
  rintro ⟨h,-⟩
  obtain ⟨-,ha⟩ := h .gzip (by decide +kernel)
  exact absurd ha (by decide +kernel)

end BlackBull.Compression
