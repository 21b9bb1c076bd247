import Mathlib

/-!
# Byte strings and the `bytes` operations of Python

A byte string is a list of octets. The operations follow the methods of the same name: slices clamp,
`strip` takes a set of octets off both ends, `partition` cuts at the first occurrence of one octet
and `split` keeps empty pieces.
-/

namespace BlackBull

abbrev Bytes := List UInt8

instance : LawfulBEq Bytes := inferInstanceAs (LawfulBEq (List UInt8))

namespace ByteString

def ascii (s : String) : Bytes := s.toUTF8.data.toList

def crlf : Bytes := [13,10]

/-- The set `b' \t'`. -/
def isBlank (b : UInt8) : Bool := b=32 || b=9

/-- The octets `bytes.strip()` removes when it is given no set. -/
def isSpace (b : UInt8) : Bool := b=32 || (9≤b && b≤13)

def lstrip (p : UInt8 → Bool) (text : Bytes) : Bytes := text.dropWhile p

def rstrip (p : UInt8 → Bool) (text : Bytes) : Bytes := text.rdropWhile p

def strip (p : UInt8 → Bool) (text : Bytes) : Bytes := rstrip p (lstrip p text)

/-- `bytes.lower()`: only the ASCII capitals move. -/
def lowerOctet (b : UInt8) : UInt8 := if 65≤b && b≤90 then b+32 else b

def lower (text : Bytes) : Bytes := text.map lowerOctet

def isDigit (b : UInt8) : Bool := 48≤b && b≤57

/-- `bytes.isdigit()`: at least one octet, and only ASCII digits. -/
def isdigit (text : Bytes) : Bool := !text.isEmpty && text.all isDigit

def isHexDigit (b : UInt8) : Bool :=
  isDigit b || (97≤b && b≤102) || (65≤b && b≤70)

def digitValue (b : UInt8) : ℕ :=
  if b ≤ 57 then b.toNat - 48 else if b ≤ 70 then b.toNat - 55 else b.toNat - 87

/-- `int(text, base)` on a text whose digits have already been validated. -/
def ofDigits (base : ℕ) (text : Bytes) : ℕ :=
  text.foldl (fun n b => n*base+digitValue b) 0

/-- `int.from_bytes(octets, 'big')`. -/
def ofBigEndian (octets : Bytes) : ℕ := octets.foldl (fun n b => n*256+b.toNat) 0

/-- `n.to_bytes(width, 'big')` of a number that fits. -/
def bigEndian : ℕ → ℕ → Bytes
  | 0,_ => []
  | width + 1,n => UInt8.ofNat (n / 256^width % 256)::bigEndian width n

/-- The longest text `int` converts. -/
def integerMaxDigits : ℕ := 4300

/-- `int(text)` on a text of digits, `none` for the `ValueError` of a text that is too long. -/
def int? (text : Bytes) : Option ℕ :=
  if text.length ≤ integerMaxDigits then some (ofDigits 10 text) else none

/-- RFC 9110 `tchar`: digits, letters and the marks of `!#$%&'*+-.^_` and of `|~`, with the
grave accent. -/
def isTchar (b : UInt8) : Bool :=
  b=33 || (35≤b && b≤39) || b=42 || b=43 || b=45 || b=46 || isDigit b ||
    (65≤b && b≤90) || (94≤b && b≤122) || b=124 || b=126

/-- `text.partition(sep)` for a separator of one octet. -/
def partition (sep : UInt8) (text : Bytes) : Bytes × Bool × Bytes :=
  match text.dropWhile (· != sep) with
  | [] => (text,false,[])
  | _::after => (text.takeWhile (· != sep),true,after)

/-- `text.split(sep)` for a separator of one octet. -/
def splitByte (sep : UInt8) : Bytes → List Bytes
  | [] => [[]]
  | b::rest =>
    match splitByte sep rest with
    | [] => [[]]
    | piece::pieces => if b=sep then []::piece::pieces else (b::piece)::pieces

def endsWith (text suffix : Bytes) : Bool := suffix.isSuffixOf text

def startsWith (text start : Bytes) : Bool := start.isPrefixOf text

private def hexChar (n : ℕ) : Char :=
  Char.ofNat (if n<10 then 48+n else 87+n)

private def reprOctet (quote : UInt8) (b : UInt8) : String :=
  if b=quote || b=92 then String.ofList ['\\',Char.ofNat b.toNat]
  else if b=9 then "\\t" else if b=10 then "\\n" else if b=13 then "\\r"
  else if 32≤b && b<127 then String.ofList [Char.ofNat b.toNat]
  else String.ofList ['\\', 'x',hexChar (b.toNat / 16),hexChar (b.toNat % 16)]

/-- `repr(text)`: single quotes, unless the text holds one and no double quote. -/
def reprBytes (text : Bytes) : String :=
  let quote : UInt8 := if 39∈text && !(34∈text) then 34 else 39
  let mark := String.ofList [Char.ofNat quote.toNat]
  "b" ++ mark++String.join (text.map (reprOctet quote))++mark

example : reprBytes (ascii "a'b" ++ [10,200]) = "b\"a'b\\n\\xc8\"" := by decide

variable {t : Bytes} {p : UInt8 → Bool} {f : Bytes} (wd : ℕ) (sep : UInt8) (pc : Bytes)

/-- A decidable fact about every octet is checked octet by octet. -/
theorem forall_octet (h : (List.range 256).all (fun n => p (UInt8.ofNat n))=true) (b : UInt8) :
    p b=true := by
  have hb := List.all_eq_true.mp h b.toNat (List.mem_range.mpr b.toNat_lt)
  rwa [UInt8.ofNat_toNat] at hb

theorem splitByte_ne_nil (t : Bytes) : splitByte sep t≠[] := by
  cases t with
  | nil => simp [splitByte]
  | cons b rest =>
    simp only [splitByte]
    split
    · simp
    · split_ifs <;> simp

theorem splitByte_cons_sep (r : Bytes) : splitByte sep (sep::r)=[]::splitByte sep r := by
  rw [splitByte]
  cases h : splitByte sep r with
  | nil => exact absurd h (splitByte_ne_nil sep r)
  | cons pc pi => simp

theorem splitByte_append_cons (t r : Bytes) :
    splitByte sep (t++sep::r)=splitByte sep t++splitByte sep r := by
  induction t with
  | nil => exact splitByte_cons_sep sep r
  | cons b t ih =>
    rw [List.cons_append,splitByte,ih,splitByte]
    cases hp : splitByte sep t with
    | nil => exact absurd hp (splitByte_ne_nil sep t)
    | cons p pi =>
      dsimp only [List.cons_append]
      split_ifs <;> rfl

theorem splitByte_append (r : Bytes) (h : sep∉pc) :
    ∃ a pie,splitByte sep r=a::pie ∧
      splitByte sep (pc++r)=(pc++a)::pie := by
  induction pc with
  | nil =>
    cases hs : splitByte sep r with
    | nil => exact absurd hs (splitByte_ne_nil sep r)
    | cons a pie => exact ⟨a,pie,rfl,by simpa using hs⟩
  | cons b pc ih =>
    obtain ⟨hb,hp⟩ : sep≠b ∧ sep∉pc := by simpa using h
    obtain ⟨a,pie,hr,he⟩ := ih hp
    refine ⟨a,pie,hr,?_⟩
    simp [splitByte,he,Ne.symm hb]

theorem splitByte_of_notMem (h : sep∉pc) : splitByte sep pc=[pc] := by
  obtain ⟨a,pie,hr,he⟩ := splitByte_append sep pc [] h
  simp only [splitByte,List.cons.injEq] at hr
  obtain ⟨rfl,rfl⟩ := hr
  simpa using he

theorem splitByte_append_sep (r : Bytes) (h : sep∉pc) :
    splitByte sep (pc++sep::r)=pc::splitByte sep r := by
  rw [splitByte_append_cons,splitByte_of_notMem sep pc h]
  rfl

/-- A text is its only piece, or is cut at its first separator. -/
theorem splitByte_cases (t : Bytes) : sep∉t ∧ splitByte sep t=[t] ∨
    ∃ pc rest,sep∉pc ∧ t=pc++sep::rest ∧
      splitByte sep t=pc::splitByte sep rest := by
  by_cases h : sep∈t
  · obtain ⟨pc,rest,rfl,hp⟩ := List.eq_append_cons_of_mem h
    exact .inr ⟨pc,rest,hp,rfl,splitByte_append_sep sep pc rest hp⟩
  · exact .inl ⟨h,splitByte_of_notMem sep t h⟩

theorem of_mem_splitByte {sep : UInt8} {t a : Bytes} (h : a∈splitByte sep t) : sep∉a ∧ a⊆t := by
  obtain ⟨hn,hs⟩ | ⟨b,rest,hb,rfl,hs⟩ := splitByte_cases sep t
  · obtain rfl := List.mem_singleton.mp (hs ▸ h)
    exact ⟨hn,List.Subset.refl _⟩
  · rw [hs] at h
    rcases List.mem_cons.mp h with rfl | h
    · exact ⟨hb,List.subset_append_left ..⟩
    · obtain ⟨hn,hr⟩ := of_mem_splitByte h
      exact ⟨hn,fun c hc => by simp [hr hc]⟩
termination_by t.length

theorem splitByte_singleton {sep : UInt8} {pc : Bytes} (h : splitByte sep t=[pc]) : pc=t := by
  obtain ⟨-,hs⟩ | ⟨a,rest,-,-,hs⟩ := splitByte_cases sep t
  · exact (List.singleton_inj.mp (hs.symm.trans h)).symm
  · have hr := (List.cons.inj (hs.symm.trans h)).2
    exact absurd hr (splitByte_ne_nil sep rest)

theorem splitByte_three {sep : UInt8} {a b c : Bytes} (h : splitByte sep t=[a,b,c]) :
    t=a++sep::(b++sep::c) ∧ sep∉a ∧ sep∉b ∧ sep∉c := by
  obtain ⟨-,hs⟩ | ⟨a',rest,ha,rfl,hs⟩ := splitByte_cases sep t
  · simp [h] at hs
  obtain ⟨rfl,hbc⟩ := List.cons.inj (hs.symm.trans h)
  obtain ⟨-,hs⟩ | ⟨b',rest,hb,rfl,hs⟩ := splitByte_cases sep rest
  · simp [hbc] at hs
  obtain ⟨rfl,hc⟩ := List.cons.inj (hs.symm.trans hbc)
  obtain ⟨hl,hs⟩ | ⟨c',rest,-,rfl,hs⟩ := splitByte_cases sep rest
  · obtain rfl := List.singleton_inj.mp (hs.symm.trans hc)
    exact ⟨rfl,ha,hb,hl⟩
  · have hr := (List.cons.inj (hs.symm.trans hc)).2
    exact absurd hr (splitByte_ne_nil sep rest)

theorem partition_append (f bk : Bytes) (h : sep∉f) : partition sep (f++sep::bk)=(f,true,bk) := by
  have ht : ∀ b∈f,(b != sep)=true := by
    intro b hb
    simpa using fun he : b=sep => h (he ▸ hb)
  rw [partition,List.dropWhile_append_of_pos ht,List.takeWhile_append_of_pos ht]
  simp

theorem partition_of_notMem (t : Bytes) (h : sep∉t) : partition sep t=(t,false,[]) := by
  have hd : t.dropWhile (· != sep)=[] := by
    rw [List.dropWhile_eq_nil_iff]
    intro b hb
    simpa using fun he : b=sep => h (he ▸ hb)
  rw [partition,hd]

/-- The first occurrence of the separator fixes both sides of the cut. -/
theorem append_sep_inj {sep : UInt8} {f' bk b : Bytes} (h : sep∉f)
    (h' : sep∉f') (heq : f++sep::bk=f'++sep::b) : f=f' ∧ bk=b := by
  have hc := congrArg (partition sep) heq
  rw [partition_append sep f bk h,partition_append sep f' b h'] at hc
  simpa using hc

/-- A text that neither begins nor ends in an octet of the set. -/
structure Trimmed (p : UInt8 → Bool) (text : Bytes) : Prop where
  first : ∀ b∈text.head?,p b=false
  last : ∀ b∈text.getLast?,p b=false

theorem rstrip_append {tail : Bytes} (ht : ∀ b∈tail,p b=true)
    (hl : ∀ b∈t.getLast?,p b=false) : rstrip p (t++tail)=t := by
  have hd : t.reverse.dropWhile p=t.reverse := by
    cases hr : t.reverse with
    | nil => rfl
    | cons b rest =>
      have hb : p b=false := hl b (by rw [List.getLast?_eq_head?_reverse,hr]; rfl)
      simp [hb]
  rw [rstrip,List.rdropWhile,List.reverse_append,List.dropWhile_append_of_pos (by simpa),
    hd,List.reverse_reverse]

theorem lstrip_append (hf : ∀ b∈f,p b=true) (hfi : ∀ b∈t.head?,p b=false) : lstrip p (f++t)=t := by
  rw [lstrip,List.dropWhile_append_of_pos hf]
  cases t with
  | nil => rfl
  | cons b rest => simp [hfi b rfl]

theorem strip_append {tail : Bytes} (hf : ∀ b∈f,p b=true) (ht : Trimmed p t)
    (hne : t≠[]) (hta : ∀ b∈tail,p b=true) : strip p (f++t++tail)=t := by
  rw [strip,List.append_assoc,lstrip_append hf]
  · exact rstrip_append hta ht.last
  · cases t with
    | nil => exact absurd rfl hne
    | cons b rest => exact ht.first

theorem strip_of_forall (h : ∀ b∈t,p b=false) : strip p t=t := by
  have hl := lstrip_append (List.forall_mem_nil _) fun b hb => h b (List.mem_of_mem_head? hb)
  have hr := rstrip_append (List.forall_mem_nil _) fun b hb => h b (List.mem_of_mem_getLast? hb)
  rw [List.nil_append] at hl
  rw [List.append_nil] at hr
  rw [strip,hl,hr]

theorem rstrip_split (p : UInt8 → Bool) (t : Bytes) :
    ∃ tail,(∀ b∈tail,p b=true) ∧ t=rstrip p t++tail :=
  ⟨t.rtakeWhile p,fun _ hb => List.mem_rtakeWhile_imp hb,List.rdropWhile_append_rtakeWhile.symm⟩

theorem strip_split (p : UInt8 → Bool) (t : Bytes) : ∃ f tail,
    (∀ b∈f,p b=true) ∧ (∀ b∈tail,p b=true) ∧ t=f++strip p t++tail := by
  obtain ⟨tail,ht,hba⟩ := rstrip_split p (lstrip p t)
  refine ⟨t.takeWhile p,tail,fun _ hb => List.mem_takeWhile_imp hb,ht,?_⟩
  rw [List.append_assoc,strip,← hba,lstrip,List.takeWhile_append_dropWhile]

theorem mem_strip {b : UInt8} (hb : b∈t) (hp : p b=false) : b∈strip p t := by
  have hd : ∀ {l : Bytes},b∈l → b∈l.dropWhile p := by
    intro l hl
    rw [← List.takeWhile_append_dropWhile (p := p) (l := l)] at hl
    obtain hf | hba := List.mem_append.mp hl
    · rw [List.mem_takeWhile_imp hf] at hp
      cases hp
    · exact hba
  rw [strip,rstrip,List.rdropWhile,List.mem_reverse]
  exact hd (List.mem_reverse.mpr (hd hb))

theorem strip_subset (p : UInt8 → Bool) (t : Bytes) : strip p t ⊆ t := fun _ hb =>
  (List.dropWhile_sublist p).subset ((List.rdropWhile_prefix p _).subset hb)

theorem mem_partition {b : UInt8} :
    b∈t ↔ b∈(partition sep t).1 ∨ (partition sep t).2.1=true ∧ b=sep ∨
      b∈(partition sep t).2.2 := by
  by_cases h : sep∈t
  · obtain ⟨f,bk,rfl,hf⟩ := List.eq_append_cons_of_mem h
    simp [partition_append sep f bk hf]
  · simp [partition_of_notMem sep t h]

/-- `data[start:stop]`. -/
def slice (data : Bytes) (start stop : ℕ) : Bytes := (data.drop start).take (stop - start)

@[simp] theorem length_bigEndian (n : ℕ) : (bigEndian wd n).length=wd := by
  induction wd with
  | zero => rfl
  | succ wd ih => simp [bigEndian,ih]

theorem foldl_bigEndian (n m : ℕ) : (bigEndian wd n).foldl (fun k b => k*256+b.toNat) m =
      m * 256^wd + n % 256^wd := by
  induction wd generalizing m with
  | zero => simp [bigEndian,Nat.mod_one]
  | succ wd ih =>
    have hd : (UInt8.ofNat (n / 256^wd % 256)).toNat = n / 256^wd % 256 := by simp
    have hs : n % 256^(wd + 1) = n / 256^wd % 256 * 256^wd + n % 256^wd := by
      rw [pow_succ,Nat.mod_mul,mul_comm (256^wd),add_comm]
    rw [bigEndian,List.foldl_cons,ih,hd,hs]
    ring

theorem ofBigEndian_bigEndian {n : ℕ} (h : n<256^wd) : ofBigEndian (bigEndian wd n)=n := by
  rw [ofBigEndian,foldl_bigEndian,zero_mul,zero_add,Nat.mod_eq_of_lt h]

theorem ofBigEndian_lt (bs : Bytes) : ofBigEndian bs<256^bs.length := by
  induction bs using List.reverseRecOn with
  | nil => simp [ofBigEndian]
  | append_singleton bs b ih =>
    have hb := b.toNat_lt
    rw [ofBigEndian] at ih ⊢
    rw [List.foldl_append,List.foldl_cons,List.foldl_nil,List.length_append,
      List.length_singleton,pow_succ]
    omega

end ByteString
end BlackBull
