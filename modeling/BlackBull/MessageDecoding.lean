import BlackBull.Headers

/-!
# Receiving a message

A receiver of RFC 9112 messages: a start line, a field section, and content framed by Content-Length
or by the chunked coding. A message that is framed in neither way is not received. What a sender
renders in the shapes below is received as it was meant, whatever follows it.
-/

namespace BlackBull

open ByteString

namespace ByteString

def digitOctet (n : ℕ) : UInt8 := .ofNat (if n<10 then 48+n else 87+n)

/-- A number in digits, the lower case letters above nine. -/
def toDigits (base n : ℕ) : Bytes :=
  if n=0 then [48] else ((base.digits n).map digitOctet).reverse

end ByteString

/-- The line at the front, without its end. -/
def cutLine : Bytes → Option (Bytes × Bytes)
  | [] => none
  | 13::10::rest => some ([],rest)
  | b::rest => (cutLine rest).map fun cut => (b::cut.1,cut.2)

def isFieldOctet (b : UInt8) : Bool := b=9 || (32≤b && b≠127)

/-- A name and a value, as a field line carries them. -/
structure FieldSyntax (field : Bytes × Bytes) : Prop where
  name_ne_nil : field.1≠[]
  name : ∀ b∈field.1,isTchar b=true
  value : ∀ b∈field.2,isFieldOctet b=true
  trimmed : Trimmed isBlank field.2

def decodeField (line : Bytes) : Option (Bytes × Bytes) :=
  let (name,found,value) := partition 58 line
  if found ∧ name≠[] ∧ name.all isTchar ∧ value.all isFieldOctet then
    some (name,strip isBlank value)
  else none

/-- A field section, up to the empty line that ends it. -/
def decodeFields : ℕ → Bytes → Option (HeaderList × Bytes)
  | 0,_ => none
  | fuel+1,wire => do
    let (line,rest) ← cutLine wire
    if line=[] then pure ([],rest)
    else
      let field ← decodeField line
      let (fields,rest) ← decodeFields fuel rest
      pure (field::fields,rest)

def decodeChunks : ℕ → Bytes → Option (Bytes × Bytes)
  | 0,_ => none
  | fuel+1,wire => do
    let (line,rest) ← cutLine wire
    if line=[] ∨ !line.all isHexDigit then none
    else
      let size := ofDigits 16 line
      if size=0 then pure ([],rest)
      else if size≤rest.length ∧ (rest.drop size).take 2=crlf then
        let (body,after) ← decodeChunks fuel ((rest.drop size).drop 2)
        pure (rest.take size++body,after)
      else none

inductive MessageFraming where
  | sized (length : ℕ)
  | chunked
  deriving DecidableEq

def fieldValues (fields : HeaderList) (name : Bytes) : List Bytes :=
  (fields.filter fun field => lower field.1=name).map Prod.snd

/-- How the content is framed, when the fields say it and agree. -/
def framingOf (fields : HeaderList) : Option MessageFraming :=
  match fieldValues fields (ascii "transfer-encoding"),
    fieldValues fields (ascii "content-length") with
  | [],[value] => if isdigit value then some (.sized (ofDigits 10 value)) else none
  | [coding],[] => if lower coding=ascii "chunked" then some .chunked else none
  | _,_ => none

structure Message where
  startLine : Bytes
  fields : HeaderList
  body : Bytes
  trailers : HeaderList
  deriving DecidableEq

def decodeContent (startLine : Bytes) (fields : HeaderList) (wire : Bytes) :
    Option (Message × Bytes) := do
  match ← framingOf fields with
  | .sized length =>
    if length≤wire.length then
      pure (⟨startLine,fields,wire.take length,[]⟩,wire.drop length)
    else none
  | .chunked =>
    let (body,rest) ← decodeChunks (wire.length+1) wire
    let (trailers,rest) ← decodeFields (rest.length+1) rest
    pure (⟨startLine,fields,body,trailers⟩,rest)

/-- The message at the front of a stream and what follows it. -/
def decodeMessage (wire : Bytes) : Option (Message × Bytes) := do
  let (startLine,rest) ← cutLine wire
  if startsWith startLine (ascii "HTTP/1.1 ") then
    let (fields,rest) ← decodeFields (rest.length+1) rest
    decodeContent startLine fields rest
  else none

def renderField (field : Bytes × Bytes) : Bytes := field.1++ascii ": " ++ field.2++crlf

def renderFields (fields : HeaderList) : Bytes := fields.flatMap renderField

def renderChunk (payload : Bytes) : Bytes :=
  toDigits 16 payload.length++crlf++payload++crlf

namespace ByteString

variable {n : ℕ}

theorem digitValue_digitOctet (h : n<16) : digitValue (digitOctet n)=n := by
  have ha : ∀ n : Fin 16,digitValue (digitOctet n)=n := by decide
  exact ha ⟨n,h⟩

theorem isHexDigit_digitOctet (h : n<16) : isHexDigit (digitOctet n)=true := by
  have ha : ∀ n : Fin 16,isHexDigit (digitOctet n)=true := by decide
  exact ha ⟨n,h⟩

theorem isDigit_digitOctet (h : n<10) : isDigit (digitOctet n)=true := by
  have ha : ∀ n : Fin 10,isDigit (digitOctet n)=true := by decide
  exact ha ⟨n,h⟩

theorem toDigits_ne_nil (b n : ℕ) : toDigits b n≠[] := by
  unfold toDigits
  split
  · simp
  case isFalse hn => simpa [Nat.digits_eq_nil_iff_eq_zero] using hn

theorem mem_toDigits {ba : ℕ} (hb : 1<ba) {b : UInt8} (h : b∈toDigits ba n) :
    ∃ d<ba,b=digitOctet d := by
  unfold toDigits at h
  split at h
  · exact ⟨0,by omega,List.mem_singleton.mp h⟩
  · obtain ⟨d,hd,rfl⟩ := List.mem_map.mp (List.mem_reverse.mp h)
    exact ⟨d,Nat.digits_lt_base hb hd,rfl⟩

theorem isDigit_of_mem_toDigits {b : UInt8} (h : b∈toDigits 10 n) : isDigit b=true := by
  obtain ⟨d,hd,rfl⟩ := mem_toDigits (by decide) h
  exact isDigit_digitOctet hd

theorem isHexDigit_of_mem_toDigits {b : UInt8} (h : b∈toDigits 16 n) : isHexDigit b=true := by
  obtain ⟨d,hd,rfl⟩ := mem_toDigits (by decide) h
  exact isHexDigit_digitOctet hd

theorem ofDigits_toDigits {b : ℕ} (hb : 1<b) (h16 : b≤16) (n : ℕ) :
    ofDigits b (toDigits b n)=n := by
  unfold toDigits
  split
  case isTrue hn => simp [hn,ofDigits,digitValue]
  case isFalse =>
    rw [ofDigits,List.foldl_reverse,List.foldr_map]
    have hv : ∀ di : List ℕ,(∀ d∈di,d<b) → di.foldr (fun d n => n*b+digitValue (digitOctet d)) 0 =
          Nat.ofDigits b di := by
      intro di hdi
      induction di with
      | nil => rfl
      | cons d di ih =>
        obtain ⟨hd,hr⟩ := List.forall_mem_cons.mp hdi
        rw [List.foldr_cons,ih hr,Nat.ofDigits_cons,digitValue_digitOctet (by omega)]
        ring
    rw [hv _ fun d hd => Nat.digits_lt_base hb hd,Nat.ofDigits_digits]

end ByteString

theorem cutLine_cons {b : UInt8} (h : b≠13) (rs : Bytes) :
    cutLine (b::rs)=(cutLine rs).map fun cut => (b::cut.1,cut.2) := by
  rw [cutLine]
  rintro r rfl
  exact absurd rfl h

theorem cutLine_append {l : Bytes} (h : 13∉l) (r : Bytes) : cutLine (l++(crlf++r))=some (l,r) := by
  induction l with
  | nil => rfl
  | cons b l ih =>
    rw [List.mem_cons,not_or] at h
    rw [List.cons_append,cutLine_cons (Ne.symm h.1),ih h.2]
    rfl

theorem FieldSyntax.line {f : Bytes × Bytes} (h : FieldSyntax f) : 13∉f.1++ascii ": " ++ f.2 := by
  have hn : (13 : UInt8)∉f.1 := fun hm => absurd (h.name 13 hm) (by decide)
  have hv : (13 : UInt8)∉f.2 := fun hm => absurd (h.value 13 hm) (by decide)
  have hs : (13 : UInt8)∉ascii ": " := by decide
  simp [hn,hv,hs]

theorem decodeField_render {f : Bytes × Bytes} (h : FieldSyntax f) :
    decodeField (f.1++ascii ": " ++ f.2)=some f := by
  have hc : (58 : UInt8)∉f.1 := fun hm => absurd (h.name 58 hm) (by decide)
  have hs : f.1++ascii ": " ++ f.2=f.1++58::(32::f.2) := by
    rw [show ascii ": " = [58,32] by decide]
    simp
  have hst : strip isBlank (32::f.2)=f.2 := by
    by_cases he : f.2=[]
    · rw [he]
      decide
    · have hf : ∀ b∈[(32 : UInt8)],isBlank b=true := by simp [isBlank]
      have hcu := strip_append hf h.trimmed he (List.forall_mem_nil (isBlank · = true))
      simpa using hcu
  have hn : f.1.all isTchar=true := List.all_eq_true.mpr h.name
  have hv : (32::f.2).all isFieldOctet=true :=
    List.all_eq_true.mpr (List.forall_mem_cons.mpr ⟨by decide,h.value⟩)
  rw [hs,decodeField,partition_append 58 f.1 (32::f.2) hc]
  simp only [hn,hv,hst,h.name_ne_nil,ne_eq,not_false_eq_true,and_self,if_true]

theorem renderFields_cons (f : Bytes × Bytes) (fds : HeaderList) :
    renderFields (f::fds)=renderField f++renderFields fds := rfl

theorem length_le_renderFields (fds : HeaderList) : fds.length≤(renderFields fds).length := by
  induction fds with
  | nil => exact Nat.zero_le _
  | cons f fds ih =>
    simp only [renderFields_cons,renderField,crlf,List.length_append,List.length_cons]
    omega

variable {fs : HeaderList} {cs : List Bytes} {sl : Bytes}

theorem decodeFields_render (h : ∀ f∈fs,FieldSyntax f) {k : ℕ} (hf : fs.length<k) (r : Bytes) :
    decodeFields k (renderFields fs++(crlf++r))=some (fs,r) := by
  induction fs generalizing k with
  | nil =>
    obtain ⟨k,rfl⟩ := Nat.exists_eq_add_of_lt hf
    rfl
  | cons f fs ih =>
    obtain ⟨hfi,hfie⟩ := List.forall_mem_cons.mp h
    obtain ⟨k,rfl⟩ : ∃ n,k = n + 1 := ⟨k - 1,by omega⟩
    have hl : f.1++ascii ": " ++ f.2≠[] := by simp [hfi.name_ne_nil]
    have hc := cutLine_append hfi.line (renderFields fs++(crlf++r))
    have hfir := decodeField_render hfi
    rw [renderFields_cons,renderField,List.append_assoc,List.append_assoc _ crlf]
    generalize f.1++ascii ": " ++ f.2=line at hl hc hfir
    simp [decodeFields,hc,hl,hfir,ih hfie (Nat.lt_of_succ_lt_succ hf)]

theorem decodeChunks_chunk {p : Bytes} (hp : p≠[]) (k : ℕ) (w : Bytes) :
    decodeChunks (k+1) (renderChunk p++w) =
      (decodeChunks k w).map fun rest => (p++rest.1,rest.2) := by
  have hh (b) (hb : b∈toDigits 16 p.length) := isHexDigit_of_mem_toDigits hb
  have hcr : (13 : UInt8)∉toDigits 16 p.length := fun hm => absurd (hh 13 hm) (by decide)
  have hc := cutLine_append hcr (p++(crlf++w))
  have hs := ofDigits_toDigits (by decide : 1<16) (by decide) p.length
  have hne := toDigits_ne_nil 16 p.length
  have hl : p.length≠0 := by simpa using hp
  rw [renderChunk,List.append_assoc,List.append_assoc,List.append_assoc]
  generalize toDigits 16 p.length=line at hh hc hs hne
  have ha : line.all isHexDigit=true := List.all_eq_true.mpr hh
  simp only [decodeChunks,hc,hne,ha,hs,hl,Option.bind_eq_bind,
    Option.bind_some,Bool.not_true,Bool.false_eq_true,or_self,if_false,List.length_append,
    Nat.le_add_right,List.drop_left,List.take_left,true_and]
  rw [if_pos (by rfl),show (crlf++w).drop 2=w from rfl]
  cases decodeChunks k w <;> rfl

def renderChunks (chunks : List Bytes) : Bytes := chunks.flatMap renderChunk

theorem decodeChunks_render (h : ∀ c∈cs,c≠[]) {k : ℕ} (hf : cs.length<k) (r : Bytes) :
    decodeChunks k (renderChunks cs++(ascii "0" ++ (crlf++r))) =
      some (cs.flatten,r) := by
  induction cs generalizing k with
  | nil =>
    obtain ⟨k,rfl⟩ : ∃ n,k = n + 1 := ⟨k - 1,by omega⟩
    have hc := cutLine_append (by decide : 13∉ascii "0") r
    simp only [renderChunks,List.flatMap_nil,List.nil_append,decodeChunks,hc]
    rfl
  | cons c cs ih =>
    obtain ⟨hch,hchu⟩ := List.forall_mem_cons.mp h
    obtain ⟨k,rfl⟩ : ∃ n,k = n + 1 := ⟨k - 1,by omega⟩
    rw [renderChunks,List.flatMap_cons,List.append_assoc,decodeChunks_chunk hch,
      ← renderChunks,ih hchu (Nat.lt_of_succ_lt_succ hf)]
    rfl

theorem decodeChunks_unfinished (h : ∀ c∈cs,c≠[]) (k : ℕ) :
    decodeChunks k (renderChunks cs)=none := by
  induction cs generalizing k with
  | nil => cases k <;> rfl
  | cons c cs ih =>
    obtain ⟨hc,hch⟩ := List.forall_mem_cons.mp h
    cases k with
    | zero => rfl
    | succ k =>
      rw [renderChunks,List.flatMap_cons,decodeChunks_chunk hc,← renderChunks,ih hch]
      rfl

theorem length_le_renderChunks (cs : List Bytes) : cs.length≤(renderChunks cs).length := by
  induction cs with
  | nil => exact Nat.zero_le _
  | cons c cs ih =>
    simp only [renderChunks,List.flatMap_cons,renderChunk,crlf,List.length_append,
      List.length_cons] at ih ⊢
    omega

theorem decodeMessage_head (hl : 13∉sl) (hs : startsWith sl (ascii "HTTP/1.1 ") =
    true) (hf : ∀ f∈fs,FieldSyntax f) (c : Bytes) :
    decodeMessage (sl++(crlf++(renderFields fs++(crlf++c)))) =
      decodeContent sl fs c := by
  have hc := cutLine_append hl (renderFields fs++(crlf++c))
  have hfu : fs.length<(renderFields fs++(crlf++c)).length+1 := by
    have hle := length_le_renderFields fs
    simp only [List.length_append]
    omega
  have hd := decodeFields_render hf hfu c
  generalize renderFields fs++(crlf++c)=wire at hc hd ⊢
  simp [decodeMessage,hc,hs,hd]

theorem decodeContent_sized {b : Bytes} (hf : framingOf fs=some (.sized b.length)) :
    decodeContent sl fs b=some (⟨sl,fs,b,[]⟩,[]) := by
  simp [decodeContent,hf]

theorem decodeContent_chunked {tr : HeaderList} (hf : framingOf fs=some .chunked)
    (hc : ∀ c∈cs,c≠[]) (ht : ∀ f∈tr,FieldSyntax f) : decodeContent sl fs
        (renderChunks cs++(ascii "0" ++ (crlf++(renderFields tr++(crlf++[]))))) =
      some (⟨sl,fs,cs.flatten,tr⟩,[]) := by
  generalize hw : renderFields tr++(crlf++[])=wire
  have hfu : cs.length<(renderChunks cs++(ascii "0" ++ (crlf++wire))).length+1 := by
    have hl := length_le_renderChunks cs
    simp only [List.length_append]
    omega
  have hb := decodeChunks_render hc hfu wire
  have hfi : decodeFields (wire.length+1) wire=some (tr,[]) := by
    rw [← hw]
    refine decodeFields_render ht ?_ []
    have hl := length_le_renderFields tr
    simp only [List.length_append]
    omega
  generalize renderChunks cs++(ascii "0" ++ (crlf++wire))=content at hb ⊢
  simp [decodeContent,hf,hb,hfi]

theorem decodeContent_unfinished (hf : framingOf fs=some .chunked)
    (hc : ∀ c∈cs,c≠[]) : decodeContent sl fs (renderChunks cs)=none := by
  simp [decodeContent,hf,decodeChunks_unfinished hc]

end BlackBull
