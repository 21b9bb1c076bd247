import BlackBull.MqttPackets

/-!
# MQTT: reading back the fields

A decoder at an offset `Reads` an encoding when it returns the value and the offset behind it
wherever the encoding stands in the data. The loop over the properties `Passes` the octets of a
property, so that the block is an induction over its properties.
-/

namespace BlackBull.Mqtt

open ByteString

@[simp] theorem ok_bind {α β : Type} (a : α) (f : α → Except Failure β) :
    (Except.ok a >>= f)=f a := rfl

@[simp] theorem ok_map {α β : Type} (a : α) (f : α → β) :
    (f <$> (Except.ok a : Except Failure α))=.ok (f a) := rfl

/-- Wherever the octets stand in the data, the decoder returns the value and goes past them. -/
def Reads {α : Type} (decode : Bytes → ℕ → Except Failure (α × ℕ)) (octets : Bytes) (a : α) :
    Prop :=
  ∀ data pos rest,data.drop pos=octets++rest →
    decode data pos=.ok (a,pos+octets.length)

section Positions

variable {d o r : Bytes} {pos : ℕ}

theorem drop_past (h : d.drop pos=o++r) : d.drop (pos+o.length)=r := by
  rw [← List.drop_drop,h,List.drop_left]

theorem drop_succ {b : UInt8} (h : d.drop pos=b::r) : d.drop (pos+1)=r := by
  have ho : d.drop pos=[b]++r := h
  exact drop_past ho

theorem drop_of_append (h : o++r=d) : d.drop (0+o.length)=r := drop_past h.symm

theorem length_of_drop (h : d.drop pos=o++r) (hne : o≠[]) : d.length=pos+o.length+r.length := by
  have hl := congrArg List.length h
  have hp : 0<o.length := List.length_pos_iff.mpr hne
  simp only [List.length_drop,List.length_append] at hl
  omega

theorem slice_of_drop (h : d.drop pos=o++r) : slice d pos (pos+o.length)=o := by
  rw [slice,h,Nat.add_sub_cancel_left,List.take_left]

theorem octetAt_of_drop {b : UInt8} (h : d.drop pos=b::r) : octetAt d pos=.ok b := by
  have hg : d[pos]? = some b := by rw [← List.head?_drop,h,List.head?_cons]
  rw [octetAt,hg]

end Positions

variable {v : ℕ} {oc dt : Bytes} {pos st : ℕ}

theorem vbiGroups_of_lt (h : v<128) : vbiGroups v=[UInt8.ofNat v] := by
  rw [vbiGroups,if_pos (by omega),Nat.mod_eq_of_lt h]

theorem vbiGroups_of_le (h : 128≤v) :
    vbiGroups v = UInt8.ofNat (v % 128 + 128)::vbiGroups (v / 128) := by
  rw [vbiGroups,if_neg (by omega)]

theorem vbiGroups_ne_nil (v : ℕ) : vbiGroups v≠[] := by
  rw [vbiGroups]
  split <;> simp

theorem toNat_group (v : ℕ) : (UInt8.ofNat (v % 128 + 128)).toNat = v % 128 + 128 := by
  rw [UInt8.toNat_ofNat']
  omega

theorem not_group_lt (v : ℕ) : ¬ UInt8.ofNat (v % 128 + 128) < 128 := by
  rw [UInt8.lt_iff_toNat_lt,toNat_group]
  simp

/-- `n` more groups may follow the first. -/
theorem decodeVbiFrom_groups (n : ℕ) {m : ℕ} (hv : v<128^(n+1))
    (hm : m*128^n≤128*128*128) (sum c : ℕ) (rest : Bytes) :
    decodeVbiFrom (vbiGroups v++rest) m sum c =
      .ok (sum+v*m,c+(vbiGroups v).length) := by
  induction n generalizing v m sum c with
  | zero =>
    have hlt : v<128 := by simpa using hv
    have hn : (UInt8.ofNat v).toNat=v := by
      rw [UInt8.toNat_ofNat']
      omega
    have hs : UInt8.ofNat v<128 := by
      rw [UInt8.lt_iff_toNat_lt,hn]
      exact hlt
    rw [vbiGroups_of_lt hlt,List.singleton_append,decodeVbiFrom,if_neg (by omega),
      if_pos hs,hn,Nat.mod_eq_of_lt hlt]
    rfl
  | succ n ih =>
    have hst : m*128*128^n≤128*128*128 := by
      calc m*128*128^n=m*128^(n+1) := by ring
        _≤_ := hm
    have hle : ¬ m > 128*128*128 := by
      have ho : 1≤128^(n+1) := Nat.one_le_pow _ _ (by norm_num)
      have := Nat.le_mul_of_pos_right m ho
      omega
    by_cases hlt : v<128
    · have hp : 128^0≤128^n := Nat.pow_le_pow_right (by norm_num) (Nat.zero_le n)
      have hs : v<128^(n+1) := by
        rw [pow_succ]
        omega
      have hmu : m*128^n≤128*128*128 := by
        calc m*128^n ≤ m*128^(n+1) :=
              Nat.mul_le_mul_left _ (Nat.pow_le_pow_right (by norm_num) (Nat.le_succ n))
          _≤_ := hm
      exact ih hs hmu sum c
    · rw [vbiGroups_of_le (by omega),List.cons_append,decodeVbiFrom,if_neg hle,
        if_neg (not_group_lt v),toNat_group,
        ih (Nat.div_lt_of_lt_mul (by rwa [pow_succ,mul_comm] at hv)) hst]
      have hmo : (v % 128 + 128) % 128 = v % 128 := by omega
      rw [hmo,List.length_cons]
      congr 2
      · have hd := Nat.div_add_mod v 128
        calc sum + v % 128 * m + v / 128 * (m * 128)
            = sum + (128 * (v / 128) + v % 128) * m := by ring
          _=sum+v*m := by rw [hd]
      · omega

theorem decodeVariableByteInteger_groups (h : v≤vbiMax) (rest : Bytes) :
    decodeVariableByteInteger (vbiGroups v++rest) =
      .ok (v,(vbiGroups v).length) := by
  rw [decodeVariableByteInteger,decodeVbiFrom_groups 3 (by simp only [vbiMax] at h; omega)
    (by norm_num)]
  simp

theorem decodeVbiFrom_cut (n : ℕ) {m : ℕ} (hv : v<128^(n+1))
    (hm : m*128^n≤128*128*128) (sum c : ℕ) {f : Bytes}
    (hf : f <+: vbiGroups v) (hne : f≠vbiGroups v) : decodeVbiFrom f m sum c =
      .error (.incompletePacket "Variable Byte Integer continues past buffer") := by
  induction n generalizing v m sum c f with
  | zero =>
    have hlt : v<128 := by simpa using hv
    rw [vbiGroups_of_lt hlt] at hf hne
    rcases List.prefix_cons_iff.mp hf with rfl | ⟨tail,rfl,ht⟩
    · rfl
    · rw [List.prefix_nil.mp ht] at hne
      exact absurd rfl hne
  | succ n ih =>
    by_cases hlt : v<128
    · rw [vbiGroups_of_lt hlt] at hf hne
      rcases List.prefix_cons_iff.mp hf with rfl | ⟨tail,rfl,ht⟩
      · rfl
      · rw [List.prefix_nil.mp ht] at hne
        exact absurd rfl hne
    · rw [vbiGroups_of_le (by omega)] at hf hne
      rcases List.prefix_cons_iff.mp hf with rfl | ⟨tail,rfl,ht⟩
      · rfl
      · have ho : 1≤128^(n+1) := Nat.one_le_pow _ _ (by norm_num)
        have hb := Nat.le_mul_of_pos_right m ho
        have hs : m*128*128^n≤128*128*128 := by
          calc m*128*128^n=m*128^(n+1) := by ring
            _≤_ := hm
        rw [decodeVbiFrom,if_neg (by omega),if_neg (not_group_lt v)]
        exact ih (Nat.div_lt_of_lt_mul (by rwa [pow_succ,mul_comm] at hv)) hs _ _ ht
          fun h => hne (h ▸ rfl)

abbrev Fits (octets : Bytes) : Prop := octets.length<65536

theorem toBytes_of_lt (w : ℕ) {n : ℕ} (h : n<256^w) : toBytes w n=.ok (bigEndian w n) := if_pos h

theorem encodePrefixed_of_fits (h : Fits oc) :
    encodePrefixed oc=.ok (bigEndian 2 oc.length++oc) := by
  rw [encodePrefixed,toBytes_of_lt 2 h]
  rfl

theorem reads_prefixed (w : String) (h : Fits oc) :
    Reads (decodePrefixed w) (bigEndian 2 oc.length++oc) oc := by
  intro dt pos rest hd
  have hl := length_of_drop hd (by simp [bigEndian])
  rw [List.append_assoc] at hd
  have hs : slice dt pos (pos+2)=bigEndian 2 oc.length := by simpa using slice_of_drop hd
  have ht : dt.drop (pos+2)=oc++rest := by simpa using drop_past hd
  rw [List.length_append,length_bigEndian] at hl ⊢
  rw [decodePrefixed,if_neg (by omega)]
  simp only [hs,ofBigEndian_bigEndian 2 h,slice_of_drop ht]
  rw [if_neg (by omega),add_assoc]

theorem utf8?_utf8 (t : Text) : utf8? (utf8 t)=some t := by
  have ho : (⟨(utf8 t).toArray⟩ : ByteArray)=t.utf8Encode := by simp [utf8]
  rw [utf8?,ho,List.utf8Decode?_utf8Encode]
  simp

theorem encodeUtf8_of_fits {t : Text} (h : Fits (utf8 t)) :
    encodeUtf8 t=.ok (bigEndian 2 (utf8 t).length++utf8 t) :=
  encodePrefixed_of_fits h

theorem reads_utf8 {t : Text} (h : Fits (utf8 t)) :
    Reads decodeUtf8 (bigEndian 2 (utf8 t).length++utf8 t) t := by
  intro dt pos rest hd
  rw [decodeUtf8,reads_prefixed "UTF-8" h dt pos rest hd]
  simp [utf8?_utf8]
  rfl

theorem reads_binary {b : Bytes} (h : Fits b) : Reads decodeBinary (bigEndian 2 b.length++b) b :=
  reads_prefixed "Binary" h

def PropertyValue.Normal : WireType → PropertyValue → Prop
  | .byte,.number n => n<256
  | .uint16,.number n => n<65536
  | .uint32,.number n => n<4294967296
  | .vbi,.number n => n≤vbiMax
  | .utf8,.text t => Fits (utf8 t)
  | .binary,.binary b => Fits b
  | .pair,.pairs l => l≠[] ∧ ∀ pair∈l,Fits (utf8 pair.1) ∧ Fits (utf8 pair.2)
  | _,_ => False

/-- A dictionary whose values fit their wire types, in a block a variable byte integer can
announce. -/
structure Properties.Normal (properties : Properties) : Prop where
  keys : (properties.map Prod.fst).Nodup
  values : ∀ property∈properties,property.2.Normal property.1.spec.2
  size : ∀ body,encodeEach encodeProperty properties=.ok body → body.length≤vbiMax

theorem PropertyKey.ofIdentifier_spec (key : PropertyKey) :
    PropertyKey.ofIdentifier key.spec.1=some key := by
  cases key <;> rfl

theorem encodePropValue_of_normal {wt : WireType} {v : PropertyValue}
    (hv : v.Normal wt) (hw : wt≠.pair) :
    ∃ oc,encodePropValue wt v=.ok oc ∧ oc≠[] := by
  cases wt <;> cases v <;> simp only [PropertyValue.Normal] at hv
  case byte.number n => exact ⟨_,rfl,by simp⟩
  case uint16.number n => exact ⟨_,toBytes_of_lt _ hv,by simp [bigEndian]⟩
  case uint32.number n => exact ⟨_,toBytes_of_lt _ hv,by simp [bigEndian]⟩
  case vbi.number n => exact ⟨_,if_neg (by omega),vbiGroups_ne_nil n⟩
  case utf8.text t => exact ⟨_,encodeUtf8_of_fits hv,by simp [bigEndian]⟩
  case binary.binary b => exact ⟨_,encodePrefixed_of_fits hv,by simp [bigEndian]⟩
  case pair.pairs => exact absurd rfl hw

theorem decodePropValue_of_normal {wt : WireType} {v : PropertyValue} (hv : v.Normal wt) (hw
    : wt≠.pair) (he : encodePropValue wt v=.ok oc) {rest : Bytes} (hd : dt.drop pos =
    oc++rest) (hs : pos+oc.length ≤ st) : decodePropValue wt dt pos st=.ok (v,pos+oc.length) := by
  cases wt <;> cases v <;> simp only [PropertyValue.Normal] at hv
  case byte.number n =>
    obtain rfl := Except.ok.inj he
    have hn : (UInt8.ofNat n).toNat=n := by
      rw [UInt8.toNat_ofNat']
      omega
    rw [decodePropValue,octetAt_of_drop hd,ok_bind,hn]
    rfl
  case uint16.number n =>
    rw [encodePropValue,toBytes_of_lt _ hv] at he
    obtain rfl := Except.ok.inj he
    have hsl : slice dt pos (pos+2)=bigEndian 2 n := by simpa using slice_of_drop hd
    rw [decodePropValue,hsl,ofBigEndian_bigEndian 2 hv,length_bigEndian]
  case uint32.number n =>
    rw [encodePropValue,toBytes_of_lt _ hv] at he
    obtain rfl := Except.ok.inj he
    have hsl : slice dt pos (pos+4)=bigEndian 4 n := by simpa using slice_of_drop hd
    rw [decodePropValue,hsl,ofBigEndian_bigEndian 4 hv,length_bigEndian]
  case vbi.number n =>
    rw [encodePropValue,encodeVariableByteInteger,if_neg (by omega)] at he
    obtain rfl := Except.ok.inj he
    have hsl : slice dt pos st = vbiGroups n++rest.take (st - pos - (vbiGroups n).length) := by
      rw [slice,hd,List.take_append,List.take_of_length_le (by omega)]
    rw [decodePropValue,hsl,decodeVariableByteInteger_groups hv]
    rfl
  case utf8.text t =>
    rw [encodePropValue,encodeUtf8_of_fits hv] at he
    obtain rfl := Except.ok.inj he
    rw [decodePropValue,reads_utf8 hv dt pos rest hd]
    rfl
  case binary.binary b =>
    rw [encodePropValue,encodeBinary,encodePrefixed_of_fits hv] at he
    obtain rfl := Except.ok.inj he
    rw [decodePropValue,reads_binary hv dt pos rest hd]
    rfl
  case pair.pairs => exact absurd rfl hw

theorem decodePropertiesFrom_step {p : ℕ} {ps p' : Properties}
    (hp : pos<st) (h : decodeProperty dt pos st ps=.ok (p',p)) (r : ℕ) :
    decodePropertiesFrom dt st (r+1) pos ps =
      decodePropertiesFrom dt st r p p' := by
  rw [decodePropertiesFrom,if_pos hp,h,ok_bind]

theorem decodePropertiesFrom_stop (h : st≤pos) (r : ℕ) (ps : Properties) :
    decodePropertiesFrom dt st r pos ps=.ok ps := by
  cases r with
  | zero => rfl
  | succ r => rw [decodePropertiesFrom,if_neg (by omega)]

/-- In some of the rounds the loop goes past the octets, and keeps rounds for what follows. -/
def Passes (data : Bytes) (stop pos : ℕ) (properties : Properties) (octets : Bytes)
    (properties' : Properties) : Prop :=
  ∀ rounds,octets.length≤rounds → ∃ rounds',rounds≤rounds'+octets.length ∧
    decodePropertiesFrom data stop rounds pos properties =
      decodePropertiesFrom data stop rounds' (pos+octets.length) properties'

section Passing

variable {dt rs : Bytes} {st pos : ℕ} {prs : Properties} {key : PropertyKey}

theorem passes_nil : Passes dt st pos prs [] prs := fun r _ => ⟨r,by simp,rfl⟩

variable {oc : Bytes} {v : PropertyValue}

theorem Passes.append {bs' : Bytes} {p' p'' : Properties} (h : Passes dt st pos prs
    oc p') (h' : Passes dt st (pos+oc.length) p' bs' p'') : Passes dt st pos prs (oc++bs') p'' := by
  intro r hr
  rw [List.length_append] at hr
  obtain ⟨r',hle,heq⟩ := h r (by omega)
  obtain ⟨r'',hl',he'⟩ := h' r' (by omega)
  refine ⟨r'',?_,?_⟩
  · rw [List.length_append]
    omega
  · rw [heq,he',List.length_append,add_assoc]

theorem passes_of_decodeProperty {p' : Properties} (hne : oc≠[]) (hs : pos+oc.length ≤
    st) (h : decodeProperty dt pos st prs=.ok (p',pos+oc.length)) : Passes dt st pos prs oc p' := by
  intro r hr
  have hl : 0<oc.length := List.length_pos_iff.mpr hne
  obtain ⟨r,rfl⟩ : ∃ n,r = n + 1 := ⟨r - 1,by omega⟩
  exact ⟨r,by omega,decodePropertiesFrom_step (by omega) h r⟩

theorem decodeProperty_value (hv : v.Normal key.spec.2) (hw : key.spec.2≠.pair)
    (he : encodePropValue key.spec.2 v=.ok oc) (hd : dt.drop pos=(key.spec.1::oc)++rs)
    (hs : pos+(key.spec.1::oc).length ≤ st) : decodeProperty dt pos st prs =
      .ok (prs.set key v,pos+(key.spec.1::oc).length) := by
  rw [List.length_cons] at hs ⊢
  rw [decodeProperty,octetAt_of_drop hd,ok_bind,PropertyKey.ofIdentifier_spec]
  simp only [if_neg hw]
  rw [decodePropValue_of_normal hv hw he (drop_succ hd) (by omega),ok_bind,add_right_comm,add_assoc]
  rfl

/-- The octets of one pair of a user property. -/
def pairOctets (identifier : UInt8) (pair : Text × Text) : Bytes :=
  identifier::((bigEndian 2 (utf8 pair.1).length++utf8 pair.1) ++
    (bigEndian 2 (utf8 pair.2).length++utf8 pair.2))

theorem encodePair_of_fits (i : UInt8) {p : Text × Text} (h : Fits (utf8 p.1) ∧ Fits (utf8 p.2)) :
    encodePair i p=.ok (pairOctets i p) := by
  rw [encodePair,encodeUtf8_of_fits h.1,encodeUtf8_of_fits h.2]
  rfl

theorem decodeProperty_pair {p : Text × Text} (hw : key.spec.2=.pair) (hp : Fits (utf8 p.1)
    ∧ Fits (utf8 p.2)) (hd : dt.drop pos=pairOctets key.spec.1 p++rs) :
    decodeProperty dt pos st prs =
      .ok (prs.addPair key p,pos+(pairOctets key.spec.1 p).length) := by
  rw [pairOctets,List.cons_append,List.append_assoc] at hd
  have hk := drop_succ hd
  have hv := drop_past hk
  rw [decodeProperty,octetAt_of_drop hd,ok_bind,PropertyKey.ofIdentifier_spec]
  simp only [if_pos hw]
  rw [reads_utf8 hp.1 dt (pos+1) _ hk,ok_bind,reads_utf8 hp.2 dt _ _ hv,ok_bind,pairOctets]
  simp only [List.length_cons,List.length_append]
  congr 2
  omega

theorem encodeEach_cons {α : Type} {e : α → Except Failure Bytes} {i : α} {xs : List α}
    (h : encodeEach e (i::xs)=.ok oc) :
    ∃ a later,e i=.ok a ∧ encodeEach e xs=.ok later ∧ oc=a++later := by
  rw [encodeEach] at h
  cases hf : e i with
  | error f =>
    rw [hf] at h
    cases h
  | ok a =>
    rw [hf,ok_bind] at h
    cases hl : encodeEach e xs with
    | error f =>
      rw [hl] at h
      cases h
    | ok later =>
      rw [hl] at h
      exact ⟨a,later,rfl,rfl,(Except.ok.inj h).symm⟩

theorem encodeEach_ok {α : Type} (e : α → Except Failure Bytes) {xs : List α}
    (h : ∀ it∈xs,∃ oc,e it=.ok oc) : ∃ oc,encodeEach e xs=.ok oc := by
  induction xs with
  | nil => exact ⟨[],rfl⟩
  | cons it xs ih =>
    obtain ⟨a,hf⟩ := h it List.mem_cons_self
    obtain ⟨l,hl⟩ := ih fun i hm => h i (List.mem_cons_of_mem it hm)
    exact ⟨a++l,by rw [encodeEach,hf,hl]; rfl⟩

/-- The pairs after the first are added to the list of their key. -/
theorem passes_pairs (hw : key.spec.2=.pair) (hk : prs.get? key=none)
    {ps : List (Text × Text)} (hp : ∀ pr∈ps,Fits (utf8 pr.1) ∧ Fits (utf8 pr.2))
    (b : List (Text × Text)) (he : encodeEach (encodePair key.spec.1) ps=.ok oc)
    (hd : dt.drop pos=oc++rs) (hs : pos+oc.length ≤ st) :
    Passes dt st pos (prs++[(key,.pairs b)]) oc
      (prs++[(key,.pairs (b++ps))]) := by
  induction ps generalizing b oc pos with
  | nil =>
    obtain rfl := Except.ok.inj he
    rw [List.append_nil]
    exact passes_nil
  | cons pr ps ih =>
    obtain ⟨a,later,hf,hl,rfl⟩ := encodeEach_cons he
    have hpa := hp pr List.mem_cons_self
    rw [encodePair_of_fits key.spec.1 hpa] at hf
    obtain rfl := Except.ok.inj hf
    rw [List.append_assoc] at hd
    rw [List.length_append] at hs
    have ho : decodeProperty dt pos st (prs++[(key,.pairs b)])=_ := decodeProperty_pair hw hpa hd
    have ha : Properties.addPair (prs++[(key,.pairs b)]) key pr =
        prs++[(key,.pairs (b++[pr]))] := by
      rw [Properties.addPair,Dict.get?_append_singleton _ hk]
      exact Dict.set_append_singleton _ _ hk
    rw [ha] at ho
    have hr := ih (fun p hm => hp p (List.mem_cons_of_mem pr hm))
      (b++[pr]) hl (drop_past hd) (by omega)
    rw [List.append_assoc,List.singleton_append] at hr
    exact (passes_of_decodeProperty (by simp [pairOctets]) (by omega) ho).append hr

theorem encodeProperty_value (v : PropertyValue) (hw : key.spec.2≠.pair) :
    encodeProperty (key,v)=(key.spec.1 :: ·) <$> encodePropValue key.spec.2 v := by
  rw [encodeProperty]
  dsimp only
  split
  · exact absurd ‹key.spec.2=WireType.pair› hw
  · rfl

theorem encodeProperty_pairs (ps : List (Text × Text)) (hw : key.spec.2=.pair) :
    encodeProperty (key,.pairs ps)=encodeEach (encodePair key.spec.1) ps := by
  simp only [encodeProperty,hw]

theorem PropertyValue.Normal.pairs (h : v.Normal .pair) :
    ∃ pr pairs,v=.pairs (pr::pairs) ∧
      ∀ p∈pr::pairs,Fits (utf8 p.1) ∧ Fits (utf8 p.2) := by
  cases v with
  | pairs l =>
    cases l with
    | nil => exact absurd rfl h.1
    | cons pr pairs => exact ⟨pr,pairs,rfl,h.2⟩
  | number | text | binary => exact h.elim

theorem encodeProperty_of_normal (hv : v.Normal key.spec.2) :
    ∃ oc,encodeProperty (key,v)=.ok oc := by
  by_cases hw : key.spec.2=.pair
  · rw [hw] at hv
    obtain ⟨pr,pairs,rfl,hf⟩ := hv.pairs
    rw [encodeProperty_pairs _ hw]
    exact encodeEach_ok _ fun p hm => ⟨_,encodePair_of_fits key.spec.1 (hf p hm)⟩
  · obtain ⟨oc,ho,-⟩ := encodePropValue_of_normal hv hw
    exact ⟨key.spec.1::oc,by rw [encodeProperty_value v hw,ho,ok_map]⟩

theorem passes_property (hv : v.Normal key.spec.2) (hk : prs.get? key=none)
    (he : encodeProperty (key,v)=.ok oc) (hd : dt.drop pos=oc++rs) (hs : pos+oc.length ≤ st) :
    Passes dt st pos prs oc (prs++[(key,v)]) := by
  by_cases hw : key.spec.2=.pair
  · rw [hw] at hv
    obtain ⟨pr,pairs,rfl,hf⟩ := hv.pairs
    rw [encodeProperty_pairs _ hw] at he
    obtain ⟨a,later,hfi,hl,rfl⟩ := encodeEach_cons he
    have hp := hf pr List.mem_cons_self
    rw [encodePair_of_fits key.spec.1 hp] at hfi
    obtain rfl := Except.ok.inj hfi
    rw [List.append_assoc] at hd
    rw [List.length_append] at hs
    have ho : decodeProperty dt pos st prs=_ := decodeProperty_pair hw hp hd
    have ha : prs.addPair key pr=prs++[(key,.pairs [pr])] := by
      rw [Properties.addPair,hk]
      exact Dict.set_of_get?_eq_none _ hk
    rw [ha] at ho
    exact (passes_of_decodeProperty (by simp [pairOctets]) (by omega) ho).append
      (passes_pairs hw hk (fun p hm => hf p (List.mem_cons_of_mem pr hm)) [pr]
        hl (drop_past hd) (by omega))
  · obtain ⟨bs',ho',-⟩ := encodePropValue_of_normal hv hw
    rw [encodeProperty_value v hw,ho',ok_map] at he
    obtain rfl := Except.ok.inj he
    have ho : decodeProperty dt pos st prs=_ := decodeProperty_value hv hw ho' hd hs
    rw [Dict.set_of_get?_eq_none v hk] at ho
    exact passes_of_decodeProperty (by simp) hs ho

theorem passes_properties {xs : Properties} (hv : ∀ i∈xs,i.2.Normal i.1.spec.2)
    (hk : ((prs++xs).map Prod.fst).Nodup) (he : encodeEach encodeProperty xs=.ok oc)
    (hd : dt.drop pos=oc++rs) (hs : pos+oc.length ≤ st) : Passes dt st pos prs oc (prs++xs) := by
  induction xs generalizing prs oc pos with
  | nil =>
    obtain rfl := Except.ok.inj he
    rw [List.append_nil]
    exact passes_nil
  | cons i xs ih =>
    obtain ⟨key,v⟩ := i
    obtain ⟨a,later,hf,hl,rfl⟩ := encodeEach_cons he
    rw [List.append_assoc] at hd
    rw [List.length_append] at hs
    have hsp : prs++(key,v)::xs=(prs++[(key,v)])++xs := by
      rw [List.append_assoc,List.singleton_append]
    have hfr : prs.get? key=none := by
      rw [Dict.get?_eq_none_iff]
      rw [List.map_append,List.nodup_append'] at hk
      exact fun hm => hk.2.2 hm (by simp)
    have ho : Passes dt st pos prs a (prs++[(key,v)]) :=
      passes_property (hv _ List.mem_cons_self) hfr hf hd (by omega)
    rw [hsp] at hk ⊢
    exact ho.append (ih (fun i hm => hv i (List.mem_cons_of_mem _ hm)) hk
      hl (drop_past hd) (by omega))

end Passing

theorem encodeProperties_of_normal {ps : Properties} (h : ps.Normal) :
    ∃ oc,encodeProperties ps=.ok oc ∧ oc≠[] ∧
      ∀ dt pos rest,dt.drop pos=oc++rest →
        decodeProperties dt pos=.ok (ps,oc.length) := by
  obtain ⟨body,hb⟩ := encodeEach_ok encodeProperty
    fun i hm => encodeProperty_of_normal (h.values i hm)
  have hs := h.size body hb
  have hl : encodeVariableByteInteger body.length=.ok (vbiGroups body.length) := if_neg (by omega)
  refine ⟨vbiGroups body.length++body,?_,?_,?_⟩
  · rw [encodeProperties,hb,ok_bind,hl]
    rfl
  · simp [vbiGroups_ne_nil]
  · intro dt pos rest hd
    have ha := length_of_drop hd (by simp [vbiGroups_ne_nil])
    rw [List.append_assoc] at hd
    rw [List.length_append] at ha ⊢
    have hp : Passes dt _ _ [] body ([]++ps) :=
      passes_properties h.values (by simpa using h.keys) hb (drop_past hd) le_rfl
    obtain ⟨r,-,hr⟩ := hp body.length le_rfl
    rw [decodePropertiesFrom_stop le_rfl,List.nil_append] at hr
    rw [decodeProperties,hd,decodeVariableByteInteger_groups hs,ok_bind]
    dsimp only
    rw [if_neg (by omega),hr]
    simp only [ok_bind]
    congr 2
    omega

end BlackBull.Mqtt
