import BlackBull.ByteString

/-!
# Masking with big numbers

Two strings of octets of one length can be combined with exclusive or octet by octet,
or as two big-endian numbers; the result is the same. `repeated` is a key written over
and over until it covers a length.
-/

namespace BlackBull.ByteString

theorem ofBigEndian_concat (bs : Bytes) (b : UInt8) :
    ofBigEndian (bs++[b])=256*ofBigEndian bs+b.toNat := by
  simp [ofBigEndian,Nat.mul_comm]

theorem bigEndian_concat (w n : ℕ) :
    bigEndian (w + 1) n = bigEndian w (n / 256)++[UInt8.ofNat (n % 256)] := by
  induction w generalizing n with
  | zero => simp [bigEndian]
  | succ w ih =>
    have hd : n / 256^(w + 1) = n / 256 / 256^w := by rw [Nat.div_div_eq_div_mul,Nat.pow_succ']
    rw [bigEndian,ih,hd,bigEndian,List.cons_append]

theorem bigEndian_ofBigEndian (bs : Bytes) : bigEndian bs.length (ofBigEndian bs)=bs := by
  induction bs using List.reverseRecOn with
  | nil => rfl
  | append_singleton bs b ih =>
    have hd : (256 * ofBigEndian bs + b.toNat) / 256 = ofBigEndian bs := by
      have hb := b.toNat_lt
      omega
    have hm : (256 * ofBigEndian bs + b.toNat) % 256 = b.toNat := by
      omega
    rw [List.length_append,List.length_singleton,ofBigEndian_concat,bigEndian_concat,hd,ih,
      hm,UInt8.ofNat_toNat]

theorem xor_digits {a b x y : ℕ} (hx : x<256) (hy : y<256) :
    (256 * a + x) ^^^ (256 * b + y) = 256 * (a ^^^ b) + (x ^^^ y) := by
  have hxy : x ^^^ y < 2^8 := Nat.xor_lt_two_pow (n := 8) hx hy
  apply Nat.eq_of_testBit_eq
  intro i
  have ha := Nat.testBit_two_pow_mul_add a (i := 8) hx i
  have hb := Nat.testBit_two_pow_mul_add b (i := 8) hy i
  have hab := Nat.testBit_two_pow_mul_add (a ^^^ b) (i := 8) hxy i
  rw [Nat.testBit_xor]
  norm_num at ha hb hab
  rw [ha,hb,hab]
  split <;> simp

theorem ofBigEndian_xor {a b : Bytes} (h : a.length=b.length) :
    ofBigEndian a ^^^ ofBigEndian b = ofBigEndian (List.zipWith (· ^^^ ·) a b) := by
  induction a using List.reverseRecOn generalizing b with
  | nil =>
    obtain rfl : b=[] := List.length_eq_zero_iff.mp h.symm
    rfl
  | append_singleton a x ih =>
    cases b using List.reverseRecOn with
    | nil => simp at h
    | append_singleton b y =>
      have hl : a.length=b.length := by simpa using h
      rw [List.zipWith_append hl,List.zipWith_cons_cons,List.zipWith_nil_left,
        ofBigEndian_concat,ofBigEndian_concat,ofBigEndian_concat,← ih hl,
        xor_digits x.toNat_lt y.toNat_lt,UInt8.toNat_xor]

theorem bigEndian_xor {a b : Bytes} (h : a.length=b.length) :
    bigEndian a.length (ofBigEndian a ^^^ ofBigEndian b) = List.zipWith (· ^^^ ·) a b := by
  have hl : (List.zipWith (· ^^^ ·) a b).length = a.length := by
    rw [List.length_zipWith,← h,min_self]
  have hd := bigEndian_ofBigEndian (List.zipWith (· ^^^ ·) a b)
  rw [hl] at hd
  rw [ofBigEndian_xor h,hd]

/-- A key written over and over, up to a length. -/
def repeated (key : Bytes) (length : ℕ) : Bytes :=
  (List.replicate ((length + key.length - 1) / key.length) key).flatten.take length

variable {key : Bytes}

theorem length_repeated (h : key≠[]) (n : ℕ) : (repeated key n).length=n := by
  have hp : 0<key.length := List.length_pos_iff.mpr h
  have hc : n ≤ (n + key.length - 1) / key.length * key.length := by
    have hm := Nat.mod_add_div (n + key.length - 1) key.length
    have hlt := Nat.mod_lt (n + key.length - 1) hp
    rw [Nat.mul_comm]
    omega
  simpa [repeated] using hc

theorem getElem?_flatten_replicate (key : Bytes) (c : ℕ) {i : ℕ} (h : i<c*key.length) :
    (List.replicate c key).flatten[i]? = key[i % key.length]? := by
  induction c generalizing i with
  | zero => simp at h
  | succ c ih =>
    rw [List.replicate_succ,List.flatten_cons]
    by_cases hi : i<key.length
    · rw [List.getElem?_append_left hi,Nat.mod_eq_of_lt hi]
    · have hle : key.length ≤ i := Nat.le_of_not_lt hi
      have hr : i - key.length < c * key.length := by
        rw [Nat.succ_mul] at h
        omega
      rw [List.getElem?_append_right hle,ih hr,← Nat.mod_eq_sub_mod hle]

theorem getElem?_repeated (hk : key≠[]) {n i : ℕ} (h : i<n) :
    (repeated key n)[i]? = key[i % key.length]? := by
  have hl := length_repeated hk n
  rw [repeated,List.length_take] at hl
  have hc : i < (List.replicate ((n + key.length - 1) / key.length) key).flatten.length :=
    lt_of_lt_of_le h (by omega)
  rw [repeated,List.getElem?_take_of_lt h]
  apply getElem?_flatten_replicate
  simpa using hc

theorem mapIdx_xor_key (hk : key≠[]) (t : Bytes) :
    (t.mapIdx fun i b => b ^^^ key.getD (i % key.length) 0) =
      List.zipWith (· ^^^ ·) t (repeated key t.length) := by
  apply List.ext_getElem?
  intro i
  rw [List.getElem?_mapIdx,List.getElem?_zipWith]
  by_cases hi : i<t.length
  · have hm : i % key.length < key.length := Nat.mod_lt _ (List.length_pos_iff.mpr hk)
    rw [getElem?_repeated hk hi,List.getElem?_eq_getElem hi,List.getElem?_eq_getElem hm]
    simp [hm]
  · rw [List.getElem?_eq_none (Nat.le_of_not_lt hi)]
    rfl

theorem zipWith_xor_cancel {t m : Bytes} (h : t.length=m.length) :
    List.zipWith (· ^^^ ·) (List.zipWith (· ^^^ ·) t m) m = t := by
  induction t generalizing m with
  | nil => rfl
  | cons b t ih =>
    cases m with
    | nil => simp at h
    | cons k m =>
      have hl : t.length=m.length := by simpa using h
      simp [ih hl]

end BlackBull.ByteString
