import BlackBull.FrameReading

/-!
# The WebSocket frame codec

`encode_frame` and `read_frame` of the codec. A frame that is read back is the frame
that was written, in whatever form its length is written, and `encode_frame` takes the
shortest.
-/

namespace BlackBull.WebSocket

open ByteString

def firstByte (opcode : Fin 16) (rsv1 : Bool) : UInt8 :=
  let first : UInt8 := 0x80 ||| UInt8.ofNat opcode
  if rsv1 then first ||| 0x40 else first

def encodeFrameHeader (length : ℕ) (opcode : Fin 16) (rsv1 : Bool) : Bytes :=
  if length<126 then [firstByte opcode rsv1,UInt8.ofNat length]
  else if length<65536 then [firstByte opcode rsv1,126]++bigEndian 2 length
  else [firstByte opcode rsv1,127]++bigEndian 8 length

/-- `encode_frame`; the key is the one that is drawn when the frame is masked. -/
def encodeFrame (payload : Bytes) (opcode : Fin 16) (maskKey : Option Bytes) (rsv1 : Bool) :
    Bytes :=
  match maskKey with
  | none => encodeFrameHeader payload.length opcode rsv1++payload
  | some key =>
    let length := payload.length
    let header := [firstByte opcode rsv1] ++
      if length < 126 then [0x80 ||| UInt8.ofNat length]
      else if length < 65536 then [0x80 ||| 126]++bigEndian 2 length
      else [0x80 ||| 127]++bigEndian 8 length
    let maskedPayload := payload.mapIdx fun i b => b ^^^ key.getD (i % 4) 0
    header++key++maskedPayload

/-- `reader.readexactly(n)`: the octets, and what is left; `none` if there are not enough. -/
def readexactly (n : ℕ) (buffer : Bytes) : Option (Bytes × Bytes) :=
  if n≤buffer.length then some (buffer.take n,buffer.drop n) else none

def readLength (length : ℕ) (buffer : Bytes) : Option (ℕ × Bytes) :=
  if length=126 then do
    let (octets,rest) ← readexactly 2 buffer
    return (ofBigEndian octets,rest)
  else if length=127 then do
    let (octets,rest) ← readexactly 8 buffer
    return (ofBigEndian octets,rest)
  else some (length,buffer)

/-- `read_payload` without a maximum. -/
def readPayload (masked : Bool) (length : ℕ) (buffer : Bytes) : Option (Bytes × Bytes) := do
  let (length,buffer) ← readLength length buffer
  if !masked then readexactly length buffer
  else
    let (mask,buffer) ← readexactly 4 buffer
    let (raw,rest) ← readexactly length buffer
    return (unmask mask raw,rest)

/-- `read_frame`: the header, the payload and what is left. -/
def readFrame (buffer : Bytes) : Option (FrameHeader × Bytes × Bytes) := do
  let (header,buffer) ← readexactly 2 buffer
  let h := readFrameHeader (header.getD 0 0) (header.getD 1 0)
  let (payload,rest) ← readPayload h.masked h.length buffer
  return (h,payload,rest)

theorem readexactly_append {bs : Bytes} {n : ℕ} (h : bs.length=n) (r : Bytes) :
    readexactly n (bs++r)=some (bs,r) := by
  subst h
  simp [readexactly]

variable (f : Frame)

theorem readLength_octets (r : Bytes) :
    readLength f.header.length (f.form.octets f.payload.length++r) =
      some (f.payload.length,r) := by
  have hb := f.length_payload
  cases hf : f.form with
  | short =>
    rw [hf] at hb
    have hl : f.header.length=f.payload.length := by simp [Frame.header,hf,LengthForm.code]
    have hs : f.payload.length<126 := hb
    rw [hl,readLength,if_neg (by omega),if_neg (by omega)]
    rfl
  | medium =>
    rw [hf] at hb
    have hl : f.header.length=126 := by simp [Frame.header,hf,LengthForm.code]
    rw [hl,readLength,if_pos rfl]
    simp [LengthForm.octets,readexactly_append (length_bigEndian 2 _),ofBigEndian_bigEndian 2 hb]
  | long =>
    rw [hf] at hb
    have hl : f.header.length=127 := by simp [Frame.header,hf,LengthForm.code]
    rw [hl,readLength,if_neg (by decide),if_pos rfl]
    simp [LengthForm.octets,readexactly_append (length_bigEndian 8 _),ofBigEndian_bigEndian 8 hb]

theorem readPayload_encode (r : Bytes) : readPayload f.header.masked f.header.length
        (f.form.octets f.payload.length++(f.masked++r))=some (f.payload,r) := by
  rw [readPayload,readLength_octets]
  cases hm : f.mask with
  | none =>
    have hma : f.header.masked=false := by simp [Frame.header,hm]
    have hb : f.masked=f.payload := by simp [Frame.masked,Frame.body,hm]
    rw [hma,hb]
    exact readexactly_append rfl r
  | some key =>
    have hma : f.header.masked=true := by simp [Frame.header,hm]
    have hk : key.length=4 := f.length_key key hm
    have hb : f.masked++r=key++(f.body++r) := by simp [Frame.masked,hm]
    rw [hma,hb]
    simp [readexactly_append hk,readexactly_append f.length_body,f.unmask_body hm]

theorem readFrame_encode (r : Bytes) : readFrame (f.encode++r)=some (f.header,f.payload,r) := by
  have hh : readexactly 2 (f.encode++r)=some ([f.firstOctet,f.secondOctet],
      f.form.octets f.payload.length++(f.masked++r)) := by
    rw [Frame.encode,List.append_assoc,List.append_assoc]
    exact readexactly_append (show [f.firstOctet,f.secondOctet].length=2 from rfl) _
  simp [readFrame,hh,f.readFrameHeader_eq,readPayload_encode]

def LengthForm.shortest (length : ℕ) : LengthForm :=
  if length<126 then .short else if length<65536 then .medium else .long

def writtenFrame (payload : Bytes) (opcode : Fin 16) (maskKey : Option Bytes) (rsv1 : Bool)
    (h : payload.length<2^63) (hkey : ∀ key∈maskKey,key.length=4) : Frame where
  rsv1
  code := opcode
  mask := maskKey
  form := .shortest payload.length
  payload
  length_key := hkey
  length_payload := by
    unfold LengthForm.shortest
    split_ifs with hshort hmedium
    · exact hshort
    · exact hmedium
    · exact lt_trans h (by decide)

theorem firstByte_eq (o : Fin 16) (r : Bool) :
    firstByte o r = Frame.bit true 0x80 ||| Frame.bit r 0x40 ||| Frame.bit false 0x20 |||
      Frame.bit false 0x10 ||| UInt8.ofNat o := by
  revert o r
  decide

theorem length_written {p : Bytes} {o : Fin 16} {mk : Option Bytes} {r : Bool}
    (h : p.length<2^63) (hk : ∀ key∈mk,key.length=4) :
    (writtenFrame p o mk r h hk).secondOctet ::
        (writtenFrame p o mk r h hk).form.octets p.length =
      if p.length < 126 then [Frame.bit mk.isSome 0x80 ||| UInt8.ofNat p.length]
      else if p.length < 65536 then (Frame.bit mk.isSome 0x80 ||| 126)::bigEndian 2 p.length
      else (Frame.bit mk.isSome 0x80 ||| 127)::bigEndian 8 p.length := by
  have hf : (writtenFrame p o mk r h hk).form=.shortest p.length := rfl
  have hs : (writtenFrame p o mk r h hk).secondOctet = (Frame.bit mk.isSome 0x80 |||
        UInt8.ofNat ((LengthForm.shortest p.length).code p.length)) := rfl
  rw [hf,hs]
  unfold LengthForm.shortest
  split_ifs <;> rfl

theorem encodeFrame_eq {p : Bytes} {o : Fin 16} {mk : Option Bytes} {r : Bool}
    (h : p.length<2^63) (hk : ∀ key∈mk,key.length=4) : encodeFrame p o mk r =
      (writtenFrame p o mk r h hk).encode := by
  have he : (writtenFrame p o mk r h hk).encode =
      firstByte o r::((writtenFrame p o mk r h hk).secondOctet ::
        (writtenFrame p o mk r h hk).form.octets p.length) ++
        (writtenFrame p o mk r h hk).masked := by
    rw [firstByte_eq]
    rfl
  rw [he,length_written]
  cases mk with
  | none =>
    have hz : ∀ b : UInt8,Frame.bit false 0x80 ||| b = b := fun b => UInt8.zero_or
    have hm : (writtenFrame p o none r h hk).masked=p := rfl
    rw [hm]
    unfold encodeFrame encodeFrameHeader
    simp only [Option.isSome_none,hz]
    split_ifs <;> rfl
  | some key =>
    have hl : key.length=4 := hk key rfl
    have hne : key≠[] := by
      rintro rfl
      simp at hl
    have hb : (p.mapIdx fun i b => b ^^^ key.getD (i % 4) 0) =
        List.zipWith (· ^^^ ·) p (repeated key p.length) := by
      rw [← hl]
      exact mapIdx_xor_key hne p
    have hm : (writtenFrame p o (some key) r h hk).masked =
        key++List.zipWith (· ^^^ ·) p (repeated key p.length) := rfl
    unfold encodeFrame
    dsimp only
    rw [hb,hm,List.append_assoc]
    split_ifs <;> rfl

theorem length_encode :
    f.encode.length=2+((f.form.octets f.payload.length).length+f.masked.length) := by
  simp [Frame.encode]
  omega

theorem shortest_le {n : ℕ} {fr : LengthForm} (h : n<fr.bound) :
    ((LengthForm.shortest n).octets n).length≤(fr.octets n).length := by
  unfold LengthForm.shortest
  cases fr with
  | short => rw [if_pos (show n<126 from h)]
  | medium =>
    have hm : n<65536 := h
    split_ifs <;> simp [LengthForm.octets]
  | long => split_ifs <;> simp [LengthForm.octets]

/-- A frame that is written is read back with what follows left over, its length is written as
short as can be, and unmasking is exclusive or with the key octet by octet. -/
theorem frame_roundTrip (payload : Bytes) (opcode : Fin 16) (maskKey : Option Bytes) (rsv1 : Bool)
    (rest : Bytes) (h : payload.length<2^63) (hkey : ∀ key∈maskKey,key.length=4) :
    (∃ header,readFrame (encodeFrame payload opcode maskKey rsv1++rest) =
        some (header,payload,rest) ∧
      header.opcode.code=opcode ∧ header.fin=true ∧ header.rsv1=rsv1 ∧
      header.rsv2=false ∧ header.rsv3=false ∧ header.masked=maskKey.isSome) ∧
    (∀ f : Frame,f.payload=payload → f.mask=maskKey →
      (encodeFrame payload opcode maskKey rsv1).length≤f.encode.length) ∧
    ∀ key raw : Bytes,key.length=4 →
      unmask key raw = raw.mapIdx fun i b => b ^^^ key.getD (i % 4) 0 := by
  refine ⟨?_,?_,?_⟩
  · have ho : ∀ code : Fin 16,(Opcode.ofCode code).code=code := by decide
    rw [encodeFrame_eq h hkey,readFrame_encode]
    exact ⟨_,rfl,ho opcode,rfl,rfl,rfl,rfl,rfl⟩
  · rintro f rfl rfl
    have hs := shortest_le f.length_payload
    have hw : (writtenFrame f.payload opcode f.mask rsv1 h hkey).encode.length =
        2+(((LengthForm.shortest f.payload.length).octets f.payload.length).length +
          f.masked.length) := length_encode _
    rw [encodeFrame_eq h hkey,hw,length_encode f]
    omega
  · intro key raw hl
    have hne : key≠[] := by
      rintro rfl
      simp at hl
    rw [unmask_eq_zipWith hl,← mapIdx_xor_key hne,hl]

theorem frame_roundTrip_masked :
    (∃ header,readFrame (encodeFrame [1,2,3,4,5] 2 (some [9,8,7,6]) true++[42]) =
        some (header,[1,2,3,4,5],[42]) ∧
      header.opcode.code=2 ∧ header.fin=true ∧ header.rsv1=true ∧
      header.rsv2=false ∧ header.rsv3=false ∧ header.masked=true) ∧
    unmask [9,8,7,6] [1,2,3,4,5]=[8,10,4,2,12] :=
  have h := frame_roundTrip [1,2,3,4,5] 2 (some [9,8,7,6]) true [42] (by decide) (by decide)
  ⟨h.1,(h.2.2 [9,8,7,6] [1,2,3,4,5] rfl).trans (by decide)⟩

end BlackBull.WebSocket
