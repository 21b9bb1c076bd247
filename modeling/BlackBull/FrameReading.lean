import BlackBull.OctetMasks
import BlackBull.WebSocketFrames

/-!
# The frame loop of a WebSocket connection

One reader drives the wire: it hands over messages, answers control frames and ends
with the first error or CLOSE. A frame as the peer puts it on the wire is read in at
most four reads, and `Frame.outcome` is what it comes to.
-/

namespace BlackBull.WebSocket

open ByteString

inductive Item where
  | message (message : Message)
  /-- `_WS_CLOSED`: the code is the terminal one. -/
  | closed
  | raised (error : ProtocolError)
  deriving DecidableEq

def Item.message? : Item → Option Message
  | .message content => some content
  | _ => none

inductive Sent where
  | pong (payload : Bytes)
  | close (code : ℕ)
  deriving DecidableEq

structure Reader (σ : Type) where
  wire : Wire σ
  stage : Stage := .header
  emitted : List Item := []
  written : List Sent := []
  terminalCode : Option ℕ := none
  finished : Bool := false

namespace Reader

variable {σ : Type}

def messages (r : Reader σ) : List Message := r.emitted.filterMap Item.message?

def closeChannel (r : Reader σ) (code : ℕ) : Reader σ :=
  {r with
    emitted:=r.emitted++[.closed]
    terminalCode:=some code
    finished:=true}

def write (r : Reader σ) (sent : Sent) : Reader σ := {r with written:=r.written++[sent]}

/-- The error handler of `_drive_once`. -/
def fail (r : Reader σ) (error : ProtocolError) (wire : Wire σ) : Reader σ :=
  { r.write (.close error.closeCode) with
    wire
    stage:=.header
    emitted:=r.emitted++[.raised error]
    terminalCode:=some error.closeCode
    finished:=true}

/-- A frame is handled, and the next one is read. -/
def react (r : Reader σ) (reaction : Reaction) (wire : Wire σ) : Reader σ :=
  let r := {r with wire,stage:=.header}
  match reaction with
  | .nothing => r
  | .message message => {r with emitted:=r.emitted++[.message message]}
  | .pong payload => r.write (.pong payload)
  | .close code => (r.write (.close code)).closeChannel code

def follow (r : Reader σ) : Progress σ → Reader σ
  | .waits => r
  | .ends => r.closeChannel 1006
  | .raises error wire => r.fail error wire
  | .goes stage wire => {r with wire,stage}
  | .done reaction wire => r.react reaction wire

variable (config : Config) (inflater : Inflater σ) (clock : ℕ → ℕ)

def advance (r : Reader σ) : Reader σ :=
  if r.finished then r
  else r.follow (r.wire.read config inflater (clock r.wire.frames) r.stage)

end Reader

/-- The exclusive or of two numbers is the one with the repeated key, octet by octet. -/
theorem unmask_eq_zipWith {key : Bytes} (h : key.length=4) (raw : Bytes) :
    unmask key raw = List.zipWith (· ^^^ ·) raw (repeated key raw.length) := by
  have hne : key≠[] := by
    rintro rfl
    simp at h
  have hm : (List.replicate ((raw.length + 3) / 4) key).flatten.take raw.length =
      repeated key raw.length := by
    rw [repeated,h]
    rfl
  unfold unmask
  dsimp only
  split
  · next he =>
    rw [he]
    rfl
  · rw [hm,bigEndian_xor (length_repeated hne raw.length).symm]

inductive LengthForm where
  | short
  | medium
  | long
  deriving DecidableEq

namespace LengthForm

def bound : LengthForm → ℕ
  | short => 126
  | medium => 256^2
  | long => 256^8

def code (length : ℕ) : LengthForm → ℕ
  | short => length
  | medium => 126
  | long => 127

def octets (length : ℕ) : LengthForm → Bytes
  | short => []
  | medium => bigEndian 2 length
  | long => bigEndian 8 length

end LengthForm

structure Frame where
  fin : Bool := true
  rsv1 : Bool := false
  rsv2 : Bool := false
  rsv3 : Bool := false
  code : Fin 16
  mask : Option Bytes
  form : LengthForm := .short
  payload : Bytes
  length_key : ∀ key∈mask,key.length=4 := by decide
  length_payload : payload.length<form.bound := by decide

namespace Frame

def opcode (f : Frame) : Opcode := .ofCode f.code

def bit (set : Bool) (value : UInt8) : UInt8 := if set then value else 0

def firstOctet (f : Frame) : UInt8 :=
  bit f.fin 0x80 ||| bit f.rsv1 0x40 ||| bit f.rsv2 0x20 ||| bit f.rsv3 0x10 |||
    UInt8.ofNat f.code

def secondOctet (f : Frame) : UInt8 :=
  bit f.mask.isSome 0x80 ||| UInt8.ofNat (f.form.code f.payload.length)

def body (f : Frame) : Bytes :=
  match f.mask with
  | none => f.payload
  | some key => List.zipWith (· ^^^ ·) f.payload (repeated key f.payload.length)

/-- The octets of a frame after its header and the length. -/
def masked (f : Frame) : Bytes := f.mask.getD []++f.body

def encode (f : Frame) : Bytes :=
  [f.firstOctet,f.secondOctet]++(f.form.octets f.payload.length++f.masked)

def header (f : Frame) : FrameHeader where
  opcode := f.opcode
  masked := f.mask.isSome
  length := f.form.code f.payload.length
  fin := f.fin
  rsv1 := f.rsv1
  rsv2 := f.rsv2
  rsv3 := f.rsv3

theorem readFrameHeader_bits (fin rsv1 rsv2 rsv3 m : Bool) (c : Fin 16) (n : Fin 128) :
    readFrameHeader
        (bit fin 0x80 ||| bit rsv1 0x40 ||| bit rsv2 0x20 ||| bit rsv3 0x10 ||| UInt8.ofNat c)
        (bit m 0x80 ||| UInt8.ofNat n) =
      ⟨.ofCode c,m,n,fin,rsv1,rsv2,rsv3⟩ := by
  have hf : ∀ fin rsv1 rsv2 rsv3 : Bool,∀ c : Fin 16,
      let octet := bit fin 0x80 ||| bit rsv1 0x40 ||| bit rsv2 0x20 ||| bit rsv3 0x10 |||
        UInt8.ofNat c
      (octet &&& 0x0F).toNat = c ∧ (octet &&& 0x80 ≠ 0 ↔ fin = true) ∧
        (octet &&& 0x40 ≠ 0 ↔ rsv1 = true) ∧ (octet &&& 0x20 ≠ 0 ↔ rsv2 = true) ∧
          (octet &&& 0x10 ≠ 0 ↔ rsv3 = true) := by decide
  have hs : ∀ m : Bool,∀ n : Fin 128,((bit m 0x80 ||| UInt8.ofNat n) &&& 0x80 ≠ 0 ↔ m = true) ∧
      ((bit m 0x80 ||| UInt8.ofNat n) &&& 0x7F).toNat = n := by decide
  obtain ⟨hc,hfi,hr,hrs,hrsv⟩ := hf fin rsv1 rsv2 rsv3 c
  obtain ⟨hm,hl⟩ := hs m n
  simp [readFrameHeader,hc,hfi,hr,hrs,hrsv,hm,hl]

variable (f : Frame)

theorem code_lt : f.form.code f.payload.length<128 := by
  have h := f.length_payload
  cases hf : f.form with
  | short =>
    rw [hf] at h
    exact lt_trans h (by decide)
  | medium => exact (by decide : 126<128)
  | long => exact (by decide : 127<128)

theorem readFrameHeader_eq : readFrameHeader f.firstOctet f.secondOctet=f.header :=
  readFrameHeader_bits f.fin f.rsv1 f.rsv2 f.rsv3 f.mask.isSome f.code ⟨_,f.code_lt⟩

theorem length_octets (h : f.form≠.short) :
    (Stage.length f.header).need=(f.form.octets f.payload.length).length ∧
      ofBigEndian (f.form.octets f.payload.length)=f.payload.length ∧
      ¬ f.header.length<126 := by
  have hb := f.length_payload
  have hf : f.form=.medium ∨ f.form=.long := by
    cases hfo : f.form with
    | short => exact absurd hfo h
    | medium => exact .inl rfl
    | long => exact .inr rfl
  rcases hf with hfo | hfo
  · rw [hfo] at hb
    simp [header,Stage.need,hfo,LengthForm.code,LengthForm.octets,ofBigEndian_bigEndian 2 hb]
  · rw [hfo] at hb
    simp [header,Stage.need,hfo,LengthForm.code,LengthForm.octets,ofBigEndian_bigEndian 8 hb]

theorem length_body : f.body.length=f.payload.length := by
  unfold body
  split
  · rfl
  · next key hm =>
    have hk : key≠[] := by
      have hl := f.length_key key hm
      rintro rfl
      simp at hl
    rw [List.length_zipWith,length_repeated hk,min_self]

theorem unmask_body {key : Bytes} (h : f.mask=some key) : unmask key f.body=f.payload := by
  have hk : key.length=4 := f.length_key key h
  have hne : key≠[] := by
    rintro rfl
    simp at hk
  have hb : f.body = List.zipWith (· ^^^ ·) f.payload (repeated key f.payload.length) := by
    simp only [body,h]
  rw [unmask_eq_zipWith hk,f.length_body,hb]
  exact zipWith_xor_cancel (length_repeated hne f.payload.length).symm

theorem unmasked_body : unmasked f.body f.mask=f.payload := by
  cases hm : f.mask with
  | none => simp [unmasked,body,hm]
  | some key => exact f.unmask_body hm

section

variable {σ : Type} (config : Config) (inflater : Inflater σ)

def ending (wire : Wire σ) (f : Frame) : Progress σ :=
  if config.requireMasked && f.mask.isNone then .raises .unmasked wire
  else .ofReaction wire (handle config inflater wire f.header f.payload)

def outcome (wire : Wire σ) (now : ℕ) (f : Frame) : Progress σ :=
  let (flooding,meter) := countControl wire.meter f.header now
  let wire := {wire with meter,frames:=wire.frames+1}
  match checkHeader config f.header flooding meter with
  | .error error => .raises error wire
  | .ok () =>
    if config.maxFramePayload<f.payload.length then
      .raises (.frameTooLarge f.payload.length config.maxFramePayload) wire
    else ending config inflater wire f

end

end Frame

namespace Reader

section

variable {σ : Type} {r : Reader σ}

/-- Where a reader is when a frame has come to this; an error may leave octets of its frame. -/
inductive Settles (r : Reader σ) : Progress σ → Reader σ → Prop
  | raises (error : ProtocolError) (wire wire' : Wire σ) :
    Settles r (.raises error wire) (r.fail error wire')
  | done (reaction : Reaction) (wire : Wire σ) :
    Settles r (.done reaction wire) (r.react reaction wire)

def within (r : Reader σ) (stage : Stage) (wire : Wire σ) : Reader σ := {r with stage,wire}

variable {rs : Bytes} {f : Frame} {st : Stage}

theorem settles_raises {wi : Wire σ} (error : ProtocolError) (w w' : Wire σ) :
    Settles r (.raises error w') ((r.within st wi).follow (.raises error w)) :=
  .raises error w' w

theorem settles_ofReaction {wi : Wire σ} (w : Wire σ)
    (ha : Except ProtocolError (Reaction × Wire σ)) : Settles r (.ofReaction w ha)
      ((r.within st wi).follow (.ofReaction w ha)) := by
  cases ha with
  | error error => exact .raises error w w
  | ok d => exact .done d.1 d.2

variable (cfg : Config) (z : Inflater σ) (ck : ℕ → ℕ)

theorem read_octets {bs : Bytes} {w : Wire σ} (now : ℕ) (hn : st.need=bs.length)
    (hb : w.buffer=bs++rs) : w.read cfg z now st =
      resume cfg z {w with buffer:=rs} now bs st := by
  have hl : bs.length≤(bs++rs).length := by simp
  unfold Wire.read
  rw [hn,hb,if_pos hl,List.take_left,List.drop_left]

theorem advance_read {bs : Bytes} {w : Wire σ} (hf : r.finished=false)
    (hn : st.need=bs.length) (hb : w.buffer=bs++rs) :
    (r.within st w).advance cfg z ck=(r.within st w).follow
        (resume cfg z {w with buffer:=rs} (ck w.frames) bs st) := by
  have ho : ¬ (r.within st w).finished=true := by simp [within,hf]
  rw [advance,if_neg ho,← read_octets cfg z _ hn hb]
  rfl

theorem advance_payload (w : Wire σ) (hf : r.finished=false) (hb : w.buffer=f.body++rs) :
    Settles r (f.ending cfg z {w with buffer:=rs}) (advance cfg z ck
        (r.within (.payload f.header f.payload.length f.mask) w)) := by
  have hn : (Stage.payload f.header f.payload.length f.mask).need=f.body.length :=
    f.length_body.symm
  have hm : (!f.header.masked)=f.mask.isNone := by simp [Frame.header]
  rw [advance_read cfg z ck hf hn hb]
  simp only [resume,hm,f.unmasked_body,Frame.ending]
  split
  · exact settles_raises _ _ _
  · exact settles_ofReaction _ _

theorem advance_masked (w : Wire σ) (hf : r.finished=false) (hb : w.buffer=f.masked++rs) :
    ∃ k≤2,Settles r (f.ending cfg z {w with buffer:=rs}) ((advance cfg z ck)^[k]
        (r.within (if f.header.masked then .mask f.header f.payload.length
          else .payload f.header f.payload.length none) w)) := by
  cases hm : f.mask with
  | none =>
    have hs : (if f.header.masked then Stage.mask f.header f.payload.length
        else .payload f.header f.payload.length none) =
        .payload f.header f.payload.length f.mask := by simp [Frame.header,hm]
    have hbo : w.buffer=f.body++rs := by simpa [Frame.masked,hm] using hb
    rw [hs]
    exact ⟨1,by decide,advance_payload cfg z ck w hf hbo⟩
  | some key =>
    have hs : (if f.header.masked then Stage.mask f.header f.payload.length
        else .payload f.header f.payload.length none)=.mask f.header f.payload.length := by
      simp [Frame.header,hm]
    have hk : w.buffer=key++(f.body++rs) := by simpa [Frame.masked,hm] using hb
    have hn : (Stage.mask f.header f.payload.length).need=key.length := (f.length_key key hm).symm
    have hr : (r.within (.mask f.header f.payload.length) w).advance cfg z ck =
        r.within (.payload f.header f.payload.length f.mask) {w with buffer:=f.body++rs} := by
      rw [advance_read cfg z ck hf hn hk,hm]
      rfl
    refine ⟨2,le_rfl,?_⟩
    rw [hs,Function.iterate_succ_apply,Function.iterate_one,hr]
    exact advance_payload cfg z ck {w with buffer:=f.body++rs} hf rfl

theorem advance_sized (st : Stage) (wi w : Wire σ) (hf : r.finished=false)
    (hb : wi.buffer=f.masked++rs) :
    ∃ k≤2,Settles r (if cfg.maxFramePayload<f.payload.length then
        .raises (.frameTooLarge f.payload.length cfg.maxFramePayload) {wi with buffer:=rs}
      else f.ending cfg z {wi with buffer:=rs}) ((advance cfg z ck)^[k] ((r.within st w).follow
        (.ofStage wi (sized cfg f.header f.payload.length)))) := by
  unfold sized
  split
  · exact ⟨0,by decide,settles_raises _ _ _⟩
  · exact advance_masked cfg z ck wi hf hb

theorem advance_length (st : Stage) (wi w : Wire σ) (hf : r.finished=false)
    (hb : wi.buffer=f.form.octets f.payload.length++(f.masked++rs)) :
    ∃ k≤3,Settles r (if cfg.maxFramePayload<f.payload.length then
        .raises (.frameTooLarge f.payload.length cfg.maxFramePayload) {wi with buffer:=rs}
      else f.ending cfg z {wi with buffer:=rs}) ((advance cfg z ck)^[k] ((r.within st w).follow
        (.ofStage wi (if f.header.length<126 then sized cfg f.header f.header.length
          else .ok (.length f.header))))) := by
  by_cases hfo : f.form=.short
  · have hl : f.header.length=f.payload.length := by
      simp [Frame.header,hfo,LengthForm.code]
    have hs : f.header.length<126 := by
      have hbo := f.length_payload
      rw [hfo] at hbo
      rwa [hl]
    have hm : wi.buffer=f.masked++rs := by
      rw [hb,hfo]
      rfl
    obtain ⟨k,hk,hse⟩ := advance_sized cfg z ck st wi w hf hm
    rw [if_pos hs,hl]
    exact ⟨k,by omega,hse⟩
  · obtain ⟨hn,hv,hlo⟩ := f.length_octets hfo
    obtain ⟨k,hk,hse⟩ := advance_sized cfg z ck (r := r)
      (.length f.header) {wi with buffer:=f.masked++rs} wi hf rfl
    have hr : (r.within (.length f.header) wi).advance cfg z ck=_ := advance_read cfg z ck hf hn hb
    rw [resume,hv] at hr
    refine ⟨k+1,by omega,?_⟩
    rw [if_neg hlo,Function.iterate_succ_apply]
    exact hr ▸ hse

/-- A frame is read in at most four reads. -/
theorem advance_frame (w : Wire σ) (hf : r.finished=false) (hb : w.buffer=f.encode++rs) :
    ∃ k≤4,Settles r (f.outcome cfg z {w with buffer:=rs} (ck w.frames))
      ((advance cfg z ck)^[k] (r.within .header w)) := by
  have ho : w.buffer=[f.firstOctet,f.secondOctet] ++
      (f.form.octets f.payload.length++(f.masked++rs)) := by
    rw [hb,Frame.encode,List.append_assoc,List.append_assoc]
  have hr : (r.within .header w).advance cfg z ck=_ := advance_read cfg z ck hf rfl ho
  have hh : readFrameHeader ([f.firstOctet,f.secondOctet].getD 0 0)
      ([f.firstOctet,f.secondOctet].getD 1 0)=f.header := f.readFrameHeader_eq
  simp only [resume,hh] at hr
  unfold Frame.outcome
  dsimp only
  cases hc : checkHeader cfg f.header (countControl w.meter f.header (ck w.frames)).1
      (countControl w.meter f.header (ck w.frames)).2 with
  | error error =>
    refine ⟨1,by decide,?_⟩
    rw [hc] at hr
    rw [Function.iterate_one,hr]
    exact settles_raises _ _ _
  | ok =>
    rw [hc] at hr
    obtain ⟨k,hk,hs⟩ := advance_length cfg z ck .header {w with
        buffer:=f.form.octets f.payload.length++(f.masked++rs)
        meter:=(countControl w.meter f.header (ck w.frames)).2
        frames:=w.frames+1} w hf rfl
    refine ⟨k+1,by omega,?_⟩
    rw [Function.iterate_succ_apply,hr]
    exact hs

end

end Reader

end BlackBull.WebSocket
