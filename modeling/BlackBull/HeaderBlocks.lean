import BlackBull.FrameTurns

/-!
# Header blocks on the wire

What the peer has sent, read off the frames alone: the fragment of a HEADERS frame without its
padding and priority field, the block that is open and the blocks that are complete.
-/

namespace BlackBull.H2

open ByteString
open scoped List

variable {τ : Type}

namespace RawFrame

def padLength (raw : RawFrame) : ℕ := if raw.padded then ofBigEndian (raw.payload.take 1) else 0

/-- The octet of the padding length, if there is one, comes first. -/
def padField (raw : RawFrame) : ℕ := if raw.padded then 1 else 0

def priorityField (raw : RawFrame) : ℕ := if raw.priority then 5 else 0

def WellFramed (raw : RawFrame) : Prop :=
  raw.padField+raw.priorityField+raw.padLength≤raw.payload.length

instance (raw : RawFrame) : Decidable raw.WellFramed := Nat.decLe _ _

def SelfDependent (raw : RawFrame) : Prop :=
  raw.priority=true ∧
    ofBigEndian ((raw.payload.drop raw.padField).take 4) % 2^31 = raw.streamId

instance (raw : RawFrame) : Decidable raw.SelfDependent := instDecidableAnd

def fragment (raw : RawFrame) : Bytes :=
  (raw.payload.drop (raw.padField+raw.priorityField)).take
    (raw.payload.length - (raw.padField + raw.priorityField) - raw.padLength)

end RawFrame

@[simp] theorem HeadersFrame.extend_extend (frame : HeadersFrame) (a l : Bytes) :
    (frame.extend a).extend l=frame.extend (a++l) := by
  simp [HeadersFrame.extend]

theorem HeadersFrame.extend_nil (frame : HeadersFrame) : frame.extend []=frame := by
  simp [HeadersFrame.extend]

theorem readCount_natCast (t : Bytes) (c : ℕ) : readCount t c=t.take c := by
  rw [readCount,if_neg (by omega),Int.toNat_natCast]

variable {raw : RawFrame} {frame : HeadersFrame} {octets : Bytes}

/-- The padding is cut from the end of what has been gathered, the field from its front. -/
theorem cutPadding_extend (hf : raw.WellFramed) (r : Bytes) :
    ((HeadersFrame.ofRaw raw).extend r).cutPadding=.ok (raw.payload.drop raw.padField++r,
        ((raw.payload.length - raw.padField - raw.padLength + r.length : ℕ) : ℤ)) := by
  unfold RawFrame.WellFramed at hf
  cases hp : raw.padded with
  | false =>
    simp [HeadersFrame.cutPadding,HeadersFrame.extend,HeadersFrame.ofRaw,RawFrame.padField,
      RawFrame.padLength,hp]
  | true =>
    simp only [RawFrame.padField,RawFrame.padLength,hp,if_true] at hf
    have ht : (raw.payload++r).take 1=raw.payload.take 1 := List.take_append_of_le_length (by omega)
    have hd : (raw.payload++r).drop 1=raw.payload.drop 1++r :=
      List.drop_append_of_le_length (by omega)
    have hpa : ¬ ofBigEndian (raw.payload.take 1) ≥ raw.payload.length := by omega
    simp only [HeadersFrame.cutPadding,HeadersFrame.extend,HeadersFrame.ofRaw,
      RawFrame.padField,RawFrame.padLength,hp,if_true,ht,hd,if_neg hpa,
      List.length_append,Except.ok.injEq,Prod.mk.injEq,true_and]
    omega

/-- The octets `parse_payload` takes from a frame that has gathered more fragments. -/
theorem headerBlock_extend (hf : raw.WellFramed) {r : Bytes}
    (hp : raw.padLength=0 ∨ r=[]) : ((HeadersFrame.ofRaw raw).extend r).headerBlock =
      if raw.SelfDependent then .error .selfDependency else .ok (raw.fragment++r) := by
  have hc := cutPadding_extend hf r
  unfold RawFrame.WellFramed at hf
  -- what is left once the fields are off: all of it, or all but the padding of a lone frame
  have ht (f : ℕ) (hfr : f+raw.padLength≤raw.payload.length) : (raw.payload.drop f++r).take
          (raw.payload.length - f - raw.padLength + r.length) =
        (raw.payload.drop f).take (raw.payload.length - f - raw.padLength)++r := by
    rcases hp with hp | rfl
    · rw [hp,Nat.sub_zero,List.take_of_length_le (by simp),List.take_of_length_le (by simp)]
    · simp
  unfold HeadersFrame.headerBlock
  rw [hc]
  cases hpr : raw.priority with
  | false =>
    simp only [RawFrame.priorityField,hpr,Bool.false_eq_true,if_false,Nat.add_zero] at hf
    simp only [HeadersFrame.cutPriority,HeadersFrame.extend,HeadersFrame.ofRaw,
      RawFrame.SelfDependent,RawFrame.fragment,RawFrame.priorityField,hpr,
      Bool.false_eq_true,false_and,if_false,Nat.add_zero,bind,Except.bind,pure,Except.pure,
      readCount_natCast,ht _ hf]
  | true =>
    simp only [RawFrame.priorityField,hpr,if_true] at hf
    have hta : (raw.payload.drop raw.padField++r).take 4 = (raw.payload.drop raw.padField).take 4 :=
      List.take_append_of_le_length (by simp; omega)
    have hd : (raw.payload.drop raw.padField++r).drop 5 = raw.payload.drop (raw.padField+5)++r := by
      rw [List.drop_append_of_le_length (by simp; omega),List.drop_drop]
    have hco : ((raw.payload.length - raw.padField - raw.padLength + r.length : ℕ) : ℤ) - 5 =
        ((raw.payload.length - (raw.padField + 5) - raw.padLength + r.length : ℕ) : ℤ) := by
      omega
    simp only [HeadersFrame.cutPriority,HeadersFrame.extend,HeadersFrame.ofRaw,
      RawFrame.SelfDependent,RawFrame.fragment,RawFrame.priorityField,hpr,if_true,
      true_and,bind,Except.bind,hta]
    split_ifs with hs
    · rfl
    · simp only [pure,Except.pure,hd,hco,readCount_natCast,ht _ hf]

theorem headerBlock_ofRaw (hf : raw.WellFramed) : (HeadersFrame.ofRaw raw).headerBlock =
      if raw.SelfDependent then .error .selfDependency else .ok raw.fragment := by
  have h := headerBlock_extend hf (.inr rfl)
  rwa [HeadersFrame.extend_nil,List.append_nil] at h

/-- The block that is open, with its stream, and the blocks that are complete. -/
structure Wire where
  openOn : Option (ℕ × Bytes) := none
  complete : List (ℕ × Bytes) := []

/-- A block that has these octets so far. -/
def Wire.gather (w : Wire) (streamId : ℕ) (octets : Bytes) (finished : Bool) : Wire :=
  if finished then {openOn:=none,complete:=w.complete++[(streamId,octets)]}
  else {w with openOn:=some (streamId,octets)}

/-- Only a CONTINUATION frame on the same stream goes on with an open block. -/
def Wire.receive (w : Wire) : Action → Wire
  | .frame raw _ =>
    match raw.type,w.openOn with
    | some .headers,_ => w.gather raw.streamId raw.fragment raw.endHeaders
    | some .continuation,some (streamId,octets) =>
      if raw.streamId=streamId then w.gather streamId (octets++raw.payload) raw.endHeaders
      else {w with openOn:=none}
    | _,_ => {w with openOn:=none}
  | _ => w

section Wire

variable (w : Wire) {raw : RawFrame} (m : Moment)

variable (sid : ℕ)

theorem gather_finished (octets : Bytes) : w.gather sid octets true =
      {openOn:=none,complete:=w.complete++[(sid,octets)]} := rfl

theorem gather_unfinished (octets : Bytes) :
    w.gather sid octets false={w with openOn:=some (sid,octets)} := rfl

theorem receive_headers (ht : raw.type=some .headers) :
    w.receive (.frame raw m)=w.gather raw.streamId raw.fragment raw.endHeaders := by
  simp [Wire.receive,ht]

theorem receive_continuation {octets : Bytes} (ht : raw.type=some .continuation)
    (ho : w.openOn=some (raw.streamId,octets)) :
    w.receive (.frame raw m)=w.gather raw.streamId (octets++raw.payload) raw.endHeaders := by
  simp [Wire.receive,ht,ho]

theorem receive_other (hh : raw.type≠some .headers) (hc : raw.type≠some .continuation) :
    w.receive (.frame raw m)={w with openOn:=none} := by
  unfold Wire.receive
  split <;> simp_all

theorem receive_environment {a : Action} (ha : ∀ raw m,a≠.frame raw m) : w.receive a=w := by
  cases a with
  | frame raw m => exact absurd rfl (ha raw m)
  | _ => rfl

theorem complete_gather (octets : Bytes) (f : Bool) :
    w.complete <+ (w.gather sid octets f).complete := by
  cases f with
  | false => exact .refl _
  | true => exact List.sublist_append_left _ _

theorem complete_receive (a : Action) : w.complete <+ (w.receive a).complete := by
  unfold Wire.receive
  repeat' split
  all_goals first
    | exact complete_gather _ _ _ _
    | exact .refl _

end Wire

/-- The frame is an unpadded HEADERS frame with the fragments that have followed it. -/
def Gathers (frame : HeadersFrame) (octets : Bytes) : Prop :=
  ∃ raw rest,frame=(HeadersFrame.ofRaw raw).extend rest ∧ raw.WellFramed ∧ raw.padLength=0 ∧
    octets=raw.fragment++rest

theorem gathers_ofRaw (hf : raw.WellFramed) (hp : raw.padLength=0) :
    Gathers (.ofRaw raw) raw.fragment :=
  ⟨raw,[],(HeadersFrame.extend_nil _).symm,hf,hp,(List.append_nil _).symm⟩

theorem Gathers.extend (h : Gathers frame octets) (p : Bytes) :
    Gathers (frame.extend p) (octets++p) := by
  obtain ⟨raw,rest,rfl,hf,hp,rfl⟩ := h
  exact ⟨raw,rest++p,by simp,hf,hp,by simp⟩

theorem Gathers.headerBlock {b : Bytes} (h : Gathers frame octets)
    (hb : frame.headerBlock=.ok b) : b=octets := by
  obtain ⟨raw,rest,rfl,hf,hp,rfl⟩ := h
  rw [headerBlock_extend hf (.inl hp)] at hb
  split_ifs at hb
  cases hb
  rfl

theorem Gathers.decodes (h : Gathers frame octets) :
    frame.decodes <+ [(frame.streamId,octets)] := by
  unfold HeadersFrame.decodes
  cases hb : frame.headerBlock with
  | error d => exact List.nil_sublist _
  | ok b => rw [h.headerBlock hb]

def RawFrame.blocks (raw : RawFrame) : List (ℕ × Bytes) :=
  if raw.endHeaders then [(raw.streamId,raw.fragment)] else []

theorem receive_complete_headers (w : Wire) (mo : Moment) (ht : raw.type=some .headers) :
    (w.receive (.frame raw mo)).complete=w.complete++raw.blocks := by
  rw [receive_headers w mo ht,Wire.gather,RawFrame.blocks]
  split_ifs <;> simp

theorem decodes_ofRaw (hf : raw.WellFramed) : (HeadersFrame.ofRaw raw).decodes =
      if raw.SelfDependent then [] else [(raw.streamId,raw.fragment)] := by
  rw [HeadersFrame.decodes,headerBlock_ofRaw hf]
  split_ifs <;> rfl

theorem loaded_blocks (hf : raw.WellFramed) : loaded raw <+ raw.blocks := by
  unfold loaded RawFrame.blocks
  split_ifs with h he he
  · rw [decodes_ofRaw hf]
    split_ifs
    · exact List.nil_sublist _
    · exact .refl _
  · exact absurd h.2.2 he
  · exact List.nil_sublist _
  · exact .refl _

/-- The frame with the fields another one has read. -/
def HeadersFrame.withFields (frame other : HeadersFrame) : HeadersFrame :=
  {frame with
    pseudoHeaders:=other.pseudoHeaders,headers:=other.headers,malformed:=other.malformed}

def HeadersFrame.blank : HeadersFrame where
  streamId := 0
  length := 0
  endStream := false
  endHeaders := true
  padded := false
  priority := false
  rawBlock := []

theorem addFields_withFields (frame o : HeadersFrame) (sr : Bool) (fs : HeaderList) :
    (frame.withFields o).addFields sr fs=(o.addFields sr fs).map frame.withFields := by
  induction fs generalizing sr o with
  | nil => rfl
  | cons f fs ih =>
    have hp (key : PseudoHeader) : (frame.withFields o).pseudo key=o.pseudo key := rfl
    simp only [HeadersFrame.addFields,hp]
    repeat' split
    all_goals first
      | rfl
      | exact ih {o with pseudoHeaders:=_} _
      | exact ih {o with headers:=_} _

def fieldsRequest (lib : Library τ) (fields : HeaderList) :
    Except Raised (Except Defect Request) := do
  let frame ← HeadersFrame.blank.addFields false fields
  parseHeaders lib frame

def Dispatch.From (lib : Library τ) (request : Dispatch) (block : ℕ × Bytes) : Prop :=
  request.streamId=block.1 ∧ ∃ table fields table',
    lib.decode table block.2=some (fields,table') ∧
      fieldsRequest lib fields=.ok (.ok request.request)

theorem HeadersFrame.Reads.from {lib : Library τ} {t : τ} {f' : HeadersFrame} {b : Bytes} {q
    : Request} (h : frame.Reads lib t b f') (hb : frame.withFields .blank=frame) (hp :
    parseHeaders lib f'=.ok (.ok q)) (id1 : ℕ) : Dispatch.From lib ⟨id1,f',q⟩ (id1,b) := by
  obtain ⟨-,fs,t',hd,hf⟩ := h
  refine ⟨rfl,t,fs,t',hd,?_⟩
  rw [← hb,addFields_withFields] at hf
  unfold fieldsRequest
  cases hr : HeadersFrame.blank.addFields false fs with
  | error e => simp [hr,Except.map] at hf
  | ok read =>
    simp only [hr,Except.map,Except.ok.injEq] at hf
    subst hf
    exact hp

theorem Gathers.blank (h : Gathers frame octets) : frame.withFields .blank=frame := by
  obtain ⟨raw,rest,rfl,-⟩ := h
  rfl

end BlackBull.H2
