import BlackBull.FrameReading

/-!
# What a sequence of WebSocket frames says

The messages of the peer, whatever frames they are cut into and whatever control frames
stand between them, and what can be wrong with a frame after the frames before it.
-/

namespace BlackBull.WebSocket

open ByteString
open Mqtt (utf8?)

def Opcode.isData : Opcode → Bool
  | .text | .binary | .continuation => true
  | _ => false

/-- The messages of a sequence of frames, each as its frames, and the frames of one that is not
complete. -/
structure Transcript where
  messages : List (List Frame) := []
  fragments : List Frame := []

def Transcript.add (t : Transcript) (f : Frame) : Transcript :=
  if !f.opcode.isData then t
  else if f.fin then ⟨t.messages++[t.fragments++[f]],[]⟩
  else {t with fragments:=t.fragments++[f]}

def transcript (frames : List Frame) : Transcript := frames.foldl Transcript.add {}

@[simp] theorem transcript_concat (fs : List Frame) (f : Frame) :
    transcript (fs++[f])=(transcript fs).add f := by
  simp [transcript]

def joined (group : List Frame) : Bytes := (group.map Frame.payload).flatten

theorem joined_concat (g : List Frame) (f : Frame) : joined (g++[f])=joined g++f.payload := by
  simp [joined]

/-- The first frame of a message says what it is and whether it is compressed. -/
def kind : List Frame → Opcode
  | [] => .continuation
  | f::_ => f.opcode

def isCompressed : List Frame → Bool
  | [] => false
  | f::_ => f.rsv1

section

variable {σ : Type} (config : Config) (inflater : Inflater σ)

def inflated (state : σ) (group : List Frame) : Bytes × Option σ :=
  if isCompressed group then inflater.inflate state (joined group++deflateTail)
  else (joined group,some state)

def stateAfter (state : σ) (group : List Frame) : σ :=
  if isCompressed group then
    if config.resetPerMessage then inflater.initial
    else (inflated inflater state group).2.getD state
  else state

/-- A message, from its content; there is none if the text is not UTF-8. -/
def messageOf (group : List Frame) (content : Bytes) : Option Message :=
  if kind group=.text then (utf8? content).map .text else some (.binary content)

def sent (state : σ) : List (List Frame) → List Message
  | [] => []
  | group::groups =>
    (messageOf group (inflated inflater state group).1).toList ++
      sent (stateAfter config inflater state group) groups

def stateOf (groups : List (List Frame)) : σ :=
  groups.foldl (stateAfter config inflater) inflater.initial

theorem stateOf_concat (g : List (List Frame)) (gr : List Frame) :
    stateOf config inflater (g++[gr]) =
      stateAfter config inflater (stateOf config inflater g) gr := by
  simp [stateOf]

theorem sent_concat (s : σ) (g : List (List Frame)) (gr : List Frame) :
    sent config inflater s (g++[gr])=sent config inflater s g ++ (messageOf gr (inflated inflater
          (g.foldl (stateAfter config inflater) s) gr).1).toList := by
  induction g generalizing s with
  | nil => simp [sent]
  | cons a g ih => simp [sent,ih]

def sentMessages (frames : List Frame) : List Message :=
  sent config inflater inflater.initial (transcript frames).messages

def groupOf (before : List Frame) (f : Frame) : List Frame :=
  (transcript before).fragments++[f]

/-- The content of that message, if the frame is its last. -/
def contentOf (before : List Frame) (f : Frame) : Bytes × Option σ :=
  inflated inflater (stateOf config inflater (transcript before).messages) (groupOf before f)

end

inductive Violation where
  | fragmentedControl
  | longControl
  | controlRate
  | reservedBits
  | unmasked
  | frameTooBig
  | unknownOpcode
  | noOpener
  | openerInside
  | messageTooBig
  /-- A compressed message in several frames, by what is on the wire. -/
  | fragmentsTooBig
  | corruptData
  | invalidUtf8
  | invalidClose
  deriving DecidableEq

instance : Fintype Violation where
  elems := {.fragmentedControl,.longControl,.controlRate,.reservedBits,.unmasked,.frameTooBig,
    .unknownOpcode,.noOpener,.openerInside,.messageTooBig,.fragmentsTooBig,.corruptData,
    .invalidUtf8,.invalidClose}
  complete := by
    intro v
    cases v <;> decide

def Violation.closeCode : Violation → ℕ
  | controlRate => 1008
  | frameTooBig => 1009
  | messageTooBig => 1009
  | fragmentsTooBig => 1009
  | invalidUtf8 => 1007
  | _ => 1002

/-- RFC 6455 5.5.1: no code, or one that may be sent, and a reason in UTF-8. -/
def WellFormedClose (payload : Bytes) : Prop :=
  payload=[] ∨ 2≤payload.length ∧
    isValidCloseCode (ofBigEndian (payload.take 2))=true ∧ utf8? (payload.drop 2)≠none

instance (payload : Bytes) : Decidable (WellFormedClose payload) := instDecidableOr

def closeCodeOf (payload : Bytes) : ℕ :=
  if payload=[] then 1000 else ofBigEndian (payload.take 2)

section

variable {σ : Type} (config : Config) (inflater : Inflater σ) (meter : RateWindow)
  (clock : ℕ → ℕ)

def meterAfter (frames : List Frame) : RateWindow :=
  frames.zipIdx.foldl (fun meter frame =>
    (countControl meter frame.1.header (clock frame.2)).2) meter

theorem meterAfter_concat (fs : List Frame) (f : Frame) : meterAfter meter clock (fs++[f]) =
      (countControl (meterAfter meter clock fs) f.header (clock fs.length)).2 := by
  simp [meterAfter,List.zipIdx_append]

def Violates (before : List Frame) (f : Frame) : Violation → Prop
  | .fragmentedControl => f.opcode.isControl=true ∧ f.fin=false
  | .longControl => f.opcode.isControl=true ∧ f.form≠.short
  | .controlRate => f.opcode.isControl=true ∧
    ((meterAfter meter clock before).hit (clock before.length)).1=true
  | .reservedBits => f.rsv2=true ∨ f.rsv3=true ∨
    f.rsv1=true ∧ (config.deflate=false ∨ f.opcode.isControl=true ∨
      f.opcode=.continuation)
  | .unmasked => config.requireMasked=true ∧ f.mask=none
  | .frameTooBig => config.maxFramePayload<f.payload.length
  | .unknownOpcode => f.opcode.isData=false ∧ f.opcode.isControl=false
  | .noOpener => f.opcode=.continuation ∧ (transcript before).fragments=[]
  | .openerInside => (f.opcode=.text ∨ f.opcode=.binary) ∧
    (transcript before).fragments≠[]
  | .messageTooBig => f.opcode.isData=true ∧
    if isCompressed (groupOf before f) then
      f.fin=true ∧ overSize config (contentOf config inflater before f).1.length=true
    else overSize config (joined (groupOf before f)).length=true
  | .fragmentsTooBig => f.opcode.isData=true ∧ isCompressed (groupOf before f)=true ∧
    (2≤(groupOf before f).length ∨ f.fin=false) ∧
    overSize config (joined (groupOf before f)).length=true
  | .corruptData => f.opcode.isData=true ∧ f.fin=true ∧
    (contentOf config inflater before f).2=none
  | .invalidUtf8 => f.opcode.isData=true ∧ f.fin=true ∧
    kind (groupOf before f)=.text ∧ utf8? (contentOf config inflater before f).1=none
  | .invalidClose => f.opcode=.close ∧ ¬ WellFormedClose f.payload

instance Violates.decidable (before : List Frame) (f : Frame) (v : Violation) :
    Decidable (Violates config inflater meter clock before f v) :=
  match v with
  | .fragmentedControl => instDecidableAnd
  | .longControl => instDecidableAnd
  | .controlRate => instDecidableAnd
  | .reservedBits => instDecidableOr
  | .unmasked => instDecidableAnd
  | .frameTooBig => Nat.decLt _ _
  | .unknownOpcode => instDecidableAnd
  | .noOpener => instDecidableAnd
  | .openerInside => instDecidableAnd
  | .messageTooBig => instDecidableAnd
  | .fragmentsTooBig => instDecidableAnd
  | .corruptData => instDecidableAnd
  | .invalidUtf8 => instDecidableAnd
  | .invalidClose => instDecidableAnd

def Clean (frames : List Frame) : Prop :=
  ∀ before f after,frames=before++f::after →
    f.opcode≠.close ∧ ∀ v,¬ Violates config inflater meter clock before f v

end

end BlackBull.WebSocket
