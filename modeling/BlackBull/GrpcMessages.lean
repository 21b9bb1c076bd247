import BlackBull.ByteString

/-!
# The messages of a gRPC request

`_iter_request_messages` takes length-prefixed messages out of the request as it arrives,
`decode_messages` out of the whole body. Where the body is cut makes no difference: draining the
buffer and going on with what is left is draining all of it.
-/

namespace BlackBull.Grpc

open ByteString

inductive GrpcStatus
  | cancelled | resourceExhausted | unimplemented | internal
  deriving DecidableEq

structure GrpcError where
  status : GrpcStatus
  details : String
  deriving DecidableEq

inductive Event
  | request (body : Bytes) (moreBody : Bool)
  | disconnect

/-- The generator waits for an event, or it has ended. -/
inductive Ending
  | waiting
  | returned
  | raised (error : GrpcError)

def maxMessageLength : ℕ := 16*1024*1024

/-- `MAX_MESSAGE_SIZE`, and `_decompress_message` with the encoding of the request. -/
structure Setting where
  maxMessageSize : ℤ
  decompressMessage : Bytes → Except GrpcError Bytes

namespace Setting

variable (setting : Setting)

def limit (flag : UInt8) : ℤ := if flag≠0 then maxMessageLength else setting.maxMessageSize

def message (flag : UInt8) (payload : Bytes) : Except GrpcError Bytes :=
  if flag≠0 then setting.decompressMessage payload else .ok payload

/-- The inner loop: what it yields, and the buffer it leaves unless it raises. -/
def drain : Bytes → List Bytes × Except GrpcError Bytes
  | flag::a::b::c::d::body =>
    let length := ofBigEndian [a,b,c,d]
    if setting.limit flag<length then
      ([],.error ⟨.resourceExhausted, "request message (" ++ toString length ++
        " bytes) larger than the " ++ toString (setting.limit flag) ++ "-byte limit"⟩)
    else if body.length<length then ([],.ok (flag::a::b::c::d::body))
    else
      match setting.message flag (body.take length) with
      | .error error => ([],.error error)
      | .ok message => (message::(drain (body.drop length)).1,(drain (body.drop length)).2)
  | buf => ([],.ok buf)
termination_by buf => buf.length
decreasing_by
  all_goals
    simp only [List.length_drop,List.length_cons]
    omega

def malformed (trailing : ℕ) : GrpcError where
  status := .internal
  details := "malformed request: " ++ toString trailing ++ " trailing byte(s) after last message"

def iterRequestMessages : Bytes → List Event → List Bytes × Ending
  | _,[] => ([],.waiting)
  | _,.disconnect::_ => ([],.raised ⟨.cancelled, "client disconnected mid-stream"⟩)
  | buf,.request body moreBody::events =>
    match setting.drain (buf++body) with
    | (messages,.error error) => (messages,.raised error)
    | (messages,.ok rest) =>
      if moreBody then
        let later := iterRequestMessages rest events
        (messages++later.1,later.2)
      else (messages,if rest=[] then .returned else .raised (malformed rest.length))

end Setting

def decodeMessages : Bytes → Except String (List (Bool × Bytes))
  | [] => .ok []
  | flag::a::b::c::d::body =>
    let length := ofBigEndian [a,b,c,d]
    if maxMessageLength<length then
      .error ("message length " ++ toString length ++ " exceeds safety limit " ++
        toString maxMessageLength)
    else if body.length<length then
      .error ("message body truncated: need " ++ toString length ++ " bytes, have " ++
        toString body.length)
    else do return (decide (flag≠0),body.take length)::(← decodeMessages (body.drop length))
  | data =>
    .error ("truncated message prefix: " ++ toString data.length ++ " byte(s) before EOF")
termination_by data => data.length
decreasing_by
  simp only [List.length_drop,List.length_cons]
  omega

structure Frame where
  flag : UInt8
  payload : Bytes

/-- The octets of a frame of which this much of the payload is there. -/
def Frame.octets (frame : Frame) (body : Bytes) : Bytes :=
  frame.flag::(bigEndian 4 frame.payload.length++body)

/-- The body in chunks, with `more_body` on all but the last. -/
def requestEvents (chunks : List Bytes) (last : Bytes) : List Event :=
  chunks.map (Event.request · true)++[.request last false]

namespace Setting

variable (setting : Setting)

def Within (frame : Frame) : Prop :=
  frame.payload.length ≤ maxMessageLength ∧ frame.payload.length ≤ setting.limit frame.flag

/-- The message is within the limits and is this one for the handler. -/
def Carries (frame : Frame) (message : Bytes) : Prop :=
  setting.Within frame ∧ setting.message frame.flag frame.payload=.ok message

/-- What is left of the body ends in a prefix, or is over, or in a payload. -/
inductive Cut : Bytes → Prop
  | short (tail : Bytes) (length_lt : tail.length<5) : Cut tail
  | payload (frame : Frame) (body : Bytes) (within : setting.Within frame)
      (length_lt : body.length<frame.payload.length) : Cut (frame.octets body)

end Setting

variable (setting : Setting)

theorem drain_append (buf m : Bytes) : setting.drain (buf++m)=match setting.drain buf with
    | (messages,.error error) => (messages,.error error)
    | (messages,.ok rest) =>
      (messages++(setting.drain (rest++m)).1,(setting.drain (rest++m)).2) := by
  fun_induction Setting.drain setting buf with
  | case1 f a b c d body n hl =>
    simp only [List.cons_append]
    rw [Setting.drain]
    exact if_pos hl
  | case2 | case5 => rfl
  | case3 f a b c d body n hl hb error he =>
    simp only [List.cons_append]
    rw [Setting.drain,if_neg hl,if_neg (by rw [List.length_append]; omega),
      List.take_append_of_le_length (by omega),he]
  | case4 f a b c d body n hl hb message hm ih =>
    simp only [List.cons_append]
    rw [Setting.drain,if_neg hl,if_neg (by rw [List.length_append]; omega),
      List.take_append_of_le_length (by omega),hm,List.drop_append_of_le_length (by omega),ih]
    rcases setting.drain (body.drop n) with ⟨messages,_ | rest⟩ <;> rfl

/-- The chunks come to the same as the whole body in one. -/
theorem iterRequestMessages_requestEvents (buf : Bytes) (cs : List Bytes) (z : Bytes) :
    setting.iterRequestMessages buf (requestEvents cs z) =
      setting.iterRequestMessages buf [.request (cs.flatten++z) false] := by
  induction cs generalizing buf with
  | nil => rfl
  | cons chunk cs ih =>
    have hd := drain_append setting (buf++chunk) (cs.flatten++z)
    rw [List.append_assoc,← List.append_assoc chunk] at hd
    rw [requestEvents,List.map_cons,List.cons_append,← requestEvents,List.flatten_cons]
    simp only [Setting.iterRequestMessages,ih,hd]
    rcases setting.drain (buf++chunk) with ⟨messages,_ | rest⟩
    · rfl
    · dsimp only
      rcases setting.drain (rest++(cs.flatten++z)) with ⟨others,_ | rest⟩ <;> rfl

variable {setting} {frame : Frame} {tail bd : Bytes}

theorem exists_octets (h : frame.payload.length ≤ maxMessageLength) : ∃ a b c d,
    ofBigEndian [a,b,c,d]=frame.payload.length ∧
      ∀ bd,frame.octets bd=frame.flag::a::b::c::d::bd := by
  have hl : frame.payload.length<256^4 := lt_of_le_of_lt h (by decide)
  exact ⟨_,_,_,_,ofBigEndian_bigEndian 4 hl,fun _ => rfl⟩

theorem drain_octets (h : setting.Within frame) (bd : Bytes) :
    setting.drain (frame.octets bd)=if bd.length<frame.payload.length then
        ([],.ok (frame.octets bd))
      else match setting.message frame.flag (bd.take frame.payload.length) with
        | .error error => ([],.error error)
        | .ok message => (message::(setting.drain (bd.drop frame.payload.length)).1,
            (setting.drain (bd.drop frame.payload.length)).2) := by
  obtain ⟨a,b,c,d,hl,ho⟩ := exists_octets h.1
  rw [ho,Setting.drain,hl]
  exact if_neg (not_lt.mpr h.2)

theorem decodeMessages_octets (h : setting.Within frame) (bd : Bytes) :
    decodeMessages (frame.octets bd)=if bd.length<frame.payload.length then
        .error ("message body truncated: need " ++ toString frame.payload.length ++
          " bytes, have " ++ toString bd.length)
      else do return (decide (frame.flag≠0),bd.take frame.payload.length) ::
        (← decodeMessages (bd.drop frame.payload.length)) := by
  obtain ⟨a,b,c,d,hl,ho⟩ := exists_octets h.1
  rw [ho,decodeMessages,hl]
  exact if_neg (not_lt.mpr h.1)

theorem drain_cut (h : setting.Cut tail) : setting.drain tail=([],.ok tail) := by
  cases h with
  | short _ hs =>
    unfold Setting.drain
    split
    · simp only [List.length_cons] at hs
      omega
    · rfl
  | payload frame bd hw hb => rw [drain_octets hw,if_pos hb]

theorem decodeMessages_cut (h : setting.Cut tail) (hne : tail≠[]) :
    ∃ error,decodeMessages tail=.error error := by
  cases h with
  | short _ hs =>
    unfold decodeMessages
    split
    · exact absurd rfl hne
    · simp only [List.length_cons] at hs
      omega
    · exact ⟨_,rfl⟩
  | payload frame bd hw hb => exact ⟨_,by rw [decodeMessages_octets hw,if_pos hb]⟩

/-- The octets of the messages, one after the other. -/
def wire (frames : List Frame) : Bytes := frames.flatMap fun frame => frame.octets frame.payload

theorem wire_cons (frame : Frame) (frames : List Frame) (r : Bytes) :
    wire (frame::frames)++r=frame.octets (frame.payload++(wire frames++r)) := by
  simp [wire,Frame.octets]

variable {frames : List Frame} {messages : List Bytes}

theorem drain_wire (h : List.Forall₂ setting.Carries frames messages) (ht : setting.Cut tail) :
    setting.drain (wire frames++tail)=(messages,.ok tail) := by
  induction h with
  | nil => exact drain_cut ht
  | cons hc _ ih =>
    rw [wire_cons,drain_octets hc.1,if_neg (by simp),List.take_left,hc.2,List.drop_left,ih]

theorem decodeMessages_wire (h : List.Forall₂ setting.Carries frames messages) (r : Bytes) :
    decodeMessages (wire frames++r) =
      (frames.map (fun frame => (decide (frame.flag≠0),frame.payload)) ++ ·) <$>
        decodeMessages r := by
  induction h with
  | nil =>
    rw [wire,List.flatMap_nil,List.nil_append]
    cases decodeMessages r <;> rfl
  | cons hc _ ih =>
    rw [wire_cons,decodeMessages_octets hc.1,if_neg (by simp),List.take_left,List.drop_left,ih]
    cases decodeMessages r <;> rfl

/-- Messages within the limits are given to the handler in order, however their octets are cut
into chunks, and it is an error exactly when the body ends inside a message. Decoding the whole
body finds the same messages. -/
theorem request_messages_reassembled (h : List.Forall₂ setting.Carries frames messages)
    (ht : setting.Cut tail) {chunks : List Bytes} {last : Bytes}
    (hc : chunks.flatten++last=wire frames++tail) :
    setting.iterRequestMessages [] (requestEvents chunks last)=(messages,
        if tail=[] then .returned else .raised (Setting.malformed tail.length)) ∧
      if tail=[] then decodeMessages (chunks.flatten++last) =
        .ok (frames.map fun frame => (decide (frame.flag≠0),frame.payload))
      else ∃ error,decodeMessages (chunks.flatten++last)=.error error := by
  constructor
  · rw [iterRequestMessages_requestEvents,Setting.iterRequestMessages,List.nil_append,hc,
      drain_wire h ht]
    rfl
  · rw [hc,decodeMessages_wire h]
    split_ifs with hn
    · rw [hn,decodeMessages]
      exact congrArg _ (List.append_nil _)
    · obtain ⟨error,he⟩ := decodeMessages_cut ht hn
      exact ⟨error,by rw [he]; rfl⟩

def plainSetting : Setting where
  maxMessageSize := 4
  decompressMessage _ := .error ⟨.unimplemented,"grpc-encoding 'identity' is not supported for " ++
    "compressed messages; server accepts identity,gzip"⟩

/-- Two messages in three chunks, and two octets of a third. -/
theorem request_messages_reassembled_three :
    plainSetting.iterRequestMessages [] (requestEvents [[0,0,0],[0,1,7,0,0,0,0,2]] [8,9,0,0]) =
      ([[7],[8,9]],.raised (Setting.malformed 2)) :=
  have h : List.Forall₂ plainSetting.Carries [⟨0,[7]⟩,⟨0,[8,9]⟩] [[7],[8,9]] :=
    .cons ⟨⟨by decide,by decide⟩,rfl⟩ (.cons ⟨⟨by decide,by decide⟩,rfl⟩ .nil)
  (request_messages_reassembled h (.short [0,0] (by decide)) (by decide)).1

end BlackBull.Grpc
