import BlackBull.FrameVerdicts

/-!
# Receiving WebSocket messages

The frame loop on a whole sequence of frames: it hands over the messages before the
first frame that is wrong or closes, in order and each once, and then closes with the
code for that frame.
-/

namespace BlackBull.WebSocket

open ByteString
open Mqtt (Text utf8 utf8?)

def Message.size : Message → ℕ
  | .text content => (utf8 content).length
  | .binary content => content.length

theorem utf8_of_utf8? {bs : Bytes} {t : Text} (h : utf8? bs=some t) : utf8 t=bs := by
  obtain ⟨c,hc,rfl⟩ := Option.map_eq_some_iff.mp h
  have hs : (ByteArray.utf8Decode? ⟨bs.toArray⟩).isSome := by simp [hc]
  have he := ByteArray.utf8Encode_get_utf8Decode? (h := hs)
  simp only [hc,Option.get_some] at he
  simp [utf8,he]

theorem size_of_messageOf {g : List Frame} {c : Bytes} {m : Message}
    (h : messageOf g c=some m) : m.size=c.length := by
  unfold messageOf at h
  split_ifs at h
  · obtain ⟨text,ht,rfl⟩ := Option.map_eq_some_iff.mp h
    rw [Message.size,utf8_of_utf8? ht]
  · cases h
    rfl

section

variable {σ : Type} (config : Config) (inflater : Inflater σ) (meter : RateWindow)
  (clock : ℕ → ℕ)

/-- A reader in front of frames, and of the end of the stream after them if there is one. -/
def Reader.start (frames : List Frame) (eof : Bool) : Reader σ where
  wire := {buffer:=frames.flatMap Frame.encode,eof,inflater:=inflater.initial,meter}

/-- The reader has read some frames, and handed over their messages. -/
structure Follows (r : Reader σ) (before : List Frame) (rest : Bytes) (eof : Bool) : Prop where
  tracks : Tracks config inflater meter clock r.wire before
  buffer : r.wire.buffer=rest
  ends : r.wire.eof=eof
  stage : r.stage=.header
  emitted : r.emitted=(sentMessages config inflater before).map .message
  written : ∀ code,.close code∉r.written
  terminalCode : r.terminalCode=none
  finished : r.finished=false

/-- The reader has handed over these messages, and closed with this code. -/
structure Closes (r : Reader σ) (messages : List Message) (code : ℕ) : Prop where
  messages : r.messages=messages
  written : r.written.getLast? = some (.close code)
  terminalCode : r.terminalCode=some code
  finished : r.finished=true

def received (frames : List Frame) (eof : Bool) (turns : ℕ) : Reader σ :=
  (Reader.advance config inflater clock)^[turns] (Reader.start inflater meter frames eof)

variable {config inflater meter clock}

theorem clean_nil : Clean config inflater meter clock [] := by
  intro before f a h
  simp at h

variable {r : Reader σ} {before : List Frame} {rest : Bytes} {eof : Bool} {f : Frame}
  (fs : List Frame)

theorem clean_concat (f : Frame) :
    Clean config inflater meter clock (fs++[f]) ↔
      Clean config inflater meter clock fs ∧ f.opcode≠.close ∧
        ∀ v,¬ Violates config inflater meter clock fs f v := by
  constructor
  · intro h
    refine ⟨?_,h fs f [] rfl⟩
    rintro before g a rfl
    exact h before g (a++[f]) (by simp)
  · rintro ⟨hf,hl⟩ before g a heq
    cases a using List.reverseRecOn with
    | nil =>
      obtain ⟨rfl,hl'⟩ := List.append_inj' heq rfl
      obtain rfl : f=g := by simpa using hl'
      exact hl
    | append_singleton a last =>
      have hi : fs=before++g::a := by
        rw [← List.cons_append,← List.append_assoc] at heq
        exact (List.append_inj' heq rfl).1
      exact hf before g a hi

/-- Every sequence is clean, or it has a first frame that closes or is wrong. -/
theorem clean_or_first :
    Clean config inflater meter clock fs ∨ ∃ before f after,fs=before++f::after ∧
        Clean config inflater meter clock before ∧
        (f.opcode=.close ∨ ∃ v,Violates config inflater meter clock before f v) := by
  induction fs using List.reverseRecOn with
  | nil => exact .inl (clean_nil)
  | append_singleton fs f ih =>
    rcases ih with hc | ⟨before,g,after,rfl,hc,hb⟩
    · by_cases hb : f.opcode=.close ∨ ∃ v,Violates config inflater meter clock fs f v
      · exact .inr ⟨fs,f,[],rfl,hc,hb⟩
      · rw [not_or,not_exists] at hb
        exact .inl ((clean_concat fs f).mpr ⟨hc,hb⟩)
    · exact .inr ⟨before,g,after++[f],by simp,hc,hb⟩

theorem size_le_of_clean (hb : config.maxMessageSize≠0) {fs : List Frame}
    (h : Clean config inflater meter clock fs) :
    ∀ m∈sentMessages config inflater fs,m.size≤config.maxMessageSize := by
  induction fs using List.reverseRecOn with
  | nil => simp [sentMessages,transcript,sent]
  | append_singleton fs f ih =>
    obtain ⟨hf,-,hfi⟩ := (clean_concat fs f).mp h
    intro m hm
    cases hd : f.opcode.isData with
    | false =>
      rw [sentMessages_of_control hd] at hm
      exact ih hf m hm
    | true =>
      cases hfin : f.fin with
      | false =>
        rw [sentMessages_of_part hd hfin] at hm
        exact ih hf m hm
      | true =>
        rw [sentMessages_of_last hd hfin,List.mem_append] at hm
        rcases hm with hold | hn
        · exact ih hf m hold
        · have hof := Option.mem_toList.mp hn
          rw [size_of_messageOf hof]
          by_contra ho
          have ho' : overSize config (contentOf config inflater fs f).1.length=true := by
            simp [overSize,hb]
            omega
          refine hfi .messageTooBig ⟨hd,?_⟩
          split_ifs with hc
          · exact ⟨hfin,ho'⟩
          · rwa [contentOf,inflated,if_neg hc] at ho'

theorem filterMap_message (m : List Message) :
    (m.map Item.message).filterMap Item.message? = m := by
  induction m with
  | nil => rfl
  | cons msg m ih => simp [Item.message?,ih]

theorem Follows.messages (h : Follows config inflater meter clock r before rest eof) :
    r.messages=sentMessages config inflater before := by
  rw [Reader.messages,h.emitted,filterMap_message]

theorem closes_fail (h : Follows config inflater meter clock r before rest eof)
    (error : ProtocolError) (w : Wire σ) :
    Closes (r.fail error w) (sentMessages config inflater before) error.closeCode where
  messages := by
    rw [← h.messages]
    simp [Reader.messages,Reader.fail,Item.message?]
  written := by simp [Reader.fail,Reader.write]
  terminalCode := rfl
  finished := rfl

theorem closes_close (h : Follows config inflater meter clock r before rest eof) (c : ℕ)
    (w : Wire σ) : Closes (r.react (.close c) w) (sentMessages config inflater before) c where
  messages := by
    rw [← h.messages]
    simp [Reader.messages,Reader.react,Reader.closeChannel,Reader.write,Item.message?]
  written := by simp [Reader.react,Reader.closeChannel,Reader.write]
  terminalCode := rfl
  finished := rfl

theorem Follows.react {rs : Bytes} {rc : Reaction} {w : Wire σ}
    (h : Follows config inflater meter clock r before rs eof)
    (ht : Tracks config inflater meter clock w (before++[f]))
    (hb : w.buffer=rest) (he : w.eof=eof) (hc : ∀ code,rc≠.close code)
    (hm : sentMessages config inflater (before++[f]) =
      sentMessages config inflater before++rc.message?.toList) :
    Follows config inflater meter clock (r.react rc w) (before++[f]) rest eof := by
  have hem : ∀ messages,r.emitted++messages.map Item.message =
      (sentMessages config inflater before++messages).map .message := by
    intro messages
    rw [List.map_append,h.emitted]
  cases rc with
  | nothing =>
    refine ⟨ht,hb,he,rfl,?_,h.written,h.terminalCode,h.finished⟩
    rw [hm,← hem]
    exact (List.append_nil _).symm
  | message message =>
    exact ⟨ht,hb,he,rfl,by rw [hm,← hem]; rfl,h.written,h.terminalCode,h.finished⟩
  | pong p =>
    refine ⟨ht,hb,he,rfl,?_,fun code hco => ?_,h.terminalCode,h.finished⟩
    · rw [hm,← hem]
      exact (List.append_nil _).symm
    · rcases List.mem_append.mp hco with hold | hn
      · exact h.written code hold
      · simp at hn
  | close code => exact absurd rfl (hc code)

theorem Follows.frame (h : Follows config inflater meter clock r before (f.encode++rest) eof) :
    ∃ k≤4,((f.opcode≠.close ∧ ∀ v,¬ Violates config inflater meter clock before f v) ∧
        Follows config inflater meter clock ((Reader.advance config inflater clock)^[k] r)
          (before++[f]) rest eof) ∨
      ((f.opcode=.close ∧ ∀ v,¬ Violates config inflater meter clock before f v) ∧
        Closes ((Reader.advance config inflater clock)^[k] r)
          (sentMessages config inflater before) (closeCodeOf f.payload)) ∨
      ∃ v,Violates config inflater meter clock before f v ∧
        Closes ((Reader.advance config inflater clock)^[k] r)
          (sentMessages config inflater before) v.closeCode := by
  obtain ⟨k,hk,hs⟩ := Reader.advance_frame config inflater clock r.wire h.finished h.buffer
  have hw : r.within .header r.wire=r := by
    rw [← h.stage]
    rfl
  have ht : Tracks config inflater meter clock {r.wire with buffer:=rest} before :=
    {h.tracks with}
  have hve : Verdict config inflater meter clock {r.wire with buffer:=rest} before f
      (f.outcome config inflater {r.wire with buffer:=rest} (clock r.wire.frames)) :=
    verdict ht
  rw [hw] at hs
  refine ⟨k,hk,?_⟩
  generalize f.outcome config inflater {r.wire with buffer:=rest} (clock r.wire.frames) =
    outcome at hs hve
  generalize (Reader.advance config inflater clock)^[k] r=rc at hs ⊢
  cases hve with
  | raises re =>
    obtain ⟨v,hv,hc⟩ := re
    cases hs
    exact .inr (.inr ⟨v,hv,hc ▸ closes_fail h _ _⟩)
  | refuses vl code =>
    cases hs
    exact .inr (.inr ⟨_,vl,code ▸ closes_close h _ _⟩)
  | closes o c =>
    cases hs
    exact .inr (.inl ⟨⟨o,c⟩,closes_close h _ _⟩)
  | passes o c t b ends co m =>
    cases hs
    exact .inl ⟨⟨o,c⟩,h.react t b (ends.trans h.ends) co m⟩

theorem follows_start (eof : Bool) :
    Follows config inflater meter clock (Reader.start inflater meter fs eof) []
      (fs.flatMap Frame.encode) eof where
  tracks := ⟨rfl,rfl,rfl,rfl⟩
  buffer := rfl
  ends := rfl
  stage := rfl
  emitted := rfl
  written := by simp [Reader.start]
  terminalCode := rfl
  finished := rfl

theorem follows_of_clean (before a : List Frame) (eof : Bool)
    (h : Clean config inflater meter clock before) :
    ∃ k≤4*before.length,Follows config inflater meter clock
      ((Reader.advance config inflater clock)^[k] (Reader.start inflater meter (before++a) eof))
      before (a.flatMap Frame.encode) eof := by
  induction before using List.reverseRecOn generalizing a with
  | nil => exact ⟨0,le_rfl,follows_start a eof⟩
  | append_singleton before f ih =>
    obtain ⟨hb,ho,hf⟩ := (clean_concat before f).mp h
    obtain ⟨k,hk,hfo⟩ := ih (f::a) hb
    rw [List.flatMap_cons] at hfo
    obtain ⟨j,hj,⟨-,hn⟩ | ⟨⟨hc,-⟩,-⟩ | ⟨v,hv,-⟩⟩ := hfo.frame
    · refine ⟨j+k,by simp; omega,?_⟩
      rw [Function.iterate_add_apply,List.append_assoc]
      exact hn
    · exact absurd hc ho
    · exact absurd hv (hf v)

theorem advance_of_finished (h : r.finished=true) : r.advance config inflater clock=r := if_pos h

theorem iterate_of_fixed {α : Type} {s : α → α} {a b : α} {k n : ℕ} (h : s^[k] a=b)
    (hf : s b=b) (hk : k≤n) : s^[n] a=b := by
  rw [← Nat.sub_add_cancel hk,Function.iterate_add_apply,h,Function.iterate_fixed hf]

theorem received_first {a : List Frame} (eof : Bool) {t : ℕ}
    (h : Clean config inflater meter clock before) (ht : 4*(before++f::a).length≤t)
    (hb : f.opcode=.close ∨ ∃ v,Violates config inflater meter clock before f v) :
    ((f.opcode=.close ∧ ∀ v,¬ Violates config inflater meter clock before f v) ∧
      Closes (received config inflater meter clock (before++f::a) eof t)
        (sentMessages config inflater before) (closeCodeOf f.payload)) ∨
    ∃ v,Violates config inflater meter clock before f v ∧
      Closes (received config inflater meter clock (before++f::a) eof t)
        (sentMessages config inflater before) v.closeCode := by
  obtain ⟨k,hk,hf⟩ := follows_of_clean before (f::a) eof h
  rw [List.flatMap_cons] at hf
  have hr : ∀ j≤4,∀ re,re.finished=true →
      (Reader.advance config inflater clock)^[j] ((Reader.advance config inflater clock)^[k]
        (Reader.start inflater meter (before++f::a) eof))=re →
      received config inflater meter clock (before++f::a) eof t=re := by
    intro j hj re hfi hi
    rw [← Function.iterate_add_apply] at hi
    refine iterate_of_fixed hi (advance_of_finished hfi) ?_
    simp at ht
    omega
  obtain ⟨j,hj,⟨⟨ho,hfin⟩,-⟩ | ⟨hc,hcl⟩ | ⟨v,hv,hcl⟩⟩ := hf.frame
  · rcases hb with hc | ⟨v,hv⟩
    · exact absurd hc ho
    · exact absurd hv (hfin v)
  · rw [← hr j hj _ hcl.finished rfl] at hcl
    exact .inl ⟨hc,hcl⟩
  · rw [← hr j hj _ hcl.finished rfl] at hcl
    exact .inr ⟨v,hv,hcl⟩

theorem received_clean {fs : List Frame} (eof : Bool) {t : ℕ}
    (h : Clean config inflater meter clock fs) (ht : 4*fs.length+1≤t) :
    (received config inflater meter clock fs eof t).messages = sentMessages config inflater fs ∧
      (∀ code,.close code∉(received config inflater meter clock fs eof t).written) ∧
      (received config inflater meter clock fs eof t).finished=eof ∧
      (received config inflater meter clock fs eof t).terminalCode =
        if eof then some 1006 else none := by
  obtain ⟨k,hk,hf⟩ := follows_of_clean fs [] eof h
  rw [List.append_nil,List.flatMap_nil] at hf
  generalize hr : (Reader.advance config inflater clock)^[k]
    (Reader.start inflater meter fs eof)=r at hf
  have hre : r.wire.read config inflater (clock r.wire.frames) r.stage =
      if eof then .ends else .waits := by
    simp [Wire.read,hf.stage,hf.buffer,hf.ends,Stage.need]
  have ha : r.advance config inflater clock=if eof then r.closeChannel 1006 else r := by
    rw [Reader.advance,if_neg (by simp [hf.finished]),hre]
    cases eof <;> rfl
  cases eof with
  | false =>
    have hfi : received config inflater meter clock fs false t=r :=
      iterate_of_fixed hr ha (by omega)
    rw [hfi]
    exact ⟨hf.messages,hf.written,hf.finished,hf.terminalCode⟩
  | true =>
    have hn : (Reader.advance config inflater clock)^[k+1]
        (Reader.start inflater meter fs true)=r.closeChannel 1006 := by
      rw [Function.iterate_succ_apply',hr,ha]
      rfl
    have hfi : received config inflater meter clock fs true t=r.closeChannel 1006 :=
      iterate_of_fixed hn (advance_of_finished rfl) (by omega)
    rw [hfi]
    refine ⟨?_,hf.written,rfl,rfl⟩
    rw [← hf.messages]
    simp [Reader.messages,Reader.closeChannel,Item.message?]

variable (config inflater meter clock)

/-- The frame loop hands over the messages of the peer, complete, in order and each once, up to
the first frame that is wrong or closes; it closes with the code for that frame, and hands over
nothing after it. -/
theorem messages_received (frames : List Frame) (eof : Bool) (turns : ℕ)
    (hturns : 4*frames.length+1≤turns) :
    (Clean config inflater meter clock frames →
      (received config inflater meter clock frames eof turns).messages =
          sentMessages config inflater frames ∧
        (∀ code,.close code∉(received config inflater meter clock frames eof turns).written) ∧
        (received config inflater meter clock frames eof turns).finished=eof ∧
        (received config inflater meter clock frames eof turns).terminalCode =
          if eof then some 1006 else none) ∧
    (∀ before f after,frames=before++f::after →
      Clean config inflater meter clock before →
      (∃ v,Violates config inflater meter clock before f v) →
      ∃ v,Violates config inflater meter clock before f v ∧
        Closes (received config inflater meter clock frames eof turns)
          (sentMessages config inflater before) v.closeCode) ∧
    (∀ before f after,frames=before++f::after →
      Clean config inflater meter clock before → f.opcode=.close →
      (∀ v,¬ Violates config inflater meter clock before f v) →
      Closes (received config inflater meter clock frames eof turns)
        (sentMessages config inflater before) (closeCodeOf f.payload)) ∧
    (config.maxMessageSize≠0 →
      ∀ message∈(received config inflater meter clock frames eof turns).messages,
        message.size≤config.maxMessageSize) := by
  have hf : 4*frames.length≤turns := Nat.le_of_succ_le hturns
  refine ⟨fun hc => received_clean eof hc hturns,?_,?_,?_⟩
  · rintro before f after rfl hc ⟨v,hv⟩
    rcases received_first eof hc hf (.inr ⟨v,hv⟩) with ⟨⟨-,hfi⟩,-⟩ | hvi
    · exact absurd hv (hfi v)
    · exact hvi
  · rintro before f after rfl hc hcl hfi
    rcases received_first eof hc hf (.inl hcl) with ⟨-,hclo⟩ | ⟨v,hv,-⟩
    · exact hclo
    · exact absurd hv (hfi v)
  · intro hb
    rcases clean_or_first frames with hc | ⟨before,f,after,rfl,hc,hba⟩
    · rw [(received_clean eof hc hturns).1]
      exact size_le_of_clean hb hc
    · have hs := size_le_of_clean hb hc
      rcases received_first eof hc hf hba with ⟨-,hclo⟩ | ⟨v,-,hclo⟩
      · rwa [hclo.messages]
      · rwa [hclo.messages]

end

def storedBlocks : ℕ → Bytes → Bytes × Option Unit
  | _,[] => ([],some ())
  | fuel+1,0::low::high::notLow::notHigh::rest =>
    let length := low.toNat+256*high.toNat
    if notLow = ~~~low ∧ notHigh = ~~~high ∧ length≤rest.length then
      let (out,next) := storedBlocks fuel (rest.drop length)
      (rest.take length++out,next)
    else ([],none)
  | _,_ => ([],none)

def storedInflater : Inflater Unit where
  initial := ()
  inflate _ input := storedBlocks input.length input

def clientFrame (fin rsv1 : Bool) (code : Fin 16) (payload : Bytes)
    (h : payload.length<126) : Frame where
  fin
  rsv1
  code
  mask := some [1,2,3,4]
  form := .short
  payload
  length_payload := h

/-- A compressed message in one frame. -/
def compressedFrame (payload : Bytes) (h : payload.length<126) : Frame :=
  clientFrame true true 2 payload h

def fragmentedMessage : List Frame :=
  [clientFrame false false 2 [10,20] (by decide),clientFrame true false 9 [7] (by decide),
    clientFrame true false 0 [30] (by decide)]

theorem messages_received_fragmented :
    (received {} storedInflater {limit:=20,window:=1} id fragmentedMessage false 13).messages
      = [.binary [10,20,30]] := by
  have hc : Clean {} storedInflater {limit:=20,window:=1} id fragmentedMessage := by
    refine (clean_concat [_,_] _).mpr ⟨(clean_concat [_] _).mpr
      ⟨(clean_concat [] _).mpr ⟨clean_nil,?_⟩,?_⟩,?_⟩
    · decide +kernel
    · decide +kernel
    · decide +kernel
  have hr := messages_received {} storedInflater {limit:=20,window:=1} id
    fragmentedMessage false 13 (by decide)
  exact (hr.1 hc).1.trans (by decide +kernel)

def compressedMessage : List Frame :=
  [clientFrame false true 2 [0,1,0] (by decide),
    clientFrame true false 0 [254,255,65,0] (by decide)]

def smallConfig : Config where
  maxMessageSize := 5
  deflate := true

/-- The message is within its bound and nothing else is wrong, but it is refused for its size on
the wire; in one frame it is delivered. -/
theorem compressed_message_refused :
    (∀ v,v≠.fragmentsTooBig → ¬ Violates smallConfig storedInflater {limit:=20,window:=1}
        id [] (clientFrame false true 2 [0,1,0] (by decide)) v) ∧
    (∀ v,v≠.fragmentsTooBig → ¬ Violates smallConfig storedInflater {limit:=20,window:=1}
        id [clientFrame false true 2 [0,1,0] (by decide)]
        (clientFrame true false 0 [254,255,65,0] (by decide)) v) ∧
    sentMessages smallConfig storedInflater compressedMessage=[.binary [65]] ∧
    (received smallConfig storedInflater {limit:=20,window:=1} id compressedMessage false
      9).messages=[] ∧
    (received smallConfig storedInflater {limit:=20,window:=1} id compressedMessage false
      9).terminalCode=some 1009 ∧
    (received smallConfig storedInflater {limit:=20,window:=1} id
      [clientFrame true true 2 [0,1,0,254,255,65,0] (by decide)] false 5).messages =
        [.binary [65]] := by
  decide +kernel

end BlackBull.WebSocket
