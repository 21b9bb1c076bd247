import BlackBull.MessageSender
import BlackBull.StreamSender

/-!
# Native response objects and ASGI events

A native response object may carry a start, a chunk and trailers at once. Each sender has an
arm of its own for it; sent in one go, it does what the events of `to_asgi` do one by one.
-/

namespace BlackBull

open ByteString

def SendEvent.toAsgi : SendEvent → List SendEvent
  | .native header file chunk last =>
    (header.map fun start => SendEvent.start start.1 start.2.1 start.2.2).toList ++
      (file.map SendEvent.pathsend).toList ++
      (chunk.map fun content => SendEvent.body content.1 content.2).toList ++
      (last.map SendEvent.trailers).toList
  | event => [event]

def SendEvent.Fileless : SendEvent → Prop
  | .native _ file _ _ => file=none
  | _ => False

namespace HTTP1Sender

theorem send_native (d : Bytes) (s : HTTP1Sender) {o : SendEvent} (h : o.Fileless) :
    o.toAsgi.foldl (send d) s=send d s o := by
  cases o with
  | native hdr f c last =>
    obtain rfl : f=none := h
    cases hd : s.completed <;> rcases hdr with - | hdr <;> rcases c with - | c <;>
      rcases last with - | last <;> simp [SendEvent.toAsgi,send,begin,hd]
  | _ => exact h.elim

end HTTP1Sender

namespace H2

def ResponseEvent.toAsgi : ResponseEvent → List ResponseEvent
  | .native header chunk last =>
    (header.map fun first => ResponseEvent.start first.1 first.2).toList ++
      (chunk.map fun content => ResponseEvent.body content.1 content.2).toList ++
      (last.map ResponseEvent.trailers).toList
  | event => [event]

def ResponseEvent.IsNative : ResponseEvent → Prop
  | .native .. => True
  | _ => False

/-- Calls one after the other, none of which suspends. -/
inductive Sends : Line → List ResponseEvent → List SentFrame → Line → Prop
  | nil (line : Line) : Sends line [] [] line
  | cons {line next last : Line} {event : ResponseEvent} {events : List ResponseEvent}
      {frames later : List SentFrame}
      (hcall : Straight Line.exec line
        (if line.response.endStreamSent then [] else event.todo) frames next)
      (hrest : Sends next events later last) : Sends line (event::events) (frames++later) last

variable {ln z : Line} {e : ResponseEvent} {fs : List SentFrame}

theorem sends_nil : Sends ln [] fs z ↔ fs=[] ∧ z=ln := by
  constructor
  · rintro ⟨⟩
    exact ⟨rfl,rfl⟩
  · rintro ⟨rfl,rfl⟩
    exact .nil z

theorem sends_append {a l : List ResponseEvent} :
    Sends ln (a++l) fs z ↔ ∃ next f b,Sends ln a f next ∧
      Sends next l b z ∧ fs=f++b := by
  constructor
  · intro h
    induction a generalizing ln fs with
    | nil => exact ⟨ln,[],fs,.nil ln,h,rfl⟩
    | cons e a ih =>
      obtain - | ⟨hc,hr⟩ := h
      obtain ⟨next,f,b,hf,hl,rfl⟩ := ih hr
      exact ⟨next,_,b,.cons hc hf,hl,by simp⟩
  · rintro ⟨next,f,b,hf,hl,rfl⟩
    induction hf with
    | nil => exact hl
    | cons hc _ ih =>
      rw [List.append_assoc]
      exact .cons hc (ih hl)

theorem sends_single : Sends ln [e] fs z ↔ Straight Line.exec ln
    (if ln.response.endStreamSent then [] else e.todo) fs z := by
  constructor
  · rintro (- | ⟨hc,⟨⟩⟩)
    simpa using hc
  · intro h
    simpa using Sends.cons h (.nil z)

theorem sends_ended (h : ln.response.endStreamSent=true) {evs : List ResponseEvent} :
    Sends ln evs fs z ↔ fs=[] ∧ z=ln := by
  induction evs generalizing fs with
  | nil => exact sends_nil
  | cons e evs ih =>
    constructor
    · rintro (- | ⟨hc,hr⟩)
      rw [if_pos h,straight_nil] at hc
      obtain ⟨rfl,rfl⟩ := hc
      exact ih.mp hr
    · rintro ⟨rfl,rfl⟩
      have hc : Straight Line.exec z (if z.response.endStreamSent then [] else e.todo) [] z := by
        simpa [h] using Straight.nil z
      exact .cons hc (ih.mpr ⟨rfl,rfl⟩)

theorem sends_option {α : Type} {f : α → ResponseEvent} {g : α → Instr}
    (h : ln.response.endStreamSent=false) (hfg : ∀ a,(f a).todo=[g a]) (p : Option α) :
    Sends ln (p.map f).toList fs z ↔
      Straight Line.exec ln (p.map g).toList fs z := by
  cases p with
  | none => exact sends_nil.trans straight_nil.symm
  | some a => simp [sends_single,h,hfg]

theorem sends_trailers (tr : Option HeaderList) :
    Sends ln (tr.map ResponseEvent.trailers).toList fs z ↔
      Straight Line.exec ln (tr.map Instr.trailersUnlessEnded).toList fs z := by
  cases tr with
  | none => exact sends_nil.trans straight_nil.symm
  | some hs =>
    simp only [Option.map_some,Option.toList_some,sends_single,ResponseEvent.todo]
    cases he : ln.response.endStreamSent with
    | true => simp [straight_cons,straight_nil,Line.exec,he]
    | false => simp [straight_cons,Line.exec,he]

theorem begin_endStreamSent {hdr : Option (Start × Bool)} (h : Straight Line.exec ln (hdr.map fun
    first => Instr.begin first.1 first.2).toList fs z) :
    z.response.endStreamSent=ln.response.endStreamSent := by
  cases hdr with
  | none =>
    obtain ⟨-,rfl⟩ := straight_nil.mp h
    rfl
  | some hdr =>
    obtain ⟨-,rfl⟩ := straight_nil.mp (straight_cons.mp h)
    rfl

theorem sends_native (h : e.IsNative) : Sends ln e.toAsgi fs z ↔ Sends ln [e] fs z := by
  cases e with
  | native header chunk tr =>
    cases he : ln.response.endStreamSent with
    | true => exact (sends_ended he).trans (sends_ended he).symm
    | false =>
      rw [sends_single,he,if_neg (by simp),ResponseEvent.toAsgi,ResponseEvent.todo,
        sends_append,straight_append]
      simp only [sends_append,straight_append,sends_trailers]
      refine exists_congr fun next => exists_congr fun f => exists_congr fun b =>
        and_congr_left fun _ => exists_congr fun n => exists_congr fun a =>
          exists_congr fun later => ?_
      rw [sends_option he fun _ => rfl]
      exact and_congr_right fun hb => and_congr_left fun _ =>
        sends_option ((begin_endStreamSent hb).trans he) (fun _ => rfl) chunk
  | _ => exact h.elim

theorem sends_toAsgi {o : List ResponseEvent} (h : ∀ ob∈o,ob.IsNative) :
    Sends ln (o.flatMap ResponseEvent.toAsgi) fs z ↔ Sends ln o fs z := by
  induction o generalizing ln fs with
  | nil => exact Iff.rfl
  | cons ob o ih =>
    obtain ⟨ho,h⟩ := List.forall_mem_cons.mp h
    rw [List.flatMap_cons,← List.singleton_append,sends_append,sends_append]
    simp only [sends_native ho,ih h]

end H2

/-- Native response objects without files may be replaced by their events: the HTTP/1.1 sender
ends in the same state with the same octets written, and so does, without a suspension, the
HTTP/2 sender with the same frames. -/
theorem native_responses_as_events :
    (∀ (date : Bytes) (s : HTTP1Sender) (objects : List SendEvent),
      (∀ object∈objects,object.Fileless) →
        (objects.flatMap SendEvent.toAsgi).foldl (HTTP1Sender.send date) s =
          objects.foldl (HTTP1Sender.send date) s) ∧
    ∀ (line last : H2.Line) (objects : List H2.ResponseEvent) (frames : List H2.SentFrame),
      (∀ object∈objects,object.IsNative) →
        (H2.Sends line (objects.flatMap H2.ResponseEvent.toAsgi) frames last ↔
          H2.Sends line objects frames last) := by
  refine ⟨fun date s objects h => ?_,fun line last objects frames h => H2.sends_toAsgi h⟩
  induction objects generalizing s with
  | nil => rfl
  | cons object objects ih =>
    obtain ⟨ho,h⟩ := List.forall_mem_cons.mp h
    rw [List.flatMap_cons,List.foldl_append,HTTP1Sender.send_native date s ho,ih _ h]
    rfl

theorem native_responses_as_events_whole :
    let object := SendEvent.native (some (⟨200,ascii "OK"⟩,[],false)) none
      (some (ascii "a",false)) (some [])
    let whole := H2.ResponseEvent.native (some (⟨200,[]⟩,true)) (some (ascii "a",true)) (some [])
    let line : H2.Line := {connection:=10,window:={size:=10,maxFrameSize:=10}}
    (object.toAsgi.foldl (HTTP1Sender.send []) {}).written =
      (HTTP1Sender.send [] {} object).written ∧
    ∀ frames last,H2.Sends line whole.toAsgi frames last ↔ H2.Sends line [whole] frames last := by
  intro object whole line
  refine ⟨?_,fun frames last => ?_⟩
  · have hs := native_responses_as_events.1 [] {} [object] (by simp [object,SendEvent.Fileless])
    exact congrArg HTTP1Sender.written (by simpa using hs)
  · simpa using native_responses_as_events.2 line last [whole] frames
      (by simp [whole,H2.ResponseEvent.IsNative])

end BlackBull
