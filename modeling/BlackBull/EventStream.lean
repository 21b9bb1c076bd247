import BlackBull.MessageDecoding

/-!
# Server-sent events

`_format_sse_event` against the parser of the HTML standard. Data is split at line feeds only, and
a name and an id are written as they are, so a carriage return, and in those a line feed too, ends
a line before its end.
-/

namespace BlackBull.EventStream

open ByteString

/-- A mapping, with its values as text; a bare message has data alone. -/
structure SseEvent where
  data : Option Bytes := none
  event : Option Bytes := none
  id : Option Bytes := none
  retry : Option ℤ := none

def sseDataLines (text : Bytes) : Bytes :=
  (splitByte 10 text).flatMap fun line => ascii "data: " ++ line++[10]

def str : ℤ → Bytes
  | .ofNat n => toDigits 10 n
  | .negSucc n => 45::toDigits 10 (n+1)

def formatSseEvent (e : SseEvent) : Bytes :=
  (e.event.elim [] fun ev => ascii "event: " ++ ev++[10]) ++
    (e.id.elim [] fun eid => ascii "id: " ++ eid++[10]) ++
    (e.retry.elim [] fun retry => ascii "retry: " ++ str retry++[10]) ++
    e.data.elim [] sseDataLines++[10]

/-- An event as it is dispatched. -/
structure Message where
  type : Bytes
  data : Bytes
  lastEventId : Bytes
  deriving DecidableEq

/-- The buffers of a stream that is read, and the events dispatched. -/
structure EventSource where
  data : Bytes := []
  type : Bytes := []
  lastEventId : Bytes := []
  messages : List Message := []

namespace EventSource

def dispatch (p : EventSource) : EventSource :=
  {p with
    data:=[],type:=[]
    messages:=if p.data=[] then p.messages else p.messages ++
      [⟨if p.type=[] then ascii "message" else p.type,p.data.dropLast,p.lastEventId⟩]}

/-- A field that is none of these, or an id with a null, is ignored; `retry` is no part of an
event. -/
def field (p : EventSource) (name value : Bytes) : EventSource :=
  if name=ascii "event" then {p with type:=value}
  else if name=ascii "data" then {p with data:=p.data++value++[10]}
  else if name=ascii "id" ∧ 0∉value then {p with lastEventId:=value}
  else p

def line (p : EventSource) (text : Bytes) : EventSource :=
  if text=[] then p.dispatch
  else
    let (name,_,value) := partition 58 text
    p.field name (if value.head?=some 32 then value.tail else value)

/-- A line that is not ended does not count. -/
def lines (p : EventSource) (text : Bytes) : EventSource :=
  (splitByte 10 text).dropLast.foldl line p

end EventSource

open EventSource

/-- Every end of a line as a line feed. -/
def normalise : Bytes → Bytes
  | [] => []
  | b::rest =>
    if b=13 then (if rest.head?=some 10 then normalise rest else 10::normalise rest)
    else b::normalise rest

/-- A byte order mark in front is no part of the stream. -/
def parse (stream : Bytes) : List Message :=
  (lines {} (normalise
    (if startsWith stream [0xEF,0xBB,0xBF] then stream.drop 3 else stream))).messages

/-- The messages for events with data, the id of one being that of the next that has none. -/
def expected (lastEventId : Bytes) : List SseEvent → List Message
  | [] => []
  | e::events =>
    ⟨e.event.getD (ascii "message"),normalise (e.data.getD []),e.id.getD lastEventId⟩ ::
      expected (e.id.getD lastEventId) events

/-- It has data, a name that is not empty or none, and an id without a null or none. -/
structure Carries (e : SseEvent) : Prop where
  data : e.data≠none
  event : e.event≠some []
  id : ∀ eid∈e.id,0∉eid

def Inline (text : Bytes) : Prop := 10∉text ∧ 13∉text
  deriving Decidable

/-- A line feed follows each carriage return. -/
def paired : Bytes → Bool
  | [] => true
  | b::rest => decide (b=13 → rest.head?=some 10) && paired rest

structure Clean (e : SseEvent) : Prop where
  data : ∀ text∈e.data,paired text=true
  event : ∀ name∈e.event,Inline name
  id : ∀ eid∈e.id,Inline eid

variable {p : EventSource} {n value text : Bytes}

theorem lines_append (h : 10∉text) (r : Bytes) : lines p (text++10::r)=lines (p.line text) r := by
  rw [lines,splitByte_append_sep 10 text r h,List.dropLast_cons_of_ne_nil (splitByte_ne_nil 10 r)]
  rfl

@[simp] theorem normalise_cons {b : UInt8} (h : b≠13) (r : Bytes) :
    normalise (b::r)=b::normalise r := if_neg h

theorem normalise_append {t : Bytes} (h : 13∉t) (r : Bytes) : normalise (t++r)=t++normalise r := by
  induction t with
  | nil => rfl
  | cons b t ih =>
    rw [List.mem_cons,not_or] at h
    rw [List.cons_append,normalise_cons (Ne.symm h.1),ih h.2,List.cons_append]

theorem line_field (hn : 58∉n) : p.line (n++58::32::value)=p.field n value := by
  simp [EventSource.line,partition_append _ _ _ hn]

theorem lines_option {α : Type} (hn : Inline n ∧ 58∉n) (o : Option α) (f : α → Bytes)
    (ho : ∀ a∈o,Inline (f a)) (r : Bytes) :
    lines p (normalise ((o.elim [] fun a => n++[58,32]++f a++[10])++r)) =
      lines (o.elim p fun a => p.field n (f a)) (normalise r) := by
  cases o with
  | none => rfl
  | some a =>
    have hi : Inline (n++58::32::f a) := by
      simp_all [Inline]
    have hl := lines_append (p := p) hi.1 (normalise r)
    rw [line_field hn.2,← normalise_cons (by decide),← normalise_append hi.2] at hl
    simpa using hl

/-- What follows the name of the first field. -/
def dataRest : Bytes → Bytes
  | [] => [10]
  | b::rest => if b=10 then 10::(ascii "data: " ++ dataRest rest) else b::dataRest rest

theorem sseDataLines_eq (text : Bytes) : sseDataLines text=ascii "data: " ++ dataRest text := by
  induction text with
  | nil => rfl
  | cons b rest ih =>
    by_cases hb : b=10
    · subst hb
      rw [sseDataLines,splitByte_cons_sep,dataRest,if_pos rfl,← ih]
      simp [sseDataLines]
    · obtain ⟨a,pc,hr,hs⟩ := splitByte_append 10 [b] rest (by simpa using Ne.symm hb)
      rw [sseDataLines,hr] at ih
      have hd : dataRest (b::rest)=b::dataRest rest := if_neg hb
      rw [hd]
      change sseDataLines ([b]++rest)=_
      rw [sseDataLines,hs]
      simp only [List.flatMap_cons,List.append_assoc,List.append_cancel_left_eq] at ih ⊢
      rw [← ih]
      rfl

theorem lines_data {a : Bytes} (ha : 10∉a) (r : Bytes) :
    lines p (ascii "data: " ++ a++10::r)=lines {p with data:=p.data++a++[10]} r := by
  rw [lines_append (by simp [ha]; decide)]
  exact congrArg (lines · r) (line_field (n := ascii "data") (by decide))

theorem lines_dataRest (h : paired text=true) {a : Bytes} (ha : 10∉a) (r : Bytes) :
    lines p (ascii "data: " ++ a++normalise (dataRest text++r)) =
      lines {p with data:=p.data++a++normalise text++[10]} (normalise r) := by
  induction text generalizing p a with
  | nil => simpa [dataRest,normalise] using lines_data ha (normalise r)
  | cons b text ih =>
    rw [paired,Bool.and_eq_true,decide_eq_true_eq] at h
    have ih {p : EventSource} {a : Bytes} := ih h.2 (p := p) (a := a)
    by_cases hb : b=10
    · subst hb
      have hd := normalise_append (t := 10::ascii "data: ") (by decide) (dataRest text++r)
      have hn := ih (p := {p with data:=p.data++a++[10]}) List.not_mem_nil
      rw [List.append_nil,← lines_data ha,← List.cons_append,← hd] at hn
      simpa [dataRest] using hn
    · rw [dataRest,if_neg hb,List.cons_append]
      by_cases hr : b=13
      · subst hr
        have hh := h.1 rfl
        obtain ⟨t,rfl⟩ := List.head?_eq_some_iff.mp hh
        have hc (t : Bytes) : normalise (13::10::t)=normalise (10::t) := rfl
        simpa [dataRest,hc] using ih ha
      · have ha' : 10∉a++[b] := by simpa [ha] using Ne.symm hb
        simpa [hr] using ih ha'

theorem inline_str (z : ℤ) : Inline (str z) := by
  have hd (n : ℕ) : Inline (toDigits 10 n) :=
    ⟨fun h => absurd (isDigit_of_mem_toDigits h) (by decide),
      fun h => absurd (isDigit_of_mem_toDigits h) (by decide)⟩
  cases z with
  | ofNat n => exact hd n
  | negSucc n =>
    have h := hd (n+1)
    exact ⟨by simpa [str] using h.1,by simpa [str] using h.2⟩

theorem lines_event {e : SseEvent} (hc : Carries e) (h : Clean e) (lastEventId : Bytes)
    (messages : List Message) (r : Bytes) :
    lines {lastEventId,messages} (normalise (formatSseEvent e++r)) =
      lines {lastEventId:=e.id.getD lastEventId,messages:=messages++expected lastEventId [e]}
        (normalise r) := by
  obtain ⟨text,ht⟩ := Option.ne_none_iff_exists'.mp hc.data
  simp only [formatSseEvent,List.append_assoc]
  refine (lines_option (n := ascii "event") (by decide) e.event id h.event _).trans ?_
  refine (lines_option (n := ascii "id") (by decide) e.id id h.id _).trans ?_
  refine (lines_option (n := ascii "retry") (by decide) e.retry str
    (fun _ _ => inline_str _) _).trans ?_
  have hr (q : EventSource) : (e.retry.elim q fun z => q.field (ascii "retry") (str z))=q := by
    cases e.retry <;> rfl
  have hi (q : EventSource) : (e.id.elim q fun eid => q.field (ascii "id") (id eid)) =
      {q with lastEventId:=e.id.getD q.lastEventId} := by
    cases hd : e.id with
    | none => rfl
    | some eid => exact if_pos ⟨rfl,hc.id eid hd⟩
  have hd (q) := lines_dataRest (p := q) (h.data text ht) List.not_mem_nil ([10]++r)
  rw [hr,hi,ht,Option.elim_some,sseDataLines_eq,List.append_assoc,
    normalise_append (t := ascii "data: ") (by decide),← List.append_nil (ascii "data: "),hd]
  refine (lines_append List.not_mem_nil (normalise r)).trans ?_
  cases he : e.event with
  | none => simp [EventSource.line,dispatch,expected,he,ht]
  | some n =>
    have hn : n≠[] := fun hn => hc.event (hn ▸ he)
    simp [EventSource.line,dispatch,expected,EventSource.field,he,ht,hn]

end BlackBull.EventStream
