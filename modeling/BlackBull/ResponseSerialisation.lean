import BlackBull.MessageSender

/-!
# Serialising a response

The octets an HTTP/1.1 sender writes for the events of a response, read by a receiver of RFC 9112
messages. A last body event before the trailers completes the response, so that the trailers are
dropped; trailers with no body event go out without a head.
-/

namespace BlackBull.HTTP1Sender

open ByteString

/-- A response as an application sends it: a start, body events that more is to follow, one that
is the last, and trailers when the start has announced them. -/
structure Reply where
  status : HTTPStatus
  headers : HeaderList
  chunks : List Bytes
  last : Option Bytes
  trailers : Option HeaderList

namespace Reply

def events (reply : Reply) : List SendEvent :=
  .start reply.status reply.headers reply.trailers.isSome ::
    (reply.chunks.map (SendEvent.body · true) ++
      (reply.last.map (SendEvent.body · false)).toList ++
      (reply.trailers.map SendEvent.trailers).toList)

def body (reply : Reply) : Bytes := reply.chunks.flatten++reply.last.getD []

def wire (reply : Reply) (date : Bytes) : Bytes := (reply.events.foldl (send date) {}).written

/-- A response the sender may be given: it comes to its end, its status permits content, and the
fields are fields, none of which is about framing. -/
structure Legal (reply : Reply) : Prop where
  ends : reply.trailers=none → reply.last.isSome
  code : 200≤reply.status.code
  content : reply.status.code≠204 ∧ reply.status.code≠304
  phrase : ∀ b∈reply.status.phrase,isFieldOctet b=true
  headers : ∀ field∈reply.headers,FieldSyntax field
  unframed : ∀ field∈reply.headers,
    lower field.1≠ascii "transfer-encoding" ∧ lower field.1≠ascii "content-length"
  trailers : ∀ trailers∈reply.trailers,∀ field∈trailers,FieldSyntax field

/-- The receiver gets one message, with the body and the trailers that were sent. -/
def Received (reply : Reply) (date : Bytes) : Prop :=
  ∃ message,decodeMessage (reply.wire date)=some (message,[]) ∧
    message.body=reply.body ∧ message.trailers=reply.trailers.getD []

/-- No trailers are announced, or they follow body events of which none is the last, or there are
none after all and the body is one event. -/
def Terminates (reply : Reply) : Prop :=
  reply.trailers=none ∨ (reply.last=none ∧ reply.chunks≠[]) ∨
    (reply.chunks=[] ∧ reply.last.isSome ∧ reply.trailers=some [])

end Reply

def startLine (status : HTTPStatus) : Bytes :=
  ascii "HTTP/1.1 " ++ toDigits 10 status.code++ascii " " ++ status.phrase

variable {headers : HeaderList} {n v : Bytes} {rp : Reply}

theorem fieldSyntax_of_token (hn : (n≠[] && n.all isTchar)=true)
    (hv : ∀ b∈v,isTchar b=true) : FieldSyntax (n,v) := by
  have ho : ∀ b,isTchar b=true → isFieldOctet b=true ∧ isBlank b=false := by
    intro b hb
    have ha := forall_octet (p := fun b => !isTchar b || (isFieldOctet b && !isBlank b))
      (by decide +kernel) b
    simpa [hb] using ha
  obtain ⟨hne,ha⟩ := Bool.and_eq_true_iff.mp hn
  exact
    { name_ne_nil:=by simpa using hne
      name:=List.all_eq_true.mp ha
      value:=fun b hb => (ho b (hv b hb)).1
      trimmed :=
        ⟨fun b hb => (ho b (hv b (List.mem_of_mem_head? hb))).2,
          fun b hb => (ho b (hv b (List.mem_of_mem_getLast? hb))).2⟩}

theorem contains_false (hn : lower n=n) (h : ∀ f∈headers,lower f.1≠n) :
    (Headers.ofPairs headers).contains n=false := by
  have hl : (Headers.ofPairs headers).lookup n=[] := by
    simp only [Headers.lookup,Headers.ofPairs,List.map_eq_nil_iff,List.filter_eq_nil_iff,
      List.mem_map]
    rintro _ ⟨f,hf,rfl⟩
    simpa using h f hf
  simp [Headers.contains,Headers.getlist,hn,hl]

def framedFields (date : Bytes) (headers : HeaderList) (name value : Bytes) : HeaderList :=
  (ensureDateHeader date ((Headers.ofPairs headers).append name value)).toList

theorem framedFields_eq (d : Bytes) (headers : HeaderList) (n v : Bytes) :
    framedFields d headers n v=headers++[(n,v)] ∨
      framedFields d headers n v =
        headers++[(n,v)]++[(ascii "Date",d)] := by
  unfold framedFields ensureDateHeader
  split
  · exact .inl (by simp [Headers.toList,Headers.append,Headers.ofPairs,Function.comp_def])
  · exact .inr (by simp [Headers.toList,Headers.append,Headers.ofPairs,Function.comp_def])

theorem framedFields_syntax {d : Bytes} (hd : FieldSyntax (ascii "Date",d))
    (hh : ∀ f∈headers,FieldSyntax f) (hf : FieldSyntax (n,v)) :
    ∀ f∈framedFields d headers n v,FieldSyntax f := by
  have hm : ∀ f∈headers++[(n,v)],FieldSyntax f :=
    List.forall_mem_append.mpr ⟨hh,List.forall_mem_singleton.mpr hf⟩
  rcases framedFields_eq d headers n v with heq | heq <;> rw [heq]
  · exact hm
  · exact List.forall_mem_append.mpr ⟨hm,List.forall_mem_singleton.mpr hd⟩

theorem fieldValues_framedFields {d : Bytes} {key : Bytes} (hk : key≠ascii "date")
    (hh : ∀ f∈headers,lower f.1≠key) :
    fieldValues (framedFields d headers n v) key =
      if lower n=key then [v] else [] := by
  have hold : headers.filter (fun f => lower f.1=key)=[] :=
    List.filter_eq_nil_iff.mpr fun f hf => by simpa using hh f hf
  have hd : lower (ascii "Date")≠key := fun heq => hk (by rw [← heq]; decide)
  rcases framedFields_eq d headers n v with heq | heq <;> rw [heq] <;>
    by_cases hn : lower n=key <;> simp [fieldValues,hold,hn,hd]

theorem framing_chunked {d : Bytes}
    (u : ∀ f∈headers,
      lower f.1≠ascii "transfer-encoding" ∧ lower f.1≠ascii "content-length") :
    framingOf (framedFields d headers (ascii "transfer-encoding") (ascii "chunked")) =
      some .chunked := by
  rw [framingOf,fieldValues_framedFields (by decide) fun f hf => (u f hf).1,
    fieldValues_framedFields (by decide) fun f hf => (u f hf).2]
  decide

theorem framing_sized {d : Bytes}
    (u : ∀ f∈headers,
      lower f.1≠ascii "transfer-encoding" ∧ lower f.1≠ascii "content-length") (n : ℕ) :
    framingOf (framedFields d headers (ascii "content-length") (toDigits 10 n)) =
      some (.sized n) := by
  rw [framingOf,fieldValues_framedFields (by decide) fun f hf => (u f hf).1,
    fieldValues_framedFields (by decide) fun f hf => (u f hf).2,
    if_neg (by decide),if_pos (by decide)]
  have hdi : isdigit (toDigits 10 n)=true := by
    have ha : (toDigits 10 n).all isDigit=true :=
      List.all_eq_true.mpr fun _ => isDigit_of_mem_toDigits
    simp [isdigit,ha,toDigits_ne_nil]
  simp [hdi,ofDigits_toDigits (by decide : 1<10) (by decide) n]

def streaming (trailers : Bool) (written : Bytes) : HTTP1Sender :=
  {chunked:=true,started:=true,expectTrailers:=trailers,written}

def held (reply : Reply) : HTTP1Sender :=
  {buffered:=some (reply.status,.ofPairs reply.headers),expectTrailers:=reply.trailers.isSome}

/-- The chunks that are written: those with content. -/
def carried (chunks : List Bytes) : List Bytes := chunks.filter (!·.isEmpty)

theorem chunkOf_eq (content : Bytes) (z : Bool) :
    chunkOf content z=renderChunks (carried [content])++if z then lastChunk else [] := by
  cases content <;> simp [chunkOf,carried,renderChunks]

theorem carried_ne_nil (cs : List Bytes) : ∀ c∈carried cs,c≠[] := by
  intro c hc
  simpa using (List.mem_filter.mp hc).2

theorem flatten_carried (cs : List Bytes) : (carried cs).flatten=cs.flatten :=
  List.flatten_filter_not_isEmpty

theorem renderChunks_append (a l : List Bytes) :
    renderChunks (a++l)=renderChunks a++renderChunks l :=
  List.flatMap_append

theorem send_chunks (d : Bytes) (tr : Bool) (w : Bytes) (cs : List Bytes) :
    (cs.map (SendEvent.body · true)).foldl (send d) (streaming tr w) =
      streaming tr (w++renderChunks (carried cs)) := by
  induction cs generalizing w with
  | nil => simp [carried,renderChunks]
  | cons c cs ih =>
    have hs : send d (streaming tr w) (.body c true) =
        streaming tr (w++renderChunks (carried [c])) := by
      simp [send,streaming,handleBodyContent,write,chunkOf_eq]
    have hc : carried (c::cs)=carried [c]++carried cs :=
      List.filter_append [c] cs
    rw [List.map_cons,List.foldl_cons,hs,ih,hc,renderChunks_append,List.append_assoc]

def head (reply : Reply) (date name value : Bytes) : Bytes :=
  renderStart reply.status (framedFields date reply.headers name value)

theorem send_start (rp : Reply) (d : Bytes) :
    send d {} (.start rp.status rp.headers rp.trailers.isSome)=held rp := rfl

theorem Reply.Legal.not_informational (h : rp.Legal) : isInformational rp.status=false := by
  simpa [isInformational] using h.code

theorem send_only (h : rp.Legal) (d content : Bytes) :
    send d (held rp) (.body content false) =
      { expectTrailers:=rp.trailers.isSome,started:=true,completed:=true,
        written:=head rp d (ascii "content-length") (toDigits 10 content.length) ++
          content} := by
  have hl := contains_false (by decide) fun f hf => (h.unframed f hf).2
  simp [send,held,handleBodyContent,flush,ensureFramingHeaders,write,head,framedFields,
    h.not_informational,hl]

theorem send_first (h : rp.Legal) (d content : Bytes) :
    send d (held rp) (.body content true) =
      streaming rp.trailers.isSome
        (head rp d (ascii "transfer-encoding") (ascii "chunked") ++
          renderChunks (carried [content])) := by
  have hc := contains_false (by decide) fun f hf => (h.unframed f hf).1
  simp [send,held,streaming,handleBodyContent,flush,ensureFramingHeaders,write,head,
    framedFields,h.not_informational,hc,chunkOf_eq]

theorem send_last (d : Bytes) (tr : Bool) (w content : Bytes) :
    send d (streaming tr w) (.body content false) =
      { streaming tr (w++renderChunks (carried [content]) ++
          if tr then [] else lastChunk) with completed:=true} := by
  cases tr <;> simp [send,streaming,handleBodyContent,write,chunkOf_eq]

theorem send_trailers (d : Bytes) (tr : Bool) (w : Bytes) (fields : HeaderList) :
    send d (streaming tr w) (.trailers fields) =
      { streaming tr (w++(ascii "0" ++ crlf++renderFields fields++crlf)) with
        completed:=true} := by
  simp [send,streaming,handleTrailers,write]

theorem send_completed {s : HTTP1Sender} (h : s.completed=true) (d : Bytes)
    (evs : List SendEvent) : evs.foldl (send d) s=s := by
  induction evs with
  | nil => rfl
  | cons ev evs ih =>
    have hd : send d s ev=s := if_pos h
    rw [List.foldl_cons,hd,ih]

namespace Reply

variable {rp : Reply} {content : Bytes} {fields : HeaderList}

theorem wire_single (h : rp.Legal) (d : Bytes) (hc : rp.chunks=[])
    (hl : rp.last=some content) :
    rp.wire d =
      head rp d (ascii "content-length") (toDigits 10 content.length)++content := by
  rw [wire,events,List.foldl_cons,send_start,hc,hl]
  simp only [List.map_nil,Option.map_some,Option.toList_some,List.nil_append,
    List.cons_append,List.foldl_cons,send_only h]
  rw [send_completed rfl]

theorem wire_only_trailers (d : Bytes) (hc : rp.chunks=[]) (hl : rp.last=none)
    (ht : rp.trailers=some fields) :
    rp.wire d=ascii "0" ++ crlf++renderFields fields++crlf := by
  simp [wire,events,hc,hl,ht,send,begin,handleTrailers,write]

theorem foldl_chunks (h : rp.Legal) (d : Bytes) (hc : rp.chunks≠[]) :
    (rp.chunks.map (SendEvent.body · true)).foldl (send d) (held rp) =
      streaming rp.trailers.isSome
        (head rp d (ascii "transfer-encoding") (ascii "chunked") ++
          renderChunks (carried rp.chunks)) := by
  cases hcu : rp.chunks with
  | nil => exact absurd hcu hc
  | cons c cs =>
    have hca : carried (c::cs)=carried [c]++carried cs :=
      List.filter_append [c] cs
    rw [List.map_cons,List.foldl_cons,send_first h,send_chunks,hca,renderChunks_append,
      List.append_assoc]

theorem wire_chunked (h : rp.Legal) (d : Bytes) (hc : rp.chunks≠[])
    (hl : rp.last=some content) :
    rp.wire d =
      head rp d (ascii "transfer-encoding") (ascii "chunked") ++
        (renderChunks (carried (rp.chunks++[content])) ++
          if rp.trailers.isSome then [] else lastChunk) := by
  have hca : carried (rp.chunks++[content])=carried rp.chunks++carried [content] :=
    List.filter_append rp.chunks [content]
  rw [wire,events,List.foldl_cons,send_start,List.foldl_append,List.foldl_append,
    foldl_chunks h d hc,hl]
  simp only [Option.map_some,Option.toList_some,List.foldl_cons,List.foldl_nil,send_last]
  rw [send_completed rfl,hca,renderChunks_append]
  simp [streaming]

theorem wire_trailers (h : rp.Legal) (d : Bytes) (hc : rp.chunks≠[])
    (hl : rp.last=none) (ht : rp.trailers=some fields) :
    rp.wire d =
      head rp d (ascii "transfer-encoding") (ascii "chunked") ++
        (renderChunks (carried rp.chunks) ++
          (ascii "0" ++ (crlf++(renderFields fields++(crlf++[]))))) := by
  rw [wire,events,List.foldl_cons,send_start,List.foldl_append,List.foldl_append,
    foldl_chunks h d hc,hl,ht]
  simp only [Option.map_none,Option.toList_none,Option.map_some,Option.toList_some,
    List.foldl_nil,List.foldl_cons,send_trailers]
  simp [streaming]

theorem decodeMessage_wire (h : rp.Legal) {d n v : Bytes}
    (hda : FieldSyntax (ascii "Date",d)) (hf : FieldSyntax (n,v))
    (content : Bytes) :
    decodeMessage (head rp d n v++content) =
      decodeContent (startLine rp.status) (framedFields d rp.headers n v)
        content := by
  have hl : 13∉startLine rp.status := by
    have hdi : (13 : UInt8)∉toDigits 10 rp.status.code := fun hm =>
      absurd (isDigit_of_mem_toDigits hm) (by decide)
    have hp : (13 : UInt8)∉rp.status.phrase := fun hm =>
      absurd (h.phrase 13 hm) (by decide)
    simp [startLine,hdi,hp,show (13 : UInt8)∉ascii "HTTP/1.1 " by decide,
      show (13 : UInt8)∉ascii " " by decide]
  have hs : startsWith (startLine rp.status) (ascii "HTTP/1.1 ")=true := by
    simp [startsWith,startLine,List.append_assoc]
  have hfi := framedFields_syntax hda h.headers hf
  have hh : head rp d n v++content =
      startLine rp.status++(crlf ++
        (renderFields (framedFields d rp.headers n v)++(crlf++content))) := by
    simp [head,renderStart,statusLine,startLine,List.append_assoc]
  rw [hh,decodeMessage_head hl hs hfi]

theorem fieldSyntax_chunked : FieldSyntax (ascii "transfer-encoding",ascii "chunked") :=
  fieldSyntax_of_token (by decide) (List.all_eq_true.mp (by decide))

theorem fieldSyntax_length (n : ℕ) : FieldSyntax (ascii "content-length",toDigits 10 n) := by
  refine fieldSyntax_of_token (by decide) fun b hb => ?_
  simp [isTchar,isDigit_of_mem_toDigits hb]

/-- A response in one body event is sized, and has no room for trailers. -/
theorem received_single (h : rp.Legal) {d : Bytes} (hd : FieldSyntax (ascii "Date",d))
    (hc : rp.chunks=[]) (hl : rp.last=some content) :
    rp.Received d ↔ rp.trailers=none ∨ rp.trailers=some [] := by
  have hde := decodeMessage_wire h hd (fieldSyntax_length content.length) content
  rw [decodeContent_sized (framing_sized h.unframed content.length),
    ← wire_single h d hc hl] at hde
  rw [Received,hde]
  cases ht : rp.trailers with
  | none => simp [body,hc,hl]
  | some fields => simp [body,hc,hl,eq_comm]

theorem received_chunked (h : rp.Legal) {d : Bytes} (hd : FieldSyntax (ascii "Date",d))
    (hc : rp.chunks≠[]) (hl : rp.last=some content) :
    rp.Received d ↔ rp.trailers=none := by
  have hf : framingOf
      (framedFields d rp.headers (ascii "transfer-encoding") (ascii "chunked")) =
        some .chunked := framing_chunked h.unframed
  have hw := carried_ne_nil (rp.chunks++[content])
  rw [Received,wire_chunked h d hc hl,decodeMessage_wire h hd fieldSyntax_chunked]
  cases ht : rp.trailers with
  | some fields =>
    -- The chunk that would end the message was left to the trailers, which were dropped.
    simp [decodeContent_unfinished hf hw]
  | none =>
    have he : lastChunk=ascii "0" ++ (crlf++(renderFields []++(crlf++[]))) := rfl
    rw [Option.isSome_none,if_neg Bool.false_ne_true,he,
      decodeContent_chunked hf hw (List.forall_mem_nil FieldSyntax),flatten_carried]
    simp [body,hl]

theorem received_trailers (h : rp.Legal) {d : Bytes}
    (hd : FieldSyntax (ascii "Date",d)) (hc : rp.chunks≠[])
    (hl : rp.last=none) (ht : rp.trailers=some fields) :
    rp.Received d := by
  rw [Received,wire_trailers h d hc hl ht,decodeMessage_wire h hd fieldSyntax_chunked,
    decodeContent_chunked (framing_chunked h.unframed) (carried_ne_nil rp.chunks)
      (h.trailers fields ht),flatten_carried]
  exact ⟨_,rfl,by simp [body,hl],by simp [ht]⟩

theorem not_received_only_trailers (d : Bytes) (hc : rp.chunks=[])
    (hl : rp.last=none) (ht : rp.trailers=some fields) :
    ¬rp.Received d := by
  have hcu := cutLine_append (by decide : 13∉ascii "0") (renderFields fields++crlf)
  rw [← List.append_assoc,← List.append_assoc] at hcu
  rintro ⟨m,hd,-⟩
  rw [wire_only_trailers d hc hl ht,decodeMessage,hcu] at hd
  exact Option.some_ne_none _ hd.symm

/-- A legal response is received as one message with its body and its trailers just when it
terminates. -/
theorem received_iff_terminates {reply : Reply} (h : reply.Legal) {date : Bytes}
    (hdate : FieldSyntax (ascii "Date",date)) : reply.Received date ↔ reply.Terminates := by
  by_cases hc : reply.chunks=[]
  · cases hl : reply.last with
    | some content =>
      rw [received_single h hdate hc hl]
      simp [Terminates,hc,hl]
    | none =>
      cases ht : reply.trailers with
      | none => exact absurd (h.ends ht) (by simp [hl])
      | some fields =>
        have hn := not_received_only_trailers date hc hl ht
        simp [hn,Terminates,hc,hl,ht]
  · cases hl : reply.last with
    | some content =>
      rw [received_chunked h hdate hc hl]
      simp [Terminates,hc,hl]
    | none =>
      cases ht : reply.trailers with
      | none => exact absurd (h.ends ht) (by simp [hl])
      | some fields =>
        have hr := received_trailers h hdate hc hl ht
        simp [hr,Terminates,hc,hl]

def checksummed : Reply where
  status := ⟨200,ascii "OK"⟩
  headers := [(ascii "content-type",ascii "text/plain")]
  chunks := [ascii "Hello, ",ascii "world"]
  last := none
  trailers := some [(ascii "x-checksum",ascii "abc")]

theorem checksummed_legal : checksummed.Legal where
  ends := nofun
  code := by decide
  content := by decide
  phrase := List.all_eq_true.mp (by decide)
  headers := List.forall_mem_singleton.mpr
    { name_ne_nil:=by decide
      name:=List.all_eq_true.mp (by decide)
      value:=List.all_eq_true.mp (by decide)
      trimmed:=⟨by rintro _ ⟨⟩; rfl,by rintro _ ⟨⟩; rfl⟩}
  unframed := List.forall_mem_singleton.mpr (by decide)
  trailers := by
    rintro _ ⟨⟩
    exact List.forall_mem_singleton.mpr
      (fieldSyntax_of_token (by decide) (List.all_eq_true.mp (by decide)))

theorem received_iff_terminates_checksummed :
    checksummed.Received (ascii "now") ↔ checksummed.Terminates :=
  received_iff_terminates checksummed_legal
    (fieldSyntax_of_token (by decide) (List.all_eq_true.mp (by decide)))

/-- A last body event before the trailers completes the response, and they are dropped: a sized
message is received without them, a chunked one is left without its end. Trailers with no body
event go out without a head. -/
theorem trailers_lost :
    ¬({checksummed with chunks:=[],last:=some (ascii "Hi")} : Reply).Received (ascii "now") ∧
      ¬({checksummed with last:=some (ascii "!")} : Reply).Received (ascii "now") ∧
      ¬({checksummed with chunks:=[]} : Reply).Received (ascii "now") := by
  have hs : (decodeMessage (({checksummed with chunks:=[],last:=some (ascii "Hi")} :
      Reply).wire (ascii "now"))).map (fun received => received.1.trailers)=some [] := by
    decide +kernel
  have hu : decodeMessage
      (({checksummed with last:=some (ascii "!")} : Reply).wire (ascii "now"))=none := by
    decide +kernel
  have hh : decodeMessage
      (({checksummed with chunks:=[]} : Reply).wire (ascii "now"))=none := by
    decide +kernel
  refine ⟨?_,?_,?_⟩
  · rintro ⟨message,hd,-,ht⟩
    rw [hd,Option.map_some,Option.some_inj,ht] at hs
    exact absurd hs (List.cons_ne_nil _ _)
  · rintro ⟨message,hd,-⟩
    simp [hu] at hd
  · rintro ⟨message,hd,-⟩
    simp [hh] at hd

end Reply
end BlackBull.HTTP1Sender
