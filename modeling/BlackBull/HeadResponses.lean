import BlackBull.MessageSender

/-!
# Responses to HEAD

The same events sent to two senders, one in head mode and one not. They go through the same
states, and the one in head mode writes the heads alone. Trailers are the exception:
`_handle_trailers` does not ask for the mode.
-/

namespace BlackBull

def SendEvent.completes : SendEvent → Bool
  | .bytes _ status _ => !HTTP1Sender.isInformational status
  | .start .. => false
  | .body _ moreBody => !moreBody
  | .trailers _ => true
  | .pathsend _ => true
  | .native _ file chunk last => file.isSome || chunk.any (fun chunk => !chunk.2) || last.isSome

def SendEvent.endsInTrailers : SendEvent → Bool
  | .trailers _ => true
  | .native _ file chunk last =>
    last.isSome && !(file.isSome || chunk.any (fun chunk => !chunk.2))
  | _ => false

theorem SendEvent.completes_of_endsInTrailers {ev : SendEvent}
    (h : ev.endsInTrailers=true) : ev.completes=true := by
  cases ev <;> simp_all [endsInTrailers,completes]

/-- What completes the response, if anything, is not a trailer section. -/
def untrailed (events : List SendEvent) : Bool :=
  (events.find? SendEvent.completes).all fun event => !event.endsInTrailers

namespace HTTP1Sender

open ByteString

variable (s : HTTP1Sender) (w date : Bytes)

/-- Status line, fields and blank line as `_flush` renders them. -/
def headFor (status : HTTPStatus) (headers : Headers) (length : ℕ) (moreBody : Bool) : Bytes :=
  renderStart status (ensureDateHeader date
    (ensureFramingHeaders {} status headers length moreBody).2).toList

def heldHead (length : ℕ) (moreBody : Bool) : Bytes :=
  match s.buffered with
  | some (status,headers) => headFor date status headers length moreBody
  | none => []

def headOf (event : SendEvent) : Bytes :=
  if s.completed then []
  else
    match event with
    | .bytes body status headers => headFor date status (.ofPairs headers) body.length false
    | .body content moreBody => s.heldHead date content.length moreBody
    | .pathsend file => s.heldHead date file.length false
    | .native header file body _ =>
      let s := match header with
        | some (status,headers,expectsTrailers) => s.begin status headers expectsTrailers
        | none => s
      match file,body with
      | some file,_ => s.heldHead date file.length false
      | none,some (content,moreBody) => s.heldHead date content.length moreBody
      | none,none => []
    | _ => []

def heads : HTTP1Sender → List SendEvent → List Bytes
  | _,[] => []
  | s,event::events => s.headOf date event::heads (send date s event) events

def twin : HTTP1Sender := {s with headMode:=true,written:=w}

/-- What a step does to a sender and to its twin: both write the head, and only one of them the
content behind it. -/
structure Answers (step : HTTP1Sender → HTTP1Sender) (head extra : Bytes) : Prop where
  plain : ∃ content,(step s).written=s.written++(head++content)
  twins : step (s.twin w)=(step s).twin (w++(head++extra))
  mode : (step s).headMode=s.headMode

variable {s}

theorem Answers.rfl : Answers s w id [] [] := ⟨⟨[],by simp⟩,by simp,by simp⟩

theorem Answers.comp {f g : HTTP1Sender → HTTP1Sender} {head e : Bytes}
    (hf : Answers s w f head []) (hg : Answers (f s) (w++head) g [] e) :
    Answers s w (fun s => g (f s)) head e := by
  obtain ⟨⟨a,hfi⟩,hft,hfm⟩ := hf
  obtain ⟨⟨l,hl⟩,hgt,hgm⟩ := hg
  refine ⟨⟨a++l,by simp [hl,hfi]⟩,?_,hgm.trans hfm⟩
  simp only [hft,List.append_nil,hgt,List.nil_append,List.append_assoc]

theorem Answers.congr {f g : HTTP1Sender → HTTP1Sender} {head e : Bytes}
    (h : Answers s w f head e) (hs : g s=f s) (ht : g (s.twin w)=f (s.twin w)) :
    Answers s w g head e :=
  ⟨by simpa only [hs] using h.plain,by rw [ht,hs,h.twins],by rw [hs,h.mode]⟩

theorem flush_answers (h : s.headMode=false) (st : HTTPStatus) (hs : Headers)
    (bd : Bytes) (mb : Bool) : Answers s w (fun s => s.flush date st hs bd mb)
      (headFor date st hs bd.length mb) [] := by
  obtain ⟨b,c,xt,sta,cm,headMode,wr⟩ := s
  obtain rfl : headMode=false := h
  constructor <;> cases hi : isInformational st <;> cases mb <;> cases c <;>
    simp [flush,headFor,ensureFramingHeaders,twin,write,hi]

theorem handleBodyContent_answers (h : s.headMode=false) (c : Bytes) (mb : Bool) :
    Answers s w (fun s => s.handleBodyContent date c mb) (s.heldHead date c.length mb) [] := by
  cases hh : s.buffered with
  | some held =>
    obtain ⟨⟨rest,hp⟩,ht,hm⟩ := flush_answers w date h held.1 held.2 c mb
    have hh' : (s.twin w).buffered=some held := hh
    constructor <;> cases mb <;> simp_all [handleBodyContent,heldHead,twin]
  | none =>
    obtain ⟨b,ch,xt,st,cm,headMode,wr⟩ := s
    obtain rfl : headMode=false := h
    obtain rfl : b=none := hh
    constructor <;> cases mb <;> cases ch <;> simp [handleBodyContent,heldHead,twin,write]

theorem pathsend_answers (h : s.headMode=false) (f : Bytes) :
    Answers s w (fun s => s.pathsend date f) (s.heldHead date f.length false) [] := by
  obtain ⟨b,c,xt,st,cm,headMode,wr⟩ := s
  obtain rfl : headMode=false := h
  cases b with
  | some held =>
    constructor <;> cases hi : isInformational held.1 <;>
      simp [pathsend,heldHead,headFor,ensureFramingHeaders,twin,write,hi]
  | none => constructor <;> simp [pathsend,heldHead,twin]

/-- `_handle_trailers`, which both senders carry out alike. -/
theorem finish_answers (z : Option HeaderList) : ∃ e,Answers s w (fun s => match z with
      | some hs => if s.completed then s else s.handleTrailers hs
      | none => s) [] e ∧ (e=[] ↔ z=none ∨ s.completed=true) := by
  obtain ⟨b,c,xt,st,cm,headMode,wr⟩ := s
  cases z with
  | none => exact ⟨[],.rfl w,by simp⟩
  | some hs =>
    cases cm with
    | true => exact ⟨[],⟨⟨[],by simp⟩,by simp [twin],by simp⟩,by simp⟩
    | false =>
      refine ⟨ascii "0" ++ crlf++renderFields hs++crlf,
        ⟨⟨ascii "0" ++ crlf++renderFields hs++crlf,?_⟩,?_,?_⟩,by simp [crlf]⟩ <;>
        simp [handleTrailers,twin,write]

theorem handleBodyContent_completed (c : Bytes) (mb : Bool) :
    (s.handleBodyContent date c mb).completed=(s.completed || !mb) := by
  obtain ⟨b,ch,xt,st,cm,headMode,wr⟩ := s
  cases mb with
  | false => simp [handleBodyContent]
  | true =>
    cases b with
    | none => cases headMode <;> cases ch <;> simp [handleBodyContent,write]
    | some held =>
      cases hi : isInformational held.1 <;> cases headMode <;> cases ch <;>
        simp [handleBodyContent,flush,ensureFramingHeaders,write,hi]

theorem completed_send (e : SendEvent) :
    (send date s e).completed=(s.completed || e.completes) := by
  have hf (status : HTTPStatus) (hl : Headers) (body : Bytes) (hi : isInformational status=true) :
      (s.flush date status hl body false).completed=s.completed := by
    obtain ⟨b,c,xt,st,cm,headMode,written⟩ := s
    cases headMode <;> cases c <;> simp [flush,ensureFramingHeaders,write,hi]
  cases hd : s.completed with
  | true => simp [send,hd]
  | false =>
    cases e with
    | bytes body status hl =>
      cases hi : isInformational status <;> simp [send,hd,hi,hf,SendEvent.completes]
    | start status hl tr => simp [send,hd,begin,SendEvent.completes]
    | body content mb => simp [send,hd,handleBodyContent_completed,SendEvent.completes]
    | trailers hl => simp [send,hd,handleTrailers,SendEvent.completes]
    | pathsend f => simp [send,hd,SendEvent.completes]
    | native header f chunk last =>
      rcases header with - | header <;> rcases f with - | f <;>
        rcases chunk with - | ⟨chunk,- | -⟩ <;> rcases last with - | last <;>
        simp [send,hd,begin,handleTrailers,handleBodyContent_completed,SendEvent.completes]

theorem native_answers (h : s.headMode=false) (hd : s.completed=false)
    (f : Option Bytes) (c : Option (Bytes × Bool)) (z : Option HeaderList) : ∃ e,
    Answers s w (send date · (.native none f c z)) (s.headOf date (.native none f c z)) e ∧
      (e=[] ↔ (SendEvent.native none f c z).endsInTrailers=false) := by
  have hd' : (s.twin w).completed=false := hd
  cases f with
  | some f =>
    obtain ⟨⟨rest,hp⟩,ht,hm⟩ := pathsend_answers w date h f
    refine ⟨[],?_,by simp [SendEvent.endsInTrailers]⟩
    constructor <;> simp_all [send,headOf,twin]
  | none =>
    cases c with
    | none =>
      obtain ⟨e,hl,he⟩ := finish_answers (s := s) w z
      refine ⟨e,?_,?_⟩
      · rw [show s.headOf date (.native none none none z)=[] by simp [headOf]]
        exact hl.congr w (by cases z <;> simp [send,hd]) (by cases z <;> simp [send,hd'])
      · simp [he,hd,SendEvent.endsInTrailers]
    | some c =>
      obtain ⟨e,hl,he⟩ := finish_answers (s := s.handleBodyContent date c.1 c.2)
        (w++s.heldHead date c.1.length c.2) z
      refine ⟨e,?_,?_⟩
      · rw [show s.headOf date (.native none none (some c) z) =
          s.heldHead date c.1.length c.2 by simp [headOf,hd]]
        exact ((handleBodyContent_answers w date h c.1 c.2).comp w hl).congr w
          (by cases z <;> simp [send,hd]) (by cases z <;> simp [send,hd'])
      · cases z <;> simp [he,handleBodyContent_completed,hd,SendEvent.endsInTrailers]

theorem send_answers (h : s.headMode=false) (e : SendEvent) : ∃ x,
    Answers s w (send date · e) (s.headOf date e) x ∧
      (x=[] ↔ s.completed=true ∨ e.endsInTrailers=false) := by
  cases hd : s.completed with
  | true => refine ⟨[],⟨⟨[],?_⟩,?_,?_⟩,by simp⟩ <;> simp [send,headOf,hd,twin]
  | false =>
  have hd' : (s.twin w).completed=false := hd
  cases e with
  | bytes body status hds =>
    refine ⟨[],?_,by simp [SendEvent.endsInTrailers]⟩
    obtain ⟨⟨rest,hp⟩,ht,hm⟩ := flush_answers w date h status (.ofPairs hds) body false
    constructor <;> cases hi : isInformational status <;> simp_all [send,headOf,twin]
  | start status hds tr =>
    refine ⟨[],?_,by simp [SendEvent.endsInTrailers]⟩
    constructor <;> simp_all [send,headOf,twin,begin]
  | body content mb =>
    refine ⟨[],?_,by simp [SendEvent.endsInTrailers]⟩
    rw [show s.headOf date (.body content mb)=s.heldHead date content.length mb by simp [headOf,hd]]
    exact (handleBodyContent_answers w date h content mb).congr w (by simp [send,hd])
      (by simp [send,hd'])
  | trailers hds =>
    obtain ⟨x,hl,he⟩ := finish_answers (s := s) w (some hds)
    refine ⟨x,?_,by simp [he,hd,SendEvent.endsInTrailers]⟩
    rw [show s.headOf date (.trailers hds)=[] by simp [headOf]]
    exact hl.congr w (by simp [send,hd]) (by simp [send,hd'])
  | pathsend f =>
    refine ⟨[],?_,by simp [SendEvent.endsInTrailers]⟩
    obtain ⟨⟨rest,hp⟩,ht,hm⟩ := pathsend_answers w date h f
    constructor <;> simp_all [send,headOf,twin]
  | native header f chunk last =>
    cases header with
    | none => simpa using native_answers w date h hd f chunk last
    | some header =>
      obtain ⟨x,⟨hp,ht,hm⟩,he⟩ := native_answers w date
        (s := s.begin header.1 header.2.1 header.2.2) h hd f chunk last
      have hs (s : HTTP1Sender) (hd : s.completed=false) :
          send date s (.native (some header) f chunk last) =
            send date (s.begin header.1 header.2.1 header.2.2) (.native none f chunk last) := by
        simp [send,begin,hd]
      have hh : s.headOf date (.native (some header) f chunk last) =
          (s.begin header.1 header.2.1 header.2.2).headOf date (.native none f chunk last) := by
        simp [headOf,begin,hd]
      refine ⟨x,⟨?_,?_,?_⟩,by simpa [SendEvent.endsInTrailers] using he⟩
      · rw [hs s hd,hh]
        exact hp
      · rw [hs _ hd',hs s hd,hh]
        exact ht
      · rw [hs s hd]
        exact hm

/-- What the sender writes is the heads, with content behind each of them. -/
theorem foldl_send_written (h : s.headMode=false) (evs : List SendEvent) :
    ∃ c,c.length=evs.length ∧ (evs.foldl (send date) s).written =
      s.written++(List.zipWith (· ++ ·) (heads date s evs) c).flatten := by
  induction evs generalizing s with
  | nil => exact ⟨[],rfl,by simp⟩
  | cons ev evs ih =>
    obtain ⟨e,⟨⟨ct,hc⟩,-,hm⟩,-⟩ := send_answers [] date h ev
    obtain ⟨c,hl,hw⟩ := ih (hm.trans h)
    exact ⟨ct::c,by simp [hl],by simp [hw,hc,heads]⟩

theorem heads_completed (h : s.completed=true) (evs : List SendEvent) :
    (heads date s evs).flatten=[] := by
  induction evs generalizing s with
  | nil => rfl
  | cons ev evs ih =>
    have hs : send date s ev=s := by simp [send,h]
    simp [heads,headOf,h,hs,ih h]

/-- In head mode it writes the heads alone, unless trailers complete the response. -/
theorem foldl_send_twin (h : s.headMode=false) (evs : List SendEvent) : ∃ e,
    (evs.foldl (send date) (s.twin w)).written=w++((heads date s evs).flatten++e) ∧
      (e=[] ↔ s.completed=true ∨ untrailed evs=true) := by
  induction evs generalizing s w with
  | nil => exact ⟨[],by simp [heads,twin],by simp [untrailed]⟩
  | cons ev evs ih =>
    obtain ⟨e,⟨-,ht,hm⟩,he⟩ := send_answers w date h ev
    obtain ⟨l,hw,hl⟩ := ih (w++(s.headOf date ev++e)) (hm.trans h)
    rw [completed_send] at hl
    rw [List.foldl_cons,ht,hw]
    by_cases hn : e=[]
    · refine ⟨l,by simp [heads,hn],hl.trans ?_⟩
      cases hc : ev.completes <;> simp_all [untrailed]
    · obtain ⟨hd,hen⟩ : s.completed=false ∧ ev.endsInTrailers=true := by
        simpa using mt he.mpr hn
      have hc : ev.completes=true := SendEvent.completes_of_endsInTrailers hen
      have hh := heads_completed date (s := send date s ev) (by simp [completed_send,hc]) evs
      refine ⟨e++l,by simp [heads,hh],?_⟩
      simp [hn,hd,untrailed,hc,hen]

def wireOf (headMode : Bool) (events : List SendEvent) : Bytes :=
  (events.foldl (send date) {headMode}).written

/-- A response to HEAD is the heads of the response to GET exactly when no trailers complete
it. -/
theorem head_without_content_iff (events : List SendEvent) :
    (∃ contents,contents.length=events.length ∧ wireOf date false events =
      (List.zipWith (· ++ ·) (heads date {} events) contents).flatten) ∧
    (wireOf date true events=(heads date {} events).flatten ↔ untrailed events=true) := by
  constructor
  · simpa [wireOf] using foldl_send_written date (s := {}) rfl events
  · obtain ⟨extra,hw,he⟩ := foldl_send_twin [] date (s := {}) rfl events
    change wireOf date true events=_ at hw
    simp only [Bool.false_eq_true,false_or] at he
    rw [hw,List.nil_append,← he]
    simp

/-- Trailers go out in reply to HEAD, as the start of the next response on the connection. -/
theorem trailers_after_head :
    wireOf [] true [.start ⟨200,ascii "OK"⟩ [] true,.body (ascii "a") true,.trailers []] =
      (heads [] {} [.start ⟨200,ascii "OK"⟩ [] true,.body (ascii "a") true,
        .trailers []]).flatten++ascii "0\r\n\r\n" := by
  decide +kernel

end HTTP1Sender
end BlackBull
