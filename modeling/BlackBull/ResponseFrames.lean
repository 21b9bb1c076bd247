import BlackBull.StreamSender

/-!
# The frames of a response

What a peer makes of the frames on a stream, and how far an application has got with the
events of its response. A response is one HEADERS frame, DATA frames, and trailers if there
are any; the last frame, and no other, ends the stream.
-/

namespace BlackBull.H2

inductive Received where
  | nothing
  | streaming (start : Start) (body : Bytes)
  | closed (start : Start) (body : Bytes) (trailers : Option HeaderList)
  deriving DecidableEq

/-- One more frame; `none` for a frame that may not come here. -/
def Received.receive : Received → SentFrame → Option Received
  | .nothing,.headers start => some (.streaming start [])
  | .streaming start body,.data payload endStream =>
    if endStream then some (.closed start (body++payload) none)
    else some (.streaming start (body++payload))
  | .streaming start body,.trailers headers => some (.closed start body (some headers))
  | _,_ => none

def receiveAll (received : Option Received) (frames : List SentFrame) : Option Received :=
  frames.foldl (fun received frame => received.bind (·.receive frame)) received

@[simp] theorem receiveAll_nil (r : Option Received) : receiveAll r []=r := rfl

@[simp] theorem receiveAll_cons (r : Option Received) (f : SentFrame)
    (frs : List SentFrame) : receiveAll r (f::frs) = receiveAll (r.bind (·.receive f)) frs := rfl

theorem receiveAll_append (r : Option Received) (a l : List SentFrame) :
    receiveAll r (a++l)=receiveAll (receiveAll r a) l :=
  List.foldl_append

@[simp] theorem receiveAll_none (frs : List SentFrame) : receiveAll none frs=none := by
  induction frs with
  | nil => rfl
  | cons f frs ih => exact ih

theorem receiveAll_data_append (r : Option Received) (a l : Bytes) (es : Bool) :
    receiveAll r [.data a false,.data l es]=receiveAll r [.data (a++l) es] := by
  rcases r with _ | _ | _ | _ <;> simp [Received.receive]

/-- A whole response: HEADERS, DATA frames that do not end the stream, and the frame that does. -/
inductive IsResponse (start : Start) (body : Bytes) : Option HeaderList → List SentFrame → Prop
  where
  | plain (chunks : List Bytes) (last : Bytes) (content : chunks.flatten++last=body) :
      IsResponse start body none
        (.headers start::chunks.map (SentFrame.data · false)++[.data last true])
  | withTrailers (chunks : List Bytes) (trailers : HeaderList) (content : chunks.flatten=body) :
      IsResponse start body (some trailers)
        (.headers start::chunks.map (SentFrame.data · false)++[.trailers trailers])

variable {start : Start} {trailers : Option HeaderList} {fs : List SentFrame}

theorem receiveAll_closed {b : Bytes} {r : Received}
    (h : receiveAll (some (.closed start b trailers)) fs=some r) :
    fs=[] ∧ r=.closed start b trailers := by
  cases fs with
  | nil => exact ⟨rfl,(Option.some.inj h).symm⟩
  | cons f fs => simp [Received.receive] at h

theorem IsResponse.cons_data {a : Start} {b : Bytes}
    (h : IsResponse start b trailers (.headers a::fs)) (p : Bytes) :
    IsResponse start (p++b) trailers (.headers a::.data p false::fs) := by
  cases h with
  | plain cs last c => exact .plain (p::cs) last (by rw [← c]; simp)
  | withTrailers cs trailers c => exact .withTrailers (p::cs) trailers (by rw [← c]; simp)

/-- The rest of a response whose HEADERS frame has been received. -/
theorem receiveAll_streaming {a : Start} {b w : Bytes}
    (h : receiveAll (some (.streaming a b)) fs=some (.closed start w trailers)) :
    ∃ content,w=b++content ∧
      IsResponse start content trailers (.headers a::fs) := by
  induction fs generalizing b with
  | nil => simp at h
  | cons frame fs ih =>
    cases frame with
    | headers o => simp [Received.receive] at h
    | data p endStream =>
      cases endStream with
      | true =>
        obtain ⟨rfl,hc⟩ := receiveAll_closed (by simpa [Received.receive] using h)
        obtain ⟨rfl,rfl,rfl⟩ := Received.closed.inj hc
        exact ⟨p,rfl,.plain [] p rfl⟩
      | false =>
        obtain ⟨content,rfl,hr⟩ := ih (by simpa [Received.receive] using h)
        exact ⟨p++content,by simp,hr.cons_data p⟩
    | trailers hl =>
      obtain ⟨rfl,hc⟩ := receiveAll_closed (by simpa [Received.receive] using h)
      obtain ⟨rfl,rfl,rfl⟩ := Received.closed.inj hc
      exact ⟨[],by simp,.withTrailers [] hl rfl⟩

/-- What the peer takes for a whole response is one. -/
theorem isResponse_of_receiveAll {b : Bytes}
    (h : receiveAll (some .nothing) fs=some (.closed start b trailers)) :
    IsResponse start b trailers fs := by
  cases fs with
  | nil => simp at h
  | cons frame fs =>
    cases frame with
    | headers a =>
      obtain ⟨content,rfl,hr⟩ := receiveAll_streaming (by simpa [Received.receive] using h)
      exact hr
    | data p endStream => simp [Received.receive] at h
    | trailers hl => simp [Received.receive] at h

/-- How far an application has got with its response. -/
inductive Application where
  | idle
  | streaming (start : Start) (expectTrailers : Bool) (body : Bytes)
  /-- The last chunk is sent and the trailers are still to come. -/
  | trailing (start : Start) (body : Bytes)
  | done (start : Start) (body : Bytes) (trailers : Option HeaderList)
  deriving DecidableEq

namespace Application

def begin (start : Start) (expectTrailers : Bool) : Application → Option Application
  | .idle => some (.streaming start expectTrailers [])
  | _ => none

def content (payload : Bytes) (moreBody : Bool) : Application → Option Application
  | .streaming start expectTrailers body =>
    if moreBody then some (.streaming start expectTrailers (body++payload))
    else if expectTrailers then some (.trailing start (body++payload))
    else some (.done start (body++payload) none)
  | _ => none

def finish (headers : HeaderList) : Application → Option Application
  | .streaming start true body => some (.done start body (some headers))
  | .trailing start body => some (.done start body (some headers))
  | _ => none

/-- The next event, unless it is not legal here: one start, body events up to the last one, and
trailers when the start has announced them. -/
def accept (app : Application) : ResponseEvent → Option Application
  | .bytes start body =>
    match app with
    | .idle => some (.done start body none)
    | _ => none
  | .start start trailers => app.begin start trailers
  | .body payload moreBody => app.content payload moreBody
  | .trailers headers => app.finish headers
  | .native header body trailers => do
    let app ← header.elim (some app) fun (start,expectTrailers) => app.begin start expectTrailers
    let app ← body.elim (some app) fun (payload,moreBody) => app.content payload moreBody
    trailers.elim (some app) fun headers => app.finish headers

def received : Application → Received
  | .idle => .nothing
  | .streaming start _ body | .trailing start body => .streaming start body
  | .done start body trailers => .closed start body trailers

def body : Application → Bytes
  | .idle => []
  | .streaming _ _ body | .trailing _ body | .done _ body _ => body

end Application

def ResponseEvent.content : ResponseEvent → Bytes
  | .bytes _ content => content
  | .body payload _ => payload
  | .native _ chunk _ => (chunk.map Prod.fst).getD []
  | _ => []

namespace Application

variable {app ap : Application}

theorem begin_body {start : Start} {et : Bool}
    (h : app.begin start et=some ap) : ap.body=app.body := by
  cases app with
  | idle =>
    obtain rfl := Option.some.inj h
    rfl
  | streaming | trailing | done => simp [begin] at h

theorem content_body {p : Bytes} {mb : Bool}
    (h : app.content p mb=some ap) : ap.body=app.body++p := by
  cases app with
  | streaming start et body => cases mb <;> cases et <;> (obtain rfl := Option.some.inj h; rfl)
  | idle | trailing | done => simp [content] at h

theorem finish_body {hs : HeaderList} (h : app.finish hs=some ap) : ap.body=app.body := by
  cases app with
  | streaming start et body =>
    cases et with
    | true =>
      obtain rfl := Option.some.inj h
      rfl
    | false => simp [finish] at h
  | trailing start body =>
    obtain rfl := Option.some.inj h
    rfl
  | idle | done => simp [finish] at h

theorem accept_body {ev : ResponseEvent} (h : app.accept ev=some ap) :
    ap.body=app.body++ev.content := by
  cases ev with
  | bytes start c =>
    cases app with
    | idle =>
      obtain rfl := Option.some.inj h
      rfl
    | streaming | trailing | done => simp [accept] at h
  | start start trailers => exact (begin_body h).trans (List.append_nil _).symm
  | body p mb => exact content_body h
  | trailers hs => exact (finish_body h).trans (List.append_nil _).symm
  | native hdr body trailers =>
    obtain ⟨b,hb,hr⟩ := Option.bind_eq_some_iff.mp h
    obtain ⟨f,hc,hf⟩ := Option.bind_eq_some_iff.mp hr
    have hbe : b.body=app.body := by
      cases hdr with
      | none => rw [← Option.some.inj hb]
      | some a => exact begin_body hb
    have hfi : ap.body=f.body := by
      cases trailers with
      | none => rw [← Option.some.inj hf]
      | some hs => exact finish_body hf
    rw [hfi,← hbe]
    cases body with
    | none =>
      rw [← Option.some.inj hc]
      exact (List.append_nil _).symm
    | some ch => exact content_body hc

end Application
end BlackBull.H2
