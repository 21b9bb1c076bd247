import BlackBull.ResponseCache

/-!
# What the cache sends on a miss

What a miss sends is compared with what the handler sends without the cache: the same events, once
and in order, with an ETag added at most. The wrapper sends all it has kept in `held` again at a
terminal body, so this holds for a response sent at one time only.
-/

namespace BlackBull.Caching

open ByteString

def Event.response? : Event → Option NativeResponse
  | .response r => some r
  | .other _ => none

def responses (events : List Event) : List NativeResponse := events.filterMap Event.response?

def heads (held : List NativeResponse) : List HeaderList := held.filterMap NativeResponse.header

def addEtag (etag : Option Bytes) (response : NativeResponse) : NativeResponse :=
  match etag with
  | none => response
  | some tag =>
    {response with header:=response.header.map (· ++ [(ascii "etag",tag)])}

def Event.addEtag (etag : Option Bytes) : Event → Event
  | .response r => .response (Caching.addEtag etag r)
  | .other event => .other event

/-- The client is sent what the handler sends, with one status and header list at most. -/
structure Transparent (plain sent : List Event) : Prop where
  once : (heads (responses sent)).length≤1
  same : ∃ etag,sent=plain.map (Event.addEtag etag)

/-- The event that makes the cache send what it holds. -/
def releases : Event → Bool
  | .response response => response.filePath.isSome || response.body.isSome
  | .other _ => true

/-- No response comes after the first event that releases. -/
def single : List Event → Bool
  | [] => true
  | event::events => if releases event then (responses events).isEmpty else single events

/-- The responses go on to a terminal body, with nothing between them and no response after it. -/
def closes : List Event → Bool
  | .response response::events =>
    if isTerminal response then (responses events).isEmpty else closes events
  | _ => false

/-- After events that are not responses. -/
def together : List Event → Bool
  | [] => true
  | .other _::events => together events
  | events => closes events

/-- The events of the handler come out as they are: its responses at one time or, if an event that
is not a response comes first, with a terminal body that they go on to. -/
def undisturbed : List Event → Bool
  | .other _::events => together events
  | events => single events

/-- What is sent by a wrapper that has sent before: at each terminal body, all that it holds. -/
def bursts (held : List Bool) : List Bool → List Bool
  | [] => []
  | b::rest =>
    if b then held++[b]++bursts (held++[b]) rest else bursts (held++[b]) rest

theorem count_le_count_bursts (held r : List Bool) : r.count true≤(bursts held r).count true := by
  induction r generalizing held with
  | nil => rfl
  | cons b r ih =>
    have hr := ih (held++[b])
    cases b with
    | true =>
      simp only [bursts,if_true,List.count_append,List.count_cons_self]
      simp only [List.count_nil]
      omega
    | false => simpa [bursts] using hr

theorem length_of_append_true (f f' : List Bool) {bk b : List Bool} (h : true∉f)
    (h' : true∉f') (heq : f++true::bk=f'++true::b) : f.length=f'.length := by
  have hi := congrArg (List.idxOf true) heq
  rw [List.idxOf_append_of_notMem h,List.idxOf_append_of_notMem h'] at hi
  simpa using hi

variable {l : List Bool}

/-- With something held, what comes out is not what goes in; `front` has gone in before, without a
terminal body. -/
theorem bursts_ne_append (f r : List Bool) (hh : l≠[]) (hf : true∉f)
    (hne : f++r≠[]) : bursts (l++f) r≠f++r := by
  induction r generalizing f with
  | nil =>
    intro h
    rw [List.append_nil] at hne h
    exact hne h.symm
  | cons b r ih =>
    intro h
    cases b with
    | false =>
      refine ih (f++[false]) (by simpa using hf) (by simp) ?_
      simpa [bursts] using h
    | true =>
      rw [bursts,if_pos rfl] at h
      have hc := congrArg (List.count true) h
      have hle := count_le_count_bursts (l++f++[true]) r
      simp only [List.count_append,List.count_cons_self,List.count_nil,
        List.count_eq_zero.mpr hf] at hc
      have hcl : true∉l := List.count_eq_zero.mp (by omega)
      have hl := length_of_append_true (l++f) f (by simp [hcl,hf]) hf (by simpa using h)
      rw [List.length_append] at hl
      exact hh (List.length_eq_zero_iff.mp (by omega))

theorem bursts_ne {r : List Bool} (hh : l≠[]) (hr : r≠[]) : bursts l r≠r := by
  simpa using bursts_ne_append [] r hh List.not_mem_nil hr

theorem isTerminal_addEtag (e : Option Bytes) (r : NativeResponse) :
    isTerminal (addEtag e r)=isTerminal r := by
  cases e <;> rfl

theorem addEtag_of_none {r : NativeResponse} (h : r.header=none)
    (e : Option Bytes) : addEtag e r=r := by
  cases e with
  | none => rfl
  | some tag =>
    cases r
    simp_all [addEtag]

theorem map_addEtag_of_heads {l : List NativeResponse} (h : heads l=[])
    (e : Option Bytes) : l.map (addEtag e)=l := by
  rw [heads,List.filterMap_eq_nil_iff] at h
  conv_rhs => rw [← List.map_id l]
  exact List.map_congr_left fun r hr => addEtag_of_none (h r hr) e

theorem heads_map_addEtag (e : Option Bytes) (l : List NativeResponse) :
    (heads (l.map (addEtag e))).length=(heads l).length := by
  induction l with
  | nil => rfl
  | cons response l ih =>
    have hh : (addEtag e response).header.isSome=response.header.isSome := by
      cases e <;> simp [addEtag]
    cases hr : response.header with
    | none =>
      have hn : (addEtag e response).header=none := by simpa [hr] using hh
      simpa [heads,hr,hn] using ih
    | some header =>
      obtain ⟨header',hs⟩ : ∃ header',(addEtag e response).header=some header' :=
        Option.isSome_iff_exists.mp (by simp [hh,hr])
      simpa [heads,hr,hs] using ih

theorem map_isTerminal_replaceHeader (hs : HeaderList) (l : List NativeResponse) :
    (replaceHeader hs l).map isTerminal=l.map isTerminal := by
  induction l with
  | nil => rfl
  | cons r l ih =>
    rw [replaceHeader]
    split
    · rfl
    · rw [List.map_cons,ih,List.map_cons]

theorem replaceHeader_of_heads {l : List NativeResponse} {hdr : HeaderList} (tag : Bytes)
    (h : heads l=[hdr]) :
    replaceHeader (hdr++[(ascii "etag",tag)]) l=l.map (addEtag (some tag)) := by
  induction l with
  | nil => cases h
  | cons r l ih =>
    cases hr : r.header with
    | none =>
      have hh : heads l=[hdr] := by simpa [heads,hr] using h
      rw [replaceHeader,hr,if_neg (by simp),ih hh,List.map_cons,addEtag_of_none hr]
    | some own =>
      obtain ⟨rfl,hh⟩ : own=hdr ∧ heads l=[] := by simpa [heads,hr] using h
      rw [replaceHeader,hr,if_pos (by simp),List.map_cons,map_addEtag_of_heads hh,addEtag,hr]
      rfl

section

variable (cfg : Config) (dg : Bytes → Bytes)

/-- The status and the header list are those of the last response that had them. -/
structure Tracks (capture : Capture) : Prop where
  status : capture.status.isSome = !(heads capture.held).isEmpty
  headers : ∀ header∈(heads capture.held).getLast?,capture.responseHeaders=header

@[simp] theorem hold_held (c : Capture) (r : NativeResponse) : (c.hold r).held=c.held++[r] := by
  unfold Capture.hold
  cases r.header <;> rfl

@[simp] theorem hold_flushed (c : Capture) (r : NativeResponse) : (c.hold r).flushed=c.flushed := by
  unfold Capture.hold
  cases r.header <;> rfl

theorem Tracks.hold {c : Capture} (h : Tracks c) (r : NativeResponse) : Tracks (c.hold r) := by
  have hs := h.status
  have hh := h.headers
  unfold Capture.hold
  cases hr : r.header with
  | none =>
    constructor
    · simpa [heads,hr] using hs
    · simpa [heads,hr] using hh
  | some hdr =>
    constructor
    · simp [heads,hr]
    · simp [heads,hr]

theorem tracks_flushed {c : Capture} (h : Tracks c) (cs : List Bytes)
    (fl : Bool) : Tracks {c with bodyChunks:=cs,flushed:=fl} :=
  ⟨h.status,h.headers⟩

/-- What the decision leaves in `held`: the same, or the same with other headers in the first that
has headers. -/
theorem decideStore_held (c : Capture) : (decideStore cfg dg c).1.held=c.held ∨
      c.status.isSome=true ∧ ∃ tag,(decideStore cfg dg c).1.held =
        replaceHeader (c.responseHeaders++[(ascii "etag",tag)]) c.held := by
  unfold decideStore
  dsimp only
  split
  · next hc =>
    split
    · exact .inl rfl
    · next e _ =>
      split_ifs
      · have hs : c.status.isSome=true := by
          cases hs : c.status with
          | none => simp [shouldCache,hs] at hc
          | some s => rfl
        exact .inr ⟨hs,e,rfl⟩
      · exact .inl rfl
  · exact .inl rfl

theorem map_isTerminal_decideStore (c : Capture) :
    (decideStore cfg dg c).1.held.map isTerminal=c.held.map isTerminal := by
  rcases decideStore_held cfg dg c with h | ⟨-,tag,h⟩
  · rw [h]
  · rw [h,map_isTerminal_replaceHeader]

theorem decideStore_addEtag {c : Capture} (h : Tracks c) (hh : (heads c.held).length≤1) :
    ∃ e,(decideStore cfg dg c).1.held=c.held.map (addEtag e) := by
  rcases decideStore_held cfg dg c with hhe | ⟨hs,tag,hhe⟩
  · exact ⟨none,by rw [hhe]; exact (List.map_id _).symm⟩
  · refine ⟨some tag,?_⟩
    rw [h.status] at hs
    cases hl : heads c.held with
    | nil => simp [hl] at hs
    | cons hdr rest =>
      rw [hl,List.length_cons] at hh
      obtain rfl : rest=[] := List.length_eq_zero_iff.mp (by omega)
      have ho : c.responseHeaders=hdr := h.headers hdr (by simp [hl])
      rw [hhe,ho,replaceHeader_of_heads tag hl]

theorem capSend_hold {r : NativeResponse} (h : releases (.response r)=false) (c : Capture) :
    capSend cfg dg c (.response r)={capture:=c.hold r} := by
  obtain ⟨hf,hb⟩ : r.filePath=none ∧ r.body=none := by simpa [releases] using h
  rw [capSend,hf,hb]
  rfl

theorem capSend_release {r : NativeResponse} (h : releases (.response r)=true)
    (ht : isTerminal r=false) (c : Capture) : ∃ cs,capSend cfg dg c (.response r) =
      release {c.hold r with bodyChunks:=cs} := by
  rw [capSend]
  dsimp only
  cases hf : r.filePath with
  | some p => exact ⟨_,rfl⟩
  | none =>
    cases hb : r.body with
    | none => simp [releases,hf,hb] at h
    | some body =>
      cases hm : r.moreBody with
      | true => exact ⟨_,rfl⟩
      | false => simp [isTerminal,hf,hb,hm] at ht

/-- The response goes out with all that is held before it, with an ETag added at most. -/
def SendsAll (capture : Capture) (response : NativeResponse) : Prop :=
  ∃ final : Capture,
    (capSend cfg dg capture (.response response)).sent=final.held.map .response ∧
    (capSend cfg dg capture (.response response)).capture={final with flushed:=true} ∧
    final.held.map isTerminal=(capture.held++[response]).map isTerminal ∧
    (Tracks capture → (heads (capture.held++[response])).length≤1 →
      ∃ etag,final.held=(capture.held++[response]).map (addEtag etag))

theorem capSend_terminal {r : NativeResponse} (h : isTerminal r=true) (c : Capture) :
    SendsAll cfg dg c r := by
  obtain ⟨⟨hf,hb⟩,hm⟩ : (r.filePath=none ∧ r.body.isSome) ∧ r.moreBody=false := by
    simpa [isTerminal] using h
  obtain ⟨body,hb⟩ := Option.isSome_iff_exists.mp hb
  let l : Capture :=
    {c.hold r with bodyChunks:=(c.hold r).bodyChunks++[body]}
  have hh : l.held=c.held++[r] := hold_held c r
  refine ⟨(decideStore cfg dg l).1,?_,?_,?_,fun ht hhe => ?_⟩
  · rw [capSend,hf,hb,hm]
    rfl
  · rw [capSend,hf,hb,hm]
    rfl
  · rw [map_isTerminal_decideStore cfg dg,hh]
  · rw [← hh] at hhe ⊢
    exact decideStore_addEtag cfg dg (tracks_flushed (ht.hold r) _ _) hhe

/-- A wrapper that has sent nothing sends all that it holds at the first event that releases. -/
theorem capSend_sends {r : NativeResponse} (h : releases (.response r)=true)
    {c : Capture} (hf : c.flushed=false) : SendsAll cfg dg c r := by
  cases ht : isTerminal r with
  | true => exact capSend_terminal cfg dg ht c
  | false =>
    obtain ⟨cs,hs⟩ := capSend_release cfg dg h ht c
    refine ⟨{c.hold r with bodyChunks:=cs},?_,?_,?_,fun _ _ => ⟨none,?_⟩⟩
    · rw [hs]
      simp [release,hf]
    · rw [hs]
      rfl
    · simp
    · rw [hold_held]
      exact (List.map_id _).symm

variable {cfg dg}

theorem captureAll_cons (c : Capture) (ev : Event) (evs : List Event) :
    captureAll cfg dg c (ev::evs)=(capSend cfg dg c ev).sent ++
        captureAll cfg dg (capSend cfg dg c ev).capture evs := rfl

@[simp] theorem responses_append (a l : List Event) :
    responses (a++l)=responses a++responses l := List.filterMap_append

@[simp] theorem responses_map_response (l : List NativeResponse) :
    responses (l.map .response)=l := by
  simp [responses,List.filterMap_map,Function.comp_def,Event.response?]

@[simp] theorem responses_nil : responses []=[] := rfl

@[simp] theorem responses_cons_other (ev : Bytes) (evs : List Event) :
    responses (.other ev::evs)=responses evs := rfl

@[simp] theorem responses_cons_response (r : NativeResponse) (evs : List Event) :
    responses (.response r::evs)=r::responses evs := rfl

theorem captureAll_other {c : Capture} (h : c.flushed=true) (ev : Bytes) (es : List Event) :
    captureAll cfg dg c (.other ev::es)=.other ev::captureAll cfg dg c es := by
  cases c
  subst h
  rfl

/-- After the first sending, a response that is not terminal is only held. -/
theorem captureAll_kept {c : Capture} (h : c.flushed=true) {r : NativeResponse}
    (ht : isTerminal r=false) (es : List Event) :
    ∃ c',c'.held=c.held++[r] ∧ c'.flushed=true ∧ (Tracks c → Tracks c') ∧
      captureAll cfg dg c (.response r::es)=captureAll cfg dg c' es := by
  rw [captureAll_cons]
  cases hr : releases (.response r) with
  | true =>
    obtain ⟨cs,hs⟩ := capSend_release cfg dg hr ht c
    refine ⟨{c.hold r with bodyChunks:=cs,flushed:=true},hold_held c r,rfl,
      fun hc => tracks_flushed (hc.hold r) _ _,?_⟩
    rw [hs]
    simp [release,h]
  | false =>
    rw [capSend_hold cfg dg hr]
    exact ⟨c.hold r,hold_held c r,by rw [hold_flushed,h],fun hc => hc.hold r,rfl⟩

theorem terminals_of_flushed {c : Capture} (h : c.flushed=true)
    (es : List Event) : (responses (captureAll cfg dg c es)).map isTerminal =
      bursts (c.held.map isTerminal) ((responses es).map isTerminal) := by
  induction es generalizing c with
  | nil => simp [captureAll,h,responses,bursts]
  | cons e es ih =>
    cases e with
    | other e => rw [captureAll_other h,responses_cons_other,responses_cons_other,ih h]
    | response response =>
      rw [responses_cons_response,List.map_cons,bursts]
      cases ht : isTerminal response with
      | true =>
        obtain ⟨f,hs,hc,hf,-⟩ := capSend_terminal cfg dg ht c
        rw [captureAll_cons,responses_append,List.map_append,hs,hc,responses_map_response,
          if_pos rfl,ih rfl,hf]
        simp [ht]
      | false =>
        obtain ⟨c',hh,hf,-,hs⟩ := captureAll_kept h ht es
        rw [hs,if_neg Bool.false_ne_true,ih hf,hh]
        simp [ht]

@[simp] theorem releases_other (ev : Bytes) : releases (.other ev)=true := rfl

theorem responses_addEtag (e : Option Bytes) (es : List Event) :
    responses (es.map (Event.addEtag e))=(responses es).map (addEtag e) := by
  induction es with
  | nil => rfl
  | cons event es ih =>
    cases event with
    | other ev => exact ih
    | response r => exact congrArg (addEtag e r :: ·) ih

theorem terminals_addEtag (e : Option Bytes) (es : List Event) :
    (responses (es.map (Event.addEtag e))).map isTerminal=(responses es).map isTerminal := by
  rw [responses_addEtag,List.map_map]
  exact List.map_congr_left fun r _ => isTerminal_addEtag e r

theorem map_addEtag_of_no_responses (e : Option Bytes) {es : List Event} (h : responses es=[]) :
    es.map (Event.addEtag e)=es := by
  induction es with
  | nil => rfl
  | cons event es ih =>
    cases event with
    | other ev => rw [List.map_cons,ih h,Event.addEtag]
    | response r => cases h

theorem map_addEtag_none (es : List Event) : es.map (Event.addEtag none)=es := by
  conv_rhs => rw [← List.map_id es]
  exact List.map_congr_left fun event _ => by cases event <;> rfl

theorem captureAll_of_no_responses {c : Capture} (h : c.flushed=true) {es : List Event}
    (hn : responses es=[]) : captureAll cfg dg c es=es := by
  induction es with
  | nil => simp [captureAll,h]
  | cons e es ih =>
    cases e with
    | other e => rw [captureAll_other h,ih hn]
    | response r => cases hn

/-- Once something has been sent, a further response is lost or is sent with all that was. -/
theorem responses_eq_nil_of_flushed {c : Capture} (h : c.flushed=true) (hh : c.held≠[])
    {es : List Event} (hs : (responses (captureAll cfg dg c es)).map isTerminal =
      (responses es).map isTerminal) : responses es=[] := by
  rw [terminals_of_flushed h] at hs
  by_contra hne
  exact bursts_ne (by simpa using hh) (by simpa using hne) hs

/-- A wrapper that has sent nothing: what it sends has the right terminal bodies only if no
response comes after the first event that releases. -/
theorem single_of_terminals {c : Capture} (h : c.flushed=false) {es : List Event}
    (hf : c.held≠[] ∨ ∀ ev,es.head? ≠ some (.other ev)) (hs : (responses
    (captureAll cfg dg c es)).map isTerminal=(c.held++responses
    es).map isTerminal) : single es=true := by
  induction es generalizing c with
  | nil => rfl
  | cons e es ih =>
    rw [captureAll_cons,responses_append] at hs
    cases e with
    | other e =>
      have hh : c.held≠[] := hf.resolve_right fun hn => hn e rfl
      have hse : (capSend cfg dg c (.other e)).sent = c.held.map .response++[.other e] := by
        simp [capSend,release,h]
      have hc : (capSend cfg dg c (.other e)).capture = {c with flushed:=true} := rfl
      rw [hse,hc,responses_append,responses_map_response,responses_cons_other,
        responses_cons_other,responses_nil,List.append_nil,List.map_append,List.map_append,
        List.append_cancel_left_eq] at hs
      rw [single,releases_other,if_pos rfl,List.isEmpty_iff]
      exact responses_eq_nil_of_flushed (c := {c with flushed:=true}) rfl hh hs
    | response response =>
      cases hr : releases (.response response) with
      | true =>
        obtain ⟨f,hse,hc,hfi,-⟩ := capSend_sends cfg dg hr h
        rw [single,if_pos hr,List.isEmpty_iff]
        rw [hse,hc,responses_map_response,List.map_append,responses_cons_response,
          ← List.singleton_append,← List.append_assoc,List.map_append,← hfi,
          List.append_cancel_left_eq] at hs
        have hh : f.held≠[] := by
          intro hni
          simp [hni] at hfi
        exact responses_eq_nil_of_flushed (c := {f with flushed:=true}) rfl hh hs
      | false =>
        rw [single,hr,if_neg Bool.false_ne_true]
        rw [capSend_hold cfg dg hr] at hs
        have hh : (c.hold response).held≠[] := by simp
        refine ih (by simp [h]) (.inl hh) ?_
        simpa using hs

/-- A wrapper that has sent other events only sends what it holds and what is to come as they are
only if the responses go on to a terminal body. -/
theorem closes_of_sent {c : Capture} (h : c.flushed=true) {es : List Event} {et : Option Bytes}
    (hh : ∃ r l,c.held.map Event.response++es=.response r::l)
    (hs : captureAll cfg dg c es=(c.held.map Event.response++es).map (Event.addEtag et)) :
    closes es=true := by
  induction es generalizing c with
  | nil =>
    obtain ⟨r,l,hh⟩ := hh
    rw [hh] at hs
    simp [captureAll,h] at hs
  | cons e es ih =>
    cases e with
    | other e =>
      obtain ⟨r,l,hh⟩ := hh
      rw [hh,captureAll_other h] at hs
      cases (List.cons.inj hs).1
    | response response =>
      rw [closes]
      cases ht : isTerminal response with
      | true =>
        obtain ⟨f,hse,hc,hf,-⟩ := capSend_terminal cfg dg ht c
        rw [captureAll_cons,hse,hc,← List.singleton_append,← List.append_assoc,
          List.map_append] at hs
        have hl : f.held.length=c.held.length+1 := by simpa using congrArg List.length hf
        obtain ⟨-,hs⟩ := List.append_inj hs (by simp [hl])
        have hne : f.held≠[] := by
          intro hn
          simp [hn] at hl
        rw [if_pos rfl,List.isEmpty_iff]
        have hte := terminals_addEtag et es
        rw [← hs] at hte
        exact responses_eq_nil_of_flushed (c := {f with flushed:=true}) rfl hne hte
      | false =>
        obtain ⟨c',hh',hf,-,hk⟩ := captureAll_kept h ht es
        rw [if_neg Bool.false_ne_true]
        rw [hk] at hs
        exact ih hf (by simpa [hh'] using hh) (by simpa [hh'] using hs)

theorem together_of_sent {c : Capture} (h : c.flushed=true) (hh : c.held=[]) {es : List Event}
    {et : Option Bytes} (hs : captureAll cfg dg c es=es.map (Event.addEtag et)) :
    together es=true := by
  induction es with
  | nil => rfl
  | cons e es ih =>
    cases e with
    | other e =>
      rw [captureAll_other h] at hs
      exact ih (List.cons.inj hs).2
    | response r => exact closes_of_sent h ⟨r,es,by simp [hh]⟩ (by simpa [hh] using hs)

/-- What was held goes out with a response, and events that are not responses follow. -/
theorem sent_with {l held : List NativeResponse} {r : NativeResponse} {es : List Event}
    {et : Option Bytes} (hl : l=(held++[r]).map (addEtag et)) (hn : responses es=[]) :
    l.map Event.response++es=(held.map Event.response++.response r::es).map
      (Event.addEtag et) := by
  rw [List.map_append,List.map_cons,map_addEtag_of_no_responses et hn,hl]
  simp [Event.addEtag]

/-- A wrapper that has sent nothing: if no response comes after the first event that releases, all
of them are sent as they are. -/
theorem sent_of_single {c : Capture} (h : c.flushed=false)
    (ht : Tracks c) {es : List Event} (hs : single es=true)
    (hh : (heads (c.held++responses es)).length≤1) :
    ∃ et,captureAll cfg dg c es=(c.held.map Event.response++es).map (Event.addEtag et) := by
  induction es generalizing c with
  | nil =>
    refine ⟨none,?_⟩
    rw [captureAll,h,if_neg Bool.false_ne_true,map_addEtag_none,List.append_nil]
  | cons e es ih =>
    rw [captureAll_cons]
    cases e with
    | other e =>
      have hn : responses es=[] := by simpa [single,releases] using hs
      have hse : (capSend cfg dg c (.other e)).sent = c.held.map .response++[.other e] := by
        simp [capSend,release,h]
      refine ⟨none,?_⟩
      rw [hse,captureAll_of_no_responses rfl hn,map_addEtag_none,List.append_assoc]
      rfl
    | response response =>
      cases hr : releases (.response response) with
      | true =>
        have hn : responses es=[] := by simpa [single,hr] using hs
        rw [responses_cons_response,hn] at hh
        obtain ⟨f,hse,hc,-,hf⟩ := capSend_sends cfg dg hr h
        obtain ⟨et,he⟩ := hf ht hh
        refine ⟨et,?_⟩
        rw [hse,hc,captureAll_of_no_responses rfl hn,sent_with he hn]
      | false =>
        rw [single,hr,if_neg Bool.false_ne_true] at hs
        rw [responses_cons_response,← List.singleton_append,← List.append_assoc,
          ← hold_held] at hh
        obtain ⟨et,he⟩ := ih (by simp [h]) (ht.hold response) hs hh
        refine ⟨et,?_⟩
        rw [capSend_hold cfg dg hr,List.nil_append,he,hold_held]
        simp

/-- A wrapper that has sent other events only: the responses that go on to a terminal body are sent
with it, as they are. -/
theorem sent_of_closes {c : Capture} (h : c.flushed=true) (ht : Tracks c) {es : List Event}
    (hl : closes es=true) (hh : (heads (c.held++responses es)).length≤1) :
    ∃ et,captureAll cfg dg c es=(c.held.map Event.response++es).map (Event.addEtag et) := by
  induction es generalizing c with
  | nil => cases hl
  | cons e es ih =>
    cases e with
    | other e => cases hl
    | response response =>
      rw [closes] at hl
      cases hr : isTerminal response with
      | true =>
        have hn : responses es=[] := by simpa [hr] using hl
        rw [responses_cons_response,hn] at hh
        obtain ⟨f,hs,hc,-,hf⟩ := capSend_terminal cfg dg hr c
        obtain ⟨et,he⟩ := hf ht hh
        refine ⟨et,?_⟩
        rw [captureAll_cons,hs,hc,captureAll_of_no_responses rfl hn,sent_with he hn]
      | false =>
        obtain ⟨c',hh',hf,hk,hs⟩ := captureAll_kept h hr es
        rw [responses_cons_response,← List.singleton_append,← List.append_assoc,← hh'] at hh
        obtain ⟨et,he⟩ := ih hf (hk ht) (by simpa [hr] using hl) hh
        refine ⟨et,?_⟩
        rw [hs,he,hh']
        simp

theorem sent_of_together {c : Capture} (h : c.flushed=true) (ht : Tracks c) (hc : c.held=[])
    {es : List Event} (hl : together es=true) (hh : (heads (responses es)).length≤1) :
    ∃ et,captureAll cfg dg c es=es.map (Event.addEtag et) := by
  induction es with
  | nil => exact ⟨none,by simp [captureAll,h]⟩
  | cons e es ih =>
    cases e with
    | other e =>
      obtain ⟨et,he⟩ := ih hl hh
      exact ⟨et,by rw [captureAll_other h,he]; rfl⟩
    | response r =>
      obtain ⟨et,he⟩ := sent_of_closes h ht hl (by simpa [hc] using hh)
      exact ⟨et,by simpa [hc] using he⟩

theorem tracks_initial : Tracks {} := ⟨rfl,fun _ h => by cases h⟩

end

example : undisturbed
    ([.start 200 [] false,.body (some [97]) false].map wrapNativeSend)=true := by decide

def streamedBody : List HandlerEvent :=
  [.start 500 [] false,.body (some [97]) true,.body (some [98]) true,.body (some [99]) false]

def trailedBody : List HandlerEvent :=
  [.start 500 [] true,.body (some [97]) false,.trailers []]

end BlackBull.Caching
