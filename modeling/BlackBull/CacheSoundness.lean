import BlackBull.CacheTransparency
import BlackBull.TransitionRuns

/-!
# What the cache answers with

Every answer from the store is traced to the flight whose handler produced it: the same method, path
and query, the same values of the fields the response varies on, within its lifetime, and with the
header list as it was.
-/

namespace BlackBull.Caching

open ByteString

structure Produced where
  status : ℕ
  header : HeaderList
  body : Bytes
  deriving DecidableEq

def statusLines (held : List NativeResponse) : List (ℕ × HeaderList) :=
  held.filterMap fun response => response.header.map (response.status,·)

def isPlain (response : NativeResponse) : Bool :=
  response.trailers.isNone && response.filePath.isNone

/-- The response as a whole; there is none if it has several status lines, trailers or a file. -/
def produced (held : List NativeResponse) : Option Produced :=
  match statusLines held with
  | [(status,header)] =>
    if held.all isPlain then
      some ⟨status,header,(held.filterMap NativeResponse.body).flatten⟩
    else none
  | _ => none

def fieldLines (name : Bytes) (headers : HeaderList) : List Bytes :=
  (headers.filter fun pair => lower pair.1=name).map Prod.snd

def glue (front : Bytes) : List Bytes → List Bytes
  | [] => [front]
  | piece::pieces => (front++piece)::pieces

/-- The elements of a list, which is cut at the commas that are not in a quoted string. -/
def elements : Bool → Bytes → List Bytes
  | _,[] => [[]]
  | true,92::b::rest => glue [92,b] (elements true rest)
  | quoted,b::rest =>
    if b=44 && !quoted then []::elements false rest
    else glue [b] (elements (if b=34 then !quoted else quoted) rest)

def quotedContent : Bytes → Bytes
  | [] => []
  | 92::b::rest => b::quotedContent rest
  | b::rest => if b=34 then [] else b::quotedContent rest

def unquoted : Bytes → Bytes
  | 34::rest => quotedContent rest
  | text => text

/-- The directives of the Cache-Control lines. -/
def directives (header : HeaderList) : List Bytes :=
  (fieldLines (ascii "cache-control") header).flatMap fun line =>
    (elements false line).map fun element => lower (strip isSpace element)

/-- The argument of a directive of this name. -/
def argument? (name directive : Bytes) : Option Bytes :=
  if startsWith directive (name++[61]) then some (directive.drop (name.length+1)) else none

def seconds? (name directive : Bytes) : Option ℕ :=
  (argument? name directive).bind fun text =>
    if isdigit (unquoted text) then some (ofDigits 10 (unquoted text)) else none

def declaredAge (header : HeaderList) : Option ℕ :=
  ((directives header).findSome? (seconds? (ascii "s-maxage"))).or
    ((directives header).findSome? (seconds? (ascii "max-age")))

def declaredLifetime (config : Config) (header : HeaderList) : ℤ :=
  (declaredAge header).getD config.maxAge

/-- No Cache-Control line has a quoted string, and each of the two lifetimes is given at most once,
in digits that `int` takes. -/
def readable (header : HeaderList) : Bool :=
  (fieldLines (ascii "cache-control") header).all (fun line => !(34∈line)) &&
    [ascii "s-maxage",ascii "max-age"].all fun name =>
      let arguments := (directives header).filterMap (argument? name)
      arguments.length≤1 && arguments.all fun text =>
        isdigit text && text.length ≤ integerMaxDigits

def fieldValue (name : Bytes) (headers : HeaderList) : Bytes :=
  List.intercalate (ascii ", ") (fieldLines name headers)

/-- The headers of a stored response: its own, with an ETag added at most. -/
def Tagged (header stored : HeaderList) : Prop :=
  stored=header ∨ ∃ tag,stored=header++[(ascii "etag",tag)]

section

variable (config : Config) (digest : Bytes → Bytes)

/-- The response of a flight that may be stored: when it finished, what it varies on, that no
directive and no credential forbids it. -/
structure Storable (flight : Flight) (response : Produced) (finished : ℚ)
    (varyFields : List Bytes) : Prop where
  whole : produced (responses flight.events)=some response
  finishedAt : flight.finishedAt=some finished
  vary : responseVary response.header=some varyFields
  status : response.status∈config.cacheableStatuses
  directives : ∀ directive∈[ascii "no-store",ascii "private",ascii "no-cache"],
    directive∉directives response.header ∧
      (directives response.header).filterMap (argument? directive)=[]
  authorised : config.cacheAuthenticated=true ∨
    fieldLines (ascii "authorization") flight.request.headers=[]

structure Answers (flight : Flight) (hit : Hit) (response : Produced) (finished : ℚ)
    (varyFields : List Bytes) : Prop extends
    Storable config flight response finished varyFields where
  key : flight.request.key=hit.request.key
  values : ∀ field∈varyFields,
    fieldValue field flight.request.headers=fieldValue field hit.request.headers
  fresh : hit.now<finished+declaredLifetime config response.header
  answer : (∃ header,Tagged response.header header ∧ hit.response =
      {status:=response.status,header:=some header,body:=some response.body}) ∨
    ∃ tag,chooseEtag config digest response.header response.body=some tag ∧
      hit.response={status:=304,header:=some [(ascii "etag",tag)],body:=some []} ∧
      ∃ sent∈(fieldLines (ascii "if-none-match") hit.request.headers).head?,
        etagMatches sent tag=true

/-- Every answer from the store is the response of a flight. -/
def Traced (s : Server) : Prop :=
  ∀ hit∈s.hits,∃ flight∈s.flights,∃ response finished varyFields,
    Answers config digest flight hit response finished varyFields

end

theorem get?_foldl_indexFirst (hs : HeaderList) (out : Dict Bytes Bytes) (name : Bytes) :
    (hs.foldl indexFirst out).get? name =
      (out.get? name).or (fieldLines name hs).head? := by
  induction hs generalizing out with
  | nil => simp [fieldLines]
  | cons pair hs ih =>
    rw [List.foldl_cons,ih,indexFirst]
    by_cases hn : lower pair.1=name
    · subst hn
      cases hf : out.get? (lower pair.1) with
      | some v => simp [hf]
      | none => simp [Dict.get?_set,fieldLines]
    · have hl : fieldLines name (pair::hs)=fieldLines name hs := by
        simp [fieldLines,hn]
      rw [hl]
      cases hf : out.get? (lower pair.1) with
      | some v => rfl
      | none => simp [Dict.get?_set,hn]

theorem get?_requestHeaders (hs : HeaderList) (name : Bytes) :
    (requestHeaders hs).get? name=(fieldLines name hs).head? := by
  rw [requestHeaders,get?_foldl_indexFirst]
  rfl

variable {name : Bytes} {header : HeaderList}

theorem fieldValue_eq {hs : HeaderList} (h : (fieldLines name hs).length≤1) :
    fieldValue name hs=((requestHeaders hs).get? name).getD [] := by
  rw [fieldValue,get?_requestHeaders]
  cases hl : fieldLines name hs with
  | nil => simp
  | cons line l =>
    rw [hl,List.length_cons] at h
    obtain rfl : l=[] := List.length_eq_zero_iff.mp (by omega)
    simp

theorem values_of_varyKey {varyFields : List Bytes} {hs hs' : HeaderList}
    (h : varyKey varyFields (requestHeaders hs)=varyKey varyFields (requestHeaders hs'))
    (hl : ∀ f∈varyFields,(fieldLines f hs).length≤1)
    (hl' : ∀ f∈varyFields,(fieldLines f hs').length≤1) :
    ∀ f∈varyFields,fieldValue f hs=fieldValue f hs' := by
  intro f hf
  have hp := List.map_inj_left.mp h f hf
  rw [fieldValue_eq (hl f hf),fieldValue_eq (hl' f hf)]
  exact (Prod.mk.inj hp).2

theorem lifetime_of_tagged {st : HeaderList} (h : Tagged header st) (config : Config) :
    lifetime config st=lifetime config header := by
  have hm : members (ascii "cache-control") st=members (ascii "cache-control") header := by
    rcases h with rfl | ⟨tag,rfl⟩
    · rfl
    · have hl : lower (ascii "etag")≠ascii "cache-control" := by decide
      simp [members,hl]
  unfold lifetime responseMaxAge
  rw [hm]

section Reading

theorem elements_eq {line : Bytes} (h : 34∉line) : elements false line=splitByte 44 line := by
  induction line with
  | nil => rfl
  | cons b rest ih =>
    obtain ⟨hb,hr⟩ := List.ne_and_not_mem_of_not_mem_cons h
    rw [elements,splitByte,if_neg (Ne.symm hb),ih hr]
    · cases hs : splitByte 44 rest with
      | nil => exact absurd hs (splitByte_ne_nil 44 rest)
      | cons piece pieces => by_cases hc : b=44 <;> simp [hc,glue]
    · simp

theorem directives_eq (h : readable header=true) :
    directives header=members (ascii "cache-control") header := by
  rw [readable,Bool.and_eq_true,List.all_eq_true] at h
  rw [directives,fieldLines,List.flatMap_map,members]
  refine List.flatMap_congr fun pair hp => ?_
  have hq := h.1 pair.2 (List.mem_map_of_mem hp)
  rw [elements_eq (by simpa using hq)]

theorem parseInt_digits {text : Bytes} (h : isdigit text=true)
    (hl : text.length ≤ integerMaxDigits) : parseInt text=some (ofDigits 10 text : ℤ) := by
  obtain ⟨-,hd⟩ : text≠[] ∧ ∀ b∈text,isDigit b=true := by simpa [isdigit] using h
  have hn {b : UInt8} (hb : isDigit b=false) : b∉text := fun hm => by
    rw [hd b hm] at hb
    cases hb
  have hs : strip isSpace text=text := by
    refine strip_of_forall fun b hb => ?_
    have ho := forall_octet (p := fun b => !isDigit b || !isSpace b) (by decide +kernel) b
    simpa [hd b hb] using ho
  have hg := splitByte_of_notMem 95 text (hn (by decide))
  unfold parseInt
  rw [hs]
  dsimp only
  split
  · exact absurd List.mem_cons_self (hn (by decide))
  · exact absurd List.mem_cons_self (hn (by decide))
  · simp [hg,h,hl]

/-- The last of the values that the items give replaces the first. -/
theorem foldl_latest {α : Type} {f : Option ℤ × Option ℤ → α → Option ℤ × Option ℤ}
    {g k : α → Option ℤ} {l : List α}
    (hf : ∀ i∈l,∀ a b,f (a,b) i=((g i).or a,(k i).or b)) (a b : Option ℤ) :
    l.foldl f (a,b)=((l.filterMap g).getLast?.or a,(l.filterMap k).getLast?.or b) := by
  have ho (g : α → Option ℤ) (i : α) (l : List α) (a : Option ℤ) :
      (l.filterMap g).getLast?.or ((g i).or a)=((i::l).filterMap g).getLast?.or a := by
    cases hg : g i with
    | none => simp [hg]
    | some v => cases hl : (l.filterMap g).getLast? <;> simp [hg,hl,List.getLast?_cons]
  induction l generalizing a b with
  | nil => rfl
  | cons i l ih =>
    rw [List.foldl_cons,hf i List.mem_cons_self,ih fun i hi => hf i (List.mem_cons_of_mem _ hi),
      ho,ho]

/-- On a readable header `int` converts the only argument, and its value is the declared one. -/
theorem arguments_of_readable (h : readable header=true)
    (hm : name∈[ascii "s-maxage",ascii "max-age"]) :
    (((directives header).filterMap (argument? name)).filterMap parseInt).getLast? =
      ((directives header).findSome? (seconds? name)).map (↑) := by
  rw [readable,Bool.and_eq_true] at h
  have hn := List.all_eq_true.mp h.2 name hm
  have hs : (directives header).findSome? (seconds? name) =
      ((directives header).filterMap (argument? name)).findSome? fun text =>
        if isdigit (unquoted text) then some (ofDigits 10 (unquoted text)) else none := by
    rw [← List.head?_filterMap,← List.head?_filterMap,List.filterMap_filterMap]
    rfl
  rw [hs]
  generalize (directives header).filterMap (argument? name)=l at hn
  match l,hn with
  | [],_ => rfl
  | [text],hn =>
    obtain ⟨hd,hl⟩ : isdigit text=true ∧ text.length ≤ integerMaxDigits := by simpa using hn
    have hu : unquoted text=text := by
      unfold unquoted
      split
      · simp [isdigit,isDigit] at hd
      · rfl
    simp [hu,hd,parseInt_digits hd hl]
  | _::_::_,hn => simp at hn

/-- On a readable header the code's reading of the lifetime is that of the directives. -/
theorem responseMaxAge_eq (h : readable header=true) :
    responseMaxAge header=(declaredAge header).map (↑) := by
  have hf (token : Bytes) (a b : Option ℤ) :
      (if startsWith token (ascii "s-maxage=") then ((parseInt (token.drop 9)).or a,b)
        else if startsWith token (ascii "max-age=") then (a,(parseInt (token.drop 8)).or b)
        else (a,b)) =
        (((argument? (ascii "s-maxage") token).bind parseInt).or a,
          ((argument? (ascii "max-age") token).bind parseInt).or b) := by
    have hs : argument? (ascii "s-maxage") token=if startsWith token (ascii "s-maxage=") then
        some (token.drop 9) else none := rfl
    have hm : argument? (ascii "max-age") token=if startsWith token (ascii "max-age=") then
        some (token.drop 8) else none := rfl
    rw [hs,hm]
    split_ifs with h h'
    · obtain ⟨r,rfl⟩ := List.isPrefixOf_iff_prefix.mp h
      obtain ⟨r',h'⟩ := List.isPrefixOf_iff_prefix.mp h'
      cases (List.cons.inj h').1
    · rfl
    · rfl
    · rfl
  unfold responseMaxAge declaredAge
  rw [← directives_eq h,foldl_latest fun token _ a b => hf token a b]
  dsimp only
  rw [← List.filterMap_filterMap,← List.filterMap_filterMap,arguments_of_readable h (by simp),
    arguments_of_readable h (by simp)]
  cases (directives header).findSome? (seconds? (ascii "s-maxage")) <;> simp

/-- On a readable header the code finds every directive. -/
theorem mem_cacheControl (h : readable header=true) (hn : 61∉name) (hne : name≠[])
    (hm : name∉cacheControl header) : name∉directives header ∧
      (directives header).filterMap (argument? name)=[] := by
  rw [directives_eq h,List.filterMap_eq_nil_iff]
  constructor
  · intro ht
    exact hm (List.mem_flatMap.mpr ⟨name,ht,by simp [hn,hne]⟩)
  · intro token ht
    refine if_neg fun hs => hm (List.mem_flatMap.mpr ⟨token,ht,?_⟩)
    obtain ⟨rest,rfl⟩ := List.isPrefixOf_iff_prefix.mp hs
    simp [partition_append 61 name rest hn]

end Reading

/-- The chunk a response adds to the body; a file is not read. -/
def chunk (response : NativeResponse) : Option Bytes :=
  if response.filePath.isSome then none else response.body

/-- The variables of a miss say what the handler has sent. -/
structure Exact (capture : Capture) (held : List NativeResponse) : Prop where
  status : capture.status=(statusLines held).getLast?.map Prod.fst
  headers : capture.responseHeaders=((statusLines held).getLast?.map Prod.snd).getD []
  chunks : capture.bodyChunks=held.filterMap chunk

def Capture.take (capture : Capture) (response : NativeResponse) : Capture :=
  {capture.hold response with bodyChunks:=capture.bodyChunks++(chunk response).toList}

theorem Exact.take {c : Capture} {held : List NativeResponse} (h : Exact c held)
    (response : NativeResponse) : Exact (c.take response) (held++[response]) := by
  have hc : c.bodyChunks++(chunk response).toList = (held++[response]).filterMap chunk := by
    rw [List.filterMap_append,h.chunks]
    cases hch : chunk response <;> simp [hch]
  unfold Capture.take Capture.hold
  cases hh : response.header with
  | none =>
    have hl : statusLines (held++[response])=statusLines held := by simp [statusLines,hh]
    exact ⟨hl ▸ h.status,hl ▸ h.headers,hc⟩
  | some header =>
    have hl : statusLines (held++[response]) = statusLines held++[(response.status,header)] := by
      simp [statusLines,hh]
    exact ⟨by simp [hl],by simp [hl],hc⟩

theorem hold_bodyChunks (c : Capture) (response : NativeResponse) :
    (c.hold response).bodyChunks=c.bodyChunks := by
  unfold Capture.hold
  cases response.header <;> rfl

section

variable (config : Config) (digest : Bytes → Bytes)

theorem capSend_take {response : NativeResponse} (h : isTerminal response=false) (c : Capture) :
    (capSend config digest c (.response response)).stored=none ∧
      ∃ flushed,(capSend config digest c (.response response)).capture =
        {c.take response with flushed:=flushed} := by
  rw [capSend]
  cases hf : response.filePath with
  | some path =>
    refine ⟨rfl,true,?_⟩
    simp [release,Capture.take,chunk,hf,hold_bodyChunks]
  | none =>
    cases hb : response.body with
    | none =>
      refine ⟨rfl,c.flushed,?_⟩
      unfold Capture.take Capture.hold
      cases response.header <;> simp [chunk,hf,hb]
    | some body =>
      cases hm : response.moreBody with
      | true =>
        refine ⟨rfl,true,?_⟩
        simp [release,Capture.take,chunk,hf,hb,hold_bodyChunks]
      | false => simp [isTerminal,hf,hb,hm] at h

theorem capSend_stored {response : NativeResponse} (h : isTerminal response=true) (c : Capture) :
    (capSend config digest c (.response response)).stored =
      (decideStore config digest (c.take response)).2 := by
  obtain ⟨⟨hf,hb⟩,hm⟩ : (response.filePath=none ∧ response.body.isSome) ∧
      response.moreBody=false := by
    simpa [isTerminal] using h
  obtain ⟨body,hb⟩ := Option.isSome_iff_exists.mp hb
  have ht : c.take response={ c.hold response with
      bodyChunks:=(c.hold response).bodyChunks++[body]} := by
    simp [Capture.take,chunk,hf,hb,hold_bodyChunks]
  rw [ht,capSend,hf,hb,hm]
  rfl

structure Decides (capture : Capture) (stored : Stored) : Prop where
  cache : shouldCache config capture.status capture.responseHeaders=true
  etag : chooseEtag config digest capture.responseHeaders capture.bodyChunks.flatten =
    some stored.etag
  vary : responseVary capture.responseHeaders=some stored.varyFields
  header : Tagged capture.responseHeaders stored.header
  status : stored.status=capture.status.getD 200
  body : stored.body=capture.bodyChunks.flatten
  ttl : stored.ttl=lifetime config stored.header

theorem decideStore_stored {c : Capture} {st : Stored}
    (h : (decideStore config digest c).2=some st) : Decides config digest c st := by
  unfold decideStore at h
  dsimp only at h
  split at h
  · next hc =>
    split at h
    · cases h
    · next etag he =>
      obtain ⟨varyFields,hv,rfl⟩ := Option.map_eq_some_iff.mp h
      split_ifs
      · exact ⟨hc,he,hv,.inr ⟨etag,rfl⟩,rfl,rfl,rfl⟩
      · exact ⟨hc,he,hv,.inl rfl,rfl,rfl,rfl⟩
  · cases h

end

/-- The step keeps to what a copy in the store can hold: a request with several lines of a field
that the stored responses vary on is not looked up; no response comes after the terminal body; and
at the terminal body a response that may be stored has one status line, no trailers and no file,
declares its lifetime readably, if it does, and not as zero, and varies on fields with one line at
most. -/
def regularResponse (config : Config) (record : Flight) (response : NativeResponse) : Bool :=
  let held := responses record.events++[response]
  record.finishedAt.isNone &&
    (!isTerminal response ||
      match (statusLines held).getLast? with
      | none => true
      | some (status,header) =>
        !shouldCache config (some status) header ||
          (produced held).isSome && readable header && declaredAge header≠some 0 &&
            ((responseVary header).getD []).all fun field =>
              (fieldLines field record.request.headers).length≤1)

def regular (config : Config) (s : Server) : Action → Bool
  | .request request _ =>
    ((s.store.get? request.key).map Bucket.varyFields).getD [] |>.all fun field =>
      (fieldLines field request.headers).length≤1
  | .event flight event _ =>
    match s.flights[flight]?,wrapNativeSend event with
    | some record,.response response => regularResponse config record response
    | _,_ => true
  | .change _ _ => true

section

variable (config : Config) (digest : Bytes → Bytes)

/-- The entry of a variant is a copy of this flight's response, in a header list of its own. -/
structure Copies (s : Server) (key : Key) (varyFields : List Bytes)
    (item : List (Bytes × Bytes) × Entry) (flight : Flight) (response : Produced)
    (finished : ℚ) : Prop extends Storable config flight response finished varyFields where
  key : key=flight.request.key
  variant : item.1=varyKey varyFields (requestHeaders flight.request.headers)
  lines : ∀ field∈varyFields,(fieldLines field flight.request.headers).length≤1
  entryStatus : item.2.status=response.status
  body : item.2.body=response.body
  etag : chooseEtag config digest response.header response.body=some item.2.etag
  header : ∃ header,Tagged response.header header ∧ s.heap[item.2.header]? = some header
  hidden : item.2.header∉s.exposed
  expires : item.2.expiresAt=finished+declaredLifetime config response.header

def Backed (s : Server) (key : Key) (varyFields : List Bytes)
    (item : List (Bytes × Bytes) × Entry) : Prop :=
  ∃ flight∈s.flights,∃ response finished,
    Copies config digest s key varyFields item flight response finished

/-- The flight's request may be answered from the store, and until it is finished its variables say
what the handler has sent. -/
structure Followed (flight : Flight) : Prop where
  authorised : config.cacheAuthenticated=true ∨
    fieldLines (ascii "authorization") flight.request.headers=[]
  exact : flight.finishedAt=none → Exact flight.capture (responses flight.events)

structure Sound (s : Server) : Prop where
  exposed : ∀ cell∈s.exposed,cell<s.heap.length
  flights : ∀ flight∈s.flights,Followed config flight
  store : ∀ bucket∈s.store,∀ item∈bucket.2.entries,
    Backed config digest s bucket.1 bucket.2.varyFields item
  hits : Traced config digest s

end

/-- The finished flights are there with what they produced, and the header lists that other code
does not know are as they were. -/
structure Extends (s t : Server) : Prop where
  flights : ∀ flight∈s.flights,flight.finishedAt.isSome=true → ∃ later∈t.flights,
    later.request=flight.request ∧ responses later.events=responses flight.events ∧
      later.finishedAt=flight.finishedAt
  hidden : ∀ cell header,s.heap[cell]? = some header → cell∉s.exposed →
    t.heap[cell]? = some header ∧ cell∉t.exposed

section

variable {cfg : Config} {dg : Bytes → Bytes} {s t : Server}

variable {res : Produced} {req : Request} {now : ℚ} {vf : List Bytes}

theorem Storable.later {f l : Flight} {fi : ℚ}
    (h : Storable cfg f res fi vf) (hr : l.request=f.request)
    (he : responses l.events=responses f.events) (hf : l.finishedAt=f.finishedAt) :
    Storable cfg l res fi vf :=
  {h with
    whole:=he ▸ h.whole
    finishedAt:=hf ▸ h.finishedAt
    authorised:=hr ▸ h.authorised}

theorem Storable.finished {f : Flight} {fi : ℚ} (h : Storable cfg f res fi vf) :
    f.finishedAt.isSome=true := by
  rw [h.finishedAt]
  rfl

theorem Backed.later {key : Key} {item : List (Bytes × Bytes) × Entry}
    (h : Backed cfg dg s key vf item) (he : Extends s t) : Backed cfg dg t key vf item := by
  obtain ⟨f,hf,res,finished,hc⟩ := h
  obtain ⟨l,hl,hr,hev,hfi⟩ := he.flights f hf hc.finished
  obtain ⟨header,ht,hh⟩ := hc.header
  obtain ⟨hhe,hhi⟩ := he.hidden _ _ hh hc.hidden
  exact ⟨l,hl,res,finished,{ hc.toStorable.later hr hev hfi,hc with
    key:=hr ▸ hc.key
    variant:=hr ▸ hc.variant
    lines:=hr ▸ hc.lines
    header:=⟨header,ht,hhe⟩
    hidden:=hhi}⟩

theorem answered_later {hit : Hit} (he : Extends s t) (h : ∃ f∈s.flights,∃ res finished vf,
      Answers cfg dg f hit res finished vf) :
    ∃ f∈t.flights,∃ res finished vf,
      Answers cfg dg f hit res finished vf := by
  obtain ⟨f,hf,res,finished,vf,ha⟩ := h
  obtain ⟨l,hl,hr,hev,hfi⟩ := he.flights f hf ha.finished
  exact ⟨l,hl,res,finished,vf,{ ha.toStorable.later hr hev hfi,ha with
    key:=hr ▸ ha.key
    values:=hr ▸ ha.values}⟩

theorem Sound.extend (h : Sound cfg dg s) (he : Extends s t)
    (hx : ∀ cell∈t.exposed,cell<t.heap.length) (hf : ∀ f∈t.flights,Followed cfg f)
    (hs : t.store=s.store) (hh : t.hits=s.hits) : Sound cfg dg t where
  exposed := hx
  flights := hf
  store b hb item hi := (h.store b (hs ▸ hb) item hi).later he
  hits hit hhi := answered_later he (h.hits hit (hh ▸ hhi))

theorem Sound.change (h : Sound cfg dg s) (cell : Cell) (hs : HeaderList) :
    Sound cfg dg (s.step cfg dg (.change cell hs)) := by
  rw [Server.step]
  split_ifs with hc
  · have he : Extends s {s with heap:=s.heap.set cell hs} := by
      refine ⟨fun f hf _ => ⟨f,hf,rfl,rfl,rfl⟩,?_⟩
      intro o header hh hhi
      have hne : cell≠o := fun heq => hhi (heq ▸ hc)
      exact ⟨(List.getElem?_set_ne hne).trans hh,hhi⟩
    exact h.extend he (fun o ho => by simpa using h.exposed o ho) h.flights rfl rfl
  · exact h

theorem extends_append (hs : List HeaderList) (st : Dict Key Bucket) (hits : List Hit) :
    Extends s {s with
      store:=st,heap:=s.heap++hs,exposed:=s.heap.length::s.exposed
      hits:=hits} := by
  refine ⟨fun f hf _ => ⟨f,hf,rfl,rfl,rfl⟩,?_⟩
  intro cell header hh hhi
  have hlt : cell<s.heap.length := (List.getElem?_eq_some_iff.mp hh).1
  exact ⟨(List.getElem?_append_left hlt).trans hh,List.not_mem_cons_of_ne_of_not_mem hlt.ne hhi⟩

theorem Sound.exposed_append (h : Sound cfg dg s) (a : HeaderList) (hs : List HeaderList) :
    ∀ cell∈s.heap.length::s.exposed,cell<(s.heap++a::hs).length := by
  intro cell hc
  rw [List.length_append]
  rcases List.mem_cons.mp hc with rfl | hc
  · exact Nat.lt_add_of_pos_right (by simp)
  · exact Nat.lt_add_right _ (h.exposed cell hc)

theorem lookup_mem {b : Bucket} {e : Entry} (h : s.lookup req=some (b,e)) :
    s.store.get? req.key=some b ∧
      (varyKey b.varyFields (requestHeaders req.headers),e)∈b.entries := by
  unfold Server.lookup at h
  simp only [Option.bind_eq_bind,Option.bind_eq_some_iff,Option.pure_def,Option.some.injEq,
    Prod.mk.injEq] at h
  obtain ⟨f,hf,f',he,rfl,rfl⟩ := h
  exact ⟨hf,Dict.mem_of_get? he⟩

theorem Sound.answer (h : Sound cfg dg s) {b : Bucket} {e : Entry}
    (hl : s.lookup req=some (b,e)) (hf : now<e.expiresAt)
    (hli : ∀ f∈b.varyFields,(fieldLines f req.headers).length≤1) :
    Sound cfg dg (s.answer req b e now) := by
  obtain ⟨hb,he⟩ := lookup_mem hl
  have hm := Dict.mem_of_get? hb
  obtain ⟨fl,hfl,res,finished,hc⟩ := h.store _ hm _ he
  obtain ⟨header,ht,hh⟩ := hc.header
  have hext : Extends s (s.answer req b e now) := extends_append [_] _ _
  have ha : Answers cfg dg fl ⟨req,s.answerResponse req e,now⟩ res finished b.varyFields := {
    hc.toStorable with
    key:=hc.key.symm
    values:=values_of_varyKey hc.variant.symm hc.lines hli
    fresh:=hc.expires ▸ hf
    answer:=by
      unfold Server.answerResponse Server.answerHeader
      cases hmo : Server.notModified req e with
      | true =>
        obtain ⟨sent,hs,hma⟩:=(Option.any_eq_true _ _).mp hmo
        rw [get?_requestHeaders] at hs
        exact .inr ⟨e.etag,hc.etag,rfl,sent,hs,hma⟩
      | false =>
        refine .inl ⟨header,ht,?_⟩
        have hst : s.heap.getD e.header []=header:=by
          rw [List.getD_eq_getElem?_getD,hh]
          rfl
        rw [if_neg Bool.false_ne_true,if_neg Bool.false_ne_true,hst,← hc.entryStatus,← hc.body]}
  exact {
    exposed:=h.exposed_append _ _
    flights:=h.flights
    store:=by
      intro item hi copy hco
      rcases Dict.mem_set (Dict.mem_moveToEnd hi) with rfl | hold
      · exact (h.store _ hm copy (Dict.mem_moveToEnd hco)).later hext
      · exact (h.store item hold copy hco).later hext
    hits:=by
      intro hit hhi
      rcases List.mem_append.mp hhi with hhi | hhi
      · exact answered_later hext (h.hits hit hhi)
      · rw [List.mem_singleton.mp hhi]
        exact ⟨fl,hfl,res,finished,_,ha⟩}

theorem Sound.depart (h : Sound cfg dg s) (ha : cfg.cacheAuthenticated=true ∨
      fieldLines (ascii "authorization") req.headers=[]) :
    Sound cfg dg {s with flights:=s.flights++[{request:=req}]} := by
  have he : Extends s {s with flights:=s.flights++[{request:=req}]} :=
    ⟨fun f hf _ => ⟨f,List.mem_append_left _ hf,rfl,rfl,rfl⟩,fun _ _ hh hhi => ⟨hh,hhi⟩⟩
  refine h.extend he h.exposed (fun f hf => ?_) rfl rfl
  rcases List.mem_append.mp hf with hf | hf
  · exact h.flights f hf
  · rw [List.mem_singleton.mp hf]
    exact ⟨ha,fun _ => ⟨rfl,rfl,rfl⟩⟩

theorem Sound.receive (h : Sound cfg dg s) (hr : regular cfg s (.request req now)=true) :
    Sound cfg dg (s.receive cfg req now) := by
  unfold Server.receive
  by_cases hm : req.method∉cfg.cacheableMethods
  · rw [if_pos hm]
    exact h
  rw [if_neg hm]
  split_ifs with ha hn
  · exact h
  · exact h
  · have hau : cfg.cacheAuthenticated=true ∨ fieldLines (ascii "authorization") req.headers=[] := by
      rw [get?_requestHeaders] at ha
      cases hc : cfg.cacheAuthenticated with
      | true => exact .inl rfl
      | false => simpa [hc] using ha
    split
    · next b e hl =>
      split_ifs with hf
      · apply h.answer hl hf
        rw [regular,(lookup_mem hl).1] at hr
        simpa using hr
      · exact h.depart hau
    · exact h.depart hau

/-- A flight goes on: one that has finished produces nothing more. -/
theorem Sound.advance (h : Sound cfg dg s) {i : ℕ} {r l : Flight}
    (hr : s.flights[i]? = some r) (hre : l.request=r.request)
    (hf : Followed cfg l) (hfi : r.finishedAt.isSome=true →
      responses l.events=responses r.events ∧ l.finishedAt=r.finishedAt) :
    Sound cfg dg {s with flights:=s.flights.set i l} := by
  obtain ⟨hlt,hg⟩ := List.getElem?_eq_some_iff.mp hr
  have he : Extends s {s with flights:=s.flights.set i l} := by
    refine ⟨fun f hfl hd => ?_,fun _ _ hh hhi => ⟨hh,hhi⟩⟩
    obtain ⟨p,hp,rfl⟩ := List.mem_iff_getElem.mp hfl
    by_cases hi : p=i
    · subst hi
      rw [hg] at hd ⊢
      exact ⟨l,List.mem_set hlt l,hre,hfi hd⟩
    · refine ⟨s.flights[p],?_,rfl,rfl,rfl⟩
      exact List.mem_iff_getElem.mpr ⟨p,by simpa using hp,by rw [List.getElem_set_ne (Ne.symm hi)]⟩
  refine h.extend he h.exposed (fun f hfl => ?_) rfl rfl
  rcases List.mem_or_eq_of_mem_set hfl with hfl | rfl
  · exact h.flights f hfl
  · exact hf

theorem bucketFor_entries (key : Key) (vf : List Bytes) :
    (s.bucketFor key vf).varyFields=vf ∧ ((s.bucketFor key vf).entries=[] ∨
        (key,s.bucketFor key vf)∈s.store) := by
  unfold Server.bucketFor
  cases hf : s.store.get? key with
  | none => exact ⟨rfl,.inl rfl⟩
  | some b =>
    dsimp only
    split_ifs with hv
    · exact ⟨hv,.inr (Dict.mem_of_get? hf)⟩
    · exact ⟨rfl,.inl rfl⟩

theorem Sound.insert (h : Sound cfg dg s) (f : Flight) {st : Stored}
    (hf : f∈s.flights) (hs : Storable cfg f res now st.varyFields)
    (hl : ∀ fd∈st.varyFields,(fieldLines fd f.request.headers).length≤1)
    (he : chooseEtag cfg dg res.header res.body=some st.etag)
    (hh : Tagged res.header st.header) (hst : st.status=res.status)
    (hb : st.body=res.body) (ht : st.ttl=declaredLifetime cfg res.header) :
    Sound cfg dg (s.insert cfg f.request st now) := by
  have hext : Extends s (s.insert cfg f.request st now) :=
    extends_append [st.header,st.header] _ _
  obtain ⟨hv,hen⟩ := bucketFor_entries (s := s) f.request.key st.varyFields
  exact {
    exposed:=h.exposed_append _ _
    flights:=h.flights
    store:=by
      intro item hi copy hco
      rcases Dict.mem_set (Dict.mem_moveToEnd (Dict.mem_keepLast hi)) with rfl | hold
      · change Backed cfg dg _ f.request.key
          (s.bucketFor f.request.key st.varyFields).varyFields copy
        rw [hv]
        rcases Dict.mem_set (Dict.mem_moveToEnd (Dict.mem_keepLast hco)) with rfl | hco
        · refine ⟨f,hf,res,now,?_⟩
          exact {hs with
            key:=rfl
            variant:=rfl
            lines:=hl
            entryStatus:=hst
            body:=hb
            etag:=he
            header:=⟨st.header,hh,by simp [Server.insert]⟩
            hidden:=by
              intro hm
              rcases List.mem_cons.mp hm with heq | hm
              · exact absurd heq (Nat.succ_ne_self _)
              · exact absurd (h.exposed _ hm) (Nat.not_lt.mpr (Nat.le_succ _))
            expires:=by rw [← ht]}
        · rcases hen with hem | hm
          · rw [hem] at hco
            cases hco
          · have hba:=h.store _ hm copy hco
            rw [hv] at hba
            exact hba.later hext
      · exact (h.store item hold copy hco).later hext
    hits:=fun hit hhi => answered_later hext (h.hits hit hhi)}

theorem produced_eq_some {held : List NativeResponse} (h : produced held=some res) :
    statusLines held=[(res.status,res.header)] ∧
      res.body=(held.filterMap chunk).flatten := by
  unfold produced at h
  split at h
  · next st header hl =>
    split_ifs at h with hp
    obtain rfl := Option.some.inj h
    refine ⟨hl,?_⟩
    have hc : held.filterMap NativeResponse.body=held.filterMap chunk := by
      refine List.filterMap_congr fun res hr => ?_
      have hf := List.all_eq_true.mp hp res hr
      rw [isPlain,Bool.and_eq_true,Option.isNone_iff_eq_none,Option.isNone_iff_eq_none] at hf
      simp [chunk,hf.2]
    rw [← hc]
  · cases h

/-- What is stored at the terminal body of a regular flight is the response as a whole. -/
theorem produced_of_decides {r : Flight} {res : NativeResponse} {st : Stored}
    (hr : regularResponse cfg r res=true) (ht : isTerminal res=true)
    (he : Exact (r.capture.take res) (responses r.events++[res]))
    (hd : Decides cfg dg (r.capture.take res) st) :
    ∃ w,produced (responses r.events++[res])=some w ∧ (r.capture.take res).status=some w.status ∧
      (r.capture.take res).responseHeaders=w.header ∧
      (r.capture.take res).bodyChunks.flatten=w.body ∧ readable w.header=true ∧
      declaredAge w.header≠some 0 ∧
      ∀ f∈st.varyFields,(fieldLines f r.request.headers).length≤1 := by
  have hc := hd.cache
  have hv := hd.vary
  rw [he.status,he.headers] at hc
  rw [he.headers] at hv
  cases hl : (statusLines (responses r.events++[res])).getLast? with
  | none =>
    rw [hl] at hc
    cases hc
  | some line =>
    rw [hl] at hc hv
    change shouldCache cfg (some line.1) line.2=true at hc
    change responseVary line.2=some st.varyFields at hv
    simp only [regularResponse,ht,hl,hc,hv,Bool.and_eq_true,Bool.not_true,
      Bool.false_or,Option.getD_some,List.all_eq_true,decide_eq_true_eq] at hr
    obtain ⟨-,⟨⟨hs,hre⟩,ha⟩,hli⟩ := hr
    obtain ⟨w,hw⟩ := Option.isSome_iff_exists.mp hs
    obtain ⟨hst,hb⟩ := produced_eq_some hw
    rw [hst] at hl
    obtain rfl := Option.some.inj hl
    refine ⟨w,hw,?_,?_,?_,hre,ha,hli⟩
    · rw [he.status,hst]
      rfl
    · rw [he.headers,hst]
      rfl
    · rw [he.chunks,hb]

theorem lifetime_eq_declared {header : HeaderList} (hr : readable header=true)
    (h : declaredAge header≠some 0) : lifetime cfg header=declaredLifetime cfg header := by
  unfold lifetime declaredLifetime
  rw [responseMaxAge_eq hr]
  cases ha : declaredAge header with
  | none => rfl
  | some age =>
    have hz : (age : ℤ)≠0 := fun hz => h (by rw [ha,Int.natCast_eq_zero.mp hz])
    simp

/-- What is decided at the terminal body of a regular flight is put into the store. -/
theorem Sound.keep (h : Sound cfg dg s) {r l : Flight} {res : NativeResponse} {st : Stored}
    (hl : l∈s.flights) (ha : cfg.cacheAuthenticated=true ∨
      fieldLines (ascii "authorization") l.request.headers=[])
    (hr : regularResponse cfg r res=true) (ht : isTerminal res=true)
    (hev : responses l.events=responses r.events++[res]) (hq : l.request=r.request)
    (hf : l.finishedAt=some now) (he : Exact (r.capture.take res) (responses r.events++[res]))
    (hs : (decideStore cfg dg (r.capture.take res)).2=some st) :
    Sound cfg dg (s.insert cfg l.request st now) := by
  have hde := decideStore_stored cfg dg hs
  obtain ⟨whole,hw,hst,hh,hb,hrd,hag,hli⟩ := produced_of_decides hr ht he hde
  obtain ⟨hca,het,hv,hta,hs',hb',htt⟩ := hde
  rw [hh] at hca het hv hta
  rw [hb] at het hb'
  rw [hst] at hca hs'
  rw [lifetime_of_tagged hta,lifetime_eq_declared hrd hag] at htt
  rw [shouldCache,Bool.and_eq_true] at hca
  have hn : ∀ d∈[ascii "no-store",ascii "private",ascii "no-cache"],61∉d ∧ d≠[] := by decide
  have hsto : Storable cfg l whole now st.varyFields := {
    whole:=hev ▸ hw
    finishedAt:=hf
    vary:=hv
    status:=by simpa using hca.1
    directives:=fun d hd => mem_cacheControl hrd (hn d hd).1 (hn d hd).2
      (by simpa using List.all_eq_true.mp hca.2 d hd)
    authorised:=ha}
  exact h.insert l hl hsto (hq ▸ hli) het hta hs' hb' htt

theorem Sound.send (h : Sound cfg dg s) {i : ℕ} {e : HandlerEvent}
    (hr : regular cfg s (.event i e now)=true) :
    Sound cfg dg (s.send cfg dg i (wrapNativeSend e) now) := by
  unfold Server.send
  rw [regular] at hr
  cases hre : s.flights[i]? with
  | none => exact h
  | some record =>
    have hm := List.mem_of_getElem? hre
    have hf := h.flights record hm
    rw [hre] at hr
    cases he : wrapNativeSend e with
    | other o =>
      have hres : responses (record.events++[.other o])=responses record.events := by simp
      refine h.advance hre rfl ⟨hf.authorised,fun ho => ?_⟩ fun _ => ⟨hres,rfl⟩
      rw [hres]
      exact {hf.exact ho with}
    | response res =>
      rw [he] at hr
      change regularResponse cfg record res=true at hr
      have ho : record.finishedAt=none := by
        rw [regularResponse,Bool.and_eq_true,Option.isNone_iff_eq_none] at hr
        exact hr.1
      have hn : ¬ record.finishedAt.isSome=true := by simp [ho]
      have hexa := (hf.exact ho).take res
      have hres : responses (record.events++[.response res]) =
          responses record.events++[res] := by simp
      cases ht : isTerminal res with
      | false =>
        obtain ⟨hs,flushed,hc⟩ := capSend_take cfg dg ht record.capture
        dsimp only
        rw [hs]
        refine h.advance hre rfl ⟨hf.authorised,fun _ => ?_⟩ fun hd => absurd hd hn
        rw [hc,hres]
        exact {hexa with}
      | true =>
        obtain ⟨hlt,-⟩ := List.getElem?_eq_some_iff.mp hre
        let later : Flight :=
          {record with
            capture:=(capSend cfg dg record.capture (.response res)).capture
            events:=record.events++[.response res]
            finishedAt:=some now}
        have hl : later∈s.flights.set i later := List.mem_set hlt later
        have hfi : Followed cfg later := ⟨hf.authorised,fun hno => by cases hno⟩
        have ha : Sound cfg dg {s with flights:=s.flights.set i later} :=
          h.advance hre rfl hfi fun hd => absurd hd hn
        dsimp only
        rw [if_pos ht]
        cases hs : (capSend cfg dg record.capture (.response res)).stored with
        | none => exact ha
        | some stored =>
          rw [capSend_stored cfg dg ht] at hs
          exact ha.keep (l := later) hl hf.authorised hr ht hres rfl rfl hexa hs

theorem sound_initial : Sound cfg dg {} := ⟨by simp,by simp,by simp,by rintro _ ⟨⟩⟩

theorem Sound.step (h : Sound cfg dg s) {a : Action}
    (hr : regular cfg s a=true) : Sound cfg dg (s.step cfg dg a) := by
  cases a with
  | request req now => exact h.receive hr
  | event f e now => exact h.send hr
  | change cell hl => exact h.change cell hl

end

/-- In every run whose steps are regular, every answer from the store is the response of a flight
with the same method, path and query and the same values of the fields it varies on, within the
lifetime it declared, and nothing forbade to store it. -/
theorem hits_sound (config : Config) (digest : Bytes → Bytes) (actions : List Action)
    (h : Along (Server.step config digest) (fun s action => regular config s action=true) {}
      actions) : Traced config digest (run (Server.step config digest) {} actions) :=
  (h.invariant (fun _ _ hs hregular => hs.step hregular) sound_initial).hits

def getRoot (headers : HeaderList) : Request := ⟨ascii "GET",ascii "/",[],headers⟩

/-- A response with these headers is produced for the first request at time 0, and the second
request comes at time 10. -/
def twoRequests (first second header : HeaderList) (trailers : Option HeaderList) : List Action :=
  [.request (getRoot first) 0,
    .event 0 (.native {header:=some header,body:=some [97],trailers:=trailers}) 0,
    .change 0 [],.request (getRoot second) 10]

def afterTwo (first second header : HeaderList) (trailers : Option HeaderList) : Server :=
  run (Server.step {} id) {} (twoRequests first second header trailers)

theorem hits_sound_varied :
    let s := afterTwo [(ascii "Accept",ascii "a")] [(ascii "accept",ascii "a")]
      [(ascii "vary",ascii "Accept"),(ascii "cache-control",ascii "max-age=11")] none
    s.hits.length=1 ∧ Traced {} id s :=
  ⟨by decide +kernel,hits_sound {} id _ (by decide +kernel)⟩

/-- The hits of two requests cannot be traced if the produced response, the lines of the two
requests or the lifetime do not allow it. -/
theorem not_traced {a se : HeaderList} {tr : Option HeaderList}
    (hh : (afterTwo a se header tr).hits≠[]) (h : ∀ hit∈(afterTwo a se header tr).hits,
      ∀ f∈(afterTwo a se header tr).flights,
      ∀ response∈produced (responses f.events),
      ∀ finished∈f.finishedAt,∀ varyFields∈responseVary response.header,(∃ fd∈varyFields,
          fieldValue fd f.request.headers≠fieldValue fd hit.request.headers) ∨
        finished+declaredLifetime {} response.header≤hit.now) :
    ¬ Traced {} id (afterTwo a se header tr) := by
  obtain ⟨hit,hits,hc⟩ := List.exists_cons_of_ne_nil hh
  have hm : hit∈(afterTwo a se header tr).hits := hc ▸ List.mem_cons_self
  intro ha
  obtain ⟨f,hf,response,finished,varyFields,han⟩ := ha hit hm
  rcases h hit hm f hf response han.whole finished han.finishedAt varyFields
    han.vary with ⟨fd,hfi,hne⟩ | he
  · exact hne (han.values fd hfi)
  · exact absurd han.fresh (not_lt.mpr he)

/-- The second line of a field is not compared; a declared lifetime of zero becomes the default;
trailers are not in the copy; a lifetime is read in a quoted string. -/
theorem hits_unsound :
    ¬ Traced {} id (afterTwo [(ascii "accept",ascii "a"),(ascii "accept",ascii "b")]
        [(ascii "accept",ascii "a")] [(ascii "vary",ascii "accept")] none) ∧
      ¬ Traced {} id (afterTwo [] [] [(ascii "cache-control",ascii "max-age=0")] none) ∧
      ¬ Traced {} id (afterTwo [] [] [] (some [(ascii "checksum",ascii "1")])) ∧
      ¬ Traced {} id (afterTwo [] []
        [(ascii "cache-control",ascii "max-age=5, ext=\"x,max-age=9999,y\"")] none) := by
  refine ⟨?_,?_,?_,?_⟩
  all_goals exact not_traced (by decide +kernel) (by decide +kernel)

end BlackBull.Caching
