import BlackBull.FramingAgreement

/-!
# Every head gets an answer

A head that is rejected is answered with the status its exception stands for. Two exceptions stand
for none: from the decoding of the host, and from the conversion of a Content-Length or of a port
with more digits than `int` takes.
-/

namespace BlackBull.HeadParser

open ByteString

/-- An exception, if there is one, has its status. -/
def Answered {α : Type} (x : Except ParseError α) : Prop :=
  ∀ e,x=.error e → e.status.isSome=true

variable {α : Type} {hds : Headers}

@[simp] theorem answered_ok (a : α) : Answered (.ok a : Except ParseError α) := by rintro e ⟨⟩

@[simp] theorem answered_error (e : ParseError) :
    Answered (.error e : Except ParseError α) ↔ e.status.isSome=true := by
  simp [Answered]

theorem answered_bind {β : Type} {x : Except ParseError α} {f : α → Except ParseError β} :
    Answered (x >>= f) ↔ Answered x ∧ ∀ a,x=.ok a → Answered (f a) := by
  cases x with
  | error e => simp [Answered,bind,Except.bind]
  | ok a => simp [bind,Except.bind]

theorem answered_parseRequestLine (rl : Bytes) : Answered (parseRequestLine rl) := by
  unfold parseRequestLine
  split
  · split_ifs <;> simp [ParseError.status]
  · simp [ParseError.status]

theorem answered_parseTarget (l : RequestLine) : Answered (parseTarget l) := by
  have hc (p : Bytes) (a : Option Bytes) : Answered (checkTarget p a) := by
    unfold checkTarget
    split_ifs <;> simp [ParseError.status]
  unfold parseTarget
  split_ifs
  · simp [ParseError.status]
  · simp [ParseError.status]
  · simp
  · split
    · split_ifs
      · simp [ParseError.status]
      · exact hc _ _
    · exact hc _ _

theorem answered_checkFieldLine (nc : Bool) (l : Bytes) : Answered (checkFieldLine nc l) := by
  unfold checkFieldLine
  dsimp only
  split_ifs <;> simp [ParseError.status]

theorem fieldLines_answered (nc dl : Bool) (l : List Bytes) (c : LineCache) :
    Ensures (fieldLines nc dl l) c (fun _ _ => True) (fun e _ => e.status.isSome=true) := by
  induction l generalizing c with
  | nil => trivial
  | cons line l ih =>
    have hl : Ensures (fieldLine nc dl line) c (fun _ _ => True)
        (fun e _ => e.status.isSome=true) := by
      simp only [fieldLine,ensures_bind,ensures_get]
      cases lookupLine dl c line with
      | some p => trivial
      | none =>
        cases hc : checkFieldLine nc line with
        | error e => exact answered_checkFieldLine nc line e hc
        | ok p => simp only [ensures_bind,ensures_modify,ensures_pure]
    simp only [fieldLines,ensures_ite,ensures_bind,ensures_pure]
    exact ⟨fun _ => ih c,fun _ => hl.mono
      (fun _ c' _ => (ih c').mono (fun _ _ _ => trivial) fun _ _ h => h) fun _ _ h => h⟩

theorem answered_validateHost (hds : Headers) : Answered (validateHost hds) := by
  unfold validateHost
  split
  · simp
  · dsimp only
    split_ifs <;> simp [ParseError.status]
  · simp [ParseError.status]

theorem answered_checkTransferCodings (c : List Bytes) : Answered (checkTransferCodings c) := by
  unfold checkTransferCodings
  dsimp only
  split_ifs <;> simp [ParseError.status]

theorem answered_parseInt (d : Bytes) : Answered (parseInt d) ↔ d.length ≤ integerMaxDigits := by
  unfold parseInt int?
  by_cases hl : d.length ≤ integerMaxDigits
  · simp [hl]
  · simp [hl,ParseError.status]

theorem answered_decodeUtf8 (t : Bytes) : Answered (decodeUtf8 t) ↔ isUtf8 t=true := by
  unfold decodeUtf8
  by_cases ht : isUtf8 t=true
  · simp [ht]
  · simp [ht,ParseError.status]

/-- The host that is decoded, and the port that is converted when it is a number. -/
def hostParts : Bytes → Bytes × Option Bytes
  | 91::inner =>
    match partition 93 inner with
    | (host,true,58::port) => (host,if isdigit port then some port else none)
    | (host,true,_) => (host,none)
    | (_,false,_) => (91::inner,none)
  | value =>
    match rpartition 58 value with
    | some (host,port) => if isdigit port then (host,some port) else (value,none)
    | none => (value,none)

/-- The host is UTF-8 and the port has no more digits than `int` takes. -/
def HostConverts (value : Bytes) : Prop :=
  isUtf8 (hostParts value).1=true ∧
    ∀ port∈(hostParts value).2,port.length ≤ integerMaxDigits

theorem answered_map {β : Type} {x : Except ParseError α} {f : α → β} :
    Answered (x.map f) ↔ Answered x := by
  cases x <;> simp [Except.map]

theorem answered_hostAndPort (host p : Bytes) :
    Answered (hostAndPort host p) ↔ isUtf8 host=true ∧ p.length ≤ integerMaxDigits := by
  unfold hostAndPort
  rw [answered_bind,answered_decodeUtf8]
  refine and_congr_right fun hh => ?_
  have hd : decodeUtf8 host=.ok host := if_pos hh
  simp [hd,answered_bind,answered_parseInt,pure,Except.pure]

theorem parseHostHeader_eq (v : Bytes) (dp : ℕ) : parseHostHeader v dp=match hostParts v with
    | (host,some port) => hostAndPort host port
    | (host,none) => (decodeUtf8 host).map (·,dp) := by
  unfold parseHostHeader hostParts
  split
  · split
    · split_ifs <;> simp [*]
    · simp [*]
    · simp [*]
  · split
    · split_ifs <;> simp [*]
    · simp [*]

theorem answered_parseHostHeader (v : Bytes) (dp : ℕ) :
    Answered (parseHostHeader v dp) ↔ HostConverts v := by
  rw [parseHostHeader_eq,HostConverts]
  rcases hostParts v with ⟨host,_ | port⟩
  · simp [answered_map,answered_decodeUtf8]
  · simp [answered_hostAndPort]

/-- The texts that are converted, if the checks before them pass, can be: a Content-Length, if its
fields agree on it, and the Host, if the framing is sound and the Host is one authority. -/
structure Convertible (headers : Headers) : Prop where
  length : (headers.getlist (ascii "content-type")).length≤1 →
    headers.getlist (ascii "transfer-encoding")=[] →
    headers.getlist (ascii "content-length")≠[] →
    ∀ value,(∀ pair∈headers.getlist (ascii "content-length"),pair.2=value) →
      value.length ≤ integerMaxDigits
  host : (headers.getlist (ascii "content-type")).length≤1 →
    (∃ n,validateMessageFraming headers=.ok n) → validateHost headers=.ok () →
    ∀ pair∈headers.getlist (ascii "host"),HostConverts pair.2

theorem dedup_eq_singleton [DecidableEq α] {xs : List α} {a : α} (hne : xs≠[])
    (h : ∀ i∈xs,i=a) : xs.dedup=[a] := by
  rw [List.eq_replicate_of_mem h,List.replicate_dedup (by simpa using hne)]

theorem answered_declaredLengthOf {cls : HeaderList} (hc : ∀ p∈cls,Canonical p.2) :
    Answered (declaredLengthOf cls) ↔
      (cls≠[] → ∀ v,(∀ p∈cls,p.2=v) → v.length ≤ integerMaxDigits) := by
  by_cases hn : cls=[]
  · simp [hn,declaredLengthOf]
  rw [declaredLengthOf,contentLengthValues_eq hc,if_neg (by simpa using hn)]
  simp only [bind,Except.bind]
  constructor
  · intro h _ v ha
    have hv : (cls.map Prod.snd).dedup=[v] :=
      dedup_eq_singleton (by simpa using hn) (List.forall_mem_map.mpr ha)
    rw [hv] at h
    exact (answered_parseInt v).mp h
  · intro h
    cases hv : (cls.map Prod.snd).dedup with
    | nil => simp [ParseError.status]
    | cons v va =>
      cases va with
      | cons o va => simp [ParseError.status]
      | nil =>
        refine (answered_parseInt v).mpr (h hn v fun p hp => ?_)
        have hm : p.2∈(cls.map Prod.snd).dedup := List.mem_dedup.mpr (List.mem_map_of_mem hp)
        simpa [hv] using hm

theorem answered_validateMessageFraming
    (hc : ∀ p∈hds.getlist (ascii "content-length"),Canonical p.2) :
    Answered (validateMessageFraming hds) ↔ (hds.getlist (ascii "transfer-encoding")=[] →
        hds.getlist (ascii "content-length")≠[] →
        ∀ v,(∀ p∈hds.getlist (ascii "content-length"),p.2=v) →
          v.length ≤ integerMaxDigits) := by
  unfold validateMessageFraming
  by_cases hl : hds.getlist (ascii "content-length")=[]
  · simp only [hl,List.isEmpty_nil,Bool.not_true,Bool.false_and,Bool.false_eq_true,
      if_false,ne_eq,not_true_eq_false,false_imp_iff,imp_true_iff,iff_true]
    rw [answered_bind]
    refine ⟨by simp [declaredLengthOf],fun d _ => ?_⟩
    split_ifs
    · simp
    · rw [answered_bind]
      exact ⟨answered_checkTransferCodings _,fun _ _ => by simp⟩
  · by_cases hco : hds.getlist (ascii "transfer-encoding")=[]
    · simp only [hco,List.isEmpty_nil,Bool.not_true,Bool.and_false,Bool.false_eq_true,
        if_false,if_true,forall_const]
      rw [answered_bind,answered_declaredLengthOf hc]
      simp
    · simp [hl,hco,ParseError.status]

theorem get_host (hv : validateHost hds=.ok ()) (hs : hds.getlist (ascii "host")≠[]) :
    ∃ p,hds.getlist (ascii "host")=[p] ∧ hds.get (ascii "host") []=p.2 := by
  cases hh : hds.getlist (ascii "host") with
  | nil => exact absurd hh hs
  | cons p hosts =>
    cases hosts with
    | nil => exact ⟨p,rfl,by rw [Headers.get,hh]⟩
    | cons o hosts => simp [validateHost,hh] at hv

theorem answered_validateFields (cfg : ParserConfig) (v : Bytes)
    (hc : ∀ p∈hds.getlist (ascii "content-length"),Canonical p.2) :
    Answered (validateFields cfg v hds) ↔ Convertible hds := by
  by_cases ht : (hds.getlist (ascii "content-type")).length≤1
  swap
  · have hr : Answered (validateFields cfg v hds) := by
      simp [validateFields,Nat.lt_of_not_le ht,throw,throwThe,MonadExceptOf.throw,bind,
        Except.bind,ParseError.status]
    exact ⟨fun _ => ⟨fun h => absurd h ht,fun h => absurd h ht⟩,fun _ => hr⟩
  have hs : Answered (validateFields cfg v hds) ↔ Answered (validateMessageFraming hds) ∧
        ((∃ n,validateMessageFraming hds=.ok n) → validateHost hds=.ok () →
          hds.getlist (ascii "host")≠[] → HostConverts (hds.get (ascii "host") [])) := by
    unfold validateFields
    simp only [gt_iff_lt,Nat.not_lt.mpr ht,if_false,answered_bind,
      answered_validateHost hds,true_and]
    refine and_congr_right fun _ => ?_
    by_cases hno : hds.getlist (ascii "host")=[]
    · simp only [hno,List.isEmpty_nil,if_true,ne_eq,not_true_eq_false,false_imp_iff,
        imp_true_iff,iff_true]
      intro n _ _ _
      split_ifs <;> simp [throw,throwThe,MonadExceptOf.throw,pure,Except.pure,ParseError.status]
    · have hso : (hds.getlist (ascii "host")).isEmpty=false := by simpa using hno
      simp only [hso,Bool.false_eq_true,if_false,answered_bind,answered_parseHostHeader]
      constructor
      · rintro h ⟨n,hn⟩ hv _
        exact (h n hn () hv).1
      · intro h n hn _ hv
        exact ⟨h ⟨n,hn⟩ hv hno,fun _ _ => by simp [pure,Except.pure]⟩
  rw [hs,answered_validateMessageFraming hc]
  constructor
  · rintro ⟨hl,hh⟩
    refine ⟨fun _ => hl,fun _ hf hv p hp => ?_⟩
    obtain ⟨only,hho,hg⟩ := get_host hv (List.ne_nil_of_mem hp)
    rw [hho,List.mem_singleton] at hp
    rw [hp,← hg]
    exact hh hf hv (by simp [hho])
  · intro h
    refine ⟨h.length ht,fun hf hv hso => ?_⟩
    obtain ⟨only,hho,hg⟩ := get_host hv hso
    rw [hg]
    exact h.host ht hf hv only (by simp [hho])

/-- The fields of a block, with the authority of an absolute-form target for Host. -/
def headersOf (data : Bytes) : Headers :=
  .fromLowered (overrideHost ((headLines data).head?.bind authorityOf)
    ((blockFields data).map fieldPair))

/-- The block passes the checks on its lines: their lengths, the request line and its target, and
each field line. -/
structure Checked (config : ParserConfig) (cache : LineCache) (data : Bytes) : Prop where
  lengths : oversizedLine config data=none
  target : ∃ requestLine lines line target,headLines data=requestLine::lines ∧
    parseRequestLine requestLine=.ok line ∧ parseTarget line=.ok target
  fields : ∃ raw cache',fieldLines (!blockValuesAreClean data) (!cache.entries.isEmpty)
    (headLines data).tail cache=.ok raw cache'

theorem parse_answered_or_checked (cfg : ParserConfig) (c : LineCache) (d : Bytes) :
    Ensures (parse cfg d) c (fun _ _ => True)
      (fun e _ => e.status.isSome=true ∨ Checked cfg c d) := by
  unfold parse
  cases hl : oversizedLine cfg d with
  | some line => exact .inl rfl
  | none =>
    cases hli : headLines d with
    | nil => exact .inl rfl
    | cons rl ls =>
      simp only [ensures_bind,ensures_ofExcept,ensures_get]
      cases hr : parseRequestLine rl with
      | error e => exact .inl (answered_parseRequestLine rl e hr)
      | ok line =>
        dsimp only
        cases ht : parseTarget line with
        | error e => exact .inl (answered_parseTarget line e ht)
        | ok t =>
          dsimp only
          have hf := fieldLines_answered (!blockValuesAreClean d) (!c.entries.isEmpty) ls c
          unfold Ensures at hf ⊢
          cases hru : fieldLines (!blockValuesAreClean d) (!c.entries.isEmpty) ls c with
          | error e c' =>
            rw [hru] at hf
            exact .inl hf
          | ok raw c' =>
            have hc : Checked cfg c d :=
              ⟨hl,⟨rl,ls,line,t,hli,hr,ht⟩,⟨raw,c',by rw [hli]; exact hru⟩⟩
            dsimp only
            split
            · trivial
            · exact .inr hc

/-- After the checks on the lines it depends on the fields as a whole. -/
theorem parse_answered_iff_of_checked {cfg : ParserConfig} {c : LineCache} {d : Bytes}
    (hh : HonestCache c) (hc : CacheOf LengthCanonical c) (h : Checked cfg c d) :
    Ensures (parse cfg d) c (fun _ _ => True) (fun e _ => e.status.isSome=true) ↔
      Convertible (headersOf d) := by
  obtain ⟨rl,ls,line,t,hl,hr,ht⟩ := h.target
  obtain ⟨raw,c',hru⟩ := h.fields
  rw [hl,List.tail_cons] at hru
  have he : (!blockValuesAreClean d)=false →
      ∀ line∈ls,LineEndsOnly (fieldPair line).2 := fun hte line hli =>
    lineEndsOnly_of_test (hl ▸ List.mem_cons_of_mem rl hli) (by simpa using hte)
  obtain ⟨hra,-⟩ := (fieldLines_ensures he (since_initial hh)).ok hru
  obtain ⟨hle,-⟩ := (fieldLines_enforces lengthCanonical_enforced hc).ok hru
  have hhe : headersOf d=.fromLowered (overrideHost t.authorityOverride raw) := by
    have ha : authorityOf rl=t.authorityOverride := by simp [authorityOf,hr,ht]
    simp [headersOf,blockFields,hl,ha,hra]
  have hcl : ∀ p∈(headersOf d).getlist (ascii "content-length"),Canonical p.2 := by
    rw [hhe]
    exact getlist_canonical hle
  rw [← answered_validateFields cfg line.version hcl,hhe]
  unfold parse
  simp only [h.lengths,hl,ensures_bind,ensures_ofExcept,ensures_get,hr,ht]
  rw [Ensures,hru]
  dsimp only
  cases validateFields cfg line.version
      (Headers.fromLowered (overrideHost t.authorityOverride raw)) with
  | error e | ok r => simp

theorem head_answered_iff (config : ParserConfig) (history : List Bytes) (data : Bytes) :
    (∀ e cache,parse config data (cacheAfter config history)=.error e cache →
      e.status.isSome=true) ↔
      (Checked config (cacheAfter config history) data → Convertible (headersOf data)) := by
  have hh := cacheAfter_honest config history
  have hc := cacheAfter_enforces lengthCanonical_enforced config history
  rw [← ensures_error_iff]
  constructor
  · intro h hch
    exact (parse_answered_iff_of_checked hh hc hch).mp h
  · intro h
    by_cases hch : Checked config (cacheAfter config history) data
    · exact (parse_answered_iff_of_checked hh hc hch).mpr (h hch)
    · exact (parse_answered_or_checked config _ data).mono (fun _ _ => id)
        fun _ _ he => he.resolve_right hch

def undecodableHost : Bytes := ascii "GET / HTTP/1.1\r\nHost: " ++ [255]++ascii "\r\n\r\n"

theorem head_unanswered :
    endsWith undecodableHost (crlf++crlf)=true ∧
      ∃ e cache,parse {} undecodableHost (cacheAfter {} [])=.error e cache ∧
        e.status=none :=
  ⟨by decide,.unicodeDecode,_,rfl,rfl⟩

end BlackBull.HeadParser
