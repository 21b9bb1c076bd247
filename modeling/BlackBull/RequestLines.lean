import BlackBull.ChunkFraming
import BlackBull.HeadOutcomes
import BlackBull.ParsingRules
import BlackBull.RequestTargets

/-!
# The request line

What `_parse` takes for a request line, against the grammar of RFC 9112, section 3. The
authority of an absolute-form target is checked as the Host field it replaces.
-/

namespace BlackBull.HeadParser

open ByteString

/-- A head with this request line. -/
def requestHead (requestLine : Bytes) : Bytes :=
  requestLine++13::10::(ascii "Host: a" ++ (crlf++crlf))

/-- The octets are taken for a request line: the head they begin is parsed. -/
def acceptsRequestLine (config : ParserConfig) (requestLine : Bytes) : Bool :=
  match parse config (requestHead requestLine) {} with
  | .ok _ _ => true
  | .error _ _ => false

/-- The fields of that head, when the target names the authority or not. -/
def fieldsWith (authorityOverride : Option Bytes) : Headers :=
  .fromLowered (overrideHost authorityOverride [(ascii "host",ascii "a")])

/-- The target is parsed, and the fields it leaves pass the checks. -/
def TakesTarget (config : ParserConfig) (line : RequestLine) : Prop :=
  ∃ target fields,parseTarget line=.ok target ∧
    validateFields config line.version (fieldsWith target.authorityOverride)=.ok fields

/-- `scheme = ALPHA *( ALPHA / DIGIT / "+" / "-" / "." )`. -/
def Scheme (text : Bytes) : Prop :=
  (∃ first∈text.head?,H2.isAlpha first=true) ∧ ∀ b∈text,H2.isSchemeOctet b=true

structure Authority (text : Bytes) : Prop where
  ne_nil : text≠[]
  visible : ∀ b∈text,targetAllowed b=true
  plain : ∀ b∈text,hostForbidden b=false

def schemeEnd : Bytes := ascii "://"

inductive TargetForm (method target : Bytes) : Prop
  | origin (hstart : target.head? = some 47) (hvisible : ∀ b∈target,targetAllowed b=true)
  | absolute (scheme authority rest : Bytes)
      (heq : target=scheme++(schemeEnd++(authority++rest))) (hscheme : Scheme scheme)
      (hauthority : Authority authority) (hrest : ∀ b∈rest.head?,b=47 ∨ b=63)
      (hvisible : ∀ b∈rest,targetAllowed b=true)
  | authority (hmethod : method=ascii "CONNECT") (hauthority : Authority target)
  | asterisk (hmethod : method=ascii "OPTIONS") (heq : target=[42])

structure RequestLineForm (text method target : Bytes) : Prop where
  parts : ∃ digit,isDigit digit=true ∧
    text=method++32::(target++32::(ascii "HTTP/1." ++ [digit]))
  token : Token method
  form : TargetForm method target

variable {version scheme method authority path : Bytes} {config : ParserConfig}

theorem version_iff (hl : version.getLast? ≠ some 10) :
    (httpVersionMatches version=true ∧ (version.drop 5).take 1=[49]) ↔
      ∃ d,isDigit d=true ∧ version=ascii "HTTP/1." ++ [d] := by
  have hn : ascii "HTTP/1." = [72,84,84,80,47,49,46] := by decide
  rw [hn]
  constructor
  · rintro ⟨hm,hma⟩
    unfold httpVersionMatches at hm
    split at hm
    · next m mi rest =>
      obtain rfl : m=49 := by simpa using hma
      obtain ⟨⟨-,hmi⟩,hr⟩ : (isDigit 49=true ∧ isDigit mi=true) ∧
          (rest=[] ∨ rest=[10]) := by simpa using hm
      rcases hr with rfl | rfl
      · exact ⟨mi,hmi,rfl⟩
      · simp at hl
    · cases hm
  · rintro ⟨d,hd,rfl⟩
    have ho : isDigit 49=true := by decide
    exact ⟨by simp [httpVersionMatches,hd,ho],rfl⟩

theorem cutScheme_append (r : Bytes) (h : 58∉scheme) :
    cutScheme (scheme++(schemeEnd++r))=some (scheme,r) := by
  induction scheme with
  | nil => rfl
  | cons b scheme ih =>
    obtain ⟨hb,hs⟩ : 58≠b ∧ 58∉scheme := by simpa using h
    rw [List.cons_append,cutScheme,ih hs]
    · rfl
    · rintro a rfl
      exact absurd rfl hb

theorem absoluteForm_slash (r : Bytes) : absoluteForm (47::r)=none := by
  rw [absoluteForm,cutScheme]
  · cases cutScheme r with
    | none => rfl
    | some cut => simp
  · rintro a ⟨⟩

theorem Scheme.plain {scheme : Bytes} (h : Scheme scheme) : 58∉scheme ∧ 47∉scheme :=
  ⟨fun hm => absurd (h.2 58 hm) (by decide +kernel),
    fun hm => absurd (h.2 47 hm) (by decide +kernel)⟩

theorem checkTarget_eq (path : Bytes) (authority : Option Bytes) (hne : path≠[]) :
    checkTarget path authority=if path.all targetAllowed then .ok ⟨path,authority,false⟩
      else .error (.badRequest ("invalid request-target " ++ reprBytes path)) := by
  rw [checkTarget]
  cases path.all targetAllowed <;> simp [hne]

theorem getlist_host (authority : Bytes) :
    (fieldsWith (some authority)).getlist (ascii "host")=[(ascii "host",authority)] := by
  simp [fieldsWith,overrideHost,Headers.getlist,Headers.fromLowered,Headers.lookup]

theorem validateHost_fieldsWith (hne : authority≠[]) (hv : ∀ b∈authority,targetAllowed b=true) :
    validateHost (fieldsWith (some authority))=.ok () ↔ Authority authority := by
  have hbl (b : UInt8) (hb : b∈authority) : isBlank b=false := by
    by_contra h
    simp only [isBlank,Bool.not_eq_false,Bool.or_eq_true,decide_eq_true_eq] at h
    rcases h with rfl | rfl <;> exact absurd (hv _ hb) (by decide)
  unfold validateHost
  rw [getlist_host]
  dsimp only
  rw [strip_of_forall hbl,if_neg (by simpa using hne)]
  split_ifs with hba
  · refine ⟨by rintro ⟨⟩,fun h => ?_⟩
    obtain ⟨b,hb,hf⟩ := List.any_eq_true.mp hba
    rw [h.plain b hb] at hf
    cases hf
  · refine ⟨fun _ => ⟨hne,hv,fun b hb => ?_⟩,fun _ => rfl⟩
    by_contra h
    exact hba (List.any_eq_true.mpr ⟨b,hb,by simpa using h⟩)

theorem parseHostHeader_of_hostConverts {value : Bytes} (h : HostConverts value) (port : ℕ) :
    ∃ server,parseHostHeader value port=.ok server := by
  rw [parseHostHeader_eq]
  unfold HostConverts at h
  generalize hostParts value=parts at h ⊢
  obtain ⟨host,_ | digits⟩ := parts
  · simp [decodeUtf8,h.1,Except.map]
  · have hp := h.2 digits rfl
    simp [hostAndPort,decodeUtf8,parseInt,int?,h.1,hp,bind,Except.bind,pure,Except.pure]

theorem validateFields_fieldsWith (config : ParserConfig) (version : Bytes)
    (hne : authority≠[]) (hv : ∀ b∈authority,targetAllowed b=true) (hc : HostConverts authority) :
    (∃ fields,validateFields config version (fieldsWith (some authority))=.ok fields) ↔
      Authority authority := by
  have ht : (fieldsWith (some authority)).getlist (ascii "content-type")=[] := rfl
  have hf : validateMessageFraming (fieldsWith (some authority))=.ok 0 := rfl
  obtain ⟨server,hs⟩ := parseHostHeader_of_hostConverts hc (if config.ssl then 443 else 80)
  have hg : (fieldsWith (some authority)).get (ascii "host") []=authority := by
    rw [Headers.get,getlist_host]
  rw [← validateHost_fieldsWith hne hv,validateFields,ht,hf,getlist_host,hg,hs]
  cases validateHost (fieldsWith (some authority)) with
  | error e => exact ⟨by rintro ⟨_,⟨⟩⟩,by rintro ⟨⟩⟩
  | ok u => exact ⟨fun _ => rfl,fun _ => ⟨_,rfl⟩⟩

theorem validateFields_host (config : ParserConfig) (version : Bytes) :
    ∃ fields,validateFields config version (fieldsWith none)=.ok fields := by
  have ha : Authority (ascii "a") := ⟨by decide,by decide +kernel,by decide +kernel⟩
  exact (validateFields_fieldsWith config version ha.ne_nil ha.visible
    ⟨by decide +kernel,by decide +kernel⟩).mpr ha

/-- A target that is in none of the ways in which the checks go wrong: it is `*`, begins with a
slash, or has a scheme in front of `://` and visible octets up to the next slash, no `?` among
them, with a port that `int` takes. -/
def TidyTarget (target : Bytes) : Prop :=
  target=[42] ∨ target.head? = some 47 ∨
    ∃ scheme authority path,target=scheme++(schemeEnd++(authority++path)) ∧
      Scheme scheme ∧ (∀ b∈authority,targetAllowed b=true ∧ b≠47 ∧ b≠63) ∧
      HostConverts authority ∧ ∀ b∈path.head?,b=47

theorem Scheme.head (h : Scheme scheme) (r : Bytes) {b : UInt8}
    (hb : (scheme++r).head? = some b) : H2.isAlpha b=true := by
  obtain ⟨a,hf,ha⟩ := h.1
  cases scheme with
  | nil => simp at hf
  | cons c scheme =>
    obtain rfl : c=a := by simpa using hf
    obtain rfl : c=b := by simpa using hb
    exact ha

theorem takesTarget_iff {config : ParserConfig} {line : RequestLine} {target : Target}
    (h : parseTarget line=.ok target) : TakesTarget config line ↔
      ∃ fields,validateFields config line.version (fieldsWith target.authorityOverride) =
        .ok fields := by
  simp [TakesTarget,h]

theorem not_takesTarget {config : ParserConfig} {line : RequestLine} {e : ParseError}
    (h : parseTarget line=.error e) : ¬ TakesTarget config line := by
  simp [TakesTarget,h]

theorem takesTarget_asterisk (hc : method≠ascii "CONNECT") :
    TakesTarget config ⟨method,[42],version⟩ ↔ TargetForm method [42] := by
  have hf : TargetForm method [42] ↔ method=ascii "OPTIONS" := by
    refine ⟨fun h => ?_,fun h => .asterisk h rfl⟩
    cases h with
    | origin hs => simp at hs
    | absolute scheme authority rest heq hsc =>
      have hst := hsc.head (schemeEnd++(authority++rest)) (b := 42) (by simp [← heq])
      exact absurd hst (by decide)
    | authority hm => exact absurd hm hc
    | asterisk hm => exact hm
  rw [hf]
  by_cases hm : method=ascii "OPTIONS"
  · have ht : parseTarget ⟨method,[42],version⟩=.ok ⟨[42],none,true⟩ := by
      rw [parseTarget,if_neg hc,if_pos rfl,if_neg (not_not.mpr hm)]
    exact iff_of_true ((takesTarget_iff ht).mpr (validateFields_host config version)) hm
  · refine iff_of_false (fun h => ?_) hm
    rw [TakesTarget,parseTarget,if_neg hc,if_pos rfl,if_pos hm] at h
    simp at h

theorem takesTarget_origin {r : Bytes} (hc : method≠ascii "CONNECT") :
    TakesTarget config ⟨method,47::r,version⟩ ↔ TargetForm method (47::r) := by
  have hf : TargetForm method (47::r) ↔ (47::r).all targetAllowed=true := by
    rw [List.all_eq_true]
    refine ⟨fun h => ?_,fun h => .origin rfl h⟩
    cases h with
    | origin _ hv => exact hv
    | absolute scheme authority r heq hs =>
      have hsl := hs.head (schemeEnd++(authority++r)) (b := 47) (by simp [← heq])
      exact absurd hsl (by decide)
    | authority hm => exact absurd hm hc
    | asterisk _ heq => simp at heq
  have ht : parseTarget ⟨method,47::r,version⟩=checkTarget (47::r) none := by
    rw [parseTarget,if_neg hc,if_neg (by simp),absoluteForm_slash]
  rw [checkTarget_eq _ _ (by simp)] at ht
  rw [hf]
  split_ifs at ht with hv
  · exact iff_of_true ((takesTarget_iff ht).mpr (validateFields_host config version)) hv
  · exact iff_of_false (not_takesTarget ht) hv

theorem absoluteForm_append (hs : Scheme scheme) (hsl : 47∉authority)
    (hp : ∀ b∈path.head?,b=47) : absoluteForm (scheme++(schemeEnd++(authority++path))) =
      some (authority,if path=[] then [47] else path) := by
  rw [absoluteForm,cutScheme_append _ hs.plain.1]
  dsimp only
  rw [if_neg hs.plain.2]
  cases path with
  | nil => simp [partition_of_notMem 47 authority hsl]
  | cons b path =>
    obtain rfl : b=47 := by simpa using hp
    simp [partition_append 47 authority path hsl]

/-- In a tidy target the authority of the grammar is the one the parser cuts out. -/
theorem authority_unique {sc' au' r : Bytes} (heq : scheme++(schemeEnd++(authority
    ++ path))=sc'++(schemeEnd++(au'++r))) (hs : Scheme scheme) (hs' : Scheme
    sc') (hp : ∀ b∈authority,b≠47 ∧ b≠63) (hpa : ∀ b∈path.head?,b=47) (ha :
    Authority au') (hr : ∀ b∈r.head?,b=47 ∨ b=63) : authority=au' ∧ path=r := by
  have hc := congrArg cutScheme heq
  rw [cutScheme_append _ hs.plain.1,cutScheme_append _ hs'.plain.1] at hc
  have hsa : authority++path=au'++r := congrArg Prod.snd (Option.some.inj hc)
  have hst (b : UInt8) (h : b=47 ∨ b=63) : (b != 47 && b != 63)=false := by
    rcases h with rfl | rfl <;> rfl
  have hl := @takeWhile_append_of_stop _ (fun b => b != 47 && b != 63) authority path
    (fun b hb => by simpa using hp b hb) fun b hb => hst b (.inl (hpa b hb))
  have hri := @takeWhile_append_of_stop _ (fun b => b != 47 && b != 63) au' r (fun b hb => by
      by_contra h
      have hf : b=47 ∨ b=63 := by
        by_contra hne
        exact h (by simpa using hne)
      rcases hf with rfl | rfl <;> exact absurd (ha.plain _ hb) (by decide +kernel))
    fun b hb => hst b (hr b hb)
  rw [hsa] at hl
  exact ⟨hl.1.symm.trans hri.1,hl.2.symm.trans hri.2⟩

theorem takesTarget_absolute (hc : method≠ascii "CONNECT") (hs : Scheme scheme)
    (hp : ∀ b∈authority,targetAllowed b=true ∧ b≠47 ∧ b≠63) (hco : HostConverts authority)
    (hpa : ∀ b∈path.head?,b=47) :
    TakesTarget config ⟨method,scheme++(schemeEnd++(authority++path)),version⟩ ↔
      TargetForm method (scheme++(schemeEnd++(authority++path))) := by
  have hh {b : UInt8} (hb : H2.isAlpha b=false) :
      (scheme++(schemeEnd++(authority++path))).head? ≠ some b := fun h => by
    rw [hs.head _ h] at hb
    cases hb
  have hf : TargetForm method (scheme++(schemeEnd++(authority++path))) ↔
      Authority authority ∧ ∀ b∈path,targetAllowed b=true := by
    constructor
    · intro h
      cases h with
      | origin hst => exact absurd hst (hh (by decide))
      | absolute s' a' rest heq hs' ha hr hv =>
        obtain ⟨rfl,rfl⟩ := authority_unique heq hs hs' (fun b hb => (hp b hb).2) hpa ha hr
        exact ⟨ha,hv⟩
      | authority hme => exact absurd hme hc
      | asterisk _ heq => exact absurd (congrArg List.head? heq) (hh (b := 42) (by decide))
    · exact fun ⟨ha,hv⟩ => .absolute scheme authority path rfl hs ha
        (fun b hb => .inl (hpa b hb)) hv
  have hsta : ¬ scheme++(schemeEnd++(authority++path))=[42] := fun heq =>
    hh (b := 42) (by decide) (congrArg List.head? heq)
  have hsl : 47∉authority := fun hm => (hp 47 hm).2.1 rfl
  rw [hf]
  by_cases he : authority=[]
  · refine iff_of_false (fun h => ?_) fun h => h.1.ne_nil he
    rw [TakesTarget,parseTarget,if_neg hc,if_neg hsta,absoluteForm_append hs hsl hpa] at h
    simp [he] at h
  have ht : parseTarget ⟨method,scheme++(schemeEnd++(authority++path)),version⟩ =
      checkTarget (if path=[] then [47] else path) (some authority) := by
    rw [parseTarget,if_neg hc,if_neg hsta,absoluteForm_append hs hsl hpa]
    dsimp only
    rw [if_neg (by simpa using he)]
  rw [checkTarget_eq _ _ (by split_ifs <;> simp_all)] at ht
  have hal : (if path=[] then [47] else path).all targetAllowed=true ↔
      ∀ b∈path,targetAllowed b=true := by
    split_ifs with hn
    · simp [hn,targetAllowed]
    · rw [List.all_eq_true]
  by_cases hv : ∀ b∈path,targetAllowed b=true
  · rw [if_pos (hal.mpr hv)] at ht
    rw [takesTarget_iff ht,validateFields_fieldsWith config version he
      (fun b hb => (hp b hb).1) hco]
    exact ⟨fun h => ⟨h,hv⟩,And.left⟩
  · rw [if_neg (mt hal.mp hv)] at ht
    exact iff_of_false (not_takesTarget ht) fun h => hv h.2

theorem takesTarget_iff_targetForm {t : Bytes} (hc : method≠ascii "CONNECT")
    (ht : TidyTarget t) : TakesTarget config ⟨method,t,version⟩ ↔ TargetForm method t := by
  rcases ht with rfl | hs | ⟨scheme,authority,path,rfl,hsc,hp,hco,hpa⟩
  · exact takesTarget_asterisk hc
  · cases t with
    | nil => simp at hs
    | cons b rest =>
      obtain rfl : b=47 := by simpa using hs
      exact takesTarget_origin hc
  · exact takesTarget_absolute hc hsc hp hco hpa

theorem parseRequestLine_eq_ok_iff {tx : Bytes} {l : RequestLine} :
    parseRequestLine tx=.ok l ↔ splitByte 32 tx=[l.method,l.target,l.version] ∧ Token l.method ∧
        httpVersionMatches l.version=true ∧ (l.version.drop 5).take 1=[49] := by
  unfold parseRequestLine
  split
  · next method t version hs =>
    have ht : (method.isEmpty || !method.all isTchar) = !isToken method := by
      cases hm : method.isEmpty <;> simp [isToken,hm]
    rw [ht]
    constructor
    · intro h
      split_ifs at h with hme hv hma
      obtain rfl := Except.ok.inj h
      exact ⟨hs,isToken_iff.mp (by simpa using hme),by simpa using hv,by simpa using hma⟩
    · rintro ⟨hp,hme,hv,hma⟩
      obtain ⟨rfl,rfl,rfl⟩ : method=l.method ∧ t=l.target ∧
          version=l.version := by simpa [hs] using hp
      simp [isToken_iff.mpr hme,hv,hma]
  · next hs =>
    refine ⟨by rintro ⟨⟩,fun h => absurd h.1 ?_⟩
    exact hs l.method l.target l.version

/-- The octets are one line, within the limit as the Host line after them is, which does not end
in a line feed and whose target is tidy. -/
structure TidyLine (config : ParserConfig) (text : Bytes) : Prop where
  single : splitCrlf text=[text]
  short : config.maxLine=0 ∨ 7≤config.maxLine ∧ text.length≤config.maxLine
  last : text.getLast? ≠ some 10
  target : ∀ method target version,text=method++32::(target++32::version) → 32∉method →
    32∉target → 32∉version → TidyTarget target

theorem splitCrlf_append_crlf {t : Bytes} (h : splitCrlf t=[t]) (r : Bytes) :
    splitCrlf (t++13::10::r)=t::splitCrlf r := by
  induction t with
  | nil => rfl
  | cons b t ih =>
    have hn (rest : Bytes) (hb : b=13) : t≠10::rest := by
      rintro rfl
      rw [hb,splitCrlf] at h
      simp at h
    rw [splitCrlf.eq_3 _ _ hn] at h
    have ht : splitCrlf t=[t] := by
      split at h
      · next hs =>
        rw [← (List.cons.inj (List.cons.inj h).1).2] at hs
        cases hs
      · next piece pieces hs =>
        obtain ⟨hp,rfl⟩ := List.cons.inj h
        rw [hs,(List.cons.inj hp).2]
    rw [List.cons_append,splitCrlf,ih ht]
    intro rest hb ha
    cases t with
    | nil => simp at ha
    | cons c t =>
      obtain ⟨rfl,-⟩ := List.cons.inj ha
      exact hn t hb rfl

theorem splitCrlf_requestHead {t : Bytes} (h : splitCrlf t=[t]) :
    splitCrlf (requestHead t)=[t,ascii "Host: a",[],[]] := by
  rw [requestHead,splitCrlf_append_crlf h]
  rfl

theorem oversizedLine_requestHead {t : Bytes} (h : TidyLine config t) :
    oversizedLine config (requestHead t)=none := by
  rw [oversizedLine,splitCrlf_requestHead h.single]
  split_ifs with hl
  · have hm := h.short.resolve_left (by omega)
    have hh : (ascii "Host: a").length=7 := rfl
    refine List.find?_eq_none.mpr fun line hli => ?_
    rcases List.mem_cons.mp hli with rfl | hli
    · simpa using hm.2
    · simp only [List.mem_cons,List.not_mem_nil,or_false] at hli
      rcases hli with rfl | rfl | rfl <;> simp [hh,hm.1]
  · rfl

theorem acceptsRequestLine_iff {t : Bytes} (h : TidyLine config t) :
    acceptsRequestLine config t=true ↔
      ∃ line,parseRequestLine t=.ok line ∧ TakesTarget config line := by
  have hl : headLines (requestHead t) = if t=[] then [ascii "Host: a",[],[]]
      else [t,ascii "Host: a",[],[]] := by
    rw [headLines,splitCrlf_requestHead h.single]
    cases t <;> rfl
  have ha : acceptsRequestLine config t=true ↔ Succeeds (parse config (requestHead t)) {}
      fun _ _ => True := by
    unfold acceptsRequestLine Succeeds Ensures
    cases parse config (requestHead t) {} <;> simp
  rw [ha,parse,oversizedLine_requestHead h,hl]
  by_cases hn : t=[]
  · subst hn
    exact iff_of_false (fun h => h) (by rintro ⟨_,⟨⟩,_⟩)
  rw [if_neg hn]
  simp only [ensures_bind,ensures_ofExcept,ensures_get]
  cases hr : parseRequestLine t with
  | error e => exact iff_of_false (fun h => h) (by rintro ⟨_,⟨⟩,_⟩)
  | ok line =>
    simp only [Except.ok.injEq,exists_eq_left']
    cases ht : parseTarget line with
    | error e => exact iff_of_false (fun h => h) (not_takesTarget ht)
    | ok target =>
      rw [takesTarget_iff ht]
      generalize blockValuesAreClean (requestHead t)=clean
      have hf : ∃ cache,fieldLines (!clean) false [ascii "Host: a",[],[]] {} =
          .ok [(ascii "host",ascii "a")] cache := by cases clean <;> exact ⟨_,rfl⟩
      obtain ⟨cache,hf⟩ := hf
      have he : (!({} : LineCache).entries.isEmpty)=false := rfl
      dsimp only
      rw [he,Ensures,hf]
      dsimp only [fieldsWith]
      cases validateFields config line.version (Headers.fromLowered
          (overrideHost target.authorityOverride [(ascii "host",ascii "a")])) with
      | error e => exact iff_of_false (fun h => h) (by rintro ⟨_,⟨⟩⟩)
      | ok fields => exact iff_of_true trivial ⟨_,rfl⟩

theorem TargetForm.notMem_space {t : Bytes} (h : TargetForm method t) : 32∉t := by
  have hv {text : Bytes} (h : ∀ b∈text,targetAllowed b=true) : 32∉text :=
    fun hm => absurd (h 32 hm) (by decide)
  cases h with
  | origin _ h => exact hv h
  | absolute scheme authority rest heq hs ha _ hr =>
    have hsp : 32∉scheme := fun hm => absurd (hs.2 32 hm) (by decide +kernel)
    have hma : (32 : UInt8)∉schemeEnd := by decide +kernel
    simp [heq,hsp,hma,hv ha.visible,hv hr]
  | authority _ h => exact hv h.visible
  | asterisk _ heq => simp [heq]

end BlackBull.HeadParser
