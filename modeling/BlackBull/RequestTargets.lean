import BlackBull.FrameLoading

/-!
# The request target in HTTP/1.1 and HTTP/2

The HTTP/1.1 parser cuts the target itself; the HTTP/2 parser leaves it to
`urlsplit`, which takes two leading slashes for the start of an authority.
-/

namespace BlackBull.H2

open ByteString HeadParser

def isAlpha (b : UInt8) : Bool := (65≤b && b≤90) || (97≤b && b≤122)

def isSchemeOctet (b : UInt8) : Bool := isAlpha b || isDigit b || b∈ascii "+-."

def withoutScheme (url : Bytes) : Bytes :=
  match partition 58 url with
  | (first::scheme,true,rest) =>
    if isAlpha first && scheme.all isSchemeOctet then rest else url
  | _ => url

def endsNetloc (b : UInt8) : Bool := b∈ascii "/?#"

def pathAndQuery (url : Bytes) : Bytes × Bytes :=
  let (noFragment,_) := partition 35 url
  let (path,_,query) := partition 63 noFragment
  (path,query)

/-- The path and the query of `urlsplit`. It raises for an authority that is not valid: what is
valid (its brackets enclose an address) is left open. -/
def urlsplit (netlocValid : Bytes → Bool) (url : Bytes) : Option (Bytes × Bytes) :=
  let url := withoutScheme ((url.dropWhile (· ≤ 32)).filter fun b => b∉ascii "\t\r\n")
  match url with
  | 47::47::rest =>
    if netlocValid (rest.takeWhile fun b => !endsNetloc b) then
      some (pathAndQuery (rest.dropWhile fun b => !endsNetloc b))
    else none
  | _ => some (pathAndQuery url)

theorem partition_fst (sep : UInt8) (t : Bytes) : (partition sep t).1=t.takeWhile (· != sep) := by
  rw [partition]
  split
  · next h => rw [List.takeWhile_eq_self_iff.mpr (List.dropWhile_eq_nil_iff.mp h)]
  · rfl

theorem pathAndQuery_fst (url : Bytes) :
    (pathAndQuery url).1=url.takeWhile fun b => b != 63 && b != 35 := by
  change (partition 63 (partition 35 url).1).1=_
  rw [partition_fst,partition_fst,List.takeWhile_takeWhile]
  simp only [Bool.decide_and,Bool.decide_eq_true]

theorem withoutScheme_slash (rest : Bytes) : withoutScheme (47::rest)=47::rest := by
  unfold withoutScheme
  split
  · next f s a h =>
    have hf := congrArg Prod.fst h
    rw [partition_fst,List.takeWhile_cons_of_pos (by decide)] at hf
    obtain ⟨rfl,-⟩ := List.cons.inj hf
    simp [isAlpha]
  · rfl

theorem visible_of_strip {url : Bytes} (h : ∀ b∈url,targetAllowed b=true) :
    (url.dropWhile (· ≤ 32)).filter (fun b => b∉ascii "\t\r\n")=url := by
  have hv : ∀ b∈url,32<b.toNat := by
    intro b hm
    have hb := h b hm
    simp only [targetAllowed,Bool.and_eq_true,decide_eq_true_eq,UInt8.le_iff_toNat_le] at hb
    exact hb.1
  have hd : url.dropWhile (· ≤ 32)=url := by
    cases url with
    | nil => rfl
    | cons b rest =>
      refine List.dropWhile_cons_of_neg ?_
      simpa [UInt8.le_iff_toNat_le] using hv b List.mem_cons_self
  rw [hd,List.filter_eq_self]
  intro b hm
  have hb := hv b hm
  refine decide_eq_true fun hba => ?_
  have hc : ∀ c∈ascii "\t\r\n",c.toNat≤32 := by decide +kernel
  exact absurd (hc b hba) (by omega)

variable {rest : Bytes}

theorem urlsplit_single {nv : Bytes → Bool} (h : ∀ b∈47::rest,targetAllowed b=true)
    (hs : rest.head? ≠ some 47) : urlsplit nv (47::rest)=some (pathAndQuery (47::rest)) := by
  rw [urlsplit,visible_of_strip h,withoutScheme_slash]
  split
  · next a heq =>
    obtain rfl := (List.cons.inj heq).2
    exact absurd rfl hs
  · rfl

theorem urlsplit_double {nv : Bytes → Bool} (h : ∀ b∈47::47::rest,targetAllowed b=true) :
    urlsplit nv (47::47::rest)=if nv (rest.takeWhile fun b => !endsNetloc b) then
        some (pathAndQuery (rest.dropWhile fun b => !endsNetloc b)) else none := by
  rw [urlsplit,visible_of_strip h,withoutScheme_slash]
  rfl

theorem length_path_double (rest : Bytes) :
    (pathAndQuery (rest.dropWhile fun b => !endsNetloc b)).1.length+2 ≤
      (pathAndQuery (47::47::rest)).1.length := by
  have hn : ∀ b∈rest.takeWhile (fun b => !endsNetloc b),(b != 63 && b != 35)=true := by
    intro b hm
    have hb := List.mem_takeWhile_imp hm
    have he : endsNetloc 63=true ∧ endsNetloc 35=true := by decide +kernel
    rw [Bool.and_eq_true,bne_iff_ne,bne_iff_ne]
    constructor
    · rintro rfl
      rw [he.1] at hb
      cases hb
    · rintro rfl
      rw [he.2] at hb
      cases hb
  have hw : (rest.takeWhile fun b => b != 63 && b != 35).length =
      (rest.takeWhile fun b => !endsNetloc b).length +
        ((rest.dropWhile fun b => !endsNetloc b).takeWhile fun b => b != 63 && b != 35).length := by
    conv_lhs => rw [← List.takeWhile_append_dropWhile (p := fun b => !endsNetloc b) (l := rest)]
    rw [List.takeWhile_append_of_pos hn,List.length_append]
  rw [pathAndQuery_fst,pathAndQuery_fst,List.takeWhile_cons_of_pos (by decide),
    List.takeWhile_cons_of_pos (by decide),List.length_cons,List.length_cons,hw]
  omega

theorem unquote_of_notMem {t : Bytes} (h : 37∉t) : unquote t=t := by
  induction t with
  | nil => rfl
  | cons b rest ih =>
    rw [List.mem_cons,not_or] at h
    have hr := ih h.2
    unfold unquote
    split
    · next heq =>
      obtain ⟨rfl,-⟩ := List.cons.inj heq
      exact absurd rfl h.1
    · next heq =>
      obtain ⟨rfl,rfl⟩ := List.cons.inj heq
      rw [hr]
    · next heq => cases heq

theorem cutScheme_slash {s a : Bytes} (h : cutScheme (47::rest)=some (s,a)) : 47∈s := by
  rw [cutScheme] at h
  · obtain ⟨cut,-,hc⟩ := Option.map_eq_some_iff.mp h
    obtain ⟨rfl,-⟩ := Prod.mk.inj hc
    exact List.mem_cons_self
  · intro tail heq
    cases heq

theorem parseTarget_origin {l : RequestLine} (hm : l.method≠ascii "CONNECT")
    (ht : l.target=47::rest) (h : ∀ b∈l.target,targetAllowed b=true) :
    parseTarget l=.ok ⟨l.target,none,false⟩ := by
  have ha : absoluteForm l.target=none := by
    unfold absoluteForm
    split
    · next s a hc =>
      rw [ht] at hc
      exact if_pos (cutScheme_slash hc)
    · rfl
  rw [parseTarget,if_neg hm,if_neg (by rw [ht]; simp),ha]
  refine if_neg ?_
  rw [ht] at h ⊢
  simpa using h

theorem parse_target {cfg : ParserConfig} {d rl : Bytes} {l : List Bytes}
    {ln : RequestLine} {t : Target} (hl : headLines d=rl::l)
    (hli : parseRequestLine rl=.ok ln) (ht : parseTarget ln=.ok t) (c : LineCache) :
    OnSuccess (parse cfg d) c fun cn _ => cn.path=unquote (pathAndQuery t.path).1 ∧
        cn.rawPath=(pathAndQuery t.path).1 ∧ cn.queryString=(pathAndQuery t.path).2 := by
  unfold parse
  cases oversizedLine cfg d with
  | some ln => exact trivial
  | none =>
    simp only [hl,ensures_bind,ensures_ofExcept,hli,ht,ensures_get]
    have hf : ∀ x y,OnSuccess (fieldLines x y l) c fun _ _ => True :=
      fun _ _ => ensures_error_iff.mpr fun _ _ _ => trivial
    refine (hf _ _).imp fun raw _ _ => ?_
    cases validateFields cfg ln.version (Headers.fromLowered
      (overrideHost t.authorityOverride raw)) with
    | error e => exact trivial
    | ok r => exact ⟨rfl,rfl,rfl⟩

theorem requestPath_of_parseHeaders {τ : Type} {lib : Library τ} {f : HeadersFrame}
    {q : Request} (h : parseHeaders lib f=.ok (.ok q)) :
    requestPath lib f=.ok (q.path,q.rawPath,q.queryString) := by
  unfold parseHeaders at h
  split at h
  · cases h
  · split at h
    · cases h
    · rw [bind_eq_ok_iff] at h
      obtain ⟨⟨p,rp,qs⟩,hp,h⟩ := h
      rw [hp]
      dsimp only at h
      split at h
      · obtain ⟨hs,-,rfl⟩ := map_eq_ok_iff.mp (Except.ok.inj h)
        rfl
      · obtain ⟨hs,-,rfl⟩ := map_eq_ok_iff.mp (Except.ok.inj h)
        rfl

theorem splitH2Path_of_urlsplit {τ : Type} {lib : Library τ} {raw p q : Bytes}
    (h : lib.urlsplit raw=some (p,q)) : splitH2Path lib raw=.ok (unquote p,p,q) := by
  rw [splitH2Path,h]
  dsimp only
  split
  · rfl
  · next he => rw [unquote_of_notMem he]

structure OriginForm (target : Bytes) : Prop where
  slash : [47] <+: target
  visible : ∀ b∈target,targetAllowed b=true

/-- The two parsers read a target in origin form in the same way exactly when it does not start
with two slashes; the HTTP/1.1 parser takes every such target. -/
theorem targets_agree_iff {τ : Type} (lib : Library τ) (netlocValid : Bytes → Bool)
    (line : RequestLine) {config : ParserConfig} {data requestLine : Bytes} {lines : List Bytes}
    {frame : HeadersFrame} (hlines : headLines data=requestLine::lines)
    (hline : parseRequestLine requestLine=.ok line) (hmethod : line.method≠ascii "CONNECT")
    (horigin : OriginForm line.target) (hpath : frame.pseudo .path=some line.target) :
    let lib := {lib with urlsplit:=urlsplit netlocValid}
    (∃ target,parseTarget line=.ok target) ∧
    (∀ request,parseHeaders lib frame=.ok (.ok request) →
      requestPath lib frame=.ok (request.path,request.rawPath,request.queryString)) ∧
    ∀ cache conn cache',parse config data cache=.ok conn cache' →
      (requestPath lib frame=.ok (conn.path,conn.rawPath,conn.queryString) ↔
        ¬ [47,47] <+: line.target) := by
  intro lib
  obtain ⟨rest,hr⟩ := horigin.slash
  have hv := horigin.visible
  have ht := parseTarget_origin hmethod hr.symm hv
  refine ⟨⟨_,ht⟩,fun request h => requestPath_of_parseHeaders h,?_⟩
  intro cache conn cache' hp
  obtain ⟨hc,hco,hcon⟩ := (parse_target hlines hline ht cache).ok hp
  have hre : requestPath lib frame=splitH2Path lib line.target := by
    rw [requestPath,hpath,← hr]
    rfl
  rw [hre,hc,hco,hcon]
  dsimp only
  rw [← hr] at hv ⊢
  constructor
  · rintro hs ⟨after,ha⟩
    obtain rfl : 47::after=rest := (List.cons.inj ha).2
    have hsp : lib.urlsplit (47::47::after)=_ := urlsplit_double hv
    rw [List.singleton_append,splitH2Path,hsp] at hs
    split at hs
    · cases hs
    · next path query hso =>
      have hl := length_path_double after
      have hra := congrArg (fun triple => triple.2.1) (Except.ok.inj hs)
      dsimp only at hra
      split at hso
      · rw [Option.some.inj hso,hra] at hl
        dsimp only at hl
        omega
      · cases hso
  · intro hsi
    refine splitH2Path_of_urlsplit ?_
    refine urlsplit_single hv fun hh => hsi ?_
    cases rest with
    | nil => cases hh
    | cons b after =>
      obtain rfl := Option.some.inj hh
      exact ⟨after,rfl⟩

def targetHead (target : Bytes) : Bytes :=
  ascii "GET " ++ target++ascii " HTTP/1.1\r\nHost: a\r\n\r\n"

def targetFrame (target : Bytes) : HeadersFrame :=
  { streamId:=1,length:=0,endStream:=true,endHeaders:=true,padded:=false
    priority:=false,rawBlock:=[]
    pseudoHeaders:=[(.method,ascii "GET"),(.scheme,ascii "https"),(.path,target),
      (.authority,ascii "a")]}

theorem targets_agree_query :
    let lib := {plainLibrary with urlsplit:=urlsplit fun _ => true}
    ∃ conn cache,parse {} (targetHead (ascii "/a%20b?x#y")) {}=.ok conn cache ∧
      (requestPath lib (targetFrame (ascii "/a%20b?x#y")) =
          .ok (conn.path,conn.rawPath,conn.queryString) ↔
        ¬ [47,47] <+: ascii "/a%20b?x#y") := by
  have hh : parse {} (targetHead (ascii "/a%20b?x#y")) {}=.ok _ _ := rfl
  refine ⟨_,_,hh,(targets_agree_iff plainLibrary (fun _ => true)
    ⟨ascii "GET",ascii "/a%20b?x#y",ascii "HTTP/1.1"⟩ rfl rfl ?_ ⟨?_,?_⟩ rfl).2.2
    _ _ _ hh⟩
  · decide +kernel
  · decide +kernel
  · decide +kernel

/-- The first segment is taken for an authority and lost. -/
theorem targets_differ_double :
    let lib := {plainLibrary with urlsplit:=urlsplit fun _ => true}
    ∃ conn cache,parse {} (targetHead (ascii "//admin/users")) {}=.ok conn cache ∧
      conn.path=ascii "//admin/users" ∧ conn.rawPath=ascii "//admin/users" ∧
      ∃ request,parseHeaders lib (targetFrame (ascii "//admin/users"))=.ok (.ok request) ∧
        request.path=ascii "/users" ∧ request.rawPath=ascii "/users" :=
  ⟨_,_,rfl,by decide +kernel,by decide +kernel,_,rfl,by decide +kernel,by decide +kernel⟩

end BlackBull.H2
