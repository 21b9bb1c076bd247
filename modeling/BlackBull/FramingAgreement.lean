import BlackBull.BodyBoundary
import BlackBull.FieldValueSafety

/-!
# Agreement on the framing of a message

Three places read the framing fields of a request: the check on its head, the question whether it
declares content, and the recipient of its body. A Content-Length that gets past its line is a
decimal in canonical form; a Transfer-Encoding that gets past the check is one coding.
-/

namespace BlackBull

open ByteString

namespace HeadParser

section

variable {P : Bytes × Bytes → Prop}

/-- The property holds of every field the checks let through, and of the shared table. -/
structure Enforced (P : Bytes × Bytes → Prop) : Prop where
  checked : ∀ {needChecking line pair},checkFieldLine needChecking line=.ok pair → P pair
  shared : ∀ entry∈defaultLines,P entry.2

def CacheOf (P : Bytes × Bytes → Prop) (cache : LineCache) : Prop :=
  ∀ entry∈cache.entries,P entry.2

variable {c : LineCache}

theorem fieldLine_enforces (h : Enforced P) {nc dl : Bool} {l : Bytes}
    (hc : CacheOf P c) :
    Ensures (fieldLine nc dl l) c
      (fun p c' => P p ∧ CacheOf P c') (fun _ => CacheOf P) := by
  simp only [fieldLine,ensures_bind,ensures_get]
  cases hl : lookupLine dl c l with
  | some p =>
    rcases lookupLine_mem hl with hm | hm
    · exact ⟨hc _ hm,hc⟩
    · exact ⟨h.shared _ hm,hc⟩
  | none =>
    cases hch : checkFieldLine nc l with
    | error e => exact hc
    | ok p =>
      have hp := h.checked hch
      simp only [ensures_bind,ensures_modify,ensures_pure]
      refine ⟨hp,fun en he => ?_⟩
      rcases mem_remember he with hold | rfl
      · exact hc en hold
      · exact hp

theorem fieldLines_enforces (h : Enforced P) {nc dl : Bool} {l : List Bytes}
    (hc : CacheOf P c) :
    Ensures (fieldLines nc dl l) c
      (fun raw c' => (∀ p∈raw,P p) ∧ CacheOf P c') (fun _ => CacheOf P) := by
  induction l generalizing c with
  | nil => exact ⟨List.forall_mem_nil P,hc⟩
  | cons line l ih =>
    simp only [fieldLines,ensures_ite,ensures_bind,ensures_pure]
    refine ⟨fun _ => ih hc,fun _ => (fieldLine_enforces h hc).mono ?_ fun _ _ he => he⟩
    rintro p c' ⟨hp,hc'⟩
    refine (ih hc').mono ?_ fun _ _ he => he
    rintro raw c'' ⟨hr,hc''⟩
    exact ⟨List.forall_mem_cons.mpr ⟨hp,hr⟩,hc''⟩

/-- An accepted block: its fields have the property, but for a host that is its target's, and
have passed the checks on the fields as a whole. -/
theorem parse_enforces (h : Enforced P) (cfg : ParserConfig) (d : Bytes)
    (hc : CacheOf P c) :
    Ensures (parse cfg d) c
      (fun cn c' => CacheOf P c' ∧
        (∃ raw a,cn.headers=.fromLowered (overrideHost a raw) ∧
          ∀ p∈raw,P p) ∧
        ∃ v s,
          validateFields cfg v cn.headers=.ok (cn.declaredBodyLen,s))
      (fun _ => CacheOf P) := by
  unfold parse
  cases oversizedLine cfg d with
  | some line => exact hc
  | none =>
    cases headLines d with
    | nil => exact hc
    | cons rl l =>
      simp only [ensures_bind,ensures_ofExcept,ensures_get]
      cases parseRequestLine rl with
      | error e => exact hc
      | ok line =>
        dsimp only
        cases parseTarget line with
        | error e => exact hc
        | ok t =>
          dsimp only
          refine (fieldLines_enforces h hc).mono ?_ fun _ _ he => he
          rintro raw c' ⟨hr,hc'⟩
          cases hv : validateFields cfg line.version
            (Headers.fromLowered (overrideHost t.authorityOverride raw)) with
          | error e => exact hc'
          | ok r => exact ⟨hc',⟨raw,_,rfl,hr⟩,line.version,r.2,hv⟩

theorem cacheAfter_enforces (h : Enforced P) (cfg : ParserConfig) (hi : List Bytes) :
    CacheOf P (cacheAfter cfg hi) := by
  have hs (c : LineCache) (b : Bytes) (hc : CacheOf P c) (_ : True) :
      CacheOf P (leaving (parse cfg b) c) :=
    ((parse_enforces h cfg b hc).mono (fun _ _ h => h.1) fun _ _ h => h).leaving
  exact Along.invariant hs (along_of_forall _ fun _ _ _ => trivial)
    (by simp [CacheOf])

end

structure Canonical (text : Bytes) : Prop where
  isdigit : isdigit text=true
  leading : text=[48] ∨ text.head? ≠ some 48

variable {t : Bytes}

theorem Canonical.digits (h : Canonical t) : ∀ b∈t,isDigit b=true := by
  have hd := h.isdigit
  simp only [ByteString.isdigit,Bool.and_eq_true,List.all_eq_true] at hd
  exact hd.2

theorem Canonical.ne_nil (h : Canonical t) : t≠[] := by
  have hd := h.isdigit
  simp only [ByteString.isdigit,Bool.and_eq_true,Bool.not_eq_true',List.isEmpty_eq_false_iff] at hd
  exact hd.1

theorem isDigit_plain {b : UInt8} (h : isDigit b=true) :
    isSpace b=false ∧ isBlank b=false ∧ b≠44 := by
  have ha := forall_octet
    (p := fun b => !isDigit b || (!isSpace b && !isBlank b && b != 44)) (by decide +kernel) b
  simpa [h,and_assoc] using ha

theorem Canonical.trimmed (h : Canonical t) {p : UInt8 → Bool}
    (hp : ∀ b,isDigit b=true → p b=false) : Trimmed p t :=
  ⟨fun b hb => hp b (h.digits b (List.mem_of_mem_head? hb)),
    fun b hb => hp b (h.digits b (List.mem_of_mem_getLast? hb))⟩

theorem Canonical.strip (h : Canonical t) : strip isSpace t=t :=
  strip_of_forall fun b hb => (isDigit_plain (h.digits b hb)).1

theorem Canonical.splitByte (h : Canonical t) : splitByte 44 t=[t] :=
  splitByte_of_notMem 44 t fun hm => (isDigit_plain (h.digits 44 hm)).2.2 rfl

theorem Canonical.lstrip (h : Canonical t) :
    lstrip (· = 48) t=if t=[48] then [] else t := by
  rcases h.leading with rfl | hf
  · rfl
  · cases t with
    | nil => rfl
    | cons b rest =>
      have hb : b≠48 := by simpa using hf
      simp [ByteString.lstrip,hb]

theorem canonical_cons {b : UInt8} {rs : Bytes}
    (h : (b=48 && rs.isEmpty || 49≤b && b≤57 && rs.all isDigit)=true) :
    Canonical (b::rs) := by
  simp only [Bool.or_eq_true,Bool.and_eq_true,decide_eq_true_eq,List.isEmpty_iff] at h
  rcases h with ⟨rfl,rfl⟩ | ⟨⟨hl,hh⟩,hr⟩
  · exact ⟨by decide,.inl rfl⟩
  · have hb : isDigit b=true := by
      simpa [isDigit,hh] using UInt8.le_trans (by decide) hl
    refine ⟨by simp [ByteString.isdigit,hb,hr],.inr fun hz => ?_⟩
    obtain rfl : b=48 := by simpa using hz
    exact absurd hl (by decide)

theorem canonical_of_clStrict {v : Bytes} (h : clStrict v=true) :
    Canonical (ByteString.strip isBlank v) := by
  obtain ⟨f,digits,rfl,hf,hd⟩ : ∃ f digits,v=f++digits ∧
      (∀ b∈f,isBlank b=true) ∧ Canonical digits := by
    cases v with
    | nil => exact absurd h (by decide)
    | cons b rest =>
      by_cases hb : b=32
      · subst hb
        cases rest with
        | nil => exact absurd h (by decide)
        | cons c rest => exact ⟨[32],c::rest,rfl,by simp [isBlank],canonical_cons h⟩
      · refine ⟨[],b::rest,rfl,List.forall_mem_nil _,canonical_cons ?_⟩
        simpa [clStrict,hb] using h
  have hc := strip_append hf (hd.trimmed fun b hb => (isDigit_plain hb).2.1)
    hd.ne_nil (List.forall_mem_nil _)
  rw [List.append_nil] at hc
  rwa [hc]

theorem le_foldl_digits (n : ℕ) (t : Bytes) :
    n≤t.foldl (fun n b => n*10+digitValue b) n := by
  induction t generalizing n with
  | nil => exact Nat.le_refl n
  | cons b t ih =>
    rw [List.foldl_cons]
    exact Nat.le_trans (by omega) (ih _)

theorem Canonical.ofDigits_eq_zero (h : Canonical t) : ofDigits 10 t=0 ↔ t=[48] := by
  refine ⟨fun hz => ?_,fun ht => by rw [ht]; rfl⟩
  rcases h.leading with ht | hf
  · exact ht
  · cases t with
    | nil => exact absurd rfl h.ne_nil
    | cons b rest =>
      have hb : isDigit b=true := h.digits b List.mem_cons_self
      have hp : 0<digitValue b := by
        have ha := forall_octet
          (p := fun b => !isDigit b || b == 48 || decide (0<digitValue b)) (by decide +kernel) b
        have hne : b≠48 := by simpa using hf
        simpa [hb,hne] using ha
      have hle := le_foldl_digits (digitValue b) rest
      rw [ofDigits,List.foldl_cons,Nat.zero_mul,Nat.zero_add] at hz
      omega

/-- The field is not a Content-Length, or its value is canonical. -/
def LengthCanonical (pair : Bytes × Bytes) : Prop :=
  pair.1=ascii "content-length" → Canonical pair.2

theorem lengthCanonical_enforced : Enforced LengthCanonical where
  checked := by
    intro nc line p h hn
    unfold checkFieldLine at h
    dsimp only at h
    split_ifs at h with hf hc hn' hb hu hcl hct
    cases h
    have hk : lower (partition 58 line).1=ascii "content-length" := hn
    have hs : clStrict (partition 58 line).2.2=true := by simpa [hk] using hcl
    exact canonical_of_clStrict hs
  shared := by
    have ha : defaultLines.all (fun e => e.2.1 != ascii "content-length")=true := by
      decide +kernel
    intro e he hn
    simpa [hn] using List.all_eq_true.mp ha e he

end HeadParser

namespace Framing

open HeadParser

/-- The length the check on the head returns, which is zero for the chunked coding. -/
def declared : Framing → ℕ
  | .sized n => n
  | .chunked | .empty => 0

def hasContent : Framing → Bool
  | .chunked => true
  | .sized n => n≠0
  | .empty => false

def length? : Framing → Option ℕ
  | .sized n => some n
  | .chunked | .empty => none

/-- What the framing fields say: one of the two kinds decides, chunked is the only coding, and
every member of every Content-Length is the same number. -/
def DeclaredBy (headers : Headers) : Framing → Prop
  | .chunked => headers.getlist (ascii "content-length")=[] ∧
      transferCodings (headers.getlist (ascii "transfer-encoding"))=[ascii "chunked"]
  | .sized n => headers.getlist (ascii "transfer-encoding")=[] ∧
      headers.getlist (ascii "content-length")≠[] ∧
      ∀ pair∈headers.getlist (ascii "content-length"),∀ member∈splitByte 44 pair.2,
        isdigit (strip isSpace member)=true ∧ ofDigits 10 (strip isSpace member)=n
  | .empty => headers.getlist (ascii "content-length")=[] ∧
      headers.getlist (ascii "transfer-encoding")=[]

end Framing

namespace HeadParser

/-- The three readers of the framing fields find this framing. -/
structure Agreed (settings : RecipientSettings) (reader : Reader) (headers : Headers)
    (framing : Framing) : Prop where
  declaredBy : framing.DeclaredBy headers
  validated : validateMessageFraming headers=.ok framing.declared
  declares : declaresContent headers=framing.hasContent
  bound : ∃ s,HTTP1Recipient.bind settings reader headers=.ok s ∧
    s.chunked=decide (framing=.chunked) ∧ s.contentLength=framing.length?

theorem mem_getlist {raw : HeaderList} {nm : Bytes} (hn : lower nm=nm)
    {p : Bytes × Bytes} (h : p∈(Headers.fromLowered raw).getlist nm) :
    p∈raw ∧ p.1=nm := by
  have hl : p∈(Headers.fromLowered raw).lookup nm := by
    unfold Headers.getlist at h
    split at h
    · rwa [hn] at h
    · exact h
  obtain ⟨e,he,rfl⟩ := List.mem_map.mp hl
  obtain ⟨hm,hk⟩ := List.mem_filter.mp he
  obtain ⟨p,hp,rfl⟩ := List.mem_map.mp hm
  exact ⟨hp,by simpa using hk⟩

theorem contentLengthValues_eq {cls : HeaderList} (h : ∀ p∈cls,Canonical p.2) :
    contentLengthValues cls=.ok (cls.map Prod.snd) := by
  induction cls with
  | nil => rfl
  | cons p cls ih =>
    obtain ⟨hp,hc⟩ := List.forall_mem_cons.mp h
    have hr := ih hc
    have hv : (if (lstrip (· = 48) p.2).isEmpty then [48] else lstrip (· = 48) p.2) =
        p.2 := by
      rw [hp.lstrip]
      by_cases hz : p.2=[48]
      · simp [hz]
      · simp [hz,hp.ne_nil]
    unfold contentLengthValues at hr ⊢
    rw [List.flatMap_cons,hp.splitByte,List.singleton_append,List.mapM_cons,hr]
    simp only [hp.strip,hp.isdigit,if_true,hv]
    rfl

theorem transferCodings_singleton {tes : HeaderList} {co : Bytes}
    (h : transferCodings tes=[co]) :
    ∃ name v,tes=[(name,v)] ∧ lower (strip isSpace v)=co := by
  cases tes with
  | nil => exact absurd h (List.cons_ne_nil _ _).symm
  | cons pr tes =>
    obtain ⟨name,v⟩ := pr
    cases hp : splitByte 44 v with
    | nil => exact absurd hp (splitByte_ne_nil 44 v)
    | cons p pi =>
      have hc : transferCodings ((name,v)::tes)=lower (strip isSpace p) ::
          (pi.map (fun c => lower (strip isSpace c))++transferCodings tes) := by
        simp [transferCodings,hp]
      obtain ⟨hco,hn⟩ := List.cons.inj (hc.symm.trans h)
      obtain ⟨hp',ht⟩ := List.append_eq_nil_iff.mp hn
      have ho : splitByte 44 v=[p] := by
        rw [hp,List.map_eq_nil_iff.mp hp']
      cases tes with
      | nil => exact ⟨name,v,rfl,splitByte_singleton ho ▸ hco⟩
      | cons l tes =>
        have hm : transferCodings (l::tes)≠[] := by
          simp [transferCodings,splitByte_ne_nil]
        exact absurd ht hm

theorem checkTransferCodings_ok {c : List Bytes} (h : checkTransferCodings c=.ok ()) :
    c=[ascii "chunked"] := by
  unfold checkTransferCodings at h
  dsimp only at h
  split_ifs at h with hc hn hl
  exact hc

variable {hds : Headers} {n : ℕ} (cfg : RecipientSettings) (r : Reader)

theorem getlist_eq_nil_get {nm : Bytes} (h : hds.getlist nm=[]) (d : Bytes) :
    hds.get nm d=d := by
  rw [Headers.get,h]

theorem bind_eq {cfg : RecipientSettings} {r : Reader} {len : Option ℕ} (te : Bytes)
    (hte : lower (strip isSpace (hds.get (ascii "transfer-encoding") []))=te)
    (hc : te=[] ∨ te=ascii "chunked")
    (hl : HTTP1Recipient.declaredLength (hds.get (ascii "content-length") []) =
      .ok len) :
    ∃ s,HTTP1Recipient.bind cfg r hds=.ok s ∧
      s.chunked=decide (te=ascii "chunked") ∧ s.contentLength=len := by
  have hs : ¬(te≠[] ∧ te≠ascii "chunked") := by
    rintro ⟨hne,ho⟩
    exact hc.elim hne ho
  unfold HTTP1Recipient.bind
  simp only [hte,hl,if_neg hs]
  exact ⟨_,rfl,rfl,rfl⟩

theorem agreed_empty (hc : hds.getlist (ascii "content-length")=[])
    (ht : hds.getlist (ascii "transfer-encoding")=[]) :
    Agreed cfg r hds .empty where
  declaredBy := ⟨hc,ht⟩
  validated := by
    rw [validateMessageFraming,hc,ht]
    rfl
  declares := by
    rw [declaresContent,ht,getlist_eq_nil_get hc]
    rfl
  bound := by
    refine bind_eq [] ?_ (.inl rfl) ?_
    · rw [getlist_eq_nil_get ht]
      rfl
    · rw [getlist_eq_nil_get hc]
      rfl

theorem agreed_chunked (hc : hds.getlist (ascii "content-length")=[])
    (hco : transferCodings (hds.getlist (ascii "transfer-encoding"))=[ascii "chunked"]) :
    Agreed cfg r hds .chunked := by
  obtain ⟨name,v,ht,hv⟩ := transferCodings_singleton hco
  exact
    { declaredBy:=⟨hc,hco⟩
      validated:=by
        have hch : checkTransferCodings (transferCodings [(name,v)])=.ok ():=by
          rw [← ht,hco]
          rfl
        rw [validateMessageFraming,hc,ht]
        simp only [hch,List.isEmpty_nil,List.isEmpty_cons]
        rfl
      declares:=by
        rw [declaresContent,ht]
        rfl
      bound:=by
        refine bind_eq (ascii "chunked") ?_ (.inr rfl) ?_
        · rw [Headers.get,ht]
          exact hv
        · rw [getlist_eq_nil_get hc]
          rfl}

theorem declaredLengthOf_ok {cls : HeaderList} (hc : ∀ p∈cls,Canonical p.2)
    (hs : cls≠[]) (h : declaredLengthOf cls=.ok n) :
    ∃ v,int? v=some n ∧ ∀ p∈cls,p.2=v := by
  rw [declaredLengthOf,contentLengthValues_eq hc,if_neg (by simpa using hs)] at h
  cases hv : (cls.map Prod.snd).dedup with
  | nil => simp [Except.bind,bind,hv] at h
  | cons v va =>
    cases va with
    | cons o va => simp [Except.bind,bind,hv] at h
    | nil =>
      refine ⟨v,?_,fun p hp => ?_⟩
      · simp only [bind,Except.bind,hv,parseInt] at h
        cases hi : int? v with
        | none => simp [hi] at h
        | some m =>
          rw [hi] at h
          rw [Except.ok.inj h]
      · have hm : p.2∈(cls.map Prod.snd).dedup :=
          List.mem_dedup.mpr (List.mem_map_of_mem hp)
        simpa [hv] using hm

theorem int?_eq_some {text : Bytes} (h : int? text=some n) : ofDigits 10 text=n := by
  unfold int? at h
  split_ifs at h
  exact Option.some_inj.mp h

theorem agreed_sized (hc : ∀ p∈hds.getlist (ascii "content-length"),Canonical p.2)
    (hs : hds.getlist (ascii "content-length")≠[])
    (ht : hds.getlist (ascii "transfer-encoding")=[])
    (hv : validateMessageFraming hds=.ok n) :
    Agreed cfg r hds (.sized n) := by
  have hd : declaredLengthOf (hds.getlist (ascii "content-length"))=.ok n := by
    rw [validateMessageFraming,ht] at hv
    cases hl : declaredLengthOf (hds.getlist (ascii "content-length")) with
    | error e => simp [hl,bind,Except.bind] at hv
    | ok m => simpa [hl,bind,Except.bind] using hv
  obtain ⟨v,hi,ha⟩ := declaredLengthOf_ok hc hs hd
  have hg : hds.get (ascii "content-length") []=v := by
    cases hli : hds.getlist (ascii "content-length") with
    | nil => exact absurd hli hs
    | cons p ps =>
      rw [Headers.get,hli]
      exact ha p (hli ▸ List.mem_cons_self)
  have hca : Canonical v := by
    obtain ⟨p,hp⟩ := List.exists_mem_of_ne_nil _ hs
    exact ha p hp ▸ hc p hp
  have hn := int?_eq_some hi
  exact
    { declaredBy:=by
        refine ⟨ht,hs,fun p hp me hm => ?_⟩
        rw [ha p hp,hca.splitByte,List.mem_singleton] at hm
        rw [hm,hca.strip]
        exact ⟨hca.isdigit,hn⟩
      validated:=hv
      declares:=by
        have hz : n=0 ↔ v=[48]:=hn ▸ hca.ofDigits_eq_zero
        simp only [declaresContent,ht,hg,hca.strip,hca.lstrip]
        by_cases he : v=[48]
        · simp [he,Framing.hasContent,hz.mpr he]
        · simp [he,Framing.hasContent,hz,hca.ne_nil]
      bound:=by
        refine bind_eq [] ?_ (.inl rfl) ?_
        · rw [getlist_eq_nil_get ht]
          rfl
        · rw [hg,HTTP1Recipient.declaredLength,if_neg hca.ne_nil,if_pos hca.isdigit,hi]
          rfl}

/-- A head whose Content-Length values are canonical and whose framing passes the check. -/
theorem agreed_of_valid (hc : ∀ p∈hds.getlist (ascii "content-length"),Canonical p.2)
    (hv : validateMessageFraming hds=.ok n) :
    ∃ f,Agreed cfg r hds f ∧ n=f.declared := by
  by_cases hl : hds.getlist (ascii "content-length")=[]
  · by_cases hco : hds.getlist (ascii "transfer-encoding")=[]
    · have ha := agreed_empty cfg r hl hco
      exact ⟨.empty,ha,Except.ok.inj (hv.symm.trans ha.validated)⟩
    · have hcod : transferCodings (hds.getlist (ascii "transfer-encoding")) =
          [ascii "chunked"] := by
        refine checkTransferCodings_ok ?_
        rw [validateMessageFraming,hl] at hv
        cases hch : checkTransferCodings
            (transferCodings (hds.getlist (ascii "transfer-encoding"))) with
        | error e => simp [hch,hco,declaredLengthOf,bind,Except.bind] at hv
        | ok => rfl
      have ha := agreed_chunked cfg r hl hcod
      exact ⟨.chunked,ha,Except.ok.inj (hv.symm.trans ha.validated)⟩
  · have hco : hds.getlist (ascii "transfer-encoding")=[] := by
      by_contra hb
      simp [validateMessageFraming,hl,hb] at hv
    exact ⟨.sized n,agreed_sized cfg r hc hl hco hv,rfl⟩

theorem framing_of_validateFields {cfg : ParserConfig} {v : Bytes}
    {s : Option (Bytes × ℕ)} (h : validateFields cfg v hds=.ok (n,s)) :
    validateMessageFraming hds=.ok n := by
  unfold validateFields at h
  cases hf : validateMessageFraming hds with
  | error e =>
    simp only [hf,bind,Except.bind] at h
    split at h <;> cases h
  | ok m =>
    simp only [hf,bind,Except.bind,pure,Except.pure] at h
    repeat' split at h
    all_goals cases h
    all_goals rfl

theorem getlist_canonical {raw : HeaderList} {au : Option Bytes}
    (hr : ∀ p∈raw,LengthCanonical p) :
    ∀ p∈(Headers.fromLowered (overrideHost au raw)).getlist (ascii "content-length"),
      Canonical p.2 := by
  intro p hp
  obtain ⟨hm,hn⟩ := mem_getlist (by decide) hp
  refine hr p ?_ hn
  cases au with
  | none => exact hm
  | some a =>
    rcases List.mem_append.mp hm with hk | hh
    · exact List.mem_of_mem_filter hk
    · rw [List.mem_singleton.mp hh] at hn
      exact absurd hn (show ascii "host" ≠ ascii "content-length" by decide)

/-- A block that is accepted, whatever the connection has parsed before, is framed in one way,
and the three readers agree on it. -/
theorem framing_agreed (config : ParserConfig) (history : List Bytes) {data : Bytes}
    {conn : Connection} {cache : LineCache}
    (haccepted : parse config data (cacheAfter config history)=.ok conn cache)
    (settings : RecipientSettings) (reader : Reader) :
    ∃ framing,Agreed settings reader conn.headers framing ∧
      conn.declaredBodyLen=framing.declared := by
  have hc := cacheAfter_enforces lengthCanonical_enforced config history
  obtain ⟨-,⟨raw,authority,hh,hr⟩,version,server,hv⟩ :=
    (parse_enforces lengthCanonical_enforced config data hc).ok haccepted
  refine agreed_of_valid settings reader ?_ (framing_of_validateFields hv)
  rw [hh]
  exact getlist_canonical hr

def repeatedLength : Bytes :=
  ascii "POST / HTTP/1.1\r\nHost: a\r\nContent-Length: 5\r\nContent-Length: 5\r\n\r\n"

theorem framing_agreed_repeatedLength :
    ∃ conn cache,parse {} repeatedLength (cacheAfter {} [])=.ok conn cache ∧
      ∃ framing,Agreed {} ⟨[],.closed,none⟩ conn.headers framing ∧
        conn.declaredBodyLen=framing.declared := by
  have ha : parse {} repeatedLength (cacheAfter {} [])=.ok _ _ := rfl
  exact ⟨_,_,ha,framing_agreed {} [] ha {} ⟨[],.closed,none⟩⟩

end HeadParser
end BlackBull
