import BlackBull.HeadParser
import BlackBull.TransitionRuns

/-!
# Control octets in field values

The parser looks for control octets in a field value only when the octets of the whole block, the
permitted ones deleted, do not tile into line ends. Here is exactly when the values of an accepted
block hold no control octet but HTAB, whatever was parsed before.
-/

namespace BlackBull.HeadParser

open ByteString

def Clean (value : Bytes) : Prop := ∀ b∈value,isControl b=false

/-- The name in front of the colon is made of token octets. -/
def TokenName (line : Bytes) : Prop := ∀ b∈(partition 58 line).1,isTchar b=true

instance (value : Bytes) : Decidable (Clean value) :=
  inferInstanceAs (Decidable (∀ b∈value,isControl b=false))

/-- The only control octets are CR and LF. -/
def LineEndsOnly (value : Bytes) : Prop := ∀ b∈value,isControl b=true → b=13 ∨ b=10

/-- Every entry is what parsing its line would give. -/
def HonestCache (cache : LineCache) : Prop :=
  ∀ entry∈cache.entries,
    entry.2=fieldPair entry.1 ∧ TokenName entry.1 ∧ LineEndsOnly entry.2.2

def Cached (cache : LineCache) (line : Bytes) : Prop := line∈cache.entries.map Prod.fst

theorem Clean.lineEndsOnly {v : Bytes} (h : Clean v) : LineEndsOnly v := by
  intro b hb hc
  simp [h b hb] at hc

theorem blockAllowedOctet_eq (b : UInt8) : blockAllowedOctet b = !isControl b := by
  unfold blockAllowedOctet isControl
  rw [Bool.eq_iff_iff]
  simp only [Bool.and_eq_true,Bool.not_eq_true',Bool.or_eq_false_iff,decide_eq_false_iff_not,
    Bool.and_eq_false_iff]
  grind

theorem countCrlf_le (t : Bytes) : countCrlf t*2≤t.length := by
  fun_induction countCrlf t with
  | case1 => simp
  | case2 rest ih | case3 b rest _ ih => simp only [List.length_cons]; omega

theorem mem_of_tiles {t : Bytes} (h : countCrlf t*2=t.length) :
    ∀ b∈t,b=13 ∨ b=10 := by
  fun_induction countCrlf t with
  | case1 => simp
  | case2 rest ih =>
    simp only [List.length_cons] at h
    simp only [List.mem_cons]
    rintro b (rfl | rfl | hb)
    · exact .inl rfl
    · exact .inr rfl
    · exact ih (by omega) b hb
  | case3 b rest _ ih =>
    have hle := countCrlf_le rest
    simp only [List.length_cons] at h
    omega

variable {line : Bytes} {cache : LineCache} {d : Bytes} {nc : Bool}
  {pair : Bytes × Bytes} {dl : Bool} {i : LineCache}

theorem mem_of_blockValuesAreClean (h : blockValuesAreClean d=true) {b : UInt8}
    (hb : b∈d) : isControl b=false ∨ b=13 ∨ b=10 := by
  by_cases hc : isControl b=true
  · refine .inr (mem_of_tiles (of_decide_eq_true h) b ?_)
    rw [blockResidue,List.mem_filter,blockAllowedOctet_eq]
    simp [hb,hc]
  · exact .inl (by simpa using hc)

theorem mem_of_mem_splitCrlf (h : line∈splitCrlf d) : line ⊆ d := by
  fun_induction splitCrlf d generalizing line with
  | case1 | case3 b rest _ hs => simp_all
  | case2 rest ih =>
    rcases List.mem_cons.mp h with rfl | h
    · exact List.nil_subset _
    · exact fun b hb => List.mem_cons_of_mem _ (List.mem_cons_of_mem _ (ih h hb))
  | case4 b rest _ p pi hs ih =>
    rcases List.mem_cons.mp h with rfl | h
    · have hp : p ⊆ rest := ih (by simp [hs])
      exact List.cons_subset_cons b hp
    · exact fun c hc => List.mem_cons_of_mem _ (ih (by simp [hs,h]) hc)

theorem mem_headLines (h : line∈headLines d) : line ⊆ d := by
  refine mem_of_mem_splitCrlf ?_
  unfold headLines at h
  split at h
  · next heq => exact heq ▸ List.mem_cons_of_mem _ h
  · exact h

theorem value_subset (line : Bytes) : (fieldPair line).2 ⊆ line := fun _ hb =>
  (mem_partition 58).mpr (.inr (.inr (strip_subset _ _ hb)))

theorem mem_value_of_mem_line (hn : TokenName line) {b : UInt8} (hb : b∈line)
    (hc : isControl b=true) : b∈(fieldPair line).2 := by
  obtain hk | ⟨-,hco⟩ | hv := (mem_partition 58).mp hb
  · have hno := forall_octet (p := fun c => !(isTchar c && isControl c)) (by decide +kernel) b
    simp [hn b hk,hc] at hno
  · exact absurd (hco ▸ hc) (by decide)
  · refine mem_strip hv ?_
    by_contra hbl
    simp only [isBlank,Bool.not_eq_false,Bool.or_eq_true,decide_eq_true_eq] at hbl
    obtain rfl | rfl := hbl <;> exact absurd hc (by decide)

theorem checkFieldLine_ok (h : checkFieldLine nc line=.ok pair) :
    pair=fieldPair line ∧ TokenName line ∧ (nc=true → Clean pair.2) := by
  unfold checkFieldLine at h
  dsimp only at h
  split_ifs at h with hf hco hn hbl hu hcl hct
  cases h
  refine ⟨rfl,?_,?_⟩
  · simpa [TokenName] using hn
  · intro hne b hb
    rw [hne,Bool.true_and] at hct
    by_contra hc
    exact hct (List.any_eq_true.mpr ⟨b,hb,by simpa using hc⟩)

/-- Every line of the shared table passes the checks a line of a request would. -/
theorem defaultLines_valid :
    ∀ e∈defaultLines,e.2=fieldPair e.1 ∧ TokenName e.1 ∧ Clean e.2.2 := by
  have ha : specEnumeratedLines.all (fun line =>
      (partition 58 line).1.all isTchar && (fieldPair line).2.all (!isControl ·))=true := by
    decide +kernel
  intro e he
  obtain ⟨line,hl,rfl⟩ := List.mem_map.mp he
  have hv := List.all_eq_true.mp ha line hl
  simp only [Bool.and_eq_true,List.all_eq_true,Bool.not_eq_true'] at hv
  exact ⟨rfl,hv.1,hv.2⟩

theorem find_mem {es : List (Bytes × (Bytes × Bytes))}
    (h : (es.find? fun e => e.1=line).map Prod.snd=some pair) : (line,pair)∈es := by
  obtain ⟨e,he,rfl⟩ := Option.map_eq_some_iff.mp h
  have hl : e.1=line := by simpa using List.find?_some he
  exact hl ▸ List.mem_of_find?_eq_some he

theorem lookupLine_mem (h : lookupLine dl cache line=some pair) :
    (line,pair)∈cache.entries ∨ (line,pair)∈defaultLines := by
  unfold lookupLine at h
  split_ifs at h with hl hlo
  · split at h
    · next hit hf =>
      cases h
      exact .inl (find_mem hf)
    · exact .inr (find_mem h)
  · exact .inr (find_mem h)

theorem mem_remember {e : Bytes × (Bytes × Bytes)} (h : e∈(cache.remember line pair).entries) :
    e∈cache.entries ∨ e=(line,pair) := by
  unfold LineCache.remember at h
  split_ifs at h
  · unfold LineCache.insert at h
    dsimp only at h
    split_ifs at h
    · obtain ⟨old,hold,rfl⟩ := List.mem_map.mp h
      split_ifs
      · exact .inr rfl
      · exact .inl hold
    · simpa using h
  · exact .inl h

/-- A cache within a block: honest, and while values are looked at what it has beyond the
cache the block started with is clean. -/
structure Since (needChecking : Bool) (start cache : LineCache) : Prop where
  honest : HonestCache cache
  fresh : needChecking=true → ∀ entry∈cache.entries,
    entry∈start.entries ∨ Clean entry.2.2

theorem since_initial (h : HonestCache cache) : Since nc cache cache := ⟨h,fun _ _ => .inl⟩

theorem Since.remember (h : Since nc i cache) (hn : TokenName line)
    (he : LineEndsOnly (fieldPair line).2) (hc : nc=true → Clean (fieldPair line).2) :
    Since nc i (cache.remember line (fieldPair line)) := by
  constructor
  · intro e hen
    rcases mem_remember hen with hold | rfl
    · exact h.honest e hold
    · exact ⟨rfl,hn,he⟩
  · intro hne e hen
    rcases mem_remember hen with hold | rfl
    · exact h.fresh hne e hold
    · exact .inr (hc hne)

/-- One field line yields the pair it stands for; its value is looked at unless the block is
exempt or the connection has parsed the line before. -/
theorem fieldLine_ensures (hl : nc=false → LineEndsOnly (fieldPair line).2)
    (h : Since nc i cache) : Ensures (fieldLine nc dl line) cache
      (fun pair c' => pair=fieldPair line ∧ TokenName line ∧
        (nc=true → Cached i line ∨ Clean (fieldPair line).2) ∧
        Since nc i c') (fun _ => Since nc i) := by
  simp only [fieldLine,ensures_bind,ensures_get]
  cases hlo : lookupLine dl cache line with
  | some pair =>
    rcases lookupLine_mem hlo with hm | hm
    · obtain ⟨heq,hn,-⟩ := h.honest _ hm
      refine ⟨heq,hn,fun hne => ?_,h⟩
      rcases h.fresh hne _ hm with hs | hc
      · exact .inl (List.mem_map_of_mem hs)
      · exact .inr (heq ▸ hc)
    · obtain ⟨heq,hn,hv⟩ := defaultLines_valid _ hm
      exact ⟨heq,hn,fun _ => .inr (heq ▸ hv),h⟩
  | none =>
    cases hch : checkFieldLine nc line with
    | error e => exact h
    | ok pair =>
      obtain ⟨rfl,hn,hv⟩ := checkFieldLine_ok hch
      simp only [ensures_bind,ensures_modify,ensures_pure]
      have he : LineEndsOnly (fieldPair line).2 := by
        cases nc with
        | false => exact hl rfl
        | true => exact (hv rfl).lineEndsOnly
      exact ⟨trivial,hn,fun hne => .inr (hv hne),h.remember hn he hv⟩

def fieldsOf (lines : List Bytes) : List Bytes := lines.filter fun line => !line.isEmpty

theorem fieldLines_ensures {li : List Bytes}
    (hli : nc=false → ∀ line∈li,LineEndsOnly (fieldPair line).2)
    (h : Since nc i cache) : Ensures (fieldLines nc dl li) cache
      (fun raw c' => raw=(fieldsOf li).map fieldPair ∧ (∀ line∈fieldsOf li,TokenName line ∧
          (nc=true → Cached i line ∨ Clean (fieldPair line).2)) ∧
        Since nc i c') (fun _ => Since nc i) := by
  induction li generalizing cache with
  | nil => exact ⟨rfl,nofun,h⟩
  | cons line li ih =>
    have hr : nc=false → ∀ l∈li,LineEndsOnly (fieldPair l).2 :=
      fun hn l hl => hli hn l (List.mem_cons_of_mem line hl)
    simp only [fieldLines,ensures_ite,ensures_bind,ensures_pure]
    refine ⟨fun he => ?_,fun hne => ?_⟩
    · have hs : fieldsOf (line::li)=fieldsOf li := by simp [fieldsOf,he]
      rw [hs]
      exact ih hr h
    · have hk : fieldsOf (line::li)=line::fieldsOf li := by simp [fieldsOf,hne]
      rw [hk]
      refine (fieldLine_ensures (fun hn => hli hn line List.mem_cons_self) h).mono ?_
        fun _ _ her => her
      rintro pair c' ⟨rfl,hna,hv,h'⟩
      refine (ih hr h').mono ?_ fun _ _ her => her
      rintro raw c'' ⟨rfl,hnam,h''⟩
      exact ⟨rfl,List.forall_mem_cons.mpr ⟨⟨hna,hv⟩,hnam⟩,h''⟩

/-- The authority an absolute-form target puts in place of the Host field. -/
def authorityOf (requestLine : Bytes) : Option Bytes :=
  match parseRequestLine requestLine with
  | .error _ => none
  | .ok line =>
    match parseTarget line with
    | .error _ => none
    | .ok target => target.authorityOverride

/-- The field lines of a block, and those whose fields reach the application. -/
def blockFields (data : Bytes) : List Bytes := fieldsOf (headLines data).tail

def keptFields (authority : Option Bytes) (lines : List Bytes) : List Bytes :=
  lines.filter fun line => authority.isNone || (fieldPair line).1≠ascii "host"

/-- A field line that reaches the application without being looked at, because the block
passes the octet test or the connection has parsed the line before, holds no CR or LF, and
the authority of an absolute-form target holds no control octet. -/
def Wholesome (cache : LineCache) (data : Bytes) : Prop :=
  ∀ requestLine∈(headLines data).head?,
    (∀ line∈keptFields (authorityOf requestLine) (blockFields data),
        blockValuesAreClean data=true ∨ Cached cache line → 13∉line ∧ 10∉line) ∧
      ∀ authority∈authorityOf requestLine,Clean authority

theorem isControl_lineEnd : isControl 13=true ∧ isControl 10=true := by decide

/-- In a block that passes the octet test, the values hold no control octet but CR and LF. -/
theorem lineEndsOnly_of_test (hl : line∈headLines d)
    (ht : blockValuesAreClean d=true) : LineEndsOnly (fieldPair line).2 := by
  intro b hb hc
  have hm := mem_headLines hl (value_subset line hb)
  rcases mem_of_blockValuesAreClean ht hm with h | h
  · simp [h] at hc
  · exact h

theorem LineEndsOnly.clean (h : LineEndsOnly (fieldPair line).2) (he : 13∉line ∧ 10∉line) :
    Clean (fieldPair line).2 := by
  intro b hb
  have hm := value_subset line hb
  by_contra hc
  rcases h b hb (by simpa using hc) with rfl | rfl
  · exact he.1 hm
  · exact he.2 hm

theorem no_lineEnd_of_clean (hn : TokenName line) (hc : Clean (fieldPair line).2) :
    13∉line ∧ 10∉line := by
  have hno {b : UInt8} (hco : isControl b=true) : b∉line := by
    intro hb
    have hv := hc b (mem_value_of_mem_line hn hb hco)
    simp [hco] at hv
  exact ⟨hno isControl_lineEnd.1,hno isControl_lineEnd.2⟩

theorem mem_blockFields (h : line∈blockFields d) : line∈headLines d :=
  List.mem_of_mem_tail (List.mem_of_mem_filter h)

theorem mem_overrideHost {au : Option Bytes} {l : List Bytes} :
    pair∈overrideHost au (l.map fieldPair) ↔ (∃ line∈keptFields au l,fieldPair line=pair) ∨
        ∃ a∈au,pair=(ascii "host",a) := by
  cases au with
  | none => simp [overrideHost,keptFields]
  | some a =>
    simp only [overrideHost,keptFields,List.mem_append,List.mem_filter,List.mem_map,
      List.mem_singleton,Option.isNone_some,Bool.false_or,decide_eq_true_eq,
      Option.mem_def,Option.some.injEq,exists_eq_left']
    constructor
    · rintro (⟨⟨line,hl,rfl⟩,hh⟩ | h)
      · exact .inl ⟨line,⟨hl,hh⟩,rfl⟩
      · exact .inr h
    · rintro (⟨line,⟨hl,hh⟩,rfl⟩ | h)
      · exact .inl ⟨⟨line,hl,rfl⟩,hh⟩
      · exact .inr h

theorem connectionOf_headers (line : RequestLine) (t : Target) (hs : Headers)
    (d : ℕ) (s : Option (Bytes × ℕ)) : (connectionOf line t hs d s).headers=hs := rfl

/-- An accepted block hands over the fields of its lines, with the authority of an
absolute-form target for Host. -/
theorem parse_ensures (cfg : ParserConfig) (d : Bytes) (hh : HonestCache cache) :
    Ensures (parse cfg d) cache
      (fun c c' => HonestCache c' ∧ ∃ rl∈(headLines d).head?,c.headers.toList =
            overrideHost (authorityOf rl) ((blockFields d).map fieldPair) ∧
          ∀ line∈blockFields d,TokenName line ∧
            (blockValuesAreClean d=false → Cached cache line ∨ Clean (fieldPair line).2))
      (fun _ => HonestCache) := by
  unfold parse
  cases oversizedLine cfg d with
  | some line => exact hh
  | none =>
    cases hl : headLines d with
    | nil => exact hh
    | cons rl l =>
      have hf : blockFields d=fieldsOf l := by simp [blockFields,hl]
      have he : (!blockValuesAreClean d)=false →
          ∀ line∈l,LineEndsOnly (fieldPair line).2 := fun ht line hli =>
        lineEndsOnly_of_test (hl ▸ List.mem_cons_of_mem rl hli) (by simpa using ht)
      simp only [ensures_bind,ensures_ofExcept,ensures_get]
      cases hr : parseRequestLine rl with
      | error e => exact hh
      | ok line =>
        dsimp only
        cases hta : parseTarget line with
        | error e => exact hh
        | ok t =>
          have ha : authorityOf rl=t.authorityOverride := by simp [authorityOf,hr,hta]
          dsimp only
          refine (fieldLines_ensures he (since_initial hh)).mono ?_ fun _ _ h => h.honest
          rintro raw c' ⟨rfl,hv,hs⟩
          cases validateFields cfg line.version (Headers.fromLowered
            (overrideHost t.authorityOverride ((fieldsOf l).map fieldPair))) with
          | error e => exact hs.honest
          | ok r =>
            simp only [ensures_pure,connectionOf_headers,hf]
            refine ⟨hs.honest,rl,rfl,ha ▸ Headers.toList_fromLowered _,?_⟩
            intro line hli
            obtain ⟨hn,hva⟩ := hv line hli
            exact ⟨hn,fun ht => hva (by simp [ht])⟩

def cacheAfter (config : ParserConfig) (history : List Bytes) : LineCache :=
  run (fun cache block => leaving (parse config block) cache) {} history

theorem cacheAfter_honest (cfg : ParserConfig) (hi : List Bytes) :
    HonestCache (cacheAfter cfg hi) := by
  have hs (cache : LineCache) (b : Bytes) (h : HonestCache cache) (_ : True) :
      HonestCache (leaving (parse cfg b) cache) :=
    ((parse_ensures cfg b h).mono (fun _ _ h => h.1) fun _ _ h => h).leaving
  exact Along.invariant hs (along_of_forall _ fun _ _ _ => trivial) (fun _ h => nomatch h)

/-- The values an accepted block hands to the application are free of control octets exactly
when the block is wholesome, whatever the connection has parsed before. -/
theorem values_clean_iff_wholesome (config : ParserConfig) (history : List Bytes)
    {data : Bytes} {conn : Connection} {cache : LineCache}
    (haccepted : parse config data (cacheAfter config history)=.ok conn cache) :
    (∀ pair∈conn.headers.toList,Clean pair.2) ↔
      Wholesome (cacheAfter config history) data := by
  have hh := cacheAfter_honest config history
  obtain ⟨-,requestLine,hf,hhe,hfi⟩ := (parse_ensures config data hh).ok haccepted
  rw [hhe]
  constructor
  · intro hc requestLine' hf'
    obtain rfl : requestLine'=requestLine := Option.mem_unique hf' hf
    refine ⟨fun line hl _ => ?_,fun authority ha => ?_⟩
    · have hv := hc _ (mem_overrideHost.mpr (.inl ⟨line,hl,rfl⟩))
      exact no_lineEnd_of_clean (hfi line (List.mem_of_mem_filter hl)).1 hv
    · exact hc _ (mem_overrideHost.mpr (.inr ⟨authority,ha,rfl⟩))
  · intro hw pair hp
    obtain ⟨hu,ha⟩ := hw requestLine hf
    rcases mem_overrideHost.mp hp with ⟨line,hl,rfl⟩ | ⟨authority,hm,rfl⟩
    · have hfie := List.mem_of_mem_filter hl
      cases ht : blockValuesAreClean data with
      | true =>
        have he := lineEndsOnly_of_test (mem_blockFields hfie) ht
        exact he.clean (hu line hl (.inl ht))
      | false =>
        rcases (hfi line hfie).2 ht with hca | hc
        · obtain ⟨entry,hen,rfl⟩ := List.mem_map.mp hca
          obtain ⟨heq,-,he⟩ := hh entry hen
          exact (heq ▸ he).clean (hu _ hl (.inr hca))
        · exact hc
    · exact ha authority hm

def plainBlock : Bytes := ascii "GET / HTTP/1.1\r\nHost: a\r\nX: b\r\n\r\n"

theorem values_clean_of_plainBlock :
    ∃ conn cache,parse {} plainBlock (cacheAfter {} [])=.ok conn cache ∧
      ((∀ pair∈conn.headers.toList,Clean pair.2) ↔
        Wholesome (cacheAfter {} []) plainBlock) :=
  ⟨_,_,rfl,values_clean_iff_wholesome {} [] rfl⟩

/-- A lone CR and a later lone LF in one value: what is left of the block still tiles. -/
def splitLineEnd : Bytes := ascii "GET / HTTP/1.1\r\nHost: a\r\nX: a\rb\nc\r\n\r\n"

/-- The authority of the target becomes the Host value and is never looked at. -/
def controlAuthority : Bytes := ascii "GET http://a\x01b/ HTTP/1.1\r\nHost: a\r\n\r\n"

theorem control_octets_accepted :
    (∃ conn cache,parse {} splitLineEnd (cacheAfter {} [])=.ok conn cache ∧
      blockValuesAreClean splitLineEnd=true ∧
      (ascii "x",ascii "a\rb\nc")∈conn.headers.toList ∧ ¬ Clean (ascii "a\rb\nc")) ∧
    ∃ conn cache,parse {} controlAuthority (cacheAfter {} [])=.ok conn cache ∧
      (ascii "host",ascii "a\x01b")∈conn.headers.toList ∧ ¬ Clean (ascii "a\x01b") :=
  ⟨⟨_,_,rfl,by decide +kernel,by decide +kernel,by decide +kernel⟩,
    ⟨_,_,rfl,by decide +kernel,by decide +kernel⟩⟩

end BlackBull.HeadParser
