import BlackBull.FieldValueSafety

/-!
# Heads and the history of their connection

A line that the connection has parsed before is replayed from its cache without the checks a new
line gets. It agrees with `parseUncached` while every line in the cache would pass the checks again,
and a block can break this only by passing the octet test with a control octet in a value.
-/

namespace BlackBull.HeadParser

open ByteString

/-- The loop over the field lines, with every line checked. -/
def checkFieldLines (valuesNeedChecking : Bool) : List Bytes → Except ParseError HeaderList
  | [] => .ok []
  | line::lines =>
    if line.isEmpty then checkFieldLines valuesNeedChecking lines
    else do
      let pair ← checkFieldLine valuesNeedChecking line
      let raw ← checkFieldLines valuesNeedChecking lines
      pure (pair::raw)

def parseUncached (config : ParserConfig) (data : Bytes) : Except ParseError Connection := do
  match oversizedLine config data with
  | some line =>
    .error (.headerTooLarge ("header line " ++ toString line.length ++
      " bytes > BB_HEADER_MAX_LINE=" ++ toString config.maxLine))
  | none =>
    match headLines data with
    | [] => .error (.badRequest "empty request")
    | requestLine::lines =>
      let line ← parseRequestLine requestLine
      let target ← parseTarget line
      let raw ← checkFieldLines (!blockValuesAreClean data) lines
      let headers := Headers.fromLowered (overrideHost target.authorityOverride raw)
      let (declared,server) ← validateFields config line.version headers
      pure (connectionOf line target headers declared server)

/-- The line would be accepted, with this pair, if it were checked now. -/
def Passes (valuesNeedChecking : Bool) (entry : Bytes × (Bytes × Bytes)) : Prop :=
  checkFieldLine valuesNeedChecking entry.1=.ok entry.2

/-- Every line in the cache would be accepted again. -/
def Faithful (valuesNeedChecking : Bool) (cache : LineCache) : Prop :=
  ∀ entry∈cache.entries,Passes valuesNeedChecking entry

theorem Passes.relax {e : Bytes × (Bytes × Bytes)} (h : Passes true e)
    (v : Bool) : Passes v e := by
  cases v with
  | true => exact h
  | false =>
    unfold Passes checkFieldLine at h ⊢
    dsimp only at h ⊢
    split_ifs at h ⊢ <;> simp_all

variable {c : LineCache} {vnc : Bool} (dl : Bool) (cfg : ParserConfig)

theorem Passes.strengthen {e : Bytes × (Bytes × Bytes)} (h : Passes vnc e)
    (hc : Clean (fieldPair e.1).2) : Passes true e := by
  have hv : (strip isBlank (partition 58 e.1).2.2).any isControl=false := by
    rw [List.any_eq_false]
    intro b hb
    simpa using hc b hb
  unfold Passes checkFieldLine at h ⊢
  dsimp only at h ⊢
  rw [hv,Bool.and_false] at h ⊢
  exact h

theorem Faithful.relax (h : Faithful true c) (vnc : Bool) :
    Faithful vnc c := fun e he => (h e he).relax _

theorem Faithful.remember {l : Bytes} {p : Bytes × Bytes}
    (h : Faithful vnc c) (hl : Passes vnc (l,p)) : Faithful vnc (c.remember l p) := by
  intro e he
  rcases mem_remember he with hold | rfl
  · exact h e hold
  · exact hl

theorem defaultLines_pass : ∀ entry∈defaultLines,Passes true entry := by
  have ha : specEnumeratedLines.all (fun line =>
      match checkFieldLine true line with
      | .ok p => decide (p=fieldPair line)
      | .error _ => false)=true := by decide +kernel
  intro entry he
  obtain ⟨line,hl,rfl⟩ := List.mem_map.mp he
  have hc := List.all_eq_true.mp ha line hl
  unfold Passes
  dsimp only
  split at hc
  · next p hp => rw [hp,of_decide_eq_true hc]
  · cases hc

theorem lookupLine_passes {dl : Bool} {l : Bytes} {p : Bytes × Bytes}
    (h : Faithful vnc c) (hh : lookupLine dl c l=some p) : checkFieldLine vnc l=.ok p := by
  rcases lookupLine_mem hh with hm | hm
  · exact h _ hm
  · exact (defaultLines_pass _ hm).relax vnc

theorem fieldLine_uncached (l : Bytes) (h : Faithful vnc c) :
    Ensures (fieldLine vnc dl l) c (fun p c' => checkFieldLine vnc l=.ok p ∧ Faithful vnc c')
      (fun e _ => checkFieldLine vnc l=.error e) := by
  simp only [fieldLine,ensures_bind,ensures_get]
  cases hl : lookupLine dl c l with
  | some p => exact ⟨lookupLine_passes h hl,h⟩
  | none =>
    cases hc : checkFieldLine vnc l with
    | error e => exact rfl
    | ok p => exact ⟨rfl,h.remember hc⟩

theorem fieldLines_uncached (l : List Bytes) (h : Faithful vnc c) :
    Ensures (fieldLines vnc dl l) c (fun raw _ => checkFieldLines vnc l=.ok raw)
      (fun e _ => checkFieldLines vnc l=.error e) := by
  induction l generalizing c with
  | nil => exact rfl
  | cons line l ih =>
    simp only [fieldLines,checkFieldLines,ensures_ite,ensures_bind]
    refine ⟨fun he => ?_,fun hne => ?_⟩
    · simp only [if_pos he]
      exact ih h
    · simp only [if_neg hne]
      refine (fieldLine_uncached dl line h).mono ?_ fun e _ hc => by rw [hc]; rfl
      rintro p c' ⟨hc,h'⟩
      rw [hc]
      refine (ih h').mono (fun raw _ hr => ?_) fun e _ hr => ?_
      · rw [ensures_pure,hr]
        rfl
      · rw [hr]
        rfl

theorem parse_uncached (d : Bytes) (h : Faithful (!blockValuesAreClean d) c) :
    Ensures (parse cfg d) c (fun cn _ => parseUncached cfg d=.ok cn)
      (fun e _ => parseUncached cfg d=.error e) := by
  unfold parse parseUncached
  cases oversizedLine cfg d with
  | some line => exact rfl
  | none =>
    cases headLines d with
    | nil => exact rfl
    | cons rl l =>
      simp only [ensures_bind,ensures_ofExcept,ensures_get]
      cases parseRequestLine rl with
      | error e => exact rfl
      | ok line =>
        dsimp only
        cases hp : parseTarget line with
        | error e => simp only [bind,Except.bind,hp]
        | ok t =>
          dsimp only
          refine (fieldLines_uncached _ l h).mono (fun raw _ hr => ?_) fun e _ hr => ?_
          · cases hv : validateFields cfg line.version
              (Headers.fromLowered (overrideHost t.authorityOverride raw)) with
            | error e => simp only [bind,Except.bind,hp,hr,hv]
            | ok r =>
              simp only [ensures_pure,bind,Except.bind,hp,hr,hv]
              rfl
          · simp only [bind,Except.bind,hp,hr]

/-- What admitting a line of the block keeps, the block keeps. -/
theorem fieldLines_keeps {inv : LineCache → Prop} {l : List Bytes} (h : inv c) (hr : ∀ c
    line p,line∈fieldsOf l → Passes vnc (line,p) → inv c → inv (c.remember line p)) :
    Ensures (fieldLines vnc dl l) c (fun _ => inv) (fun _ => inv) := by
  induction l generalizing c with
  | nil => exact h
  | cons line l ih =>
    simp only [fieldLines,fieldLine,ensures_ite,ensures_bind,ensures_get,ensures_pure]
    refine ⟨fun he => ?_,fun hne => ?_⟩
    · refine ih h fun c' ln p hl => hr c' ln p ?_
      simpa [fieldsOf,he] using hl
    · have hf : fieldsOf (line::l)=line::fieldsOf l := by simp [fieldsOf,hne]
      rw [hf] at hr
      have hre (c' : LineCache) (h' : inv c') : Ensures (fieldLines vnc dl l) c' (fun _ => inv)
            (fun _ => inv) :=
        ih h' fun c ln p hl => hr c ln p (List.mem_cons_of_mem _ hl)
      cases lookupLine dl c line with
      | some p => exact hre c h
      | none =>
        cases hc : checkFieldLine vnc line with
        | error e => exact h
        | ok p =>
          simp only [ensures_bind,ensures_modify,ensures_pure]
          exact hre _ (hr c line p List.mem_cons_self hc h)

theorem parse_keeps {inv : LineCache → Prop} {d : Bytes} (h : inv c) (hr : ∀ c line p,
    line∈blockFields d → Passes (!blockValuesAreClean d) (line,p) → inv c → inv
    (c.remember line p)) : inv (leaving (parse cfg d) c) := by
  refine Ensures.leaving ?_
  unfold parse
  cases oversizedLine cfg d with
  | some line => exact h
  | none =>
    cases hl : headLines d with
    | nil => exact h
    | cons rl l =>
      have hf : blockFields d=fieldsOf l := by simp [blockFields,hl]
      rw [hf] at hr
      simp only [ensures_bind,ensures_ofExcept,ensures_get]
      cases parseRequestLine rl with
      | error e => exact h
      | ok line =>
        dsimp only
        cases parseTarget line with
        | error e => exact h
        | ok t =>
          refine (fieldLines_keeps _ h hr).mono (fun raw c' h' => ?_) fun _ _ h' => h'
          cases validateFields cfg line.version (Headers.fromLowered
            (overrideHost t.authorityOverride raw)) with
          | error e => exact h'
          | ok r => exact h'

/-- The bounds on a connection's cache, in entries, octets of all its lines and octets of one. -/
structure Bounded (cache : LineCache) : Prop where
  entries : cache.entries.length≤lineCacheMax
  octets : (cache.entries.map fun entry => entry.1.length).sum≤cache.bytes
  bytes : cache.bytes≤lineCacheMaxBytes
  line : ∀ entry∈cache.entries,entry.1.length≤lineCacheMaxLine

theorem bounded_empty : Bounded {} :=
  ⟨Nat.zero_le _,Nat.zero_le _,Nat.zero_le _,fun _ h => absurd h List.not_mem_nil⟩

theorem Bounded.remember (h : Bounded c) (l : Bytes) (p : Bytes × Bytes) :
    Bounded (c.remember l p) := by
  have hl (e) (he : e∈(c.remember l p).entries)
      (hs : l.length≤lineCacheMaxLine) : e.1.length≤lineCacheMaxLine := by
    rcases mem_remember he with hold | rfl
    · exact h.line e hold
    · exact hs
  unfold LineCache.remember at hl ⊢
  by_cases hr : l.length≤lineCacheMaxLine ∧ c.entries.length<lineCacheMax ∧
      c.bytes+l.length≤lineCacheMaxBytes
  · rw [if_pos hr] at hl ⊢
    obtain ⟨hs,hc,hb⟩ := hr
    refine ⟨?_,?_,hb,fun e he => hl e he hs⟩
    · unfold LineCache.insert
      dsimp only
      split_ifs
      · rw [List.length_map]
        omega
      · rw [List.length_append,List.length_singleton]
        omega
    · have ho := h.octets
      unfold LineCache.insert
      dsimp only
      split_ifs
      · -- the line keeps its place, so the lines are the same
        have hsa : (fun e : Bytes × (Bytes × Bytes) =>
            (if e.1=l then (l,p) else e).1.length) =
            fun e => e.1.length := by
          funext e
          split_ifs with heq
          · rw [heq]
          · rfl
        rw [List.map_map,Function.comp_def,hsa]
        omega
      · rw [List.map_append,List.sum_append]
        simp only [List.map_cons,List.map_nil,List.sum_cons,List.sum_nil]
        omega
  · rw [if_neg hr]
    exact h

theorem cacheAfter_bounded (hi : List Bytes) : Bounded (cacheAfter cfg hi) := by
  have hs (c : LineCache) (b : Bytes) (h : Bounded c) (_ : True) :
      Bounded (leaving (parse cfg b) c) :=
    parse_keeps cfg h fun c' line p _ _ h' => h'.remember line p
  exact Along.invariant hs (along_of_forall _ fun _ _ _ => trivial) bounded_empty

/-- A block that passes the octet test has no control octet in a value. -/
def Forthright (data : Bytes) : Prop :=
  blockValuesAreClean data=true → ∀ line∈blockFields data,Clean (fieldPair line).2

instance (data : Bytes) : Decidable (Forthright data) :=
  inferInstanceAs (Decidable (_ → _))

theorem parse_faithful {d : Bytes} (h : Faithful true c) (hd : Forthright d) :
    Faithful true (leaving (parse cfg d) c) := by
  apply parse_keeps cfg h
  intro c' line p hl hp h'
  apply h'.remember
  cases ht : blockValuesAreClean d with
  | true => exact hp.strengthen (hd ht line hl)
  | false =>
    rw [ht] at hp
    exact hp

theorem cacheAfter_faithful {hi : List Bytes} (h : ∀ b∈hi,Forthright b) :
    Faithful true (cacheAfter cfg hi) := by
  have hs (c : LineCache) (b : Bytes) (hc : Faithful true c)
      (hb : Forthright b) : Faithful true (leaving (parse cfg b) c) :=
    parse_faithful cfg hc hb
  exact Along.invariant hs (along_of_forall _ fun b hb _ => h b hb)
    fun _ he => absurd he List.not_mem_nil

def verdict (config : ParserConfig) (data : Bytes) (cache : LineCache) :
    Except ParseError Connection :=
  match parse config data cache with
  | .ok conn _ => .ok conn
  | .error e _ => .error e

theorem verdict_eq (d : Bytes) (h : Faithful true c) : verdict cfg d c=parseUncached cfg d := by
  have hp := parse_uncached cfg d (h.relax _)
  unfold verdict
  split
  · next cn c' hok => exact (hp.ok hok).symm
  · next e c' he => exact (hp.error he).symm

/-- The cache stays within its bounds whatever blocks a connection is given, and as long as none of
them passes the octet test with a control octet in a value, every head is parsed as a fresh parser
would parse it. -/
theorem heads_independent (config : ParserConfig) (history : List Bytes) :
    Bounded (cacheAfter config history) ∧
      ((∀ block∈history,Forthright block) →
        ∀ data,verdict config data (cacheAfter config history)=verdict config data {}) := by
  refine ⟨cacheAfter_bounded config history,fun hh data => ?_⟩
  have hf : Faithful true {} := fun _ he => absurd he List.not_mem_nil
  rw [verdict_eq config data (cacheAfter_faithful config hh),verdict_eq config data hf]

theorem heads_independent_plain :
    (cacheAfter {} [plainBlock]).entries.length=2 ∧
      ∀ data,verdict {} data (cacheAfter {} [plainBlock])=verdict {} data {} :=
  ⟨by decide +kernel,(heads_independent {} [plainBlock]).2 (by decide +kernel)⟩

/-- The line "X: a CR b LF c" again, in a block whose octets do not tile. -/
def repeatedSplitLineEnd : Bytes := ascii "GET / HTTP/1.1\n\r\nHost: a\r\nX: a\rb\nc\r\n\r\n"

/-- A fresh parser refuses the value that the connection replays from its cache. -/
theorem heads_depend_on_history :
    (∃ conn,verdict {} repeatedSplitLineEnd (cacheAfter {} [splitLineEnd])=.ok conn ∧
      (ascii "x",ascii "a\rb\nc")∈conn.headers.toList) ∧
    ∃ e,verdict {} repeatedSplitLineEnd {}=.error e := by
  refine ⟨⟨_,rfl,?_⟩,_,rfl⟩
  decide +kernel

end BlackBull.HeadParser
