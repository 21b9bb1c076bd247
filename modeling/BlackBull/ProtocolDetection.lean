import BlackBull.ByteString

/-!
# Which protocol serves a connection

`ConnectionActor` peeks a growing head of the stream until a binding claims it. Every binding is
shown all that the longest of the declared lengths allows; the HTTP/2 binding compares them all with
its line. What a detector says of less may be another thing than what it says of the whole head.
-/

namespace BlackBull.Detection

open ByteString

structure Detector where
  prefixLen : ℕ := 1
  detect : Bytes → Bool

structure RawBinding where
  name : String
  detector : Option Detector

inductive Binding
  | raw (binding : RawBinding)
  | http2
  | http1

def prefaceFirstLine : Bytes := ascii "PRI * HTTP/2.0\r\n"

theorem length_prefaceFirstLine : prefaceFirstLine.length=16 := by decide +kernel

def RawBinding.detectPrefixLen (binding : RawBinding) : ℕ :=
  binding.detector.elim 0 Detector.prefixLen

def RawBinding.claims (binding : RawBinding) (head : Bytes) : Bool :=
  binding.detector.any fun detector => detector.detect head

namespace Binding

def name : Binding → String
  | raw binding => binding.name
  | http2 => "http2"
  | http1 => "http1"

def detectPrefixLen : Binding → ℕ
  | raw binding => binding.detectPrefixLen
  | http2 => prefaceFirstLine.length
  | http1 => 0

def claims (head : Bytes) : Binding → Bool
  | raw binding => binding.claims head
  | http2 => head=prefaceFirstLine
  | http1 => true

end Binding

def detectionOrder (ports : List RawBinding) : List Binding :=
  ports.map .raw++[.http2,.http1]

def maxLen (order : List Binding) : ℕ :=
  order.foldr (fun binding m => max binding.detectPrefixLen m) 0

def select (head : Bytes) (atEof : Bool) : List Binding → Option Binding
  | [] => none
  | binding::order =>
    if !atEof && decide (head.length<binding.detectPrefixLen) then none
    else if binding.claims head then some binding
    else select head atEof order

/-- A reader that detection may use. `octets` is what the connection's reader is given in the
end: the octets that were read ahead, and all that follow. -/
structure Source (ρ : Type) where
  octets : ρ → Bytes
  buffered : ρ → ℕ
  fill : ρ → ℕ → Bool × ρ
  remaining : ρ → ℕ
  buffered_le (r : ρ) : buffered r≤(octets r).length
  octets_fill (r : ρ) (n : ℕ) : octets (fill r n).2=octets r
  /-- `fill` fails at the end of the stream only. -/
  eof (r : ρ) (n : ℕ) : (fill r n).1=false → buffered (fill r n).2=(octets r).length
  progress (r : ρ) (n : ℕ) : buffered r<n → (fill r n).1=true →
    remaining (fill r n).2<remaining r

variable {ρ : Type}

def Source.peek (src : Source ρ) (r : ρ) (n : ℕ) : Bytes :=
  (src.octets r).take (min n (src.buffered r))

def peekAndSelect (src : Source ρ) (order : List Binding) :
    ℕ → ρ → ℕ → Bool → Option (Option Binding × ρ)
  | 0,_,_,_ => none
  | fuel+1,r,want,atEof =>
    let head := src.peek r (maxLen order)
    let binding := select head atEof order
    if binding.isSome || atEof || decide (maxLen order≤head.length) then some (binding,r)
    else
      let want := max (want+1) (head.length+1)
      let (filled,r) := src.fill r (min want (maxLen order))
      peekAndSelect src order fuel r want (!filled)

/-- What is resident, and what the transport delivers later. -/
structure Resident where
  resident : Bytes
  deliveries : List Bytes

/-- `fill` of the reader over `ReadBuffer`. -/
def Resident.fillFrom (n : ℕ) : Bytes → List Bytes → Bool × Resident
  | resident,[] => (decide (n≤resident.length),⟨resident,[]⟩)
  | resident,data::deliveries =>
    if n≤resident.length then (true,⟨resident,data::deliveries⟩)
    else fillFrom n (resident++data) deliveries

theorem Resident.fillFrom_spec (n : ℕ) (r : Bytes) (ds : List Bytes) :
    let after := fillFrom n r ds
    after.2.resident++after.2.deliveries.flatten=r++ds.flatten ∧
      (after.1=false → after.2.deliveries=[]) ∧
      after.2.deliveries.length≤ds.length ∧
      (r.length<n → after.1=true → after.2.deliveries.length<ds.length) := by
  induction ds generalizing r with
  | nil => simp [fillFrom]
  | cons d ds ih =>
    unfold fillFrom
    split
    · next h => exact ⟨rfl,by simp,le_rfl,fun hn => absurd h (by omega)⟩
    · obtain ⟨ho,he,hl,-⟩ := ih (r++d)
      refine ⟨by rw [ho]; simp,he,Nat.le_succ_of_le hl,fun _ _ => ?_⟩
      exact Nat.lt_succ_of_le hl

def residentSource : Source Resident where
  octets r := r.resident++r.deliveries.flatten
  buffered r := r.resident.length
  fill r n := Resident.fillFrom n r.resident r.deliveries
  remaining r := r.deliveries.length
  buffered_le r := by simp
  octets_fill r n := (Resident.fillFrom_spec n r.resident r.deliveries).1
  eof r n h := by
    obtain ⟨ho,he,-,-⟩ := Resident.fillFrom_spec n r.resident r.deliveries
    rw [← ho,he h,List.flatten_nil,List.append_nil]
  progress r n := (Resident.fillFrom_spec n r.resident r.deliveries).2.2.2

/-- The octets of the stream that detection looks at. -/
def headOf (ports : List RawBinding) (stream : Bytes) : Bytes :=
  stream.take (maxLen (detectionOrder ports))

/-- The first in the order of priority that claims the stream. -/
def wanted (ports : List RawBinding) (stream : Bytes) : Binding :=
  match ports.find? (·.claims (headOf ports stream)) with
  | some binding => .raw binding
  | none => if prefaceFirstLine <+: stream then .http2 else .http1

/-- The binding that is chosen of all that is looked at. -/
def chosen (ports : List RawBinding) (stream : Bytes) : Binding :=
  match ports.find? (·.claims (headOf ports stream)) with
  | some binding => .raw binding
  | none => if headOf ports stream=prefaceFirstLine then .http2 else .http1

/-- The detector is the first to claim the octets, and all of them up to it have as many as they
ask for. -/
def ClaimsFirst (ports : List RawBinding) (head : Bytes) (binding : RawBinding) : Prop :=
  ∃ before after,ports=before++binding::after ∧
    (∀ other∈before,other.detectPrefixLen≤head.length ∧ other.claims head=false) ∧
    binding.detectPrefixLen≤head.length ∧ binding.claims head=true

/-- A detector that claims the beginning of what is looked at is the one that is wanted. -/
def Steady (ports : List RawBinding) (stream : Bytes) : Prop :=
  ∀ k ≤ stream.length,k < maxLen (detectionOrder ports) →
    ∀ binding,ClaimsFirst ports (stream.take k) binding → .raw binding=wanted ports stream

variable {ports : List RawBinding} {stream head : Bytes} {e : Bool} {ord : List Binding}

theorem maxLen_le_iff {n : ℕ} : maxLen ord≤n ↔ ∀ b∈ord,b.detectPrefixLen≤n := by
  induction ord with
  | nil => simp [maxLen]
  | cons b ord ih =>
    rw [maxLen,List.foldr_cons,max_le_iff,List.forall_mem_cons]
    exact and_congr_right fun _ => ih

theorem maxLen_detectionOrder_le {n : ℕ} : maxLen (detectionOrder ports)≤n ↔
    (∀ b∈ports,b.detectPrefixLen≤n) ∧ 16≤n := by
  simp [maxLen_le_iff,detectionOrder,or_imp,forall_and,Binding.detectPrefixLen,
    length_prefaceFirstLine]

theorem select_raw {b : RawBinding} (h : b.detectPrefixLen≤head.length) : select head false
    (.raw b::ord)=if b.claims head then some (.raw b) else select head false ord := by
  rw [select,if_neg]
  · rfl
  · simp only [Bool.and_eq_true,decide_eq_true_eq,not_and,not_lt]
    exact fun _ => h

theorem select_claimsFirst {b : RawBinding} (h : ClaimsFirst ports head b) :
    select head false (detectionOrder ports)=some (.raw b) := by
  obtain ⟨bf,af,rfl,hb,hl,hc⟩ := h
  induction bf with
  | nil =>
    change select head false (.raw b::detectionOrder af)=_
    rw [select_raw hl,if_pos hc]
  | cons o bf ih =>
    obtain ⟨⟨hol,hoc⟩,hb⟩ := List.forall_mem_cons.mp hb
    change select head false (.raw o::detectionOrder (bf++b::af))=_
    rw [select_raw hol,hoc,if_neg Bool.false_ne_true]
    exact ih hb

/-- Before there is all that is looked at, only a detector can claim it. -/
theorem select_partial {c : Binding} (hl : head.length < maxLen (detectionOrder ports))
    (h : select head false (detectionOrder ports)=some c) :
    ∃ b,c=.raw b ∧ ClaimsFirst ports head b := by
  induction ports with
  | nil =>
    have h16 : head.length<16 := by
      by_contra hn
      exact hl.not_ge (maxLen_detectionOrder_le.mpr ⟨by simp,by omega⟩)
    simp [detectionOrder,select,Binding.detectPrefixLen,length_prefaceFirstLine,h16] at h
  | cons b ports ih =>
    change select head false (.raw b::detectionOrder ports)=some c at h
    by_cases hn : b.detectPrefixLen≤head.length
    case neg => simp [select,Binding.detectPrefixLen,not_le.mp hn] at h
    rw [select_raw hn] at h
    cases hc : b.claims head with
    | true =>
      rw [hc,if_pos rfl] at h
      exact ⟨b,(Option.some.inj h).symm,[],ports,rfl,by simp,hn,hc⟩
    | false =>
      rw [hc,if_neg Bool.false_ne_true] at h
      have hm : head.length < maxLen (detectionOrder ports) := by
        by_contra hm
        obtain ⟨hp,h16⟩ := maxLen_detectionOrder_le.mp (not_lt.mp hm)
        refine hl.not_ge (maxLen_detectionOrder_le.mpr ⟨?_,h16⟩)
        exact List.forall_mem_cons.mpr ⟨hn,hp⟩
      obtain ⟨o,rfl,bf,af,rfl,hb,ho⟩ := ih hm h
      exact ⟨o,rfl,b::bf,af,rfl,List.forall_mem_cons.mpr ⟨⟨hn,hc⟩,hb⟩,ho⟩

theorem select_full (h : e=true ∨ maxLen (detectionOrder ports)≤head.length) :
    select head e (detectionOrder ports)=some (match ports.find? (·.claims head) with
      | some binding => .raw binding
      | none => if head=prefaceFirstLine then .http2 else .http1) := by
  rw [maxLen_detectionOrder_le] at h
  induction ports with
  | nil =>
    have hn : ¬ (!e && decide (head.length<16))=true := by
      rcases h with h | h
      · simp [h]
      · simpa using fun _ => h.2
    simp only [detectionOrder,List.map_nil,List.nil_append,select,Binding.claims,
      Binding.detectPrefixLen,length_prefaceFirstLine,if_neg hn]
    by_cases hp : head=prefaceFirstLine <;> simp [hp]
  | cons b ports ih =>
    have hn : ¬ (!e && decide (head.length<b.detectPrefixLen))=true := by
      rcases h with h | h
      · simp [h]
      · simpa using fun _ => h.1 b List.mem_cons_self
    change select head e (.raw b::detectionOrder ports)=_
    rw [select,Binding.detectPrefixLen,if_neg hn,Binding.claims]
    cases hc : b.claims head with
    | true => simp [hc]
    | false =>
      rw [if_neg Bool.false_ne_true,List.find?_cons_of_neg (by simp [hc])]
      exact ih (h.imp_right fun h => ⟨fun o ho => h.1 o (List.mem_cons_of_mem b ho),h.2⟩)

/-- Detection ends and takes nothing from the stream; its choice is a detector that claims the
beginning of what is looked at, or made of all of it. -/
theorem peekAndSelect_eq (src : Source ρ) (ports : List RawBinding) (k w : ℕ) (r : ρ)
    (he : e=true → src.buffered r=(src.octets r).length)
    (hf : (if e then 0 else src.remaining r+1)<k) :
    ∃ c r',peekAndSelect src (detectionOrder ports) k r w e=some (some c,r') ∧
      src.octets r'=src.octets r ∧ (c=chosen ports (src.octets r) ∨
        ∃ b n,c=.raw b ∧ n≤(src.octets r).length ∧ n < maxLen (detectionOrder ports) ∧
          ClaimsFirst ports ((src.octets r).take n) b) := by
  induction k generalizing r w e with
  | zero => omega
  | succ k ih =>
    set m := maxLen (detectionOrder ports) with hm
    set head := src.peek r m with hh
    have hb := src.buffered_le r
    have hlen : head.length=min m (src.buffered r) := by
      rw [hh,Source.peek,List.length_take]
      omega
    by_cases hr : e=true ∨ m≤head.length
    · have htake : head=headOf ports (src.octets r) := by
        rw [hh,Source.peek,headOf,← hm]
        rcases hr with h | h
        · rw [he h]
          simp [List.take_eq_take_iff]
        · rw [min_eq_left (by omega)]
      have hs := @select_full ports head e hr
      refine ⟨_,r,?_,rfl,.inl rfl⟩
      simp only [peekAndSelect,← hm,← hh,hs,Option.isSome_some,Bool.true_or,if_true]
      rw [htake]
      rfl
    obtain ⟨ha,hlt⟩ := not_or.mp hr
    rw [Bool.not_eq_true] at ha
    subst ha
    cases hs : select head false (detectionOrder ports) with
    | some c =>
      obtain ⟨b,rfl,hc⟩ := select_partial (not_le.mp hlt) hs
      refine ⟨.raw b,r,?_,rfl,.inr ⟨b,min m (src.buffered r),rfl,by omega,by omega,hc⟩⟩
      simp only [peekAndSelect,← hm,← hh,hs,Option.isSome_some,Bool.true_or,if_true]
    | none =>
      simp only [peekAndSelect,← hm,← hh,hs,Option.isSome_none,Bool.false_or,hlt,
        decide_false,Bool.false_eq_true,if_false]
      set n := min (max (w+1) (head.length+1)) m with hn
      have ho := src.octets_fill r n
      rw [← ho]
      rw [if_neg Bool.false_ne_true] at hf
      have hp := src.progress r n (by omega)
      refine ih _ _ ?_ ?_
      · intro hfill
        rw [ho]
        exact src.eof r n (by simpa using hfill)
      · split
        · omega
        · next hfill =>
          exact (Nat.succ_le_of_lt (hp (by simpa using hfill))).trans_lt (Nat.lt_of_succ_lt_succ hf)

theorem take_eq_preface {m : ℕ} (hm : 16 ≤ m) : stream.take m=prefaceFirstLine ↔
    prefaceFirstLine <+: stream ∧ (m≤16 ∨ stream.length=16) := by
  have ht : m≤16 ∨ stream.length=16 → stream.take m=stream.take 16 := by
    rintro (hc | hc)
    · rw [le_antisymm hc hm]
    · rw [List.take_of_length_le (hc ▸ hm),List.take_of_length_le (le_of_eq hc)]
  rw [List.prefix_iff_eq_take,length_prefaceFirstLine]
  constructor
  · intro h
    have hl := congrArg List.length h
    rw [List.length_take,length_prefaceFirstLine] at hl
    have hc : m≤16 ∨ stream.length=16 := by omega
    exact ⟨h.symm.trans (ht hc),hc⟩
  · exact fun ⟨h,hc⟩ => (ht hc).trans h.symm

theorem chosen_eq_wanted_iff : chosen ports stream=wanted ports stream ↔
    (prefaceFirstLine <+: stream →
      (∀ b∈ports,b.claims (headOf ports stream)=false) →
      (∀ b∈ports,b.detectPrefixLen≤16) ∨ stream.length=16) := by
  unfold chosen wanted
  cases hs : ports.find? (·.claims (headOf ports stream)) with
  | some b =>
    refine iff_of_true rfl fun _ hn => ?_
    have := List.find?_some hs
    rw [hn b (List.mem_of_find?_eq_some hs)] at this
    cases this
  | none =>
    have hn : ∀ b∈ports,b.claims (headOf ports stream)=false := by simpa using hs
    have hm := maxLen_detectionOrder_le.mp (le_refl (maxLen (detectionOrder ports)))
    have ht := @take_eq_preface stream _ hm.2
    simp only [maxLen_detectionOrder_le,le_refl,and_true] at ht
    rw [← headOf] at ht
    simp only [ht]
    by_cases hp : prefaceFirstLine <+: stream
    · by_cases hc : (∀ b∈ports,b.detectPrefixLen≤16) ∨ stream.length=16
      · simp [hp,hc]
      · rw [if_neg fun h => hc h.2,if_pos hp]
        exact iff_of_false Binding.noConfusion fun h => hc (h hp hn)
    · simp [hp]

end BlackBull.Detection
