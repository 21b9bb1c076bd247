import Mathlib

/-!
# The rolling-window rate meter

One meter per counted thing. Times are those of an exact clock, in ticks where nothing else is said.
-/

namespace BlackBull

/-- At most `limit` events in `window`; a limit of zero turns the meter off. -/
structure RateWindow (T : Type := ℕ) [Zero T] where
  limit : ℕ
  window : T
  count : ℕ := 0
  startedAt : T := 0

namespace RateWindow

/-- Count one event; the answer is whether the budget is exceeded. -/
def hit {T : Type} [Zero T] [Sub T] [LT T] [DecidableLT T] (meter : RateWindow T) (now : T) :
    Bool × RateWindow T :=
  if meter.limit=0 then (false,meter)
  else
    let meter := if now - meter.startedAt > meter.window then
      {meter with count:=0,startedAt:=now} else meter
    (meter.count+1 > meter.limit,{meter with count:=meter.count+1})

variable {T : Type} [AddCommGroup T] [LinearOrder T]

/-- The events, given by their times, that are not refused. -/
def accepted (k : RateWindow T) : List T → List T
  | [] => []
  | t::ts => if (k.hit t).1 then accepted (k.hit t).2 ts else t::accepted (k.hit t).2 ts

/-- The number of events from `a` on, for the length of a window. -/
def within (w a : T) (times : List T) : ℕ := times.countP fun t => a≤t ∧ t≤a+w

variable {k : RateWindow T} {w a t : T} {ts : List T}

theorem accepted_sublist (k : RateWindow T) (ts : List T) : (k.accepted ts).Sublist ts := by
  induction ts generalizing k with
  | nil => exact .slnil
  | cons t ts ih =>
    unfold accepted
    split_ifs
    · exact (ih _).cons t
    · exact (ih _).cons_cons t

theorem within_cons (w a t : T) (ts : List T) :
    within w a (t::ts)=within w a ts+if a≤t ∧ t≤a+w then 1 else 0 := by
  simp [within,List.countP_cons]

theorem within_cons_le (w a t : T) (ts : List T) : within w a (t::ts)≤within w a ts+1 := by
  rw [within_cons]
  split_ifs <;> omega

theorem within_of_lt (h : ∀ t∈ts,a+w<t) : within w a ts=0 :=
  List.countP_eq_zero.mpr fun t ht => by simpa using fun _ => h t ht

variable (hl : 0<k.limit)
include hl

theorem accepted_outside (ht : k.window < t - k.startedAt) (ts : List T) :
    k.accepted (t::ts)=t::accepted {k with count:=1,startedAt:=t} ts := by
  have hh : k.hit t=(false,{k with count:=1,startedAt:=t}) := by simp [hit,hl.ne',if_pos ht]
  simp [accepted,hh]

theorem accepted_inside (ht : t - k.startedAt≤k.window) (ts : List T) :
    k.accepted (t::ts)=if k.limit≤k.count then accepted {k with count:=k.count+1} ts
      else t::accepted {k with count:=k.count+1} ts := by
  have hh : k.hit t=(decide (k.limit<k.count+1),{k with count:=k.count+1}) := by
    simp only [hit,if_neg hl.ne',if_neg (not_lt.mpr ht)]
  simp [accepted,hh]

/-- An event in the open window uses up what it adds. -/
theorem within_accepted_inside (ht : t - k.startedAt≤k.window) (ts : List T) :
    within k.window a (k.accepted (t::ts)) + (k.limit - (k.count+1))≤
      within k.window a (accepted {k with count:=k.count+1} ts) + (k.limit - k.count) := by
  rw [accepted_inside hl ht]
  split_ifs
  · omega
  · have := within_cons_le k.window a t (accepted {k with count:=k.count+1} ts)
    omega

variable [IsOrderedAddMonoid T]

/-- In an interval that ends before the next window can open. -/
theorem within_accepted_of_le (hs : ts.Pairwise (·≤·)) (ha : a≤k.startedAt) :
    within k.window a (k.accepted ts)≤k.limit - k.count := by
  induction ts generalizing k with
  | nil => exact Nat.zero_le _
  | cons t ts ih =>
    obtain ⟨ht,hs⟩ := List.pairwise_cons.mp hs
    rcases lt_or_ge k.window (t - k.startedAt) with hw | hw
    · -- The event is behind the interval, and so are those after it.
      have hlt : a+k.window<t := lt_of_le_of_lt (add_le_add_left ha _) (by
        rwa [lt_sub_iff_add_lt'] at hw)
      rw [within_of_lt fun u hu => ?_]
      · exact Nat.zero_le _
      · rcases List.mem_cons.mp ((accepted_sublist k _).subset hu) with rfl | hu
        · exact hlt
        · exact hlt.trans_le (ht u hu)
    · have hi := ih (k:={k with count:=k.count+1}) hl hs ha
      have := within_accepted_inside (a:=a) hl hw ts
      dsimp only at hi
      omega

/-- Once the events are in the interval, one window may still open. -/
theorem within_accepted_of_forall_le (hs : ts.Pairwise (·≤·))
    (ha : ∀ t∈ts,a≤t) : within k.window a (k.accepted ts)≤k.limit - k.count+k.limit := by
  induction ts generalizing k with
  | nil => exact Nat.zero_le _
  | cons t ts ih =>
    obtain ⟨-,hs⟩ := List.pairwise_cons.mp hs
    obtain ⟨hat,ha⟩ := List.forall_mem_cons.mp ha
    rcases lt_or_ge k.window (t - k.startedAt) with hw | hw
    · rw [accepted_outside hl hw]
      have hb := within_accepted_of_le (k:={k with count:=1,startedAt:=t}) hl hs hat
      exact (within_cons_le ..).trans (by dsimp only at hb; omega)
    · have hi := ih (k:={k with count:=k.count+1}) hl hs ha
      have := within_accepted_inside (a:=a) hl hw ts
      dsimp only at hi
      omega

theorem within_accepted (hs : ts.Pairwise (·≤·)) (a : T) :
    within k.window a (k.accepted ts)≤2*k.limit := by
  induction ts generalizing k with
  | nil => exact Nat.zero_le _
  | cons t ts ih =>
    obtain ⟨ht,hr⟩ := List.pairwise_cons.mp hs
    rcases le_or_gt a t with hat | hat
    · have := within_accepted_of_forall_le (a:=a) hl hs
        (List.forall_mem_cons.mpr ⟨hat,fun u hu => hat.trans (ht u hu)⟩)
      omega
    · have hn (us : List T) : within k.window a (t::us)=within k.window a us := by
        rw [within_cons,if_neg fun h => hat.not_ge h.1,Nat.add_zero]
      rcases lt_or_ge k.window (t - k.startedAt) with hw | hw
      · rw [accepted_outside hl hw,hn]
        exact ih (k:={k with count:=1,startedAt:=t}) hl hr
      · rw [accepted_inside hl hw]
        have hi := ih (k:={k with count:=k.count+1}) hl hr
        split_ifs
        · exact hi
        · rw [hn]
          exact hi

/-- A meter that has counted `k.count` events of its window refuses none. -/
theorem accepted_eq (hw : 0≤k.window) (hs : ts.Pairwise (·≤·))
    (hm : ∀ t∈ts,k.startedAt≤t) (hc : k.count+within k.window k.startedAt ts≤k.limit)
    (ha : ∀ a,within k.window a ts≤k.limit) : k.accepted ts=ts := by
  induction ts generalizing k with
  | nil => rfl
  | cons t ts ih =>
    obtain ⟨ht,hs⟩ := List.pairwise_cons.mp hs
    obtain ⟨hmt,hm⟩ := List.forall_mem_cons.mp hm
    have hr (a : T) : within k.window a ts≤k.limit := le_trans
      (by rw [within_cons]; exact Nat.le_add_right ..) (ha a)
    rcases lt_or_ge k.window (t - k.startedAt) with hlt | hle
    · have h1 : within k.window t ts+1≤k.limit := by
        have := ha t
        rwa [within_cons,if_pos ⟨le_rfl,le_add_of_nonneg_right hw⟩] at this
      rw [accepted_outside hl hlt,
        ih (k:={k with count:=1,startedAt:=t}) hl hw hs ht (by dsimp only; omega) hr]
    · rw [within_cons,if_pos ⟨hmt,sub_le_iff_le_add'.mp hle⟩] at hc
      rw [accepted_inside hl hle,if_neg (by omega),
        ih (k:={k with count:=k.count+1}) hl hw hs hm (by dsimp only; omega) hr]

omit hl

/-- In any interval as long as the window at most twice the limit is accepted, and whoever sends at
most the limit in any such interval is never refused. -/
theorem rate_window_guarantee {limit : ℕ} {window : T} {times : List T} (hl : 0<limit)
    (hw : 0<window) (hs : times.Pairwise (·≤·)) (hz : ∀ t∈times,0≤t) :
    let meter : RateWindow T := {limit,window}
    (∀ a,within window a (meter.accepted times)≤2*limit) ∧
      ((∀ a,within window a times≤limit) → meter.accepted times=times) :=
  let meter : RateWindow T := {limit,window}
  ⟨within_accepted (k:=meter) hl hs,
    fun ha => accepted_eq (k:=meter) hl hw.le hs hz ((Nat.zero_add _).trans_le (ha 0)) ha⟩

theorem rate_window_guarantee_doubled :
    within 2 2 (accepted {limit:=1,window:=(2 : ℚ)} [2,4])=2*1 ∧
      within 2 2 (accepted {limit:=1,window:=(2 : ℚ)} [2,4])≤2*1 :=
  ⟨by decide +kernel,(rate_window_guarantee (by decide) (by decide) (by decide) (by decide)).1 2⟩

end RateWindow

end BlackBull
