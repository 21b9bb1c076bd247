import BlackBull.OutboundLedgers

/-!
# Outbound flow control

Every action keeps the books as long as no sender runs while a debit of another is still to come and
no sender has a window that is out of step with the peer's. In such a run the octets written stay
within the credit of the connection and of their stream.
-/

namespace BlackBull.H2.Outbound

variable {s : Outbound} {sid : ℕ}

variable {t : Outbound}

/-- What grants credit and changes the windows: no window grows by more than was granted, or
it is new and starts within the peer's initial window. -/
theorem Balanced.of_grant (b : s.Balanced) (ts : t.tasks=s.tasks) (fs : t.frames =
    s.frames) (c : ∀ o,s.creditOn o≤t.creditOn o) (co : t.windows.connection+s.creditOn 0 ≤
    s.windows.connection+t.creditOn 0) (se : ∀ ta∈s.tasks,(t.window? ta.1).isSome) (w : ∀ o
    w',t.window? o=some w' → (∃ wi,s.window? o=some wi ∧ w'.size+s.windows.peerInitial +
    s.creditOn o≤wi.size+t.windows.peerInitial+t.creditOn o) ∨ (s.Unused o ∧ w'.size ≤
    t.windows.peerInitial)) : t.Balanced := by
  have hs : t.sent=s.sent := by rw [sent,fs,sent]
  have hse : ∀ o,t.sentOn o=s.sentOn o := fun o => by rw [sentOn,fs,sentOn]
  have ho : t.owing=s.owing := by rw [owing,ts,owing]
  have how : ∀ o,t.owingOn o=s.owingOn o := fun o => by rw [owingOn,ts,owingOn]
  refine ⟨?_,?_,ts ▸ se,ts ▸ b.tails,?_⟩
  · rw [hs,ho]
    have hb := b.connection
    omega
  · intro o w' h'
    rw [hse,how]
    rcases w o w' h' with ⟨wi,hw,hsi⟩ | ⟨hu,hsi⟩
    · obtain ⟨hid,hb⟩ := b.streams o wi hw
      exact ⟨hid,by omega⟩
    · obtain ⟨hid,-,hn,-⟩ := hu
      exact ⟨hid,by omega⟩
  · rw [hs]
    exact b.within.trans (Nat.add_le_add_left (c 0) _)

theorem Balanced.of_windows (b : s.Balanced) (ta : t.tasks=s.tasks) (fs : t.frames=s.frames)
    (cr : t.credits=s.credits) (c : t.windows.connection=s.windows.connection) (se : ∀ ts
    ∈ s.tasks,(t.window? ts.1).isSome) (w : ∀ o w',t.window? o=some w' → (∃ wi,s.window? o =
    some wi ∧ w'.size+s.windows.peerInitial≤wi.size+t.windows.peerInitial) ∨ (s.Unused o ∧
    w'.size≤t.windows.peerInitial)) : t.Balanced := by
  have hc : ∀ o,t.creditOn o=s.creditOn o := fun o => by rw [creditOn,cr,creditOn]
  refine b.of_grant ta fs (fun o => (hc o).ge) (Int.le_of_eq (by rw [c,hc])) se fun o w' h' => ?_
  rcases w o w' h' with ⟨wi,hw,hs⟩ | hn
  · exact .inl ⟨wi,hw,by rw [hc]; omega⟩
  · exact .inr hn

theorem Balanced.of_new (b : s.Balanced) (hu : s.Unused sid) (ta : t.tasks=s.tasks) (fs :
    t.frames=s.frames) (c : t.credits=s.credits) (co : t.windows.connection =
    s.windows.connection) (pi : t.windows.peerInitial=s.windows.peerInitial) (f : StreamWindow)
    (hf : f.size ≤ s.windows.peerInitial) (hw : ∀ o,t.window? o=if sid=o then some f else
    s.window? o) : t.Balanced := by
  refine b.of_windows ta fs c co ?_ ?_
  · intro ts ht
    rw [hw]
    split
    · rfl
    · exact b.served ts ht
  · intro o w' h'
    rw [hw] at h'
    rw [pi]
    split at h'
    case isTrue heq =>
      obtain rfl := Option.some.inj h'
      exact .inr ⟨heq ▸ hu,hf⟩
    case isFalse => exact .inl ⟨w',h',Int.le_refl _⟩

theorem Unused.unknown (hu : s.Unused sid) : s.windows.senders.get? sid=none := by
  have hn := hu.2.1
  unfold window? at hn
  split at hn
  · simp at hn
  · assumption

theorem makeSender_balanced (b : s.Balanced)
    (c : (s.windows.senders.get? sid).isSome ∨ s.Unused sid) :
    (s.step (.makeSender sid)).Balanced := by
  rcases c with hk | hu
  · rw [step,SendWindows.makeSender_of_known hk]
    exact b
  · rw [step,SendWindows.makeSender_of_unknown hu.unknown]
    refine b.of_new hu rfl rfl rfl rfl rfl {size:=s.windows.peerInitial} (Int.le_refl _) fun o => ?_
    by_cases heq : sid=o <;> simp [window?,Dict.get?_set,heq]

theorem push_balanced (b : s.Balanced) (hu : s.Unused sid)
    (hg : defaultInitialWindowSize ≤ s.windows.peerInitial) : (s.step (.push sid)).Balanced := by
  refine b.of_new hu rfl rfl rfl rfl rfl {size:=defaultInitialWindowSize}
    (Int.ofNat_le.mpr hg) fun o => ?_
  by_cases heq : sid=o
  · simp [step,window?,Dict.get?_set,← heq,hu.unknown]
  · simp [step,window?,Dict.get?_set,heq]

theorem release_balanced (b : s.Balanced) (sid : ℕ) : (s.step (.release sid)).Balanced := by
  unfold step
  dsimp only
  split
  · exact b
  case h_2 window hk =>
    have hw : ∀ o,window? {s with
          windows:=s.windows.dropSender sid
          loose:=s.loose.set sid window} o=s.window? o := by
      intro o
      simp only [window?,SendWindows.dropSender,Dict.get?_pop,Dict.get?_set]
      by_cases heq : sid=o
      · subst heq
        simp [hk]
      · simp [heq]
    refine b.of_windows rfl rfl rfl rfl (fun ts ht => ?_) fun o w' h' => ?_
    · rw [hw]
      exact b.served ts ht
    · rw [hw] at h'
      exact .inl ⟨w',h',Int.le_refl _⟩

theorem forget_balanced (b : s.Balanced) (sid : ℕ) : (s.step (.forget sid)).Balanced := by
  unfold step
  dsimp only
  split
  · exact b
  case isFalse hi =>
    have hw : ∀ o,sid≠o → window? {s with loose:=s.loose.pop sid} o=s.window? o := by
      intro o hne
      simp [window?,Dict.get?_pop,hne]
    refine b.of_windows rfl rfl rfl rfl (fun ts ht => ?_) fun o w' h' => ?_
    · rw [hw]
      · exact b.served ts ht
      · rintro rfl
        exact hi (List.any_eq_true.mpr ⟨ts,ht,by simp⟩)
    · by_cases heq : sid=o
      · refine .inl ⟨w',?_,Int.le_refl _⟩
        subst heq
        unfold window? at h' ⊢
        dsimp only at h'
        split at h'
        case h_1 known hk => exact h'
        case h_2 => simp [Dict.get?_pop] at h'
      · rw [hw o heq] at h'
        exact .inl ⟨w',h',Int.le_refl _⟩

theorem creditOn_grant (o : ℕ) (n : ℕ) (windows : SendWindows) :
    creditOn {s with windows,credits:=s.credits++[(sid,n)]} o =
      s.creditOn o+if sid=o then n else 0 := by
  simp [creditOn]

theorem connection_grant_balanced (b : s.Balanced) (n : ℕ) : Balanced {s with
      windows:={s.windows with connection:=s.windows.connection+n}
      credits:=s.credits++[(0,n)]} := by
  refine b.of_grant rfl rfl (fun o => ?_) ?_ b.served fun o w' h' => ?_
  · rw [creditOn_grant]
    exact Nat.le_add_right _ _
  · rw [creditOn_grant,if_pos rfl]
    push_cast
    omega
  · refine .inl ⟨w',h',?_⟩
    rw [creditOn_grant]
    push_cast
    omega

theorem stream_grant_balanced (b : s.Balanced) (hid : sid≠0) (n : ℕ)
    {w : StreamWindow} (hk : s.windows.senders.get? sid=some w) : Balanced {s with
      windows:=s.windows.creditStream sid n
      credits:=s.credits++[(sid,n)]} := by
  have hc : s.windows.creditStream sid n={s.windows with
        senders :=
          s.windows.senders.set sid {w with size:=w.size+n}} := by
    rw [SendWindows.creditStream,hk]
  rw [hc]
  refine b.of_grant rfl rfl (fun o => ?_) ?_ (fun ts ht => ?_) fun o w' h' => .inl ?_
  · rw [creditOn_grant]
    exact Nat.le_add_right _ _
  · rw [creditOn_grant,if_neg hid]
    exact Int.le_refl _
  · have hs := b.served ts ht
    by_cases heq : sid=ts.1
    · simp [window?,Dict.get?_set,heq]
    · simpa [window?,Dict.get?_set,heq] using hs
  · rw [creditOn_grant]
    by_cases heq : sid=o
    · subst heq
      obtain rfl : {w with size:=w.size+n}=w' := by simpa [window?,Dict.get?_set] using h'
      refine ⟨w,by rw [window?,hk],?_⟩
      rw [if_pos rfl]
      push_cast
      omega
    · refine ⟨w',by simpa [window?,Dict.get?_set,heq] using h',?_⟩
      rw [if_neg heq]
      exact Int.le_refl _

theorem windowUpdate_balanced (b : s.Balanced) (n i : ℕ)
    (c : sid=0 ∨ (s.windows.senders.get? sid).isSome ∨ s.Unused sid) :
    (s.step (.windowUpdate sid n i)).Balanced := by
  have hc := SendWindows.windowUpdate_cases s.windows sid n i
  unfold step
  dsimp only at hc ⊢
  generalize s.windows.windowUpdate sid n i=r at hc ⊢
  obtain ⟨an,w⟩ := r
  dsimp only at hc ⊢
  rcases hc with ⟨hr,rfl⟩ | ⟨rfl,heq⟩ | ⟨hid,hr,rfl⟩ | ⟨hid,heq⟩
  · rw [if_neg hr]
    exact b
  · obtain ⟨rfl,rfl⟩ := Prod.mk.inj heq
    rw [if_pos rfl]
    exact connection_grant_balanced b i
  · rw [if_neg hr]
    exact makeSender_balanced b (c.resolve_left hid)
  · obtain ⟨rfl,rfl⟩ := Prod.mk.inj heq
    rw [if_pos rfl]
    obtain ⟨wi,hk⟩ := SendWindows.makeSender_known s.windows sid
    exact stream_grant_balanced (makeSender_balanced b (c.resolve_left hid)) hid i hk

theorem settings_balanced (b : s.Balanced) (n : ℕ) {cfg : Settings} (c : s.loose
    = [] ∨ ∀ initial∈cfg.initialWindowSize,s.windows.peerInitial ≤ initial) :
    (s.step (.settings n cfg)).Balanced := by
  obtain ⟨⟨hc,hs⟩,hi⟩ := SendWindows.applySettings_shifted s.windows n cfg
  unfold step
  dsimp only
  generalize (s.windows.applySettings n cfg).2=windows' at hc hs hi ⊢
  have hr : s.loose=[] ∨ s.windows.peerInitial≤windows'.peerInitial := by
    rcases c with hn | hra
    · exact .inl hn
    · rcases hi with hsa | hse
      · exact .inr hsa.ge
      · exact .inr (hra _ hse)
  -- the connection has moved the senders it knows, the others may only be behind
  have hw : ∀ o,(window? {s with windows:=windows'} o).isSome = (s.window? o).isSome ∧
      ∀ w',window? {s with windows:=windows'} o=some w' →
        ∃ window,s.window? o=some window ∧
          w'.size+s.windows.peerInitial≤window.size+windows'.peerInitial := by
    intro o
    have hsi := hs o
    unfold window?
    cases hold : s.windows.senders.get? o with
    | none =>
      have hne : windows'.senders.get? o=none := by simpa [hold] using hsi
      simp only [hne,true_and]
      intro w' h'
      refine ⟨w',h',?_⟩
      rcases hr with hn | hra
      · simp [hn] at h'
      · omega
    | some window =>
      rw [hold] at hsi
      obtain ⟨moved,hne,hm⟩ := Option.map_eq_some_iff.mp hsi
      dsimp only at hm
      simp only [hne,Option.isSome_some,true_and]
      intro w' h'
      obtain rfl := Option.some.inj h'
      exact ⟨window,rfl,by omega⟩
  refine b.of_windows rfl rfl rfl hc (fun ts ht => ?_) fun o w' h' => .inl ((hw o).2 w' h')
  rw [(hw ts.1).1]
  exact b.served ts ht

/-- What writes no frame keeps the budget when it keeps the books. -/
theorem Balanced.withinCredit (b : t.Balanced) (h : t.frames=s.frames) : s.WithinCredit t :=
  ⟨b.within,fun _ => .inl (by rw [sentOn,h,sentOn])⟩

theorem call_balanced (b : s.Balanced) (ev : ResponseEvent) (q : s.owing=0) :
    (s.step (.call sid ev)).Balanced ∧ s.WithinCredit (s.step (.call sid ev)) := by
  cases hw : s.window? sid with
  | none =>
    have hs : s.step (.call sid ev)=s := by rw [step,perform,hw]
    rw [hs]
    exact ⟨b,b.withinCredit rfl⟩
  | some w =>
    generalize ht : (if (s.responses sid).endStreamSent then [] else ev.todo)=todo
    have ho : owed todo=0 := by
      rw [← ht]
      split
      · rfl
      · exact ev.owed_todo
    have hc : Balanced {s with tasks:=(sid,todo)::s.tasks} := by
      refine b.with_tasks (by simp [ho,owing]) (fun o => by simp [ho,owingOn]) ?_
      intro ts hta
      rcases List.mem_cons.mp hta with rfl | hold
      · exact ⟨by rw [hw]; rfl,Nat.le_zero.mp (ho ▸ owed_tail_le todo)⟩
      · exact ⟨b.served ts hold,b.tails ts hold⟩
    rw [step]
    refine perform_balanced hc q fun line hr => ?_
    rw [Line.call,hr,ht]

theorem resume_balanced (b : s.Balanced) (ts : ℕ) (q : Ledger.total owed (s.tasks.eraseIdx ts)=0) :
    (s.step (.resume ts)).Balanced ∧ s.WithinCredit (s.step (.resume ts)) := by
  unfold step
  dsimp only
  split
  case h_1 => exact ⟨b,b.withinCredit rfl⟩
  case h_2 sid todo ht =>
    have ho : Balanced {s with tasks:=(sid,todo)::s.tasks.eraseIdx ts} := by
      refine b.with_tasks ?_ (fun o => ?_) fun o hot => ?_
      · rw [owing,Ledger.total_eraseIdx ht,Ledger.total_cons]
      · rw [owingOn,Ledger.on_eraseIdx ht,Ledger.on_cons]
      · have hm : o∈s.tasks := by
          rcases List.mem_cons.mp hot with rfl | hr
          · exact List.mem_of_getElem? ht
          · exact List.mem_of_mem_eraseIdx hr
        exact ⟨b.served o hm,b.tails o hm⟩
    exact perform_balanced ho q fun _ _ => rfl

theorem cancel_balanced (b : s.Balanced) (ts : ℕ) (c : ∀ su∈s.tasks[ts]?,owed su.2=0) :
    (s.step (.cancel ts)).Balanced := by
  cases ht : s.tasks[ts]? with
  | none =>
    have hs : s.step (.cancel ts)=s := by
      rw [step,List.eraseIdx_of_length_le (List.getElem?_eq_none_iff.mp ht)]
    rw [hs]
    exact b
  | some su =>
    have hf := c su ht
    refine b.with_tasks ?_ (fun o => ?_) fun o ho => ?_
    · rw [owing,Ledger.total_eraseIdx ht,hf,Nat.zero_add]
    · rw [owingOn,Ledger.on_eraseIdx ht,hf,ite_self,Nat.zero_add]
    · have hm := List.mem_of_mem_eraseIdx ho
      exact ⟨b.served o hm,b.tails o hm⟩

theorem step_balanced {a : OutboundAction} (b : s.Balanced) (c : s.Careful a) :
    (s.step a).Balanced ∧ s.WithinCredit (s.step a) := by
  -- the actions that write nothing keep the budget with the books
  have hs : (s.step a).frames=s.frames → (s.step a).Balanced →
      (s.step a).Balanced ∧ s.WithinCredit (s.step a) :=
    fun hf hb => ⟨hb,hb.withinCredit hf⟩
  cases a with
  | makeSender sid => exact hs rfl (makeSender_balanced b c)
  | push sid => exact hs rfl (push_balanced b c.1 c.2)
  | call sid e => exact call_balanced b e c
  | resume ts => exact resume_balanced b ts c
  | cancel ts => exact hs rfl (cancel_balanced b ts c)
  | release sid =>
    refine hs ?_ (release_balanced b sid)
    unfold step
    dsimp only
    split <;> rfl
  | forget sid =>
    refine hs ?_ (forget_balanced b sid)
    unfold step
    dsimp only
    split <;> rfl
  | windowUpdate sid len n => exact hs rfl (windowUpdate_balanced b len n c)
  | settings len settings => exact hs rfl (settings_balanced b len c)

/-- In every run in which no sender runs while a debit of another is to come and no sender has
a window out of step, each step stays within the credit of the connection and of the streams. -/
theorem data_within_credit {actions : List OutboundAction}
    (careful : Along step Careful {} actions) {action : OutboundAction}
    (next : Careful (run step {} actions) action) :
    WithinCredit (run step {} actions) (step (run step {} actions) action) :=
  (step_balanced (careful.invariant (fun _ _ books hcareful =>
    (step_balanced books hcareful).1) balanced_initial) next).2

/-- A small window on stream 1, and a chunk that its flush writes. -/
def flushedChunk : List OutboundAction :=
  [.settings 6 {initialWindowSize:=some 4},.makeSender 1,.call 1 (.start ⟨200,[]⟩ true),
    .call 1 (.body [1,2,3] true),.resume 0]

/-- The flush debits the windows before the next chunk is sent, which then waits for credit. -/
theorem data_within_credit_waiting :
    let s := run step {} (flushedChunk++[.resume 0])
    let t := s.step (.call 1 (.body [4,5,6] true))
    t.sentOn 1=4 ∧ s.WithinCredit t :=
  ⟨by decide +kernel,data_within_credit (by decide +kernel) (by decide +kernel)⟩

/-- The next chunk is sent while the flush is suspended between its write and its debit: six
octets go out on a stream with credit for four. A pushed stream goes over it alone. -/
theorem data_over_credit :
    let overlapping := run step {} (flushedChunk++[.call 1 (.body [4,5,6] true)])
    let pushed := run step {} [.settings 6 {initialWindowSize:=some 4},.push 2,
      .call 2 (.bytes ⟨200,[]⟩ [1,2,3,4,5])]
    (overlapping.windows.peerInitial=4 ∧ overlapping.creditOn 1=0 ∧ overlapping.sentOn 1=6) ∧
    pushed.windows.peerInitial=4 ∧ pushed.creditOn 2=0 ∧ pushed.sentOn 2=5 := by
  decide +kernel

end BlackBull.H2.Outbound
