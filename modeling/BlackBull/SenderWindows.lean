import BlackBull.OutboundLedgers

/-!
# What holds of every stream window

The windows of the senders move in a few places: a sender starts, it has run, the
connection releases it, and a frame of the peer credits it. What these places keep is kept
by every step.
-/

namespace BlackBull.H2.Outbound

variable {P : StreamWindow → Prop} {s : Outbound}

structure AllWindows (P : StreamWindow → Prop) (s : Outbound) : Prop where
  known : ∀ streamId window,s.windows.senders.get? streamId=some window → P window
  loose : ∀ streamId window,s.loose.get? streamId=some window → P window

namespace AllWindows

theorem of_window? (h : s.AllWindows P) {sid : ℕ} {w : StreamWindow}
    (hw : s.window? sid=some w) : P w := by
  unfold window? at hw
  split at hw
  case h_1 known hk =>
    obtain rfl := Option.some.inj hw
    exact h.known sid _ hk
  case h_2 => exact h.loose sid w hw

theorem of_set {xs : Dict ℕ StreamWindow} {id : ℕ} {w : StreamWindow} (h : ∀ o k,xs.get? o=some k
    → P k) (hw : P w) (o : ℕ) (k : StreamWindow) (ho : (xs.set id w).get? o=some k) : P k := by
  rw [Dict.get?_set] at ho
  split_ifs at ho
  · obtain rfl := Option.some.inj ho
    exact hw
  · exact h o k ho

theorem of_pop {xs : Dict ℕ StreamWindow} {id : ℕ} (h : ∀ o k,xs.get? o=some k → P k) (o : ℕ)
    (k : StreamWindow) (ho : (xs.pop id).get? o=some k) : P k := by
  rw [Dict.get?_pop] at ho
  split_ifs at ho
  exact h o k ho

theorem record (h : s.AllWindows P) (id : ℕ) {t : Turn Line Instr SentFrame}
    (ht : P t.state.window) : (s.record id t).AllWindows P := by
  constructor
  · intro o k ho
    simp only [Outbound.record,putWindow] at ho
    split_ifs at ho
    · exact of_set h.known ht o k ho
    · exact h.known o k ho
  · intro o k ho
    simp only [Outbound.record,putWindow] at ho
    split_ifs at ho
    · exact h.loose o k ho
    · exact of_set h.loose ht o k ho

theorem makeSender (h : s.AllWindows P) (hn : P {size:=s.windows.peerInitial})
    (id : ℕ) : AllWindows P {s with windows:=s.windows.makeSender id} := by
  cases hk : s.windows.senders.get? id with
  | some w =>
    rw [SendWindows.makeSender_of_known (by rw [hk]; rfl)]
    exact h
  | none =>
    rw [SendWindows.makeSender_of_unknown hk]
    exact ⟨of_set h.known hn,h.loose⟩

theorem push (h : s.AllWindows P) (hn : P {size:=defaultInitialWindowSize})
    (id : ℕ) : (s.step (.push id)).AllWindows P :=
  ⟨h.known,of_set h.loose hn⟩

theorem release (h : s.AllWindows P) (id : ℕ) : (s.step (.release id)).AllWindows P := by
  unfold step
  dsimp only
  split
  · exact h
  case h_2 window hk => exact ⟨of_pop h.known,of_set h.loose (h.known id window hk)⟩

theorem forget (h : s.AllWindows P) (id : ℕ) : (s.step (.forget id)).AllWindows P := by
  unfold step
  dsimp only
  split
  · exact h
  · exact ⟨h.known,of_pop h.loose⟩

theorem windowUpdate (h : s.AllWindows P) (hn : P {size:=s.windows.peerInitial}) {streamId
    length increment : ℕ} (hc : ∀ window,(s.windows.makeSender streamId).senders.get? streamId =
    some window → (s.windows.windowUpdate streamId length increment).1=.applied → streamId≠0 → P
    {window with size:=window.size+increment}) :
    (s.step (.windowUpdate streamId length increment)).AllWindows P := by
  have hs : ∀ windows,(s.windows.windowUpdate streamId length increment).2=windows →
      AllWindows P {s with windows} →
      (s.step (.windowUpdate streamId length increment)).AllWindows P := by
    rintro windows rfl ⟨hk,hl⟩
    exact ⟨hk,hl⟩
  rcases SendWindows.windowUpdate_cases s.windows streamId length increment with
    ⟨-,hw⟩ | ⟨-,hr⟩ | ⟨-,-,hw⟩ | ⟨hid,hr⟩
  · exact hs _ hw h
  · exact hs _ (congrArg Prod.snd hr) ⟨h.known,h.loose⟩
  · exact hs _ hw (h.makeSender hn streamId)
  · have hm := h.makeSender hn streamId
    obtain ⟨window,hwi⟩ := SendWindows.makeSender_known s.windows streamId
    refine hs _ (congrArg Prod.snd hr) ?_
    rw [SendWindows.creditStream,hwi]
    exact ⟨of_set hm.known (hc window hwi (congrArg Prod.fst hr) hid),hm.loose⟩

end AllWindows

/-- What a connection keeps when it lets a sender go. -/
structure Keeps (s t : Outbound) : Prop where
  connection : t.windows.connection=s.windows.connection
  peerInitial : t.windows.peerInitial=s.windows.peerInitial
  responses : t.responses=s.responses
  frames : t.frames=s.frames

theorem release_keeps (s : Outbound) (id : ℕ) : s.Keeps (s.step (.release id)) := by
  unfold step
  dsimp only
  split <;> exact ⟨rfl,rfl,rfl,rfl⟩

theorem forget_keeps (s : Outbound) (id : ℕ) : s.Keeps (s.step (.forget id)) := by
  unfold step
  dsimp only
  split <;> exact ⟨rfl,rfl,rfl,rfl⟩

/-- Running a sender changes no window but its own, and that of the connection. -/
theorem perform_cases (s : Outbound) (id : ℕ) (w : Line → Turn Line Instr SentFrame) :
    s.perform id w=s ∨ ∃ window,s.window? id=some window ∧ s.perform id w=s.record id (w
        {connection:=s.windows.connection,window,response:=s.responses id}) := by
  unfold perform
  cases s.window? id with
  | none => exact .inl rfl
  | some window => exact .inr ⟨window,rfl,rfl⟩

end BlackBull.H2.Outbound
