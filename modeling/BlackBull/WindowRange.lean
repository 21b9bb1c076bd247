import BlackBull.SenderWindows

/-!
# Send windows in range

A send window is at most 2^31 - 1. A step is sound when the increment it uses is the low 31 bits of
the frame, what would take a window over the limit is answered with FLOW_CONTROL_ERROR, and every
window is in range afterwards.
-/

namespace BlackBull.H2

def lowBits (increment : ℕ) : ℕ := increment % 2^31

namespace SendWindows

def credited (windows : SendWindows) (streamId : ℕ) : ℤ :=
  if streamId=0 then windows.connection
  else (windows.makeSender streamId).streamSize streamId

def refusal (streamId : ℕ) (code : ErrorCode) : WindowAnswer :=
  if streamId=0 then .connectionError code else .resetStream code

/-- How a WINDOW_UPDATE of four octets has to be answered. -/
structure Credits (windows : SendWindows) (streamId increment : ℕ)
    (result : WindowAnswer × SendWindows) : Prop where
  zero : lowBits increment=0 → result.1=refusal streamId .protocolError ∧
    result.2.credited streamId=windows.credited streamId
  exceeding : lowBits increment≠0 →
    windows.credited streamId+lowBits increment > maxFlowWindow →
    result.1=refusal streamId .flowControlError ∧
      result.2.credited streamId=windows.credited streamId
  within : lowBits increment≠0 →
    windows.credited streamId+lowBits increment ≤ maxFlowWindow →
    result.1=.applied ∧
      result.2.credited streamId=windows.credited streamId+lowBits increment

def ValidSettings (length : ℕ) (settings : Settings) : Prop :=
  length % 6 = 0 ∧ (∀ push ∈ settings.enablePush,push ≤ 1) ∧
    ∀ size∈settings.maxFrameSize,minMaxFrameSize ≤ size ∧ size ≤ maxMaxFrameSize

/-- The new initial window takes a window over the limit: that of a new stream, or one of a
sender. -/
def Overflows (windows : SendWindows) (initial : ℕ) : Prop :=
  (initial : ℤ) > maxFlowWindow ∨ ∃ streamId window,
    windows.senders.get? streamId=some window ∧
      window.size + (initial - windows.peerInitial : ℤ) > maxFlowWindow

end SendWindows

namespace Outbound

variable {s : Outbound} {streamId : ℕ}

/-- No send window is over the limit, nor the one a new stream starts with. -/
structure InRange (s : Outbound) : Prop where
  connection : s.windows.connection ≤ maxFlowWindow
  initial : (s.windows.peerInitial : ℤ) ≤ maxFlowWindow
  known : ∀ streamId window,s.windows.senders.get? streamId=some window →
    window.size ≤ maxFlowWindow
  loose : ∀ streamId window,s.loose.get? streamId=some window → window.size ≤ maxFlowWindow

def Answers (s : Outbound) : OutboundAction → Prop
  | .windowUpdate streamId length increment =>
    length=4 →
      s.windows.Credits streamId increment (s.windows.windowUpdate streamId length increment)
  | .settings length settings =>
    SendWindows.ValidSettings length settings →
      ∀ initial∈settings.initialWindowSize,s.windows.Overflows initial →
        s.windows.applySettings length settings=(.connectionError .flowControlError,s.windows)
  | _ => True

def Sound (s : Outbound) (action : OutboundAction) : Prop :=
  (s.step action).InRange ∧ s.Answers action

/-- The reserved bit is off, or the low bits take the window over the limit anyway; no new initial
window within the limit takes the window of a sender over it. -/
def Moderate (s : Outbound) : OutboundAction → Prop
  | .windowUpdate streamId length increment =>
    length=4 → increment<2^31 ∨
      lowBits increment≠0 ∧ s.windows.credited streamId+lowBits increment > maxFlowWindow
  | .settings length settings =>
    SendWindows.ValidSettings length settings →
      ∀ initial∈settings.initialWindowSize,(initial : ℤ) ≤ maxFlowWindow →
        ∀ streamId window,s.windows.senders.get? streamId=some window →
          window.size + (initial - s.windows.peerInitial : ℤ) ≤ maxFlowWindow
  | _ => True

end Outbound

namespace SendWindows

variable (ws : SendWindows) (sid : ℕ)

variable {n len : ℕ} {cfg : Settings}

theorem lowBits_of_lt (h : n<2^31) : lowBits n=n := Nat.mod_eq_of_lt h

theorem credited_makeSender : (ws.makeSender sid).credited sid =
    ws.credited sid := by
  unfold credited
  split_ifs with hz
  · unfold makeSender
    split <;> rfl
  · have hk := makeSender_known ws sid
    rw [makeSender_of_known (Option.isSome_iff_exists.mpr hk)]

theorem credited_creditStream (hid : sid≠0) (n : ℤ) :
    ((ws.makeSender sid).creditStream sid n).credited sid =
      ws.credited sid+n := by
  obtain ⟨w,hw⟩ := makeSender_known ws sid
  have hc : ((ws.makeSender sid).creditStream sid n).senders.get? sid =
      some {w with size:=w.size+n} := by
    rw [creditStream,hw]
    simp [Dict.get?_set]
  rw [credited,credited,if_neg hid,if_neg hid,
    makeSender_of_known (by rw [hc]; rfl),streamSize,hc,streamSize,hw]
  rfl

theorem windowUpdate_eq (hi : n≠0) :
    (ws.credited sid+n > maxFlowWindow ∧ (ws.windowUpdate sid 4 n).1=refusal sid .flowControlError ∧
      (ws.windowUpdate sid 4 n).2.credited sid=ws.credited sid) ∨
    (ws.credited sid+n ≤ maxFlowWindow ∧ (ws.windowUpdate sid 4 n).1=.applied ∧
      (ws.windowUpdate sid 4 n).2.credited sid =
        ws.credited sid+n) := by
  by_cases hid : sid=0
  · subst hid
    by_cases ho : ws.connection+n > maxFlowWindow
    · left
      simp [windowUpdate,hi,credited,refusal,ho]
    · right
      have hr : ws.windowUpdate 0 4 n = (.applied,{ws with connection:=ws.connection+n}) := by
        simp [windowUpdate,hi,ho]
      rw [hr]
      exact ⟨Int.not_lt.mp ho,rfl,rfl⟩
  · have hc : ws.credited sid = (ws.makeSender sid).streamSize sid := if_neg hid
    by_cases ho : ws.credited sid+n > maxFlowWindow
    · left
      have hr : ws.windowUpdate sid 4 n = (.resetStream .flowControlError,ws.makeSender sid) := by
        rw [hc] at ho
        simp [windowUpdate,hi,hid,ho]
      rw [hr]
      exact ⟨ho,(if_neg hid).symm,credited_makeSender ws sid⟩
    · right
      have hr : ws.windowUpdate sid 4 n = (.applied,(ws.makeSender sid).creditStream sid n) := by
        rw [hc] at ho
        simp [windowUpdate,hi,hid,ho]
      rw [hr]
      exact ⟨Int.not_lt.mp ho,rfl,credited_creditStream ws sid hid n⟩

theorem windowUpdate_zero : ws.windowUpdate sid 4 0=(refusal sid .protocolError,ws) := by
  simp [windowUpdate,refusal]

theorem refusal_ne_applied (c : ErrorCode) : refusal sid c≠.applied := by
  unfold refusal
  split <;> simp

theorem refusal_inj {cd c : ErrorCode} (h : refusal sid cd=refusal sid c) : cd=c := by
  unfold refusal at h
  split at h <;> simpa using h

theorem credited_le_of_applied (h : (ws.windowUpdate sid len n).1=.applied) :
    ws.credited sid+n ≤ maxFlowWindow := by
  obtain rfl : len=4 := by
    by_contra hl
    simp [windowUpdate,hl] at h
  have hi : n≠0 := by
    rintro rfl
    rw [windowUpdate_zero] at h
    exact refusal_ne_applied sid _ h
  rcases windowUpdate_eq ws sid hi with ⟨-,hr,-⟩ | ⟨hw,-⟩
  · exact absurd (hr.symm.trans h) (refusal_ne_applied sid _)
  · exact hw

theorem makeSender_connection :
    (ws.makeSender sid).connection=ws.connection ∧
      (ws.makeSender sid).peerInitial=ws.peerInitial := by
  unfold makeSender
  split <;> exact ⟨rfl,rfl⟩

theorem windowUpdate_connection (len n : ℕ) :
    ((ws.windowUpdate sid len n).2.connection=ws.connection ∨
      sid=0 ∧ (ws.windowUpdate sid len n).1=.applied ∧ (ws.windowUpdate sid len n).2.connection =
        ws.connection+n) ∧
    (ws.windowUpdate sid len n).2.peerInitial=ws.peerInitial := by
  have hm := makeSender_connection ws sid
  rcases windowUpdate_cases ws sid len n with ⟨-,hw⟩ | ⟨hid,hr⟩ | ⟨-,-,hw⟩ | ⟨-,hr⟩
  · rw [hw]
    exact ⟨.inl rfl,rfl⟩
  · rw [hr]
    exact ⟨.inr ⟨hid,rfl,rfl⟩,rfl⟩
  · rw [hw]
    exact ⟨.inl hm.1,hm.2⟩
  · rw [hr]
    obtain ⟨w,hwi⟩ := makeSender_known ws sid
    rw [creditStream,hwi]
    exact ⟨.inl hm.1,hm.2⟩

/-- A frame is answered rightly when its reserved bit is off, or when the low bits take the window
over the limit anyway. -/
theorem credits_iff (n : ℕ) :
    ws.Credits sid n (ws.windowUpdate sid 4 n) ↔ n<2^31 ∨
        lowBits n≠0 ∧ ws.credited sid+lowBits n > maxFlowWindow := by
  by_cases hs : n<2^31
  · refine iff_of_true ?_ (.inl hs)
    by_cases hz : n=0
    · subst hz
      rw [windowUpdate_zero]
      exact ⟨fun _ => ⟨rfl,rfl⟩,fun h => absurd rfl h,fun h => absurd rfl h⟩
    · have hl := lowBits_of_lt hs
      rcases windowUpdate_eq ws sid hz with ⟨ho,ha⟩ | ⟨hw,ha⟩
      · refine ⟨fun h => absurd (hl ▸ h) hz,fun _ _ => ha,fun _ h => ?_⟩
        rw [hl] at h
        omega
      · refine ⟨fun h => absurd (hl ▸ h) hz,fun _ h => ?_,fun _ _ => ?_⟩
        · rw [hl] at h
          omega
        · rw [hl]
          exact ha
  · have hl : lowBits n < n :=
      lt_of_lt_of_le (Nat.mod_lt _ (by decide)) (Nat.not_lt.mp hs)
    rcases windowUpdate_eq ws sid (Nat.ne_of_gt (Nat.zero_lt_of_lt hl)) with ⟨-,hr,hk⟩ | ⟨hw,hap,hc⟩
    · constructor
      · intro h
        refine .inr ⟨fun hz => ?_,?_⟩
        · have hco := refusal_inj sid (hr.symm.trans (h.zero hz).1)
          cases hco
        · by_contra hle
          have hz : lowBits n≠0 := fun hz => by
            have hco := refusal_inj sid (hr.symm.trans (h.zero hz).1)
            cases hco
          have ha := (h.within hz (Int.not_lt.mp hle)).1
          exact refusal_ne_applied sid _ (hr.symm.trans ha)
      · rintro (hb | ⟨hz,ho⟩)
        · exact absurd hb hs
        · refine ⟨fun h => absurd h hz,fun _ _ => ⟨hr,hk⟩,fun _ h => ?_⟩
          omega
    · refine iff_of_false (fun h => ?_) (by rintro (hb | ⟨-,ho⟩) <;> omega)
      by_cases hz : lowBits n=0
      · exact refusal_ne_applied sid _ ((h.zero hz).1.symm.trans hap)
      · have hsu := (h.within hz (by omega)).2
        omega

theorem applySettings_invalid (h : ¬ ValidSettings len cfg) : (ws.applySettings len cfg).2=ws := by
  unfold applySettings
  split_ifs with hl hp hi hf
  · rfl
  · rfl
  · rfl
  · rfl
  · refine absurd ⟨not_not.mp hl,?_,?_⟩ h
    · intro push hm
      rw [Option.mem_def] at hm
      simpa [hm] using hp
    · intro size hm
      rw [Option.mem_def] at hm
      simpa [hm] using hf

theorem applySettings_valid (h : ValidSettings len cfg) {i : ℕ}
    (hi : cfg.initialWindowSize=some i) :
    ((i : ℤ) > maxFlowWindow ∧ ws.applySettings len cfg = (.connectionError .flowControlError,ws)) ∨
      (i : ℤ) ≤ maxFlowWindow ∧ (ws.applySettings len cfg).1=.applied ∧
        (ws.applySettings len cfg).2.peerInitial=i := by
  obtain ⟨hl,hpu,hfr⟩ := h
  have hp' : ¬ cfg.enablePush.any (1 < ·)=true := by
    cases hp : cfg.enablePush with
    | none => simp
    | some push => simpa using hpu push hp
  have hf' : ¬ (cfg.maxFrameSize.any fun size =>
      size < minMaxFrameSize || maxMaxFrameSize<size)=true := by
    cases hf : cfg.maxFrameSize with
    | none => simp
    | some size => simpa using hfr size hf
  unfold applySettings
  rw [if_neg (not_not.mpr hl),if_neg hp',hi]
  by_cases ho : maxFlowWindow<(i : ℤ)
  · exact .inl ⟨ho,if_pos (decide_eq_true ho)⟩
  · right
    refine ⟨Int.not_lt.mp ho,?_⟩
    rw [if_neg (by simpa using ho),if_neg hf']
    refine ⟨rfl,?_⟩
    cases cfg.maxFrameSize <;> rfl

theorem applySettings_keeps (len : ℕ) (h : cfg.initialWindowSize=none) :
    (ws.applySettings len cfg).2.peerInitial=ws.peerInitial := by
  obtain ⟨-,hk | hn⟩ := applySettings_shifted ws len cfg
  · exact hk
  · rw [h] at hn
    cases hn

end SendWindows

namespace Outbound

variable {s : Outbound} {id1 : ℕ}

theorem advance_lowers (line : Line) (todo : List Instr) :
    (advance Line.exec line todo).state.connection≤line.connection ∧
      (advance Line.exec line todo).state.window.size≤line.window.size := by
  refine advance_induction (P := fun (line : Line) _ (turn : Turn Line Instr SentFrame) =>
    turn.state.connection≤line.connection ∧ turn.state.window.size≤line.window.size)
    ?nil ?done ?pause ?fail line todo
  case nil => exact fun line => ⟨le_rfl,le_rfl⟩
  case done =>
    intro line i rest line' turn he ih
    have hs := line.exec_spends i
    rw [he] at hs
    cases hs with
    | done _ hc hsi => omega
  case pause =>
    intro line i rest line' o more he
    have hs := line.exec_spends i
    rw [he] at hs
    cases hs with
    | pause _ _ _ hc hsi _ => exact ⟨hc.le,hsi.le⟩
  case fail =>
    intro line i rest line' he
    have hs := line.exec_spends i
    rw [he] at hs
    cases hs with
    | fail _ => exact ⟨le_rfl,le_rfl⟩

theorem InRange.windows (h : s.InRange) : s.AllWindows fun w => w.size ≤ maxFlowWindow :=
  ⟨h.known,h.loose⟩

theorem InRange.perform (h : s.InRange) {w : Line → Turn Line Instr SentFrame}
    (hw : ∀ line,(w line).state.connection≤line.connection ∧
      (w line).state.window.size≤line.window.size) : (s.perform id1 w).InRange := by
  rcases s.perform_cases id1 w with hs | ⟨window,hwi,hr⟩
  · rw [hs]
    exact h
  · rw [hr]
    obtain ⟨hc,hl⟩ := hw {connection:=s.windows.connection,window,response:=s.responses id1}
    have hwin := h.windows.record id1 (hl.trans (h.windows.of_window? hwi))
    exact ⟨hc.trans h.connection,h.initial,hwin.known,hwin.loose⟩

theorem InRange.shifted (h : s.InRange) {windows : SendWindows}
    (hs : s.windows.Shifted windows) (hi : (windows.peerInitial : ℤ) ≤ maxFlowWindow)
    (hse : ∀ id1 w,s.windows.senders.get? id1=some w →
      w.size + (windows.peerInitial - s.windows.peerInitial : ℤ) ≤ maxFlowWindow) :
    InRange {s with windows} := by
  refine ⟨hs.1.le.trans h.connection,hi,fun id1 w hw => ?_,h.loose⟩
  have hsi := hs.2 id1
  dsimp only at hw
  rw [hw,Option.map_some] at hsi
  obtain ⟨b,hb,hsu⟩ := Option.map_eq_some_iff.mp hsi.symm
  rw [← hsu]
  exact hse id1 b hb

theorem InRange.settings (h : s.InRange) {l : ℕ} {ss : Settings}
    (hm : s.Moderate (.settings l ss)) : (s.step (.settings l ss)).InRange := by
  by_cases hv : SendWindows.ValidSettings l ss
  · have hs := (SendWindows.applySettings_shifted s.windows l ss).1
    cases hi : ss.initialWindowSize with
    | none =>
      have hk := SendWindows.applySettings_keeps s.windows l hi
      refine h.shifted hs (hk ▸ h.initial) fun id1 w hw => ?_
      have hsi := h.known id1 w hw
      rw [hk]
      omega
    | some i =>
      rcases SendWindows.applySettings_valid s.windows hv hi with ⟨-,hr⟩ | ⟨hle,-,hp⟩
      · rw [step,hr]
        exact h
      · refine h.shifted hs (hp ▸ hle) fun id1 w hw => ?_
        rw [hp]
        exact hm hv i hi hle id1 w hw
  · rw [step,SendWindows.applySettings_invalid s.windows hv]
    exact h

theorem InRange.windowUpdate (h : s.InRange) (id1 l inc : ℕ) :
    (s.step (.windowUpdate id1 l inc)).InRange := by
  have hw : (s.step (.windowUpdate id1 l inc)).AllWindows fun w => w.size ≤ maxFlowWindow := by
    refine h.windows.windowUpdate h.initial fun w hwi ha hid => ?_
    have hle := s.windows.credited_le_of_applied id1 ha
    rw [SendWindows.credited,if_neg hid,SendWindows.streamSize,hwi] at hle
    exact hle
  obtain ⟨hc,hi⟩ := s.windows.windowUpdate_connection id1 l inc
  refine ⟨?_,hi ▸ h.initial,hw.known,hw.loose⟩
  rcases hc with hk | ⟨rfl,ha,hr⟩
  · exact hk ▸ h.connection
  · exact hr.le.trans (s.windows.credited_le_of_applied 0 ha)

theorem inRange_initial : InRange {} where
  connection := by decide
  initial := by decide
  known := fun _ _ h => by cases h
  loose := fun _ _ h => by cases h

theorem InRange.step (h : s.InRange) {a : OutboundAction} (hm : s.Moderate a) :
    (s.step a).InRange := by
  cases a with
  | makeSender id1 =>
    have hw := h.windows.makeSender h.initial id1
    obtain ⟨hc,hi⟩ := s.windows.makeSender_connection id1
    exact ⟨hc ▸ h.connection,hi ▸ h.initial,hw.known,hw.loose⟩
  | push id1 =>
    have hw := h.windows.push (by decide) id1
    exact ⟨h.connection,h.initial,hw.known,hw.loose⟩
  | call id1 ev =>
    have hca : ∀ line : Line,(line.call ev).state.connection≤line.connection ∧
        (line.call ev).state.window.size≤line.window.size :=
      fun line => advance_lowers line _
    exact h.perform hca
  | resume t =>
    unfold Outbound.step
    dsimp only
    split
    · exact h
    case h_2 id1 todo _ =>
      have hwi : InRange {s with tasks:=s.tasks.eraseIdx t} := {h with}
      exact hwi.perform fun line => advance_lowers line todo
  | cancel t => exact {h with}
  | release id1 =>
    have hk := s.release_keeps id1
    have hw := h.windows.release id1
    exact ⟨hk.connection.le.trans h.connection,hk.peerInitial ▸ h.initial,hw.known,hw.loose⟩
  | forget id1 =>
    have hk := s.forget_keeps id1
    have hw := h.windows.forget id1
    exact ⟨hk.connection.le.trans h.connection,hk.peerInitial ▸ h.initial,hw.known,hw.loose⟩
  | windowUpdate id1 l inc => exact h.windowUpdate id1 l inc
  | settings l settings => exact h.settings hm

/-- A SETTINGS frame that takes a sender over the limit is applied all the same. -/
theorem moderate_of_sound_settings {l : ℕ} {ss : Settings}
    (h : s.Sound (.settings l ss)) : s.Moderate (.settings l ss) := by
  intro hv i hi hle id1 window hw
  by_contra ho
  have ha := h.2 hv i hi (.inr ⟨id1,window,hw,Int.not_le.mp ho⟩)
  rcases SendWindows.applySettings_valid s.windows hv hi with ⟨hgt,-⟩ | ⟨-,hap,-⟩
  · omega
  · rw [ha] at hap
    cases hap

theorem sound_iff (h : s.InRange) (a : OutboundAction) : s.Sound a ↔ s.Moderate a := by
  constructor
  · intro hs
    cases a with
    | windowUpdate id1 l inc =>
      rintro rfl
      exact (s.windows.credits_iff id1 inc).mp (hs.2 rfl)
    | settings l settings => exact moderate_of_sound_settings hs
    | _ => trivial
  · intro hm
    refine ⟨h.step hm,?_⟩
    cases a with
    | windowUpdate id1 l inc =>
      rintro rfl
      exact (s.windows.credits_iff id1 inc).mpr (hm rfl)
    | settings l settings =>
      rintro hv i hi (ho | ⟨id1,window,hw,ho⟩)
      · rcases SendWindows.applySettings_valid s.windows hv hi with
          ⟨-,hr⟩ | ⟨hle,-⟩
        · exact hr
        · omega
      · rcases SendWindows.applySettings_valid s.windows hv hi with
          ⟨-,hr⟩ | ⟨hle,-⟩
        · exact hr
        · have := hm hv i hi hle id1 window hw
          omega
    | _ => trivial

theorem along_sound_iff (h : s.InRange) (a : List OutboundAction) :
    Along step Sound s a ↔ Along step Moderate s a := by
  induction a generalizing s with
  | nil => exact Iff.rfl
  | cons ac a ih =>
    rw [along_cons,along_cons,sound_iff h ac]
    refine and_congr_right fun hm => ih (h.step hm)

/-- Over any interleaving of frames and senders: every window is in range, increments are the low
31 bits and overflows are answered with FLOW_CONTROL_ERROR, exactly in the runs whose
frames are moderate. -/
theorem windows_in_range_iff (actions : List OutboundAction) :
    Along step Sound {} actions ↔ Along step Moderate {} actions :=
  along_sound_iff inRange_initial actions

def raisedTwice : List OutboundAction :=
  [.makeSender 1,.windowUpdate 1 4 (2^31 - 1 - 65535),
    .settings 6 {initialWindowSize:=some 65536}]

/-- A SETTINGS frame takes a window over the limit and is applied; an increment of one with the
reserved bit on ends the connection. -/
theorem windows_out_of_range :
    ((run step {} raisedTwice).windows.senders.get? 1).map StreamWindow.size=some (2^31) ∧
    (({} : Outbound).windows.windowUpdate 0 4 (2^31+1)).1 =
      .connectionError .flowControlError ∧
    ¬ Along step Sound {} raisedTwice ∧
    ¬ Along step Sound {} [.windowUpdate 0 4 (2^31+1)] := by
  refine ⟨by decide,by decide,?_,?_⟩
  · rintro ⟨-,-,⟨hr,-⟩,-⟩
    exact absurd (hr.known 1 ⟨2^31,defaultMaxFrameSize⟩ (by decide)) (by decide)
  · rintro ⟨⟨-,ha⟩,-⟩
    have hap := ((ha rfl).within (by decide) (by decide)).1
    revert hap
    decide

end Outbound
end BlackBull.H2
