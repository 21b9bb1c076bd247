import BlackBull.FrameLoading
import BlackBull.OrderedDict

/-!
# Send windows

The window of the connection, the window a new stream starts with, and the windows of the stream
senders. They are integers because a smaller initial window may take a drained one below zero.
-/

namespace BlackBull.H2

def defaultInitialWindowSize : ℕ := 65535

def maxFlowWindow : ℤ := 2^31 - 1

/-- What a stream sender may still write, and in frames of what size. -/
structure StreamWindow where
  size : ℤ
  maxFrameSize : ℕ := defaultMaxFrameSize
  deriving DecidableEq

structure SendWindows where
  connection : ℤ := defaultInitialWindowSize
  peerInitial : ℕ := defaultInitialWindowSize
  senders : Dict ℕ StreamWindow := []

inductive WindowAnswer where
  | connectionError (code : ErrorCode)
  | resetStream (code : ErrorCode)
  | applied
  deriving DecidableEq

namespace SendWindows

def makeSender (windows : SendWindows) (streamId : ℕ) : SendWindows :=
  match windows.senders.get? streamId with
  | some _ => windows
  | none => {windows with senders:=windows.senders.set streamId {size:=windows.peerInitial}}

def dropSender (windows : SendWindows) (streamId : ℕ) : SendWindows :=
  {windows with senders:=windows.senders.pop streamId}

def streamSize (windows : SendWindows) (streamId : ℕ) : ℤ :=
  ((windows.senders.get? streamId).map StreamWindow.size).getD 0

/-- The change every sender sees. -/
def mapSenders (windows : SendWindows) (f : StreamWindow → StreamWindow) : SendWindows :=
  {windows with senders:=windows.senders.map fun item => (item.1,f item.2)}

def creditStream (windows : SendWindows) (streamId : ℕ) (n : ℤ) : SendWindows :=
  match windows.senders.get? streamId with
  | none => windows
  | some window =>
    {windows with senders:=windows.senders.set streamId {window with size:=window.size+n}}

/-- `WindowUpdateResponder`. -/
def windowUpdate (windows : SendWindows) (streamId length increment : ℕ) :
    WindowAnswer × SendWindows :=
  if length≠4 then (.connectionError .frameSizeError,windows)
  else if increment=0 then
    (if streamId=0 then .connectionError .protocolError else .resetStream .protocolError,
      windows)
  else if streamId=0 then
    if windows.connection+increment > maxFlowWindow then
      (.connectionError .flowControlError,windows)
    else (.applied,{windows with connection:=windows.connection+increment})
  else
    let windows := windows.makeSender streamId
    if windows.streamSize streamId+increment > maxFlowWindow then
      (.resetStream .flowControlError,windows)
    else (.applied,windows.creditStream streamId increment)

def setInitial (windows : SendWindows) (initial : ℕ) : SendWindows :=
  let delta : ℤ := initial - windows.peerInitial
  { (if delta=0 then windows
      else windows.mapSenders fun window => {window with size:=window.size+delta}) with
    peerInitial:=initial}

def minMaxFrameSize : ℕ := 16384

def maxMaxFrameSize : ℕ := 16777215

/-- `SettingsResponder` on the frame of the connection stream that is no acknowledgement. -/
def applySettings (windows : SendWindows) (length : ℕ) (settings : Settings) :
    WindowAnswer × SendWindows :=
  if length % 6 ≠ 0 then (.connectionError .frameSizeError,windows)
  else if settings.enablePush.any (1 < ·) then (.connectionError .protocolError,windows)
  else if settings.initialWindowSize.any (maxFlowWindow < ·) then
    (.connectionError .flowControlError,windows)
  else if settings.maxFrameSize.any fun size => size < minMaxFrameSize || maxMaxFrameSize<size then
    (.connectionError .protocolError,windows)
  else
    let windows := match settings.initialWindowSize with
      | some initial => windows.setInitial initial
      | none => windows
    (.applied,match settings.maxFrameSize with
      | some size => windows.mapSenders fun window => {window with maxFrameSize:=size}
      | none => windows)

theorem makeSender_of_known {wi : SendWindows} {id : ℕ}
    (h : (wi.senders.get? id).isSome) : wi.makeSender id=wi := by
  obtain ⟨w,hw⟩ := Option.isSome_iff_exists.mp h
  rw [makeSender,hw]

theorem makeSender_of_unknown {wi : SendWindows} {id : ℕ}
    (h : wi.senders.get? id=none) : wi.makeSender id={wi with
        senders:=wi.senders.set id {size:=wi.peerInitial}} := by
  rw [makeSender,h]

variable (ws : SendWindows)

theorem makeSender_known (id : ℕ) : ∃ w,(ws.makeSender id).senders.get? id=some w := by
  cases h : ws.senders.get? id with
  | some w => exact ⟨w,by rw [makeSender_of_known (by rw [h]; rfl),h]⟩
  | none => exact ⟨_,by rw [makeSender_of_unknown h,Dict.get?_set,if_pos rfl]⟩

theorem windowUpdate_cases (id n i : ℕ) : let r := ws.windowUpdate id n i
    (r.1≠.applied ∧ r.2=ws) ∨
    (id=0 ∧ r=(.applied,{ws with connection:=ws.connection+i})) ∨
    (id≠0 ∧ r.1≠.applied ∧ r.2=ws.makeSender id) ∨
    (id≠0 ∧ r = (.applied,(ws.makeSender id).creditStream id i)) := by
  unfold SendWindows.windowUpdate
  dsimp only
  split
  · exact .inl ⟨by simp,rfl⟩
  split
  · exact .inl ⟨by split <;> simp,rfl⟩
  split
  case isTrue hz =>
    split
    · exact .inl ⟨by simp,rfl⟩
    · exact .inr (.inl ⟨hz,rfl⟩)
  case isFalse hn =>
    split
    · exact .inr (.inr (.inl ⟨hn,by simp,rfl⟩))
    · exact .inr (.inr (.inr ⟨hn,rfl⟩))

/-- Every sender moves with the peer's initial window. -/
def Shifted (windows windows' : SendWindows) : Prop :=
  windows'.connection=windows.connection ∧
    ∀ streamId,(windows'.senders.get? streamId).map StreamWindow.size =
      (windows.senders.get? streamId).map fun window =>
        window.size + (windows'.peerInitial - windows.peerInitial : ℤ)

theorem get?_mapSenders (f : StreamWindow → StreamWindow) (id : ℕ) :
    (ws.mapSenders f).senders.get? id=(ws.senders.get? id).map f :=
  Dict.get?_map ws.senders f id

theorem shifted_refl : Shifted ws ws := ⟨rfl,fun _ => by simp⟩

theorem shifted_setInitial (i : ℕ) : Shifted ws (ws.setInitial i) := by
  unfold SendWindows.setInitial
  dsimp only
  split
  case isTrue hs =>
    refine ⟨rfl,fun id => ?_⟩
    dsimp only
    rw [hs]
    simp
  case isFalse =>
    refine ⟨rfl,fun id => ?_⟩
    dsimp only
    rw [get?_mapSenders,Option.map_map]
    rfl

theorem Shifted.mapSenders {ws w' : SendWindows} (h : Shifted ws w')
    {f : StreamWindow → StreamWindow} (hf : ∀ w,(f w).size=w.size) :
    Shifted ws (w'.mapSenders f) := by
  refine ⟨h.1,fun id => ?_⟩
  rw [get?_mapSenders,Option.map_map,Function.comp_def]
  simp only [hf]
  exact h.2 id

theorem applySettings_shifted (n : ℕ) (cfg : Settings) : let w' := (ws.applySettings n cfg).2
    Shifted ws w' ∧ (w'.peerInitial=ws.peerInitial ∨
      cfg.initialWindowSize=some w'.peerInitial) := by
  unfold SendWindows.applySettings
  dsimp only
  iterate 4
    split
    · exact ⟨shifted_refl ws,.inl rfl⟩
  cases hi : cfg.initialWindowSize with
  | none =>
    cases cfg.maxFrameSize with
    | none => exact ⟨shifted_refl ws,.inl rfl⟩
    | some size => exact ⟨(shifted_refl ws).mapSenders fun _ => rfl,.inl rfl⟩
  | some i =>
    cases cfg.maxFrameSize with
    | none => exact ⟨shifted_setInitial ws i,.inr rfl⟩
    | some size => exact ⟨(shifted_setInitial ws i).mapSenders fun _ => rfl,.inr rfl⟩

end SendWindows
end BlackBull.H2
