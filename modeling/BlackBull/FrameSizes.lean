import BlackBull.SenderWindows

/-!
# The size of the frames a connection writes

The limit is the peer's SETTINGS_MAX_FRAME_SIZE in force. A header block is written whole, in one
HEADERS or PUSH_PROMISE frame; the encoder is not modelled, and the blocks are any octets. DATA
frames are cut to what their sender holds for the limit.
-/

namespace BlackBull.H2

inductive WireFrame where
  | response (frame : SentFrame)
  | pushPromise
  deriving DecidableEq

namespace WireFrame

def carriesBlock : WireFrame → Bool
  | .response (.data _ _) => false
  | _ => true

/-- The length of the payload of a frame, with the header block it carries if it carries one;
a promise begins with the identifier of the promised stream. -/
def payloadLength (block : Bytes) : WireFrame → ℕ
  | .response (.data payload _) => payload.length
  | .response _ => block.length
  | .pushPromise => 4+block.length

end WireFrame

/-- The sending side of a connection under the limit of the peer. -/
structure Limited where
  outbound : Outbound := {}
  limit : ℕ := defaultMaxFrameSize
  /-- The frames written, each with the limit in force at that moment. -/
  written : List (ℕ × WireFrame) := []

namespace Limited

def nextLimit (s : Limited) : OutboundAction → ℕ
  | .settings length settings =>
    if (s.outbound.windows.applySettings length settings).1=.applied then
      settings.maxFrameSize.getD s.limit
    else s.limit
  | _ => s.limit

def promises : OutboundAction → List WireFrame
  | .push _ => [.pushPromise]
  | _ => []

def responses (s : Limited) (action : OutboundAction) : List SentFrame :=
  ((s.outbound.step action).frames.drop s.outbound.frames.length).map Prod.snd

def step (s : Limited) (action : OutboundAction) : Limited where
  outbound := s.outbound.step action
  limit := s.nextLimit action
  written := s.written ++
    (promises action++(s.responses action).map WireFrame.response).map (s.limit,·)

/-- Every frame was within the limit when it was written. -/
def Disciplined (blocks : ℕ → Bytes) (s : Limited) : Prop :=
  ∀ (n limit : ℕ) (frame : WireFrame),s.written[n]? = some (limit,frame) →
    frame.payloadLength (blocks n)≤limit

def BlocksFit (blocks : ℕ → Bytes) (s : Limited) : Prop :=
  ∀ (n limit : ℕ) (frame : WireFrame),s.written[n]? = some (limit,frame) →
    frame.carriesBlock=true → frame.payloadLength (blocks n)≤limit

/-- A lower limit comes when no chunk over it is held for trailers, and no sender that the
connection has released writes on under the old one. -/
def Steady (s : Limited) : OutboundAction → Prop
  | .settings length settings =>
    (s.outbound.windows.applySettings length settings).1=.applied →
      ∀ size∈settings.maxFrameSize,size<s.limit →
        (∀ streamId held,(s.outbound.responses streamId).body=some held →
          held.length ≤ size) ∧
        ∀ streamId window,s.outbound.loose.get? streamId=some window →
          window.maxFrameSize ≤ size
  | _ => True

end Limited

namespace Line

/-- The sender cuts its frames to the limit, and what it holds is within it. -/
def Fits (limit : ℕ) (line : Line) : Prop :=
  line.window.maxFrameSize≤limit ∧ ∀ held,line.response.body=some held → held.length≤limit

def FramesFit (limit : ℕ) (frames : List SentFrame) : Prop :=
  ∀ payload endStream,SentFrame.data payload endStream∈frames → payload.length≤limit

def OutcomeFits (limit : ℕ) : Outcome Line Instr SentFrame → Prop
  | .done line => line.Fits limit
  | .pause line output _ => line.Fits limit ∧ FramesFit limit output
  | .fail line => line.Fits limit

variable {lim : ℕ} {li : Line}

theorem writeData_fits (h : li.Fits lim) (b : Bytes) (es : Bool) :
    FramesFit lim (li.writeData b es).1 := by
  intro p last hm
  unfold writeData at hm
  split_ifs at hm
  · simp at hm
    simp [hm.1]
  · simp at hm
  · have hs := h.1
    simp only [List.mem_singleton,SentFrame.data.injEq] at hm
    rw [hm.1,List.length_take]
    omega

theorem writeResponseStartAndBody_fits (h : li.Fits lim) (b : Bytes) (es : Bool)
    (st : Start) (et : Bool) : FramesFit lim (li.writeResponseStartAndBody b es st et).1 := by
  intro p last hm
  unfold writeResponseStartAndBody at hm
  dsimp only at hm
  have hs := h.1
  split at hm
  case isTrue hf =>
    simp at hm
    rw [hm.1]
    omega
  case isFalse => simp at hm

theorem fits_setResponse (h : li.Fits lim) {f : Response → Response}
    (hf : ∀ held,(f li.response).body=some held → li.response.body=some held) :
    (li.setResponse f).Fits lim :=
  ⟨h.1,fun held hh => h.2 held (hf held hh)⟩

theorem handleBodyContent_fits (h : li.Fits lim) (p : Bytes) (es : Bool) :
    OutcomeFits lim (li.handleBodyContent p es) := by
  unfold handleBodyContent
  dsimp only
  split
  case h_1 start hs =>
    split
    case isTrue hh =>
      refine ⟨h.1,fun held hb => ?_⟩
      obtain rfl := Option.some.inj hb
      have hf : p.length≤li.window.maxFrameSize := by
        simp only [holds,Bool.and_eq_true,decide_eq_true_eq] at hh
        exact hh.2.2.1
      exact hf.trans h.1
    case isFalse =>
      split
      · exact ⟨h,writeResponseStartAndBody_fits h _ _ _ _⟩
      · exact ⟨h,writeResponseStartAndBody_fits h _ _ _ _⟩
  case h_2 => exact ⟨h,writeData_fits h _ _⟩

theorem framesFit_of_noData {fs : List SentFrame} (hf : ∀ p es,SentFrame.data p es∉fs) :
    FramesFit lim fs :=
  fun p es hm => absurd hm (hf p es)

theorem handleTrailers_fits (h : li.Fits lim) (hs : HeaderList) :
    OutcomeFits lim (li.handleTrailers hs) := by
  unfold handleTrailers
  split
  · split
    case h_1 held hh =>
      split
      · refine ⟨h,fun p last hm => ?_⟩
        -- the chunk is not compared with the limit again
        simp at hm
        rw [hm.1]
        exact h.2 held hh
      · exact ⟨h,framesFit_of_noData (by simp)⟩
    case h_2 => exact ⟨h,framesFit_of_noData (by simp)⟩
  · exact ⟨h,framesFit_of_noData (by simp)⟩

theorem exec_fits (h : li.Fits lim) (i : Instr) : OutcomeFits lim (li.exec i) := by
  cases i with
  | debit n => exact h
  | writeTrailers hs => exact ⟨h,framesFit_of_noData (by simp)⟩
  | writeData body es | bodyData p es => exact ⟨h,writeData_fits h _ _⟩
  | bodyContent p es => exact handleBodyContent_fits h p es
  | heldData =>
    dsimp only [exec]
    split
    · exact ⟨h,writeData_fits h _ _⟩
    · exact h
  | trailers hs => exact handleTrailers_fits h hs
  | trailersUnlessEnded hs =>
    dsimp only [exec]
    split
    · exact h
    · exact handleTrailers_fits h hs
  | wholeResponse start body => exact ⟨h,writeResponseStartAndBody_fits h _ _ _ _⟩
  | autoFlush f =>
    dsimp only [exec]
    split
    · have hc : Fits lim (li.setResponse ({· with body:=none,start:=none})) :=
        fits_setResponse h (by simp)
      exact ⟨hc,writeResponseStartAndBody_fits hc _ _ _ _⟩
    · exact h
  | bodyEnd es =>
    refine fits_setResponse h fun held hh => ?_
    split at hh <;> exact hh
  | begin | clearStart | clearBody | endSent => exact fits_setResponse h (by simp)

theorem advance_fits (h : li.Fits lim) (t : List Instr) :
    (advance exec li t).state.Fits lim ∧
      FramesFit lim (advance exec li t).output := by
  refine advance_induction (P := fun (li : Line) _ (turn : Turn Line Instr SentFrame) =>
    li.Fits lim → turn.state.Fits lim ∧ FramesFit lim turn.output)
    ?nil ?done ?pause ?fail li t h
  case nil => exact fun li h => ⟨h,framesFit_of_noData (by simp)⟩
  case done =>
    intro li i rest ln turn he ih h
    have hf := exec_fits h i
    rw [he] at hf
    exact ih hf
  case pause =>
    intro li i rest ln o m he h
    have hf := exec_fits h i
    rw [he] at hf
    exact hf
  case fail =>
    intro li i rest ln he h
    have hf := exec_fits h i
    rw [he] at hf
    exact ⟨hf,framesFit_of_noData (by simp)⟩

end Line

namespace SendWindows

variable (ws : SendWindows)

theorem setInitial_maxFrameSize (i id : ℕ) :
    ((ws.setInitial i).senders.get? id).map StreamWindow.maxFrameSize =
      (ws.senders.get? id).map StreamWindow.maxFrameSize := by
  unfold setInitial
  dsimp only
  split
  · rfl
  · rw [get?_mapSenders,Option.map_map]
    rfl

def moved (windows : SendWindows) (settings : Settings) : SendWindows :=
  settings.initialWindowSize.elim windows windows.setInitial

theorem moved_maxFrameSize (cfg : Settings) (id : ℕ) :
    ((ws.moved cfg).senders.get? id).map StreamWindow.maxFrameSize =
      (ws.senders.get? id).map StreamWindow.maxFrameSize := by
  unfold moved
  cases cfg.initialWindowSize with
  | none => rfl
  | some i => exact setInitial_maxFrameSize ws i id

theorem applySettings_cases (n : ℕ) (cfg : Settings) :
    ((ws.applySettings n cfg).1≠.applied ∧ (ws.applySettings n cfg).2=ws) ∨
    ws.applySettings n cfg=(.applied,cfg.maxFrameSize.elim (ws.moved cfg) fun size =>
        (ws.moved cfg).mapSenders ({· with maxFrameSize:=size})) := by
  unfold applySettings moved
  iterate 4
    split
    · exact .inl ⟨by simp,rfl⟩
  right
  cases cfg.initialWindowSize <;> cases cfg.maxFrameSize <;> rfl

theorem minMaxFrameSize_le {ws : SendWindows} {n : ℕ} {cfg : Settings}
    (h : (ws.applySettings n cfg).1=.applied) {size : ℕ}
    (hs : cfg.maxFrameSize=some size) : minMaxFrameSize ≤ size := by
  by_contra hsm
  have hr : (cfg.maxFrameSize.any fun size =>
      size < minMaxFrameSize || maxMaxFrameSize<size)=true := by
    simp [hs,Nat.not_le.mp hsm]
  unfold applySettings at h
  rw [if_pos hr] at h
  split_ifs at h

theorem applySettings_maxFrameSize (n : ℕ) (cfg : Settings) (id : ℕ) :
    ((ws.applySettings n cfg).2.senders.get? id).map StreamWindow.maxFrameSize =
      (ws.senders.get? id).map fun w => if (ws.applySettings n cfg).1=.applied then
          cfg.maxFrameSize.getD w.maxFrameSize
        else w.maxFrameSize := by
  rcases applySettings_cases ws n cfg with ⟨hr,hk⟩ | ha
  · simp [hr,hk]
  · rw [ha]
    cases cfg.maxFrameSize with
    | none => simpa using moved_maxFrameSize ws cfg id
    | some size =>
      have hm := congrArg (Option.map fun _ => size) (moved_maxFrameSize ws cfg id)
      simpa [get?_mapSenders,Option.map_map,Function.comp_def] using hm

end SendWindows

namespace Outbound

variable {l : ℕ} {s : Outbound}

/-- The senders cut their frames to the limit and hold no chunk over it. -/
structure Within (limit : ℕ) (s : Outbound) : Prop where
  windows : s.AllWindows fun window => window.maxFrameSize≤limit
  held : ∀ streamId held,(s.responses streamId).body=some held → held.length≤limit

/-- The step adds frames to those written, and their DATA is within the limit. -/
structure Writes (limit : ℕ) (s t : Outbound) (sent : Ledger ℕ SentFrame) : Prop where
  within : t.Within limit
  frames : t.frames=s.frames++sent
  fits : Line.FramesFit limit (sent.map Prod.snd)

theorem Within.silent {t : Outbound} (h : t.Within l) (hf : t.frames=s.frames) :
    ∃ sent,s.Writes l t sent :=
  ⟨[],h,by rw [hf,List.append_nil],Line.framesFit_of_noData (by simp)⟩

theorem Within.perform (h : s.Within l) (id : ℕ) {w : Line → Turn Line Instr SentFrame}
    (hw : ∀ line : Line,line.Fits l → (w line).state.Fits l ∧ Line.FramesFit l (w line).output) :
    ∃ sent,s.Writes l (s.perform id w) sent := by
  rcases s.perform_cases id w with hs | ⟨window,hwi,hr⟩
  · rw [hs]
    exact h.silent rfl
  · rw [hr]
    obtain ⟨hst,ho⟩ := hw {connection:=s.windows.connection,window,response:=s.responses id}
      ⟨h.windows.of_window? hwi,h.held id⟩
    refine ⟨_,⟨h.windows.record id hst.1,fun o held hot => ?_⟩,rfl,?_⟩
    · simp only [record,putWindow,Function.update_apply] at hot
      split_ifs at hot
      · exact hst.2 held hot
      · exact h.held o held hot
    · simpa [Function.comp_def] using ho

theorem Within.step (h : s.Within l) (hl : defaultMaxFrameSize≤l)
    {a : OutboundAction} (hs : ∀ len settings,a≠.settings len settings) :
    ∃ sent,s.Writes l (s.step a) sent := by
  cases a with
  | makeSender sid => exact Within.silent ⟨h.windows.makeSender hl sid,h.held⟩ rfl
  | push sid => exact Within.silent ⟨h.windows.push hl sid,h.held⟩ rfl
  | call sid e =>
    have hc : ∀ line : Line,line.Fits l → (line.call e).state.Fits l ∧
        Line.FramesFit l (line.call e).output :=
      fun line hli => Line.advance_fits hli _
    exact h.perform sid hc
  | resume t =>
    unfold Outbound.step
    dsimp only
    split
    · exact h.silent rfl
    case h_2 sid todo _ =>
      have hw : Within l {s with tasks:=s.tasks.eraseIdx t} :=
        ⟨⟨h.windows.known,h.windows.loose⟩,h.held⟩
      obtain ⟨sent,hwi,hf,hfi⟩ := hw.perform sid fun line hli => Line.advance_fits hli todo
      exact ⟨sent,hwi,hf,hfi⟩
  | cancel t => exact Within.silent ⟨⟨h.windows.known,h.windows.loose⟩,h.held⟩ rfl
  | release sid =>
    have hk := s.release_keeps sid
    exact Within.silent ⟨h.windows.release sid,hk.responses ▸ h.held⟩ hk.frames
  | forget sid =>
    have hk := s.forget_keeps sid
    exact Within.silent ⟨h.windows.forget sid,hk.responses ▸ h.held⟩ hk.frames
  | windowUpdate sid len n =>
    refine Within.silent ⟨h.windows.windowUpdate hl fun window hwin _ _ => ?_,h.held⟩ rfl
    exact (h.windows.makeSender hl sid).known sid window hwin
  | settings len settings => exact absurd rfl (hs len settings)

theorem Within.settings (h : s.Within l) {n : ℕ} {cfg : Settings} (l' : ℕ)
    (hl' : l'=if (s.windows.applySettings n cfg).1=.applied then cfg.maxFrameSize.getD l else l)
    (hh : ∀ id held,(s.responses id).body=some held → held.length≤l')
    (hl : ∀ id w,s.loose.get? id=some w → w.maxFrameSize≤l') :
    (s.step (.settings n cfg)).Within l' := by
  refine ⟨⟨fun id w hw => ?_,hl⟩,hh⟩
  have hs := SendWindows.applySettings_maxFrameSize s.windows n cfg id
  have hw' : (s.windows.applySettings n cfg).2.senders.get? id = some w := hw
  rw [hw',Option.map_some] at hs
  obtain ⟨b,hb,hli⟩ := Option.map_eq_some_iff.mp hs.symm
  have hk := h.windows.known id b hb
  rw [← hli,hl']
  split_ifs
  · cases cfg.maxFrameSize with
    | none => exact hk
    | some size => exact le_rfl
  · exact hk

end Outbound

namespace Limited

variable {s : Limited}

/-- The senders keep to the limit, and the DATA frames written so far were within it. -/
structure Kept (s : Limited) : Prop where
  least : defaultMaxFrameSize ≤ s.limit
  within : s.outbound.Within s.limit
  data : ∀ limit payload endStream,
    (limit,WireFrame.response (.data payload endStream))∈s.written → payload.length≤limit

theorem kept_initial : Kept {} where
  least := le_rfl
  within := ⟨⟨fun _ _ h => (by cases h),fun _ _ h => (by cases h)⟩,fun _ _ h => (by cases h)⟩
  data := fun _ _ _ h => (by cases h)

theorem Kept.written (h : s.Kept) {a : OutboundAction} (sn : Ledger ℕ SentFrame)
    (hf : (s.outbound.step a).frames=s.outbound.frames++sn)
    (hfi : Line.FramesFit s.limit (sn.map Prod.snd)) (lm : ℕ) (p : Bytes) (es : Bool)
    (hm : (lm,WireFrame.response (.data p es))∈(s.step a).written) : p.length≤lm := by
  have hr : s.responses a=sn.map Prod.snd := by rw [responses,hf,List.drop_left]
  rw [step,hr,List.mem_append] at hm
  rcases hm with hold | hn
  · exact h.data lm p es hold
  · obtain ⟨f,hfr,heq⟩ := List.mem_map.mp hn
    obtain ⟨rfl,rfl⟩ := Prod.mk.inj heq
    rcases List.mem_append.mp hfr with hp | hre
    · cases a <;> simp [promises] at hp
    · obtain ⟨d,hd,hi⟩ := List.mem_map.mp hre
      obtain rfl := WireFrame.response.inj hi
      exact hfi p es hd

theorem nextLimit_settings (s : Limited) (n : ℕ) (cfg : Settings) :
    s.nextLimit (.settings n cfg)=s.limit ∨ (s.outbound.windows.applySettings n cfg).1=.applied ∧
        cfg.maxFrameSize=some (s.nextLimit (.settings n cfg)) := by
  unfold nextLimit
  dsimp only
  split_ifs with ha
  · cases cfg.maxFrameSize with
    | none => exact .inl rfl
    | some size => exact .inr ⟨ha,rfl⟩
  · exact .inl rfl

theorem Kept.settings (h : s.Kept) {n : ℕ} {cfg : Settings} (hs : s.Steady (.settings n cfg)) :
    (s.step (.settings n cfg)).Kept := by
  have hc := s.nextLimit_settings n cfg
  have hb : (∀ id held,(s.outbound.responses id).body=some held →
        held.length ≤ s.nextLimit (.settings n cfg)) ∧
      ∀ id w,s.outbound.loose.get? id=some w → w.maxFrameSize ≤ s.nextLimit (.settings n cfg) := by
    by_cases hl : s.nextLimit (.settings n cfg)<s.limit
    · rcases hc with hsa | ⟨ha,hsi⟩
      · omega
      · exact hs ha _ hsi hl
    · have hle := Nat.not_lt.mp hl
      exact ⟨fun id held hh => (h.within.held id held hh).trans hle,
        fun id w hw => (h.within.windows.loose id w hw).trans hle⟩
  have hlea : defaultMaxFrameSize ≤ s.nextLimit (.settings n cfg) := by
    rcases hc with hsa | ⟨ha,hsi⟩
    · rw [hsa]
      exact h.least
    · exact SendWindows.minMaxFrameSize_le ha hsi
  refine ⟨hlea,h.within.settings _ rfl hb.1 hb.2,h.written [] ?_ ?_⟩
  · rw [List.append_nil]
    rfl
  · exact Line.framesFit_of_noData (by simp)

theorem Kept.step (h : s.Kept) {a : OutboundAction} (hs : s.Steady a) : (s.step a).Kept := by
  by_cases hse : ∃ n settings,a=.settings n settings
  · obtain ⟨n,settings,rfl⟩ := hse
    exact h.settings hs
  · have ho : ∀ n settings,a≠.settings n settings :=
      fun n settings heq => hse ⟨n,settings,heq⟩
    obtain ⟨sent,hw,hf,hfi⟩ := h.within.step h.least ho
    have hl : (s.step a).limit=s.limit := by
      cases a with
      | settings n settings => exact absurd rfl (ho n settings)
      | _ => rfl
    exact ⟨hl ▸ h.least,hl ▸ hw,h.written sent hf hfi⟩

/-- In a run whose limit is never lowered under a chunk that is held, nor behind the back of a
released sender, every DATA frame is within the limit in force; the frames that carry a
header block carry it whole, and are within it exactly when the blocks fit. -/
theorem disciplined_iff (blocks : ℕ → Bytes) (actions : List OutboundAction)
    (hsteady : Along step Steady {} actions) :
    Disciplined blocks (run step {} actions) ↔ BlocksFit blocks (run step {} actions) := by
  have hk : Kept (run step {} actions) :=
    hsteady.invariant (fun s action h hsteady => h.step hsteady) kept_initial
  constructor
  · intro h n limit frame hf _
    exact h n limit frame hf
  · intro h n limit frame hf
    cases hb : frame.carriesBlock with
    | true => exact h n limit frame hf hb
    | false =>
      have hm := List.mem_of_getElem? hf
      rcases frame with (_ | ⟨payload,endStream⟩ | _) | _
      · cases hb
      · exact hk.data limit payload endStream hm
      · cases hb
      · cases hb

def trailedResponse : List OutboundAction :=
  [.makeSender 1,.settings 6 {maxFrameSize:=some 32768},.call 1 (.start ⟨200,[]⟩ true),
    .call 1 (.body [1,2,3] true),.call 1 (.trailers [([97],[])]),.push 2]

/-- The blocks of a status, of a trailer and of a GET for the frames that carry one. -/
def trailedBlocks (n : ℕ) : Bytes :=
  [[0x88],[],[0x40,1,97,0],[0x82,0x86,0x84,0x41,1,97]].getD n []

theorem disciplined_iff_trailed :
    (run step {} trailedResponse).written =
      [(32768,.response (.headers ⟨200,[]⟩)),(32768,.response (.data [1,2,3] false)),
        (32768,.response (.trailers [([97],[])])),(32768,.pushPromise)] ∧
    (Disciplined trailedBlocks (run step {} trailedResponse) ↔
      BlocksFit trailedBlocks (run step {} trailedResponse)) := by
  refine ⟨by decide,disciplined_iff _ _ ?_⟩
  refine ⟨trivial,fun _ size hs hl => ?_,trivial,trivial,trivial,trivial,trivial⟩
  obtain rfl := Option.some.inj hs
  exact absurd hl (by decide)

/-- The block of a status and a field `a` with 16384 letters X, in their Huffman code. -/
def largeBlock : Bytes :=
  [0x88,0x40,0x81,0x1f,0xff,0x81,0x7f]++List.replicate 16384 0xfc

/-- A response whose header block is over the limit goes out in one frame. -/
theorem large_block_undisciplined :
    let start : Start := ⟨200,[([97],List.replicate 16384 88)]⟩
    let s := run step {} [.makeSender 1,.call 1 (.bytes start [])]
    s.written=[(16384,.response (.headers start)),(16384,.response (.data [] true))] ∧
      ¬ Disciplined (fun _ => largeBlock) s := by
  intro start s
  have hw : s.written=[(16384,.response (.headers start)),(16384,.response (.data [] true))] := rfl
  refine ⟨hw,fun h => ?_⟩
  have hle : largeBlock.length≤16384 := h 0 16384 (.response (.headers start)) (by rw [hw]; rfl)
  rw [largeBlock,List.length_append,List.length_replicate] at hle
  exact absurd hle (by decide)

end Limited
end BlackBull.H2
