import BlackBull.FrameTurns

/-!
# Stream identifiers of requests

New streams of the peer have odd identifiers in increasing order, which the loop checks when a
HEADERS frame opens a stream. A frame on a stream that has a node already is not checked, and the
node may come from PRIORITY_UPDATE or from a request that was refused.
-/

namespace BlackBull.H2

variable {τ : Type} (lib : Library τ) (limits : Limits)

/-- What a frame must keep to. HEADERS on a stream with a node: trailers in one frame, after its
request. CONTINUATION: on the stream of the open block or on one the tree does not know. -/
def Fresh (s : Actor τ) : Action → Prop
  | .frame raw _ =>
    (raw.type=some .headers → ∀ stream∈s.children.get? raw.streamId,
      stream.request.isSome=true ∧ raw.endHeaders=true) ∧
    (raw.type=some .continuation → ∀ frame∈s.openBlock,
      raw.streamId=frame.streamId ∨ s.children.get? raw.streamId=none)
  | _ => True

instance (s : Actor τ) : (action : Action) → Decidable (Fresh s action)
  | .frame _ _ => inferInstanceAs (Decidable (_ ∧ _))
  | .eof | .done _ _ | .push _ | .fail _ _ _ | .debit _ _ | .giveUp _ => isTrue trivial

def Actor.dispatchedIds (s : Actor τ) : List ℕ := s.dispatched.map Dispatch.streamId

/-- The identifiers are odd, increasing and below the last one of the peer; the stream of the
open block comes after all of them. -/
structure Disciplined (s : Actor τ) : Prop where
  odd : ∀ streamId ∈ s.dispatchedIds,streamId % 2 = 1
  increasing : s.dispatchedIds.Pairwise (· < ·)
  bounded : ∀ streamId∈s.dispatchedIds,streamId ≤ s.lastPeerStreamId
  openBlock : s.ended=false → ∀ frame,s.openBlock=some frame →
    frame.streamId % 2 = 1 ∧ frame.streamId ≤ s.lastPeerStreamId ∧
      ∀ streamId∈s.dispatchedIds,streamId<frame.streamId

section Step

variable {lib limits} {s t : Actor τ} {raw : RawFrame}

theorem Disciplined.same (h : Disciplined s) (hd : t.dispatched=s.dispatched) (hl :
    s.lastPeerStreamId≤t.lastPeerStreamId) (ho : t.ended=false → ∀ f,t.openBlock=some f →
    f.streamId % 2 = 1 ∧ f.streamId ≤ t.lastPeerStreamId ∧ ∀ id ∈ s.dispatchedIds,id < f.streamId)
    : Disciplined t := by
  have hi : t.dispatchedIds=s.dispatchedIds := by rw [Actor.dispatchedIds,hd]; rfl
  refine ⟨hi ▸ h.odd,hi ▸ h.increasing,?_,hi ▸ ho⟩
  intro id hm
  exact (h.bounded id (hi ▸ hm)).trans hl

/-- A request is given on a stream that comes after all others, and no block is open. -/
theorem Disciplined.give (h : Disciplined s) {q : Dispatch} (hd : t.dispatched=s.dispatched ++
    [q]) (hl : s.lastPeerStreamId ≤ t.lastPeerStreamId) (ho : q.streamId % 2 = 1) (hn : ∀ id ∈
    s.dispatchedIds,id<q.streamId) (hbo : q.streamId≤t.lastPeerStreamId) (hope : t.openBlock =
    none) : Disciplined t := by
  have hi : t.dispatchedIds=s.dispatchedIds++[q.streamId] := by simp [Actor.dispatchedIds,hd]
  refine ⟨?_,?_,?_,by simp [hope]⟩
  · rw [hi]
    intro id hm
    rcases List.mem_append.mp hm with hm | hm
    · exact h.odd id hm
    · rwa [List.mem_singleton.mp hm]
  · rw [hi,List.pairwise_append]
    refine ⟨h.increasing,List.pairwise_singleton _ _,fun a ha b hb => ?_⟩
    rw [List.mem_singleton.mp hb]
    exact hn a ha
  · rw [hi]
    intro id hm
    rcases List.mem_append.mp hm with hm | hm
    · exact (h.bounded id hm).trans hl
    · rwa [List.mem_singleton.mp hm]

theorem Disciplined.of_keeps (h : Disciplined s) (hk : Keeps s t) : Disciplined t := by
  refine h.same hk.dispatched hk.lastPeer fun hl f ho => ?_
  have hs : s.ended=false := by
    by_contra he
    simp [hk.ended (by simpa using he)] at hl
  obtain ⟨hod,hb,hn⟩ := h.openBlock hs f (hk.openBlock ▸ ho)
  exact ⟨hod,hb.trans hk.lastPeer,hn⟩

variable {m : Moment}

/-- A HEADERS frame that opens a block or gives a request is the first on its stream. -/
theorem Admitted.new (ha : Admitted s raw.streamId (.ofRaw raw) t)
    (ht : raw.type=some .headers) (hf : Fresh s (.frame raw m)) :
    raw.streamId % 2 = 1 ∧ s.lastPeerStreamId < raw.streamId ∧
      raw.streamId≤t.lastPeerStreamId := by
  rcases ha with ⟨st,hs,hr⟩ | ⟨-,hn⟩
  · obtain ⟨hso,he⟩ := hf.1 ht st hs
    rcases hr with hno | ho
    · simp [hno] at hso
    · simp [HeadersFrame.ofRaw,he] at ho
  · exact hn

theorem disciplined_headers (h : Disciplined s) (ht : raw.type=some .headers)
    (hf : Fresh s (.frame raw m)) (htu : HeadersTurn lib s raw t) : Disciplined t := by
  have hb (hl : s.lastPeerStreamId<raw.streamId) :
      ∀ id∈s.dispatchedIds,id<raw.streamId :=
    fun id hm => (h.bounded id hm).trans_lt hl
  cases htu with
  | closed f d di lp => exact h.same di lp (by simp [f.ended])
  | refused free ob a di lp => exact h.same di lp (by simp [ob])
  | opened free u ob a di lp ad =>
    obtain ⟨ho,hl,hbo⟩ := ad.new ht hf
    refine h.same di lp fun _ fr hfr => ?_
    obtain rfl : HeadersFrame.ofRaw raw=fr := Option.some.inj (ob.symm.trans hfr)
    exact ⟨ho,hbo,hb hl⟩
  | given free finished ob a loads block fr reads request parse di lp ad =>
    obtain ⟨ho,hl,hbo⟩ := ad.new ht hf
    exact h.give di lp ho (hb hl) hbo ob

theorem disciplined_continuation (h : Disciplined s) (hl : s.ended=false)
    (ht : raw.type=some .continuation) (hf : Fresh s (.frame raw m))
    (htu : ContinuationTurn lib limits s raw t) : Disciplined t := by
  cases ho : s.openBlock with
  | none => exact h.of_keeps (htu.failed (.inl ho)).2
  | some frame =>
    rcases hf.2 ht frame ho with hid | hn
    case inr => exact h.of_keeps (htu.failed (.inr hn)).2
    obtain ⟨hod,hb,hne⟩ := h.openBlock hl frame ho
    have hfr {o : HeadersFrame} (hot : s.openBlock=some o) : o=frame :=
      Option.some.inj (hot.symm.trans ho)
    rcases htu with hou | ⟨failed,hr⟩
    · cases hou with
      | closed failed k => exact h.of_keeps k
      | reset ob sp => exact h.of_keeps sp.toKeeps
      | dropped o ob live l none sp => exact h.same sp.dispatched sp.lastPeer (by simp [none])
      | extended o ob live uf e sp =>
        obtain rfl := hfr ob
        refine h.same sp.dispatched sp.lastPeer fun _ f' hf' => ?_
        obtain rfl : o.extend raw.payload=f' := Option.some.inj (e.symm.trans hf')
        exact ⟨hod,hb.trans sp.lastPeer,hne⟩
      | completed o ob live finished sh completes =>
        rcases completes.dispatched with hs | ⟨block,f',req,-,-,hg⟩
        · exact h.same hs completes.lastPeer (by simp [completes.openBlock])
        · rw [hid] at hg
          exact h.give hg completes.lastPeer hod hne (hb.trans completes.lastPeer)
            completes.openBlock
    · obtain ⟨o,ob,live,finished,dc,hd,hla⟩ := hr
      exact h.same hd hla (by simp [failed.ended])

theorem disciplined_step (h : Disciplined s) {a : Action} (hf : Fresh s a) :
    Disciplined (s.step lib limits a) := by
  by_cases hfr : ∃ raw m,a=.frame raw m
  case neg =>
    exact h.of_keeps (step_environment lib limits s fun raw m heq => hfr ⟨raw,m,heq⟩).1
  obtain ⟨raw,m,rfl⟩ := hfr
  cases he : s.ended with
  | true => exact h.of_keeps (step_of_ended lib limits m raw he)
  | false =>
    rw [step_of_live lib limits m raw he]
    by_cases hh : raw.type=some .headers
    · exact disciplined_headers h hh hf (handle_headers lib limits m hh he)
    by_cases hc : raw.type=some .continuation
    · exact disciplined_continuation h he hc hf (handle_continuation lib limits m hc he)
    · exact h.of_keeps (handle_other lib limits m hh hc he).1

end Step

/-- On a connection whose frames are fresh the identifiers of the requests are odd and strictly
increasing, so none is given twice. -/
theorem dispatched_ids_increasing (table : τ) {actions : List Action}
    (along : Along (Actor.step lib limits) Fresh (.initial limits table) actions) :
    let s := run (Actor.step lib limits) (.initial limits table) actions
    (∀ streamId ∈ s.dispatchedIds,streamId % 2 = 1) ∧ s.dispatchedIds.Pairwise (· < ·) ∧
      s.dispatchedIds.Nodup := by
  have hi : Disciplined (Actor.initial limits table) := ⟨nofun,.nil,nofun,fun _ _ h => nomatch h⟩
  have h := along.invariant (fun s action h hf => disciplined_step h hf) hi
  exact ⟨h.odd,h.increasing,h.increasing.imp ne_of_lt⟩

/-- Two requests, the second in two frames, around a PRIORITY_UPDATE and a reset. -/
theorem dispatched_ids_increasing_two :
    let s := run (Actor.step plainLibrary {}) (.initial {} [])
      [.quiet 1 4 1 [0x82,0x86,0x84,0x41,1,97],.quiet 16 0 0 [0,0,0,7],
        .quiet 3 0 1 [0,0,0,8],.quiet 1 0 5 [0x82,0x86],.quiet 9 4 5 [0x84,0x41,1,98]]
    s.dispatchedIds=[1,5] ∧ s.dispatchedIds.Nodup := by
  have along : Along (Actor.step plainLibrary {}) Fresh (.initial {} [])
      [.quiet 1 4 1 [0x82,0x86,0x84,0x41,1,97],.quiet 16 0 0 [0,0,0,7],
        .quiet 3 0 1 [0,0,0,8],.quiet 1 0 5 [0x82,0x86],.quiet 9 4 5 [0x84,0x41,1,98]] := by
    decide +kernel
  exact ⟨by decide +kernel,(dispatched_ids_increasing plainLibrary {} [] along).2.2⟩

/-- An even identifier that PRIORITY_UPDATE has made a node for, a stream whose first request was
malformed served after a later one, and a stream that is served twice. -/
theorem dispatched_ids_undisciplined :
    (run (Actor.step plainLibrary {}) (.initial {} [])
        [.quiet 16 0 0 [0,0,0,2],
          .quiet 1 5 2 [0x82,0x86,0x84,0x41,1,97]]).dispatchedIds=[2] ∧
      (run (Actor.step plainLibrary {}) (.initial {} [])
        [.quiet 1 5 1 [0x82,0x82],.quiet 1 5 3 [0x82,0x86,0x84,0x41,1,97],
          .quiet 1 5 1 [0x82,0x86,0x84,0x41,1,97]]).dispatchedIds=[3,1] ∧
      (run (Actor.step plainLibrary {}) (.initial {} [])
        [.quiet 1 4 1 [0x82,0x86,0x84,0x41,1,97],.quiet 1 0 1 [0x82,0x86],
          .quiet 9 4 1 [0x84,0x41,1,97]]).dispatchedIds=[1,1] := by
  decide +kernel

end BlackBull.H2
