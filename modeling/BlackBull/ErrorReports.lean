import BlackBull.FrameTurns

/-!
# What a handler reports

The frame loop catches nothing, so what a handler does to the peer's view of the connection is what
it sends before it returns. `Reports` is the relation every handler moves the state along: more is
sent, a closed connection has been announced, and the loop ends only after a GOAWAY.
-/

namespace BlackBull.H2

open ByteString HeadParser

variable {τ : Type} (lib : Library τ) (limits : Limits)

def OutFrame.refuses : OutFrame → Bool
  | .rstStream _ _ | .goaway _ _ => true
  | _ => false

def Actor.Announced (s : Actor τ) : Prop :=
  ∃ streamId code,OutFrame.goaway streamId code∈s.sent

/-- The connection is closed only after a GOAWAY. -/
def Actor.Truthful (s : Actor τ) : Prop := s.goawaySent=true → s.Announced

def Replies (s t : Actor τ) : Prop :=
  ∃ frames,t.sent=s.sent++frames ∧ ∃ frame∈frames,frame.refuses=true

/-- More is sent, and the loop goes on or returns after a GOAWAY. -/
structure Reports (s t : Actor τ) : Prop where
  sent : s.sent <+: t.sent
  truthful : s.Truthful → t.Truthful
  ending : s.Truthful → t.ending=s.ending ∨ (t.ending=some .returned ∧ t.Announced)

variable {s t : Actor τ} (m : Moment) (sid length : ℕ)

theorem Actor.Announced.mono (h : s.Announced) (hs : s.sent <+: t.sent) : t.Announced := by
  obtain ⟨sid,code,hm⟩ := h
  exact ⟨sid,code,hs.subset hm⟩

instance : IsPreorder (Actor τ) Reports where
  refl _ := ⟨List.prefix_rfl,id,fun _ => .inl rfl⟩
  trans s t u h h' := by
    refine ⟨h.sent.trans h'.sent,fun hs => h'.truthful (h.truthful hs),fun hs => ?_⟩
    rcases h'.ending (h.truthful hs) with hu | hu
    · rcases h.ending hs with ht | ht
      · exact .inl (hu.trans ht)
      · exact .inr ⟨hu.trans ht.1,ht.2.mono h'.sent⟩
    · exact .inr hu

theorem Reports.of_sent (hse : s.sent <+: t.sent) (hg : t.goawaySent=s.goawaySent)
    (he : t.ending=s.ending) : Reports s t :=
  ⟨hse,fun hs ht => (hs (hg ▸ ht)).mono hse,fun _ => .inl he⟩

theorem Replies.of_sent {u : Actor τ} (h : Replies t u) (hs : t.sent=s.sent) : Replies s u := by
  unfold Replies
  rw [← hs]
  exact h

variable (c : ErrorCode)

theorem goaway_replies (s : Actor τ) :
    Succeeds (goaway c) s fun _ t => Reports s t ∧ Replies s t := by
  refine ⟨⟨⟨_,rfl⟩,fun _ _ => ?_,fun _ => .inl rfl⟩,_,rfl,_,List.mem_singleton_self _,rfl⟩
  exact ⟨_,c,List.mem_append_right _ (List.mem_singleton_self _)⟩

theorem handles_reports {sid : ℕ} : Handles (Reports (τ := τ)) sid where
  emit frame _ _ := .of_sent ⟨[frame],rfl⟩ rfl rfl
  goaway c s := (goaway_replies c s).1
  meters _ _ := .of_sent List.prefix_rfl rfl rfl
  update s t h := by
    simp only [Actor.core,Prod.mk.injEq] at h
    exact .of_sent (h.1 ▸ List.prefix_rfl) h.2.1 h.2.2.1
  farewell s := by
    have ha : ({s.signalRecipients with
        sent:=s.sent++[.goaway s.lastPeerStreamId .noError]
        ending:=some .returned} : Actor τ).Announced :=
      ⟨_,_,List.mem_append_right _ (List.mem_singleton_self _)⟩
    exact ⟨⟨_,rfl⟩,fun _ _ => ha,fun _ => .inr ⟨rfl,ha⟩⟩

theorem returns_update {f : Actor τ → Actor τ} (hf : ∀ s,((f s).sent,(f s).goawaySent,
    (f s).ending)=(s.sent,s.goawaySent,s.ending)) :
    Returns Reports (modify f : ActorM τ PUnit) := by
  intro s
  have h := hf s
  simp only [Prod.mk.injEq] at h
  exact .of_sent (h.1 ▸ List.prefix_rfl) h.2.1 h.2.2

theorem connectionError_replies (h : s.goawaySent=false) :
    Succeeds (connectionError c) s fun _ => Replies s := by
  simp only [connectionError,ensures_bind,ensures_get,ensures_ite,h]
  exact ⟨by rintro ⟨⟩,fun _ => (goaway_replies c s).imp fun _ _ h => h.2⟩

theorem resetStream_replies (s : Actor τ) :
    Succeeds (resetStream m sid c) s fun _ => Replies s := by
  simp only [resetStream,emit,hitMeter,goaway,ensures_bind,ensures_modify,ensures_get,
    ensures_ite,ensures_pure]
  have hr : OutFrame.rstStream sid c∈[OutFrame.rstStream sid c] := List.mem_singleton_self _
  refine ⟨fun _ => ⟨_,rfl,_,hr,rfl⟩,fun _ => ⟨fun _ => ?_,fun _ => ?_⟩⟩
  · exact ⟨_,List.append_assoc ..,_,List.mem_append_left _ hr,rfl⟩
  · exact ⟨_,rfl,_,hr,rfl⟩

theorem perform_replies {an : Answer} (h : s.goawaySent=false) (ha : an≠.ignore) :
    Succeeds (an.perform m sid) s fun _ => Replies s := by
  cases an with
  | connectionError c => exact connectionError_replies c h
  | resetStream c => exact resetStream_replies m sid c s
  | ignore => exact absurd rfl ha

theorem finish_reports (h : s.goawaySent=true) :
    Succeeds finish s fun _ => Reports s :=
  ⟨List.prefix_rfl,id,fun hs => .inr ⟨rfl,hs h⟩⟩

end BlackBull.H2
