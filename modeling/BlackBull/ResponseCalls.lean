import BlackBull.SenderSettling

/-!
# Calls of a sender

An event that an application may send next, settled, delivers what the application has sent
then. A call goes part of the way there; a chunk it holds is delivered by whatever comes
next.
-/

namespace BlackBull.H2

open Delivery

/-- The state of a sender that has written all of it. -/
def Application.response : Application → Response
  | .idle => {}
  | .streaming _ expectTrailers _ => {expectTrailers:=expectTrailers}
  | .trailing _ _ => {expectTrailers:=true}
  | .done _ _ trailers => {endStreamSent:=true,expectTrailers:=trailers.isSome}

def Application.delivery (app : Application) : Delivery := ⟨some app.received,app.response⟩

variable {st : Start} {t : Delivery} {p : Bytes} {e : ResponseEvent}

theorem Application.body_of_received (app : Application) {b : Bytes}
    (h : app.received=.streaming st b) : app.body=b := by
  cases app <;> simp_all [Application.received,Application.body]

variable {d : Delivery} {app ap : Application}

@[simp] theorem flushed_delivery (app : Application) : app.delivery.flushed=app.delivery := by
  cases app <;> rfl

theorem flushed_of_start_none (h : d.response.start=none) : d.flushed=d := by rw [flushed,h]

@[simp] theorem flushed_flushed (d : Delivery) : d.flushed.flushed=d.flushed := by
  cases hs : d.response.start with
  | none => rw [flushed_of_start_none hs,flushed_of_start_none hs]
  | some st =>
    rw [flushed_of_start_none]
    rw [flushed,hs]

@[simp] theorem flushed_expectTrailers :
    d.flushed.response.expectTrailers=d.response.expectTrailers := by
  unfold flushed
  split <;> rfl

@[simp] theorem flushed_endStreamSent :
    d.flushed.response.endStreamSent=d.response.endStreamSent := by
  unfold flushed
  split <;> rfl

theorem flushed_start {r : Received} (hs : d.response.start=some st)
    (h : d.flushed.received=some r) : r=.streaming st (d.response.body.getD []) := by
  rw [flushed,hs] at h
  rcases hr : d.received with _ | _ | _ | _ <;> rcases hb : d.response.body with _ | held <;>
    simp_all [write,Received.receive]

theorem eq_of_flushed_idle (h : d.flushed=Application.idle.delivery) :
    d=Application.idle.delivery := by
  rcases hs : d.response.start with _ | a
  · rwa [flushed_of_start_none hs] at h
  · have hr := flushed_start hs (congrArg Delivery.received h)
    simp [Application.received] at hr

theorem settle_begin {et : Bool} (h : d.flushed=app.delivery) (ha : app.begin st et=some ap) :
    (d.settleInstr (.begin st et)).flushed=ap.delivery := by
  cases app with
  | idle =>
    obtain rfl := Option.some.inj ha
    rw [eq_of_flushed_idle h]
    rfl
  | streaming | trailing | done => simp [Application.begin] at ha

theorem settle_content {mb : Bool} (h : d.flushed=app.delivery) (ha : app.content p mb=some ap) :
    (d.settleInstr (.bodyContent p !mb)).flushed=ap.delivery := by
  have he : d.response.expectTrailers=app.response.expectTrailers := by
    rw [← flushed_expectTrailers,h]
    rfl
  rw [settleInstr,he,h]
  cases app with
  | streaming st et body => cases mb <;> cases et <;> (obtain rfl := Option.some.inj ha; rfl)
  | idle | trailing | done => simp [Application.content] at ha

theorem settle_finish {hs : HeaderList} (h : d.flushed=app.delivery)
    (ha : app.finish hs=some ap) : (d.settleInstr (.trailers hs)).flushed=ap.delivery ∧
      (d.settleInstr (.trailersUnlessEnded hs)).flushed=ap.delivery := by
  have he : d.response.endStreamSent=app.response.endStreamSent := by
    rw [← flushed_endStreamSent,h]
    rfl
  rw [settleInstr,settleInstr,he,h]
  cases app with
  | streaming st et body =>
    cases et with
    | true =>
      obtain rfl := Option.some.inj ha
      exact ⟨rfl,rfl⟩
    | false => simp [Application.finish] at ha
  | trailing st body =>
    obtain rfl := Option.some.inj ha
    exact ⟨rfl,rfl⟩
  | idle | done => simp [Application.finish] at ha

/-- A legal event delivers what the application has sent then. -/
theorem settle_accept (h : d.flushed=app.delivery) (ha : app.accept e=some ap) :
    (d.settle e.todo).flushed=ap.delivery := by
  cases e with
  | bytes st body =>
    cases app with
    | idle =>
      obtain rfl := Option.some.inj ha
      rw [eq_of_flushed_idle h]
      rfl
    | streaming | trailing | done => simp [Application.accept] at ha
  | start st tr => exact settle_begin h ha
  | body p mb => exact settle_content h ha
  | trailers hl => exact (settle_finish h ha).1
  | native header body tr =>
    obtain ⟨b,hb,f,hc,hf⟩ : ∃ b,header.elim (some app) (fun a => app.begin a.1 a.2)=some b ∧ ∃ f,
          body.elim (some b) (fun chunk => b.content chunk.1 chunk.2)=some f ∧
          tr.elim (some f) f.finish=some ap := by
      simpa [Application.accept,Option.bind_eq_some_iff] using ha
    rw [ResponseEvent.todo,settle_append,settle_append]
    have hbe : (d.settle (header.map fun a => Instr.begin a.1 a.2).toList).flushed =
        b.delivery := by
      cases header with
      | none => exact h.trans (congrArg _ (Option.some.inj hb))
      | some a => exact settle_begin h hb
    generalize d.settle _=d at hbe ⊢
    have hfi : (d.settle (body.map fun chunk =>
        Instr.bodyContent chunk.1 !chunk.2).toList).flushed=f.delivery := by
      cases body with
      | none => exact hbe.trans (congrArg _ (Option.some.inj hc))
      | some chunk => exact settle_content hbe hc
    generalize d.settle _=d at hfi ⊢
    cases tr with
    | none => exact hfi.trans (congrArg _ (Option.some.inj hf))
    | some hl => exact (settle_finish hfi hf).2

/-- What is held is what a flush was scheduled for, or it is gone. -/
def Response.MayHold (response : Response) (flush : Flush) : Prop :=
  (response.start=some flush.start ∨ response.start=none) ∧
    (response.body=some flush.body ∨ response.body=none)

theorem Response.MayHold.fades {line l : Line} {f : Flush}
    (h : line.response.MayHold f) (fa : line.Fades l) : l.response.MayHold f :=
  ⟨fa.start.elim (fun hs => hs ▸ h.1) .inr,fa.body.elim (fun hb => hb ▸ h.2) .inr⟩

/-- What a call does towards the delivery it settles in. -/
structure Called (received : Option Received) (line : Line) (app : Application) (content : Bytes)
    (target : Delivery) (turn : Turn Line Instr SentFrame) : Prop where
  settles : (((of received turn.state).write turn.output).settle turn.todo).flushed=target
  late : Late turn.todo
  /-- A response that has a body holds nothing new. -/
  fades : app.body≠[] → line.Fades turn.state
  flushes : turn.state.flushes=line.flushes ∨ ∃ flush,
    turn.state.flushes=line.flushes++[flush] ∧ turn.state.response.MayHold flush ∧
      content≠[]

variable {l : Line} {rc : Option Received}

theorem Delivery.Continues.called {td : List Instr} {tu : Turn Line Instr SentFrame}
    (h : Continues rc l td tu) (ht : ((of rc l).settle td).flushed=t)
    (hr : t.received≠none) (app : Application) (c : Bytes) : Called rc l app c t tu where
  settles := by rw [h.settles fun hn => hr (ht ▸ (extends_flushed _).received_none hn),ht]
  late := h.late
  fades _ := h.fades
  flushes := .inl h.fades.flushes

/-- A chunk that is held settles where a chunk that is written settles. -/
theorem settle_held {r : List Instr} (hs : d.response.start=some st)
    (hb : d.response.body=none) (hr : r=[] ∨ ∃ hdrs,r=[.trailersUnlessEnded hdrs]) :
    ((⟨d.received,{d.response with body:=some p}⟩ : Delivery).settle r).flushed =
      (d.settle (.bodyContent p false::r)).flushed := by
  have hw : d.settleInstr (.bodyContent p false) =
      (⟨d.received,{d.response with body:=some p}⟩ : Delivery).flushed := by
    simp [settleInstr,flushed,write,ended,hs,hb]
  rw [settle_cons,hw]
  generalize (⟨d.received,{d.response with body:=some p}⟩ : Delivery)=held
  rcases hr with rfl | ⟨hdrs,rfl⟩
  · simp
  · -- the trailers write what is held first
    simp only [settle_cons,settle_nil,settleInstr,flushed_endStreamSent,flushed_flushed]
    split
    · exact (flushed_flushed held).symm
    · rfl

theorem advance_content {es : Bool} {r : List Instr} (h : (of rc l).flushed =
    app.delivery) (hr : r=[] ∨ ∃ hdrs,r=[.trailersUnlessEnded hdrs]) (ht : ((of rc
    l).settle (.bodyContent p es::r)).flushed=t) (hre : t.received≠none) : Called rc l app p t
      (advance Line.exec l (.bodyContent p es::r)) := by
  have hl : Late r := by rcases hr with rfl | ⟨hdrs,rfl⟩ <;> rfl
  cases hh : l.holds p es with
  | false =>
    have hc : ∀ p' es',Instr.bodyContent p es=.bodyContent p' es' → l.holds p' es'=false := by
      rintro _ _ ⟨⟩
      exact hh
    have hco : Continues rc l (.bodyContent p es::r) (advance Line.exec l (.bodyContent p es::r)) :=
      .cons (exec_reaches _ hc) (l.exec_leaves nofun hc) hl (advance_late hl)
    exact hco.called ht hre app p
  | true =>
    obtain ⟨⟨⟨⟨hs,he⟩,hen⟩,hb⟩,hp,-⟩ := by
      simpa only [Line.holds,Bool.and_eq_true,decide_eq_true_eq] using hh
    obtain ⟨st,hs⟩ := Option.isSome_iff_exists.mp hs
    obtain rfl : es=false := by simpa using hen
    have hb : l.response.body=none := by simpa using hb
    have hexe : l.exec (.bodyContent p false)=.done (l.hold p st) := by
      rw [Line.exec,Line.handleBodyContent,hs]
      exact if_pos hh
    have hhe : ((of rc (l.hold p st)).settle r).flushed=t := (settle_held hs hb hr).trans ht
    rw [advance,hexe]
    dsimp only
    have hco : Continues rc (l.hold p st) r _ := advance_late hl (l.hold p st)
    have hm : (l.hold p st).response.MayHold ⟨p,st,l.response.expectTrailers⟩ := ⟨.inl hs,.inl rfl⟩
    obtain ⟨hse,hl',-,-⟩ := hco.called hhe hre app p
    refine ⟨hse,hl',fun hso => ?_,.inr ⟨_,hco.fades.flushes,?_,?_⟩⟩
    · -- the body is empty as long as the start is held alone
      have hem : app.received=.streaming st (l.response.body.getD []) :=
        flushed_start hs (congrArg Delivery.received h)
      rw [hb] at hem
      exact absurd (app.body_of_received hem) hso
    · exact hm.fades hco.fades
    · exact List.ne_nil_of_length_pos hp

theorem advance_single {i : Instr} (hb : ∀ st e,i≠.begin st e) (hc : ∀ p es,i≠.bodyContent p es) :
    Continues rc l [i] (advance Line.exec l [i]) :=
  have hn : ∀ p es,i=.bodyContent p es → l.holds p es=false := fun p es h => absurd h (hc p es)
  .cons (exec_reaches i hn) (l.exec_leaves hb hn) rfl (advance_late rfl)

theorem advance_native (b : Option (Bytes × Bool)) (tr : Option HeaderList) (h : (of rc
    l).flushed=app.delivery) (ht : ((of rc l).settle ((b.map fun c =>
    Instr.bodyContent c.1 !c.2).toList++(tr.map Instr.trailersUnlessEnded).toList)).flushed =
    t) (hr : t.received≠none) :
    Called rc l app ((b.map Prod.fst).getD []) t (advance Line.exec l
      ((b.map fun c => Instr.bodyContent c.1 !c.2).toList ++
        (tr.map Instr.trailersUnlessEnded).toList)) := by
  cases b with
  | none =>
    have hl : Late (tr.map Instr.trailersUnlessEnded).toList := by cases tr <;> rfl
    exact (advance_late hl l).called ht hr app _
  | some c =>
    refine advance_content h ?_ ht hr
    cases tr with
    | none => exact .inl rfl
    | some hs => exact .inr ⟨hs,rfl⟩

theorem advance_begin {xt : Bool} (b : Option (Bytes × Bool)) (tr : Option
    HeaderList) (h : (of rc l).flushed=app.delivery) (hb : app.begin st xt
    = some ap) (ht : ((of rc l).settle (.begin st xt::((b.map fun c
    => Instr.bodyContent c.1 !c.2).toList++(tr.map Instr.trailersUnlessEnded).toList))).flushed =
    t) (hr : t.received≠none) :
    Called rc l app ((b.map Prod.fst).getD []) t (advance Line.exec l (.begin st xt ::
        ((b.map fun c => Instr.bodyContent c.1 !c.2).toList ++
          (tr.map Instr.trailersUnlessEnded).toList))) := by
  have hi : app=.idle := by cases app <;> simp_all [Application.begin]
  have hn : (of rc (l.setResponse fun r =>
      {r with start:=some st,expectTrailers:=xt})).flushed = ap.delivery := settle_begin h hb
  obtain ⟨hs,hl,-,hf⟩ := advance_native b tr hn ht hr
  exact ⟨hs,hl,fun hso => absurd (by rw [hi]; rfl) hso,hf⟩

theorem call_eq (h : (of rc l).flushed=app.delivery)
    (ha : app.accept e=some ap) : l.call e=advance Line.exec l e.todo := by
  rw [Line.call]
  split
  case isFalse => rfl
  case isTrue he =>
    have hap : app.response.endStreamSent=true := by
      have hs := congrArg (fun d : Delivery => d.response.endStreamSent) h
      rw [flushed_endStreamSent] at hs
      exact hs.symm.trans he
    cases app with
    | done st body tr =>
      cases e with
      | native header chunk last =>
        cases header <;> cases chunk <;> cases last <;>
          simp [Application.accept,Application.begin,Application.content,Application.finish] at ha
        rfl
      | bytes | start | body | trailers =>
        simp [Application.accept,Application.begin,Application.content,Application.finish] at ha
    | idle | streaming | trailing => simp [Application.response] at hap

/-- A legal event: the call goes part of the way to what the application has sent then. -/
theorem call_called (h : (of rc l).flushed=app.delivery) (ha : app.accept e=some ap) :
    Called rc l app e.content ap.delivery (l.call e) := by
  have ht := settle_accept h ha
  have hr : ap.delivery.received≠none := Option.some_ne_none _
  rw [call_eq h ha]
  cases e with
  | bytes st body =>
    exact (advance_single (i := .wholeResponse st body) nofun nofun).called ht hr app _
  | start st tr => exact advance_begin none none h ha ht hr
  | body p mb => exact advance_content h (.inl rfl) ht hr
  | trailers hl => exact (advance_single (i := .trailers hl) nofun nofun).called ht hr app _
  | native header body tr =>
    cases header with
    | none => exact advance_native body tr h ht hr
    | some a =>
      obtain ⟨b,hb,-⟩ := Option.bind_eq_some_iff.mp ha
      exact advance_begin body tr h hb ht hr

end BlackBull.H2
