import BlackBull.KeepAliveBoundary
import BlackBull.MessageDecoding

/-!
# Bodies that are refused

The octets the handler gets stay within the cap, and once a read has failed for the size, the rate
or the framing of the body, the connection is neither drained nor reused. A framing failure does not
end the body for `next_chunk`, and a drain that is refused for its rate passes for done.
-/

namespace BlackBull

open ByteString

namespace HTTP1Recipient

theorem hexSize_toDigits (n : ℕ) : HexSize (toDigits 16 n) n := by
  exact ⟨toDigits_ne_nil 16 n,fun _ => isHexDigit_of_mem_toDigits,
    ofDigits_toDigits (by decide) (by decide) n⟩

theorem exists_atBoundary {s : HTTP1Recipient} (hd : s.done=false) :
    ∃ stream fr,AtBoundary stream fr s := by
  cases hc : s.chunked with
  | false =>
    cases hl : s.contentLength with
    | none => exact ⟨s.reader.stream,.empty,[],rfl,hc,hl,rfl⟩
    | some n =>
      refine ⟨s.reader.stream,.sized n,[],rfl,hc,n,hl,Nat.zero_add n,?_⟩
      simp [hd]
  | true =>
    obtain ⟨wire,hw⟩ : ∃ wire,ChunkPosition lineGrammar s.chunkRemaining wire := by
      by_cases hz : s.chunkRemaining=0
      · exact ⟨[],hz ▸ .start⟩
      · have hli : SizeLine lineGrammar s.chunkRemaining (toDigits 16 s.chunkRemaining++[]++crlf) :=
          .intro _ _ (hexSize_toDigits _) ⟨by simp,.inl rfl⟩
        exact ⟨_,ChunkPosition.start.sizeLine hli hz⟩
    exact ⟨wire++s.reader.stream,.chunked,wire,rfl,hc,by simpa [hd] using hw⟩

theorem nextChunk_abandons {s : HTTP1Recipient} (hm : 0<s.settings.chunkMax) :
    Ensures nextChunk s (fun _ t => t.mustClose=s.mustClose) (Abandons s) := by
  by_cases hd : s.done=true
  · exact .of_ok (nextChunk_of_done hd) rfl
  · obtain ⟨st,fr,hb⟩ := exists_atBoundary (Bool.eq_false_of_not_eq_true hd)
    exact (nextChunk_ensures hm hb).imp fun _ _ h => h.2.1

def Counted (s : HTTP1Recipient) (out : Option Bytes) (t : HTTP1Recipient) : Prop :=
  ∀ chunk∈out,s.bodySeen+chunk.length≤t.bodySeen ∧
    (s.settings.maxBody≠0 → t.bodySeen ≤ s.settings.maxBody)

theorem account_counted {s t : HTTP1Recipient} (h : Evolves s t) (c : Bytes) :
    OnSuccess (account c) t fun out => Counted s (some out) := by
  refine (account_ensures t c).partly ?_
  rintro out u ⟨rfl,ha⟩ _ ⟨⟩
  have hs := ha.bodySeen
  have hc := ha.capped
  rw [h.settings] at hc
  exact ⟨by have := h.bodySeen; omega,hc⟩

variable (s : HTTP1Recipient)

theorem finish_counted (t : HTTP1Recipient) : OnSuccess finish t (Counted s) := nofun

theorem nextChunked_counted : OnSuccess nextChunked s (Counted s) := by
  have hs {t : HTTP1Recipient} (h : Evolves s t) :
      OnSuccess (some <$> (readChunkSlice >>= account)) t (Counted s) := by
    simp only [ensures_map,ensures_bind]
    exact (moves_readChunkSlice t).partly
      fun c _ h' => account_counted (trans_of Evolves h h') c
  simp only [nextChunked,ensures_bind,ensures_get,ensures_ite,ensures_modify]
  refine ⟨fun _ => hs (refl_of Evolves s),fun _ => ?_⟩
  refine (moves_readChunkLine s).partly fun line t h => ?_
  refine (moves_parseChunkSizeOr400 line t).partly fun size u h' => ⟨fun _ => ?_,fun _ => ?_⟩
  · exact (moves_readTrailers _ u).partly fun _ v _ => finish_counted s v
  · have hu := trans_of Evolves h h'
    exact hs {hu with}

theorem nextSized_counted : OnSuccess nextSized s (Counted s) := by
  simp only [nextSized,ensures_bind,ensures_get,ensures_ite,ensures_modify,ensures_map,
    ensures_throw]
  refine ⟨fun _ => ?_,fun _ => finish_counted s s⟩
  refine (moves_readWithTimeout (Reader.consumes_read _) s).partly fun body t h => ?_
  refine ⟨fun _ => trivial,fun _ => account_counted (trans_of Evolves h ?_) body⟩
  exact ⟨rfl,List.suffix_rfl,le_rfl,id,id⟩

theorem nextChunk_counted : OnSuccess nextChunk s (Counted s) := by
  have hs (e : RecipientError) (t : HTTP1Recipient) :
      OnSuccess (surfaceReadError e) t (Counted s) := by
    cases e <;> trivial
  simp only [nextChunk,ensures_bind,ensures_get,ensures_ite,ensures_tryCatch,ensures_pure]
  refine ⟨fun _ c hc => absurd hc (by simp),fun _ => ⟨fun _ => ?_,fun _ => ?_⟩⟩
  · exact (nextChunked_counted s).mono (fun _ _ => id) fun e t _ => hs e t
  · exact (nextSized_counted s).mono (fun _ _ => id) fun e t _ => hs e t

end HTTP1Recipient

namespace KeepAlive

open HTTP1Recipient

/-- An exchange with what its application and its connection have seen of the body. -/
structure Watched where
  exchange : Exchange
  /-- The body octets the application has been given, on either channel. -/
  delivered : Bytes := []
  /-- Whether a read has failed for the size, the rate or the framing of the body. -/
  failed : Bool := false
  /-- The octets among them that were given after such a failure. -/
  late : Bytes := []

def octets : ReceiveEvent → Bytes
  | .request body _ => body
  | .disconnect => []

def isHttpException : RecipientError → Bool
  | .httpException _ => true
  | _ => false

/-- The octets of a call, and whether it fails: with an error response, or silently where the
body comes too slowly. -/
def observe {α : Type} (given : α → Bytes) :
    EStateM.Result RecipientError HTTP1Recipient α → Bytes × Bool
  | .ok out t => (given out,t.bodyRefused)
  | .error e t => ([],isHttpException e || t.bodyRefused)

def observeStep (x : Exchange) (a : Action) : Bytes × Bool :=
  match x.phase,a with
  | .serving,.nextChunk waits =>
    observe (·.getD []) (HTTP1Recipient.nextChunk (entering x.recipient waits))
  | .serving,.receive waits =>
    observe octets (HTTP1Recipient.receive (entering x.recipient waits))
  | .draining _,.drainRound waits => ([],(step x (.drainRound waits)).recipient.bodyRefused)
  | _,_ => ([],false)

def watch (w : Watched) (a : Action) : Watched :=
  let call := observeStep w.exchange a
  { exchange:=step w.exchange a
    delivered:=w.delivered++call.1
    failed:=w.failed || call.2
    late:=if w.failed then w.late++call.1 else w.late}

/-- The handler does not read on once the framing is broken, and no drain is refused for its
rate. -/
def Careful (w : Watched) : Action → Prop
  | .nextChunk _ => w.exchange.recipient.framingBroken=false
  | .receive _ => w.exchange.recipient.framingBroken=false
  | .drainRound waits => KeepsRate w.exchange.recipient waits
  | _ => True

/-- The two channels read the body alike. -/
theorem receive_nextChunk (s : HTTP1Recipient) :
    observe octets (HTTP1Recipient.receive s)=observe (·.getD []) (HTTP1Recipient.nextChunk s) ∧
      leaving HTTP1Recipient.receive s=leaving HTTP1Recipient.nextChunk s := by
  by_cases hd : s.done=true
  · have hr : HTTP1Recipient.receive s=.ok .disconnect s := by
      simp [HTTP1Recipient.receive,Bind.bind,EStateM.bind,get,getThe,MonadStateOf.get,
        EStateM.get,hd,pure,EStateM.pure]
    simp [hr,nextChunk_of_done hd,leaving,observe,octets]
  · rcases hx : HTTP1Recipient.nextChunk s with ⟨_ | _,t⟩ | ⟨_ | _ | _ | _,t⟩
    all_goals simp [HTTP1Recipient.receive,Bind.bind,EStateM.bind,get,getThe,
        MonadStateOf.get,EStateM.get,hd,pure,EStateM.pure,tryCatch,tryCatchThe,
        MonadExceptOf.tryCatch,EStateM.tryCatch,hx,leaving,observe,octets,
        isHttpException,throw,throwThe,MonadExceptOf.throw,EStateM.throw,
        EStateM.Backtrackable.restore]

variable {s : HTTP1Recipient} {mb : ℕ} {fl : Bool} (w : Watched)

theorem watch_receive (wa : Waits) : watch w (.receive wa)=watch w (.nextChunk wa) := by
  obtain ⟨⟨p,s⟩,d,fl,late⟩ := w
  cases p with
  | serving =>
    obtain ⟨ho,hl⟩ := receive_nextChunk (entering s wa)
    simp only [watch,observeStep,step,ho,hl]
  | _ => rfl

section Reads

variable {s t : HTTP1Recipient} {dl lt : Bytes} {fl : Bool} {wt : Waits}

theorem watch_of_ok {out : Option Bytes} (hx : HTTP1Recipient.nextChunk (entering s wt)=.ok out t) :
    watch ⟨⟨.serving,s⟩,dl,fl,lt⟩ (.nextChunk wt) =
      ⟨⟨.serving,t⟩,dl++out.getD [],fl || t.bodyRefused,
        if fl then lt++out.getD [] else lt⟩ := by
  simp only [watch,observeStep,step,leaving,hx,observe]

theorem watch_of_error {e : RecipientError}
    (hx : HTTP1Recipient.nextChunk (entering s wt)=.error e t) :
    watch ⟨⟨.serving,s⟩,dl,fl,lt⟩ (.nextChunk wt) =
      ⟨⟨.serving,t⟩,dl,fl || (isHttpException e || t.bodyRefused),lt⟩ := by
  simp [watch,observeStep,step,leaving,hx,observe]

end Reads

/-- What has been delivered is counted, and within the cap. -/
structure Capped (maxBody : ℕ) (w : Watched) : Prop where
  settings : w.exchange.recipient.settings.maxBody=maxBody
  counted : w.delivered.length≤w.exchange.recipient.bodySeen
  capped : maxBody≠0 → w.delivered.length ≤ maxBody

theorem Capped.evolve {w w' : Watched} (h : Capped mb w) (hw : w'.delivered=w.delivered)
    (hx : Evolves w.exchange.recipient w'.exchange.recipient) : Capped mb w' where
  settings := by rw [hx.settings,h.settings]
  counted := hw ▸ h.counted.trans hx.bodySeen
  capped := hw ▸ h.capped

theorem evolves_entering (s : HTTP1Recipient) (wa : Waits) : Evolves s (entering s wa) :=
  ⟨rfl,List.suffix_rfl,le_rfl,id,id⟩

theorem evolves_drainRound (d : ℕ) (s : HTTP1Recipient) : Evolves s (drainRound d s).recipient := by
  unfold drainRound
  split_ifs
  · exact refl_of Evolves s
  · have hc := moves_nextChunk s
    cases hx : HTTP1Recipient.nextChunk s with
    | ok out t =>
      cases out with
      | none => exact hc.ok hx
      | some c =>
        dsimp only
        split_ifs <;> exact hc.ok hx
    | error e t =>
      have h := hc.error hx
      cases e with
      | httpException ex => exact {h with bodyRefused:=fun _ => rfl}
      | _ => exact h

theorem answered_recipient (s : HTTP1Recipient) : (answered s).recipient=s := by
  unfold answered
  split <;> rfl

theorem capped_nextChunk {d late : Bytes} (h : Capped mb ⟨⟨.serving,s⟩,d,fl,late⟩) (wa : Waits) :
    Capped mb (watch ⟨⟨.serving,s⟩,d,fl,late⟩ (.nextChunk wa)) := by
  have hc := (moves_nextChunk (entering s wa)).and (nextChunk_counted (entering s wa))
  cases hx : HTTP1Recipient.nextChunk (entering s wa) with
  | error e t =>
    rw [watch_of_error hx]
    exact h.evolve rfl (trans_of Evolves (evolves_entering s wa) (hc.error hx).1)
  | ok out t =>
    rw [watch_of_ok hx]
    obtain ⟨hev,hco⟩ := hc.ok hx
    cases out with
    | none => exact h.evolve (List.append_nil _) (trans_of Evolves (evolves_entering s wa) hev)
    | some c =>
      obtain ⟨hs,hca⟩ := hco c rfl
      have hm : s.settings.maxBody=mb := h.settings
      have hd : (d++c).length≤t.bodySeen := by
        have hb : d.length ≤ s.bodySeen := h.counted
        have he : (entering s wa).bodySeen=s.bodySeen := rfl
        rw [List.length_append]
        omega
      exact ⟨by rw [← hm]; exact congrArg _ hev.settings,hd,
        fun hne => hd.trans (hm ▸ hca (hm ▸ hne))⟩

theorem capped_watch (a : Action) (h : Capped mb w) : Capped mb (watch w a) := by
  obtain ⟨⟨p,s⟩,de,fl,late⟩ := w
  have hr (waits : Waits) : Capped mb (watch ⟨⟨p,s⟩,de,fl,late⟩ (.nextChunk waits)) := by
    cases p with
    | serving => exact capped_nextChunk h waits
    | _ => exact h.evolve (by simp [watch,observeStep]) (refl_of Evolves s)
  cases a with
  | arrive =>
    refine h.evolve (by simp [watch,observeStep]) ?_
    cases p with
    | reused => exact refl_of Evolves s
    | closed => exact refl_of Evolves s
    | _ => exact ⟨rfl,by simp [watch,step,HTTP1Recipient.arrive],le_rfl,id,id⟩
  | nextChunk waits => exact hr waits
  | receive waits => exact watch_receive _ waits ▸ hr waits
  | answered =>
    refine h.evolve (by simp [watch,observeStep]) ?_
    cases p with
    | serving =>
      change Evolves s (answered s).recipient
      rw [answered_recipient]
      exact refl_of Evolves s
    | _ => exact refl_of Evolves s
  | drainRound waits =>
    cases p with
    | draining d =>
      exact h.evolve (by simp [watch,observeStep])
        (trans_of Evolves (evolves_entering s waits) (evolves_drainRound d _))
    | _ => exact h.evolve (by simp [watch,observeStep]) (refl_of Evolves s)

/-- A failed body is neither drained nor left for a next request, and it is over for the reads
of a handler that keeps to sound framing. -/
def Firm (failed : Bool) (x : Exchange) : Prop :=
  match x.phase with
  | .serving => 0<x.recipient.settings.chunkMax ∧
      (failed=false → x.recipient.bodyRefused=false) ∧
      (failed=true → x.recipient.framingBroken=true ∨
        x.recipient.bodyRefused=true ∧ x.recipient.done=true)
  | .draining _ => 0<x.recipient.settings.chunkMax ∧ failed=false ∧
      x.recipient.mustClose=false
  | .reused => failed=false
  | .closed => True

theorem firm_answered (h : Firm fl ⟨.serving,s⟩) : Firm fl (answered s) := by
  obtain ⟨hm,-,hf⟩ := h
  have ho (hc : s.mustClose=false) : fl=false := by
    obtain ⟨hfr,hr⟩ := Bool.or_eq_false_iff.mp hc
    by_contra hne
    obtain hb | ⟨hb,-⟩ := hf (Bool.eq_true_of_not_eq_false hne)
    · exact absurd (hfr.symm.trans hb) (by decide)
    · exact absurd (hr.symm.trans hb) (by decide)
  unfold answered afterDispatch
  split_ifs with hc
  · trivial
  · exact ⟨hm,ho (by simpa [mustClose] using hc),by simpa [mustClose] using hc⟩
  · exact ho (by simpa [mustClose] using hc)

theorem firm_drainRound {d : ℕ} {wa : Waits} (h : Firm false ⟨.draining d,s⟩)
    (hr : KeepsRate s wa) : Firm (drainRound d (entering s wa)).recipient.bodyRefused
      (drainRound d (entering s wa)) := by
  obtain ⟨hm,-,hc⟩ := h
  obtain ⟨-,hre⟩ := Bool.or_eq_false_iff.mp hc
  have hca := (moves_nextChunk (entering s wa)).and (nextChunk_abandons (s := entering s wa) hm)
  unfold drainRound
  split_ifs
  · exact hre
  cases hx : HTTP1Recipient.nextChunk (entering s wa) with
  | ok out t =>
    obtain ⟨hev,hk⟩ := hca.ok hx
    have hc' : t.mustClose=false := hk.trans hc
    obtain ⟨-,hr'⟩ := Bool.or_eq_false_iff.mp hc'
    cases out with
    | none => exact hr'
    | some c =>
      dsimp only
      split_ifs
      · trivial
      · exact ⟨hev.settings ▸ hm,hr',hc'⟩
  | error e t =>
    obtain ⟨-,⟨⟨ex,rfl⟩,-⟩ | ⟨rfl,-,⟨-,hk⟩ | ⟨-,k,hl⟩⟩⟩ := hca.error hx
    · trivial
    · exact hk.trans hre
    · exact absurd hl (hr k)

structure Final (w : Watched) : Prop where
  late : w.late=[]
  firm : Firm w.failed w.exchange

theorem final_nextChunk {d late : Bytes} {wa : Waits}
    (h : Final ⟨⟨.serving,s⟩,d,fl,late⟩) (hc : s.framingBroken=false) :
    Final (watch ⟨⟨.serving,s⟩,d,fl,late⟩ (.nextChunk wa)) := by
  obtain ⟨hl,hm,ho,hf⟩ := h
  cases fl with
  | true =>
    -- The body was refused, so the call finds it over.
    have hd : s.bodyRefused=true ∧ s.done=true := (hf rfl).resolve_left (by simp [hc])
    rw [watch_of_ok (nextChunk_of_done (s := entering s wa) hd.2)]
    exact ⟨by simpa using hl,hm,by simp,fun _ => .inr hd⟩
  | false =>
    have hcl : s.mustClose=false := by simpa [HTTP1Recipient.mustClose,hc] using ho rfl
    have hca := (moves_nextChunk (entering s wa)).and (nextChunk_abandons (s := entering s wa) hm)
    cases hx : HTTP1Recipient.nextChunk (entering s wa) with
    | ok out t =>
      rw [watch_of_ok hx]
      obtain ⟨hev,hk⟩ := hca.ok hx
      have hr : t.bodyRefused=false := (Bool.or_eq_false_iff.mp (hk.trans hcl)).2
      exact ⟨hl,hev.settings ▸ hm,fun _ => hr,by simp [hr]⟩
    | error e t =>
      rw [watch_of_error hx]
      obtain ⟨hev,⟨⟨ex,rfl⟩,hb⟩ | ⟨rfl,hd,-⟩⟩ := hca.error hx
      · exact ⟨hl,hev.settings ▸ hm,by simp [isHttpException],fun _ => hb⟩
      · exact ⟨hl,hev.settings ▸ hm,by simp [isHttpException],
          fun hfa => .inr ⟨by simpa [isHttpException] using hfa,hd⟩⟩

theorem final_watch (a : Action) (h : Final w) (ha : Careful w a) : Final (watch w a) := by
  have hq (hc : observeStep w.exchange a=([],false))
      (hf : Firm w.failed (step w.exchange a)) : Final (watch w a) :=
    ⟨by simp [watch,hc,h.late],by simpa [watch,hc] using hf⟩
  obtain ⟨⟨p,s⟩,de,fl,late⟩ := w
  have hf := h.firm
  cases a with
  | arrive =>
    refine hq (by simp [observeStep]) ?_
    cases p <;> exact hf
  | nextChunk waits =>
    cases p with
    | serving => exact final_nextChunk h ha
    | _ => exact hq rfl hf
  | receive waits =>
    cases p with
    | serving => exact watch_receive _ waits ▸ final_nextChunk h ha
    | _ => exact hq rfl hf
  | answered =>
    cases p with
    | serving => exact hq rfl (firm_answered hf)
    | _ => exact hq rfl hf
  | drainRound waits =>
    cases p with
    | draining d =>
      obtain rfl : fl=false := hf.2.1
      exact ⟨h.late,firm_drainRound hf ha⟩
    | _ => exact hq rfl hf

theorem Firm.phase {x : Exchange} (h : Firm true x) : x.phase=.serving ∨ x.phase=.closed := by
  obtain ⟨p,s⟩ := x
  cases p with
  | serving => exact .inl rfl
  | draining d => exact absurd h.2.1 (by decide)
  | reused => exact absurd h (by simp [Firm])
  | closed => exact .inr rfl

def beginning (s : HTTP1Recipient) : Watched := {exchange:=⟨.serving,s⟩}

theorem bind_bodyRefused {cfg : RecipientSettings} {r : Reader} {hs : Headers}
    (h : HTTP1Recipient.bind cfg r hs=.ok s) : s.bodyRefused=false := by
  unfold HTTP1Recipient.bind at h
  dsimp only at h
  split_ifs at h
  cases hl : declaredLength (hs.get (ascii "content-length") []) with
  | error e => simp [hl,Except.map] at h
  | ok n =>
    simp only [hl,Except.map,Except.ok.injEq] at h
    rw [← h]

/-- The body octets given to the application stay within the cap. In a run whose handler reads
only while the framing is sound and whose drains keep the rate, a body that has failed is
final: nothing more of it is delivered, and the connection is neither drained nor reused. -/
theorem failed_body_final {settings : RecipientSettings} {reader : Reader} {headers : Headers}
    {s : HTTP1Recipient} {actions : List Action}
    (hbind : HTTP1Recipient.bind settings reader headers=.ok s) :
    (settings.maxBody≠0 →
      (run watch (beginning s) actions).delivered.length ≤ settings.maxBody) ∧
    (Along watch Careful (beginning s) actions →
      (run watch (beginning s) actions).late=[] ∧
      ((run watch (beginning s) actions).failed=true →
        (run watch (beginning s) actions).exchange.phase=.serving ∨
        (run watch (beginning s) actions).exchange.phase=.closed)) := by
  obtain ⟨-,hs,-⟩ := bind_eq_ok hbind
  refine ⟨fun hm => ?_,fun hr => ?_⟩
  · have hst : Capped settings.maxBody (beginning s) :=
      ⟨by rw [beginning,hs],Nat.zero_le _,fun _ => Nat.zero_le _⟩
    have ha : Along watch (fun _ _ => True) (beginning s) actions :=
      along_of_forall _ fun _ _ _ => trivial
    exact (ha.invariant (fun w a h _ => capped_watch w a h) hst).capped hm
  · have hst : Final (beginning s) :=
      ⟨rfl,(bind_settled hbind).1,fun _ => bind_bodyRefused hbind,nofun⟩
    have hf := hr.invariant final_watch hst
    exact ⟨hf.late,fun hfa => (hfa ▸ hf.firm : Firm true _).phase⟩

/-- A chunk whose data runs on where its line break should be, and a sound chunk after it. -/
def overlongChunk : Reader :=
  ⟨[],.arrival ⟨ascii "2\r\nabXX3\r\nxyz\r\n0\r\n\r\n",by decide⟩ .hangup,none⟩

def chunkedHeaders : Headers := Headers.fromLowered [(ascii "transfer-encoding",ascii "chunked")]

theorem failed_body_final_overlong :
    ∃ s,HTTP1Recipient.bind {} overlongChunk chunkedHeaders=.ok s ∧
      (run watch (beginning s) [.nextChunk {},.answered]).failed=true ∧
      (run watch (beginning s) [.nextChunk {},.answered]).late=[] ∧
      (run watch (beginning s) [.nextChunk {},.answered]).exchange.phase=.closed := by
  have hb : HTTP1Recipient.bind {} overlongChunk chunkedHeaders=.ok _ := rfl
  have hf := (@failed_body_final _ _ _ _ [.nextChunk {},.answered] hb).2 ⟨rfl,trivial,trivial⟩
  exact ⟨_,hb,by decide +kernel,hf.1,by decide +kernel⟩

/-- A handler that reads on after the framing error gets octets of the broken body, and a
connection whose drain is refused for its rate is reused. -/
theorem failed_body_not_final :
    (∃ s,HTTP1Recipient.bind {} overlongChunk chunkedHeaders=.ok s ∧
      (run watch (beginning s) [.nextChunk {},.nextChunk {}]).late=ascii "xyz") ∧
    ∃ s,HTTP1Recipient.bind {bodyTimeout:=30} twoSegments fiveOctets=.ok s ∧
      (run watch (beginning s) [.answered,.drainRound {elapsed:=[10]}]).failed=true ∧
      (run watch (beginning s) [.answered,.drainRound {elapsed:=[10]}]).exchange.phase =
        .reused := by
  exact ⟨⟨_,rfl,by decide +kernel⟩,_,rfl,by decide +kernel,by decide +kernel⟩

end KeepAlive
end BlackBull
