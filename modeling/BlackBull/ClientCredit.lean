import BlackBull.FrameLoading
import BlackBull.OrderedDict
import BlackBull.TransitionRuns

/-!
# The credit an HTTP/2 client returns for DATA

`HTTP2Client` counts the octets of every DATA frame that it hands on or drops, and returns them with
WINDOW_UPDATE once enough are held. It counts the payload without padding, and leaves the frames of
a raw stream to whoever registered it.
-/

namespace BlackBull.H2Client

open ByteString H2

def windowUpdateThreshold : ℕ := 32768

/-- `_PendingResponse`, as far as DATA goes. -/
structure PendingResponse where
  bodyParts : List Bytes := []
  unacked : ℕ := 0

structure Client where
  responses : Dict ℕ PendingResponse := []
  /-- The registered streams with their queues. -/
  rawStreams : Dict ℕ (List RawFrame) := []
  unackedConn : ℕ := 0
  /-- The increments of the WINDOW_UPDATE frames sent on streams and on the connection. -/
  streamUpdates : List (ℕ × ℕ) := []
  connectionUpdates : List ℕ := []
  completed : List (ℕ × Bytes) := []
  connectionLost : Bool := false
  /-- The lengths of the DATA frames received, as flow control counts them. -/
  received : ℕ := 0

def creditConnection (s : Client) (n : ℕ) : Client :=
  if n=0 then s
  else if windowUpdateThreshold ≤ s.unackedConn+n then
    {s with connectionUpdates:=s.connectionUpdates++[s.unackedConn+n],unackedConn:=0}
  else {s with unackedConn:=s.unackedConn+n}

/-- A stream that is about to close needs no credit of its own. -/
def creditReceived (s : Client) (streamId : ℕ) (pending : PendingResponse) (n : ℕ)
    (endStream : Bool) : Client :=
  let unacked := pending.unacked+n
  creditConnection (if !endStream && windowUpdateThreshold≤unacked then
      {s with
        streamUpdates:=s.streamUpdates++[(streamId,unacked)]
        responses:=s.responses.set streamId {pending with unacked:=0}}
    else {s with responses:=s.responses.set streamId {pending with unacked}}) n

def complete (s : Client) (streamId : ℕ) : Client :=
  match s.responses.get? streamId with
  | none => s
  | some pending => {s with
      responses:=s.responses.pop streamId
      completed:=s.completed++[(streamId,pending.bodyParts.flatten)]}

def onResponseData (s : Client) (streamId : ℕ) (endStream : Bool) (payload : Bytes) : Client :=
  match s.responses.get? streamId with
  | none => creditConnection s payload.length
  | some pending =>
    let pending := {pending with bodyParts:=pending.bodyParts++[payload]}
    let s := {s with responses:=s.responses.set streamId pending}
    let s := if payload≠[] then creditReceived s streamId pending payload.length endStream else s
    if endStream then complete s streamId else s

/-- A turn of `_receive_loop` on a DATA frame: what the loader raises ends the loop. -/
def receiveData (s : Client) (raw : RawFrame) : Client :=
  if s.connectionLost then s
  else
    let s := {s with received:=s.received+raw.payload.length}
    match dataPayload raw with
    | .error _ => {s with connectionLost:=true,responses:=[]}
    | .ok payload =>
      match s.rawStreams.get? raw.streamId with
      | some queue => {s with rawStreams:=s.rawStreams.set raw.streamId (queue++[raw])}
      | none => onResponseData s raw.streamId raw.endStream payload

/-- Besides DATA: requests are sent, responses end with their headers or fail, and streams are
registered. -/
inductive Action where
  | data (raw : RawFrame)
  | request (streamId : ℕ)
  | finish (streamId : ℕ)
  | registerRaw (streamId : ℕ)
  | unregisterRaw (streamId : ℕ)

def step (s : Client) : Action → Client
  | .data raw => receiveData s raw
  | .request streamId => {s with
      responses:=if s.connectionLost then s.responses else s.responses.set streamId {}}
  | .finish streamId => {s with responses:=s.responses.pop streamId}
  | .registerRaw streamId => {s with
      rawStreams:=if (s.rawStreams.get? streamId).isSome then s.rawStreams
        else s.rawStreams.set streamId []}
  | .unregisterRaw streamId => {s with rawStreams:=s.rawStreams.pop streamId}

/-- The credit returned and the credit held. -/
def Client.credit (s : Client) : ℕ := s.connectionUpdates.sum+s.unackedConn

def Client.Held (s : Client) : Prop := s.unackedConn<windowUpdateThreshold

structure Client.Balanced (s : Client) : Prop where
  credit : s.credit=s.received
  held : s.Held

/-- Empty frames apart, the frame is not padded and its stream is not registered. -/
def Plain (s : Client) : Action → Prop
  | .data raw => s.connectionLost=true ∨ raw.payload=[] ∨
      raw.padded=false ∧ s.rawStreams.get? raw.streamId=none
  | _ => True

/-- What returning the credit of `n` octets does to the books. -/
structure Credits (n : ℕ) (s t : Client) : Prop where
  credit : t.credit=s.credit+n
  received : t.received=s.received
  held : s.Held → t.Held

variable {s : Client} {raw : RawFrame}

theorem credits_creditConnection (s : Client) (n : ℕ) : Credits n s (creditConnection s n) := by
  unfold creditConnection
  split_ifs with hn ht
  · exact ⟨hn.symm ▸ rfl,rfl,id⟩
  · refine ⟨?_,rfl,fun _ => Nat.zero_lt_succ _⟩
    simp [Client.credit,Nat.add_assoc]
  · exact ⟨(Nat.add_assoc ..).symm,rfl,fun _ => not_le.mp ht⟩

theorem credits_onResponseData (s : Client) (sid : ℕ) (es : Bool) (p : Bytes) :
    Credits p.length s (onResponseData s sid es p) := by
  have hc (t : Client) : Credits 0 t (complete t sid) := by
    unfold complete
    split <;> exact ⟨rfl,rfl,id⟩
  unfold onResponseData
  split
  · exact credits_creditConnection s _
  · next pd _ =>
    dsimp only
    generalize hu : (if p≠[] then _ else _ : Client)=u
    have hs : Credits p.length s u := by
      rw [← hu]
      split_ifs with hp
      · unfold creditReceived
        dsimp only
        have hk (v : Client) := credits_creditConnection v p.length
        split_ifs <;> exact ⟨(hk _).credit,(hk _).received,fun h => (hk _).held h⟩
      · rw [not_not.mp hp]
        exact ⟨rfl,rfl,id⟩
    split_ifs
    · exact ⟨(hc u).credit.trans hs.credit,(hc u).received.trans hs.received,
        fun h => (hc u).held (hs.held h)⟩
    · exact hs

theorem length_dataPayload {p : Bytes} (h : dataPayload raw=.ok p) :
    p.length=raw.payload.length ↔ raw.padded=false := by
  simp only [dataPayload] at h
  split_ifs at h with hp hl
  · cases h
    simp only [hp,List.length_take,List.length_drop,Bool.true_eq_false,iff_false]
    omega
  · cases h
    simp [hp]

theorem held_step (s : Client) (a : Action) (h : s.Held) : (step s a).Held := by
  cases a with
  | data raw =>
    unfold step receiveData
    split_ifs
    · exact h
    · dsimp only
      split
      · exact h
      · split
        · exact h
        · exact (credits_onResponseData _ _ _ _).held h
  | _ => exact h

theorem plain_iff (a : Action) (h : s.Balanced) : Plain s a ↔ (step s a).Balanced := by
  have hb : (step s a).Balanced ↔ (step s a).credit=(step s a).received :=
    ⟨(·.credit),fun hc => ⟨hc,held_step s a h.held⟩⟩
  rw [hb]
  cases a with
  | data raw =>
    have hn : s.credit=s.received+raw.payload.length ↔ raw.payload=[] := by
      rw [h.credit,Nat.left_eq_add,List.length_eq_zero_iff]
    change (_ ∨ _) ↔ (receiveData s raw).credit=(receiveData s raw).received
    unfold receiveData
    split_ifs with hl
    · exact iff_of_true (.inl hl) h.credit
    · rw [or_iff_right hl]
      dsimp only
      cases hp : dataPayload raw with
      | error e =>
        have hd : raw.padded=true := by
          by_contra hd
          simp [dataPayload,hd] at hp
        exact (or_iff_left fun hx => by simp [hd] at hx).trans hn.symm
      | ok p =>
        cases hr : s.rawStreams.get? raw.streamId with
        | some q => exact (or_iff_left fun hx => by simp at hx).trans hn.symm
        | none =>
          have hc := credits_onResponseData
            {s with received:=s.received+raw.payload.length} raw.streamId raw.endStream p
          dsimp only
          rw [hc.credit,hc.received]
          have he : raw.payload=[] → raw.padded=false := fun he => by
            by_contra hd
            simp [dataPayload,Bool.not_eq_false _ ▸ hd,he] at hp
          have hs : s.credit+p.length=s.received+raw.payload.length ↔ raw.padded=false := by
            rw [h.credit,Nat.add_left_cancel_iff,length_dataPayload hp]
          exact (or_iff_right_of_imp fun h => ⟨he h,rfl⟩).trans ((and_iff_left rfl).trans hs.symm)
  | _ => exact iff_of_true trivial h.credit

/-- All along a run the credit returned and held is what the DATA frames took, exactly if no frame
is padded and none goes to a registered stream. -/
theorem client_credit_balanced_iff (actions : List Action) :
    (∀ n,(run step {} (actions.take n)).Balanced) ↔ Along step Plain {} actions :=
  have hz : Client.Held {} := Nat.zero_lt_succ _
  always_iff_along held_step (fun _ a _ h => plain_iff a h) hz ⟨rfl,hz⟩

/-- Of a padded frame of three octets one is credited. -/
theorem padding_not_credited : (run step {} [.data ⟨0,8,1,[1,65,0]⟩]).received=3 ∧
    (run step {} [.data ⟨0,8,1,[1,65,0]⟩]).credit=1 := by
  decide +kernel

end BlackBull.H2Client
