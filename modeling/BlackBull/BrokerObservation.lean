import BlackBull.BrokerSurvival

/-!
# Observers of the broker

An observer keeps notes on what it sees of the broker: the states before and after
each message, and so also the packets that are sent. An exception ends the task of
the broker, and with it the observation.
-/

namespace BlackBull.Mqtt

variable {γ : Type}

structure Observed (γ : Type) where
  broker : Broker := {}
  ended : Bool := false
  notes : γ

/-- What the observer writes down about one message. -/
abbrev Note (γ : Type) := Broker → Arrival → Broker → γ → γ

def observe (limits : Limits) (note : Note γ) (w : Observed γ) (arrival : Arrival × ℚ) :
    Observed γ :=
  if w.ended then w
  else
    match receive limits arrival w.broker with
    | .ok _ t => {broker:=t,ended:=false,notes:=note w.broker arrival.1 t w.notes}
    | .error _ t => {broker:=t,ended:=true,notes:=note w.broker arrival.1 t w.notes}

def replies (s t : Broker) : List (Conn × Outgoing) := t.sent.drop s.sent.length

theorem replies_of_append {s t : Broker} {new : List (Conn × Outgoing)}
    (h : t.sent=s.sent++new) : replies s t=new := by
  rw [replies,h,List.drop_left]

variable {lim : Limits} {nt : Note γ} {w : Observed γ}

theorem observe_of_ensures {a : Arrival × ℚ} (holds : Observed γ → Prop) (hl : w.ended=false) (h :
    Ensures (receive lim a) w.broker (fun _ t => holds ⟨t,false,nt w.broker a.1 t w.notes⟩)
    (fun _ t => holds ⟨t,true,nt w.broker a.1 t w.notes⟩)) : holds (observe lim nt w a) := by
  rw [observe,hl]
  cases hr : receive lim a w.broker with
  | ok _ t => exact h.ok hr
  | error _ t => exact h.error hr

theorem observe_of_ended (a : Arrival × ℚ) (h : w.ended=true) : observe lim nt w a=w := by
  rw [observe,if_pos h]

theorem sound_observe (a : Arrival × ℚ) (h : Sound w.broker) :
    Sound (observe lim nt w a).broker := by
  cases he : w.ended with
  | true => rwa [observe_of_ended a he]
  | false =>
    refine observe_of_ensures (fun w' => Sound w'.broker) he ?_
    exact (receive_ensures lim a h).mono (fun _ _ ht => ht.1) fun _ _ ht => ht.1

end BlackBull.Mqtt
