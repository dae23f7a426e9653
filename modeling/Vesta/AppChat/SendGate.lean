import Vesta.Lib.Machine
import Vesta.Lib.Text

/-!
# The send gate of a live conversation

A client reports over its chat socket that the user is talking.  While any connection
reports so, a reply of the agent is refused, on the promise that a notification follows once
nobody talks any more.

The world keeps, beside the state of the service, what each step left behind: whether
anybody was talking, and whether the step refused a reply.
-/

namespace Vesta
namespace AppChat
namespace SendGate

open Lib

/-- An inbound frame that is an object: its type if that is a text, and its flag if that is a
truth value. -/
structure ClientFrame where
  type : Option Text
  active : Option Bool
deriving DecidableEq

structure ServiceState where
  /-- The connections whose client reported the user talking. -/
  speaking : List Nat := []
  replyRefused : Bool := false
  /-- The notifications `user_finished_talking` that were written. -/
  turnEnds : Nat := 0
deriving DecidableEq

inductive SendResponse
  | error (message : Text)
  | userSpeaking (refusal : Text)
  | ok (message : Text)
deriving DecidableEq

/-- What a step left: whether anybody was talking, and whether it refused a reply. -/
structure Moment where
  speaking : Bool
  refused : Bool
deriving DecidableEq

structure World where
  state : ServiceState := {}
  connected : List Nat := []
  connections : Nat := 0
  history : List Moment := []
deriving DecidableEq

/-- `fails` tells whether the notification that the step may write cannot be written. -/
inductive Label
  | connect
  | frame (connection : Nat) (frame : Option ClientFrame) (fails : Bool)
  | disconnect (connection : Nat) (fails : Bool)
  | send (message : Text) (attach : List Text) (ingestError : Option Text)
deriving DecidableEq

def refusal : Text :=
  ("the user is talking right now: drop this reply, wait for their next message, " ++
    "then answer the whole thought").toList

namespace ServiceState

/-- While the user talks a reply is refused, and the drop is noted. -/
def refuseSendWhileSpeaking (s : ServiceState) : Option Text × ServiceState :=
  if s.speaking = [] then (none, s) else (some refusal, { s with replyRefused := true })

/-- Every add and clear of the speaking set; the last clear repays a refused reply. -/
def setSpeaking (s : ServiceState) (queue : Nat) (active fails : Bool) : ServiceState :=
  if active then
    { s with speaking := if s.speaking.contains queue then s.speaking else s.speaking ++ [queue] }
  else
    let s := { s with speaking := s.speaking.filter (· != queue) }
    if s.speaking ≠ [] ∨ s.replyRefused = false then s
    else
      { s with
        replyRefused := false
        turnEnds := if fails then s.turnEnds else s.turnEnds + 1 }

/-- Frames of other types, and those without a truth value, are ignored. -/
def applyClientFrame (s : ServiceState) (queue : Nat) (frame : Option ClientFrame)
    (fails : Bool) : ServiceState :=
  match frame with
  | some ⟨some type, some active⟩ =>
      if type = "speaking".toList then s.setSpeaking queue active fails else s
  | _ => s

/-- One send: gated first, then its attachments are ingested. -/
def handleSend (s : ServiceState) (message : Text) (attach : List Text)
    (ingestError : Option Text) : SendResponse × ServiceState :=
  if message = [] ∧ attach = [] then (.error "empty message".toList, s)
  else
    match s.refuseSendWhileSpeaking with
    | (some refusal, s) => (.userSpeaking refusal, s)
    | (none, s) =>
        match ingestError with
        | some error => (.error error, s)
        | none => (.ok message, s)

end ServiceState

def SendResponse.isRefusal : SendResponse → Bool
  | .userSpeaking _ => true
  | _ => false

/-- Note what the step left. -/
def World.moved (w : World) (state : ServiceState) (refused : Bool) : World :=
  { w with state := state, history := w.history ++ [⟨decide (state.speaking ≠ []), refused⟩] }

def step (w : World) : Label → Option World
  | .connect =>
      some ({ w with
        connected := w.connected ++ [w.connections]
        connections := w.connections + 1 }.moved w.state false)
  | .frame connection frame fails =>
      if w.connected.contains connection then
        some (w.moved (w.state.applyClientFrame connection frame fails) false)
      else none
  | .disconnect connection fails =>
      if w.connected.contains connection then
        some ({ w with connected := w.connected.filter (· != connection) }.moved
          (w.state.setSpeaking connection false fails) false)
      else none
  | .send message attach ingestError =>
      let sent := w.state.handleSend message attach ingestError
      some (w.moved sent.2 sent.1.isRefusal)

def machine : Machine World Label where
  start w := w = {}
  step := step

/-- The write of a notification succeeds. -/
def WritesSucceed (_ : World) : Label → Prop
  | .frame _ _ fails => fails = false
  | .disconnect _ fails => fails = false
  | _ => True

instance decidableWritesSucceed (w : World) : ∀ label, Decidable (WritesSucceed w label)
  | .connect => isTrue trivial
  | .frame _ _ fails => inferInstanceAs (Decidable (fails = false))
  | .disconnect _ fails => inferInstanceAs (Decidable (fails = false))
  | .send _ _ _ => isTrue trivial

/-! ## Intervals of talking -/

/-- The moments between one silence and the next, the last of them still going on. -/
def intervals (history : List Moment) : List (List Moment) :=
  history.splitOnP fun moment => !moment.speaking

/-- A reply was refused during the interval. -/
def refusedIn (interval : List Moment) : Bool := interval.any Moment.refused

/-- The intervals that are over, and during which a reply was refused. -/
def endedIntervals (history : List Moment) : Nat :=
  (intervals history).dropLast.countP refusedIn

/-- The interval that goes on, empty while nobody talks. -/
def currentInterval (history : List Moment) : List Moment :=
  (intervals history).getLastD []

/-- A refused reply is noted only while somebody talks, and each interval that is over and had
one was repaid by one notification. -/
structure Repaid (w : World) : Prop where
  whileSpeaking : w.state.replyRefused = true → w.state.speaking ≠ []
  ended : w.state.turnEnds = endedIntervals w.history
  current : w.state.replyRefused = refusedIn (currentInterval w.history)

section Intervals

variable {history : List Moment}
variable {moment : Moment}

/-- A moment of silence ends the interval that went on. -/
theorem intervals_append_silent (h : moment.speaking = false) :
    intervals (history ++ [moment]) = intervals history ++ [[]] := by
  rw [intervals, List.splitOnP_append_cons history [] (by simp [h])]
  rfl

/-- Any other moment goes to the interval that goes on. -/
theorem intervals_append_talking (h : moment.speaking = true) :
    intervals (history ++ [moment]) =
      (intervals history).dropLast ++ [currentInterval history ++ [moment]] := by
  induction history with
  | nil => simp [intervals, currentInterval, List.splitOnP_cons_eq_if_modifyHead, h]
  | cons first rest ih =>
      obtain ⟨init, last, hsplit⟩ : ∃ init last, intervals rest = init ++ [last] :=
        ⟨_, _, (List.dropLast_append_getLast (List.splitOnP_ne_nil _ _)).symm⟩
      have hrest : intervals (rest ++ [moment]) = init ++ [last ++ [moment]] := by
        rw [ih, currentInterval, hsplit]
        simp
      have hcons : ∀ more : List Moment, intervals (first :: more) =
          if first.speaking then (intervals more).modifyHead (first :: ·)
          else [] :: intervals more := by
        intro more
        rw [intervals, List.splitOnP_cons_eq_if_modifyHead]
        cases first.speaking <;> rfl
      rw [List.cons_append, hcons, currentInterval, hcons, hrest, hsplit]
      cases first.speaking with
      | false =>
          simp only [Bool.false_eq_true, if_false]
          rw [← List.cons_append, ← List.cons_append, List.dropLast_concat, List.getLastD_concat]
      | true =>
          cases init with
          | nil => simp
          | cons head init =>
              simp only [if_true, List.cons_append, List.modifyHead_cons]
              rw [← List.cons_append, ← List.cons_append, List.dropLast_concat,
                List.getLastD_concat]

theorem endedIntervals_append_silent (h : moment.speaking = false) :
    endedIntervals (history ++ [moment]) =
      endedIntervals history + if refusedIn (currentInterval history) then 1 else 0 := by
  obtain ⟨init, last, hsplit⟩ : ∃ init last, intervals history = init ++ [last] :=
    ⟨_, _, (List.dropLast_append_getLast (List.splitOnP_ne_nil _ _)).symm⟩
  rw [endedIntervals, intervals_append_silent h, endedIntervals, currentInterval, hsplit]
  simp [List.countP_append, List.countP_singleton]

theorem currentInterval_append_silent (h : moment.speaking = false) :
    currentInterval (history ++ [moment]) = [] := by
  rw [currentInterval, intervals_append_silent h]
  simp

theorem endedIntervals_append_talking (h : moment.speaking = true) :
    endedIntervals (history ++ [moment]) = endedIntervals history := by
  rw [endedIntervals, intervals_append_talking h, endedIntervals]
  simp

theorem currentInterval_append_talking (h : moment.speaking = true) :
    currentInterval (history ++ [moment]) = currentInterval history ++ [moment] := by
  rw [currentInterval, intervals_append_talking h]
  simp

end Intervals

/-! ## The gate over runs -/

/-- What a step does to the gate: a floor that is clear has repaid the refusals, and while
somebody talks they are noted. -/
structure Gate (s next : ServiceState) (refused : Bool) : Prop where
  silent : next.speaking = [] → next.replyRefused = false ∧ refused = false ∧
    next.turnEnds = s.turnEnds + if s.replyRefused then 1 else 0
  talking : next.speaking ≠ [] → next.replyRefused = (s.replyRefused || refused) ∧
    next.turnEnds = s.turnEnds

section Steps

variable {w : World}
variable {s : ServiceState}

/-- A step that leaves the gate alone. -/
theorem Gate.same (h : s.replyRefused = true → s.speaking ≠ []) : Gate s s false where
  silent hempty := by
    have hnone : s.replyRefused = false := by
      cases hrefused : s.replyRefused with
      | false => rfl
      | true => exact absurd hempty (h hrefused)
    simp [hnone]
  talking _ := by simp

theorem Gate.setSpeaking (queue : Nat) (active : Bool) :
    Gate s (s.setSpeaking queue active false) false := by
  cases active with
  | true =>
      have hne : (s.setSpeaking queue true false).speaking ≠ [] := by
        simp only [ServiceState.setSpeaking, if_true]
        split
        · rename_i hmem
          exact List.ne_nil_of_mem (List.contains_iff_mem.1 hmem)
        · simp
      exact ⟨fun hempty => absurd hempty hne, fun _ => by simp [ServiceState.setSpeaking]⟩
  | false =>
      simp only [ServiceState.setSpeaking, Bool.false_eq_true, if_false]
      split
      · rename_i hstays
        constructor
        · intro hempty
          rcases hstays with hne | hnone
          · exact absurd hempty hne
          · have hnone : s.replyRefused = false := hnone
            simp [hnone]
        · simp
      · rename_i hclear
        obtain ⟨hempty, hrefused⟩ := not_or.1 hclear
        have hempty : s.speaking.filter (· != queue) = [] := not_not.1 hempty
        have hrefused : s.replyRefused = true := by simpa using hrefused
        exact ⟨fun _ => by simp [hrefused], fun hne => absurd hempty hne⟩

theorem Gate.applyClientFrame
    (h : s.replyRefused = true → s.speaking ≠ [])
    (queue : Nat) (frame : Option ClientFrame) :
    Gate s (s.applyClientFrame queue frame false) false := by
  rcases frame with _ | ⟨_ | type, _ | active⟩
  · exact .same h
  · exact .same h
  · exact .same h
  · exact .same h
  · by_cases htype : type = "speaking".toList
    · rw [ServiceState.applyClientFrame, if_pos htype]
      exact .setSpeaking queue active
    · rw [ServiceState.applyClientFrame, if_neg htype]
      exact .same h

theorem Gate.handleSend
    (h : s.replyRefused = true → s.speaking ≠ [])
    (message : Text) (attach : List Text) (ingestError : Option Text) :
    Gate s (s.handleSend message attach ingestError).2
      (s.handleSend message attach ingestError).1.isRefusal := by
  rw [ServiceState.handleSend]
  split
  · exact .same h
  · rw [ServiceState.refuseSendWhileSpeaking]
    by_cases hempty : s.speaking = []
    · rw [if_pos hempty]
      cases ingestError <;> exact .same h
    · rw [if_neg hempty]
      exact ⟨fun hnone => absurd hnone hempty, fun _ => by simp [SendResponse.isRefusal]⟩

/-- What the gate does in a step is what the intervals count. -/
theorem Repaid.moved
    (h : Repaid w)
    {connected : List Nat} {connections : Nat} {next : ServiceState} {refused : Bool}
    (hgate : Gate w.state next refused) :
    Repaid ({ w with connected := connected, connections := connections }.moved next
      refused) := by
  by_cases hempty : next.speaking = []
  · obtain ⟨hnone, rfl, hends⟩ := hgate.silent hempty
    have hmoment : (⟨decide (next.speaking ≠ []), false⟩ : Moment).speaking = false := by
      simp [hempty]
    constructor
    · intro hrefused
      exact nomatch hnone.symm.trans hrefused
    · simp only [World.moved]
      rw [endedIntervals_append_silent hmoment, hends, h.ended, h.current]
    · simp only [World.moved]
      rw [currentInterval_append_silent hmoment, hnone]
      rfl
  · obtain ⟨hrefused, hends⟩ := hgate.talking hempty
    have hmoment : (⟨decide (next.speaking ≠ []), refused⟩ : Moment).speaking = true := by
      simp [hempty]
    constructor
    · exact fun _ => hempty
    · simp only [World.moved]
      rw [endedIntervals_append_talking hmoment, hends, h.ended]
    · simp only [World.moved]
      rw [currentInterval_append_talking hmoment, hrefused, h.current]
      simp [refusedIn]

theorem Repaid.step
    (h : Repaid w)
    (label : Label)
    (hok : WritesSucceed w label)
    {next : World}
    (hstep : step w label = some next) :
    Repaid next := by
  cases label with
  | connect =>
      cases hstep
      exact h.moved (.same h.whileSpeaking)
  | frame connection frame fails =>
      cases hok
      rw [SendGate.step] at hstep
      split at hstep
      · cases hstep
        exact h.moved (.applyClientFrame h.whileSpeaking connection frame)
      · cases hstep
  | disconnect connection fails =>
      cases hok
      rw [SendGate.step] at hstep
      split at hstep
      · cases hstep
        exact h.moved (.setSpeaking connection false)
      · cases hstep
  | send message attach ingestError =>
      cases hstep
      exact h.moved (.handleSend h.whileSpeaking message attach ingestError)

end Steps

/--
For every interleaving of frames, disconnects and sends on any number of connections, with
notification writes that succeed: a refusal is noted only while somebody talks, and there
are as many notifications as intervals of talking that are over and had a refused reply; a
refusal that is noted belongs to the interval that goes on.
-/
theorem send_gate_repays
    {w : World}
    (h : machine.Reaches WritesSucceed w) :
    Repaid w := by
  refine h.invariant ?_ fun _ label _ hs hok hstep => hs.step label hok hstep
  rintro s rfl
  constructor
  · exact fun hrefused => nomatch hrefused
  · rfl
  · rfl

/-- One user talks, a reply is refused, and the connection drops. -/
def sampleRun : List Label :=
  [.connect, .frame 0 (some ⟨some "speaking".toList, some true⟩) false,
    .send "hello".toList [] none, .disconnect 0 false]

theorem send_gate_repays_sample :
    Repaid (machine.runTo {} sampleRun) ∧ (machine.runTo {} sampleRun).state.turnEnds = 1 := by
  have hstart : machine.Reaches WritesSucceed {} := .start rfl
  exact ⟨send_gate_repays (hstart.runTo sampleRun (by decide) (by decide)), by decide⟩

end SendGate
end AppChat
end Vesta
