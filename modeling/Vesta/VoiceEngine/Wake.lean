import Mathlib.Algebra.Order.Ring.Rat
import Mathlib.Algebra.Order.Monoid.WithTop
import Vesta.Lib.Text

/-!
# The wake gate

The gate says when a session opens its stream to speech to text and when it closes it.
It is open while the conversation is active, and after that until `openUntil`: a follow-up
time after the last activity or speech, and `heardSecs` after a wake word.  With the wake
word off it is always open.

`Gate.Follows` is what the gate knows of the steps behind it: no step's time is forgotten,
and a wait before the next stream comes from a refusal.
-/

namespace Vesta
namespace VoiceEngine
namespace Wake

open Lib

/-- A time of the clock in seconds, or `⊥`, which is before every one. -/
abbrev Instant := WithBot ℚ

/-- After a wake word, the gate stays open at least this long. -/
def heardSecs : ℚ := 4

/-- After speech to text refuses a stream, the gate opens none for this long. -/
def retrySecs : ℚ := 5

/-- The bytes of mic audio kept while no audio goes to speech to text: one second and a half. -/
@[irreducible] def preRollBytes : Nat := 3 * 16000 * 2 / 2

/-- Where the stream of a session is. -/
inductive Stream
  | closed
  | opening
  | opened
deriving DecidableEq, Repr

structure Gate where
  openUntil : Instant
  retryAt : Instant
  active : Bool
  waiting : Bool
deriving DecidableEq

/-- The gate of a session that starts. -/
def Gate.initial : Gate where
  openUntil := ⊥
  retryAt := ⊥
  active := false
  waiting := false

inductive Reason
  | failed
  | limit
deriving DecidableEq, Repr

inductive GateEvent
  | check
  | speech
  | hit
  | opened
  | refused (reason : Reason)
deriving DecidableEq, Repr

inductive EndedReason
  | sttFailed
  | sttLimit
  | clientEnded
deriving DecidableEq, Repr

inductive GateAction
  | openStream
  | closeStream
  | wakeListening (value : Bool)
  | error (message : Text)
  | ended (reason : EndedReason)
deriving DecidableEq, Repr

/-- What a step reads beside its event.  There is no follow-up time while the wake word is off. -/
structure Reading where
  followUpSecs : Option ℚ
  active : Bool
  stream : Stream
  now : ℚ
deriving DecidableEq

def Reading.followUp (reading : Reading) : ℚ := reading.followUpSecs.getD 0

/-! ## gate_step -/

def Reason.text : Reason → Text
  | .failed => "failed".toList
  | .limit => "limit".toList

def Reason.ended : Reason → EndedReason
  | .failed => .sttFailed
  | .limit => .sttLimit

def refusedMessage (reason : Reason) : Text :=
  "speech to text refused a stream (".toList ++ reason.text ++
    "); the session tries again in 5 s".toList

/-- The client is told of the first refusal after a stream that opened. -/
def onRefused (gate : Gate) (reason : Reason) (now : ℚ) : Gate × List GateAction :=
  ({ gate with retryAt := ↑(now + retrySecs) },
    if gate.retryAt = ⊥ then [.error (refusedMessage reason)] else [])

/-- What a stream that opened or was refused does to the wait for the next one. -/
def answered (gate : Gate) (event : GateEvent) (now : ℚ) : Gate × List GateAction :=
  match event with
  | .refused reason => onRefused gate reason now
  | .opened => ({ gate with retryAt := ⊥ }, [])
  | _ => (gate, [])

/-- The time the gate stays open without activity. -/
def extended (gate : Gate) (event : GateEvent) (reading : Reading) : Gate :=
  if event = .hit then
    { gate with
      openUntil := max gate.openUntil ↑(reading.now + max reading.followUp heardSecs) }
  else if event = .speech ∨ reading.active = true ∨ gate.active = true then
    { gate with openUntil := max gate.openUntil ↑(reading.now + reading.followUp) }
  else gate

def Gate.isOpen (gate : Gate) (reading : Reading) : Bool :=
  reading.followUpSecs.isNone || reading.active ||
    decide ((reading.now : Instant) < gate.openUntil)

def streamActions (gate : Gate) (isOpen : Bool) (reading : Reading) : List GateAction :=
  if isOpen = true ∧ reading.stream = .closed ∧ gate.retryAt ≤ reading.now then [.openStream]
  else if isOpen = false ∧ reading.stream = .opened then [.closeStream]
  else []

def listeningActions (gate : Gate) (isOpen : Bool) : List GateAction :=
  if gate.waiting = isOpen then [.wakeListening (!isOpen)] else []

/-- With the wake word off, a refusal ends the session: it has no other way to hear. -/
def endsSession (event : GateEvent) (reading : Reading) : Option EndedReason :=
  match event, reading.followUpSecs with
  | .refused reason, none => some reason.ended
  | _, _ => none

def gateStep (gate : Gate) (event : GateEvent) (reading : Reading) : Gate × List GateAction :=
  match endsSession event reading with
  | some reason => (gate, [.ended reason])
  | none =>
      let answer := answered gate event reading.now
      let gate := extended answer.1 event reading
      let isOpen := gate.isOpen reading
      ({ gate with active := reading.active, waiting := !isOpen },
        answer.2 ++ streamActions gate isOpen reading ++ listeningActions gate isOpen)

example :
    gateStep { Gate.initial with waiting := true } .hit ⟨some 2, false, .closed, 100⟩ =
      ({ Gate.initial with openUntil := ((104 : ℚ) : Instant) },
        [.openStream, .wakeListening false]) := by
  decide +kernel

/-! ## What a step keeps of the gate -/

@[simp] theorem answered_openUntil (gate : Gate) (event : GateEvent) (now : ℚ) :
    (answered gate event now).1.openUntil = gate.openUntil := by
  cases event <;> rfl

@[simp] theorem answered_active (gate : Gate) (event : GateEvent) (now : ℚ) :
    (answered gate event now).1.active = gate.active := by
  cases event <;> rfl

@[simp] theorem answered_waiting (gate : Gate) (event : GateEvent) (now : ℚ) :
    (answered gate event now).1.waiting = gate.waiting := by
  cases event <;> rfl

@[simp] theorem extended_retryAt (gate : Gate) (event : GateEvent) (reading : Reading) :
    (extended gate event reading).retryAt = gate.retryAt := by
  unfold extended
  split
  · rfl
  · split <;> rfl

@[simp] theorem extended_waiting (gate : Gate) (event : GateEvent) (reading : Reading) :
    (extended gate event reading).waiting = gate.waiting := by
  unfold extended
  split
  · rfl
  · split <;> rfl

theorem openUntil_le_extended (gate : Gate) (event : GateEvent) (reading : Reading) :
    gate.openUntil ≤ (extended gate event reading).openUntil := by
  unfold extended
  split
  · exact le_max_left _ _
  · split
    · exact le_max_left _ _
    · exact le_refl _

/-- A closed gate: the wake word is on, no conversation is active, and the time is over. -/
theorem isOpen_eq_false_iff (gate : Gate) (reading : Reading) :
    gate.isOpen reading = false ↔
      reading.followUpSecs ≠ none ∧ reading.active = false ∧
        gate.openUntil ≤ (reading.now : Instant) := by
  simp [Gate.isOpen, and_assoc, Option.isNone_eq_false_iff, Option.isSome_iff_ne_none]

/-! ## The steps behind a gate -/

/-- One step of the gate: its event, what it read, whether the conversation was active up to
it, and whether the gate is open after it. -/
structure GateStep where
  event : GateEvent
  reading : Reading
  wasActive : Bool
  isOpen : Bool
deriving DecidableEq

/-- The gate has to stay open until `t` after a step: for the follow-up time in force at activity
or speech, and for `heardSecs` at a wake word. -/
structure GateStep.Keeps (step : GateStep) (t : Instant) : Prop where
  talk :
    step.event = .speech ∨ step.wasActive = true ∨ step.reading.active = true →
      ((step.reading.now + step.reading.followUp : ℚ) : Instant) ≤ t
  hit : step.event = .hit → ((step.reading.now + heardSecs : ℚ) : Instant) ≤ t

theorem GateStep.Keeps.mono
    {step : GateStep} {t t' : Instant}
    (h : step.Keeps t)
    (hle : t ≤ t') :
    step.Keeps t' where
  talk htalk := (h.talk htalk).trans hle
  hit hhit := (h.hit hhit).trans hle

/-- Whether a step of these is a refusal at `now`. -/
def RefusedAt (steps : List GateStep) (now : ℚ) : Prop :=
  ∃ step ∈ steps, ∃ reason, step.event = .refused reason ∧ step.reading.now = now

theorem RefusedAt.cons
    {steps : List GateStep} {now : ℚ}
    (h : RefusedAt steps now)
    (step : GateStep) :
    RefusedAt (step :: steps) now := by
  obtain ⟨past, hpast, hrefused⟩ := h
  exact ⟨past, List.mem_cons_of_mem _ hpast, hrefused⟩

/-- What a gate knows of the steps behind it, the newest first. -/
structure Gate.Follows (gate : Gate) (steps : List GateStep) : Prop where
  keeps : ∀ step ∈ steps, step.Keeps gate.openUntil
  active : gate.active = steps.head?.any fun step => step.reading.active
  waiting : gate.waiting = steps.head?.any fun step => !step.isOpen
  retry : gate.retryAt = ⊥ ∨
    ∃ now, RefusedAt steps now ∧ gate.retryAt = ((now + retrySecs : ℚ) : Instant)

theorem Gate.initial_follows : Gate.initial.Follows [] where
  keeps := by simp
  active := rfl
  waiting := rfl
  retry := Or.inl rfl

/-- The gate of a step that ends no session, before the answer of `active` and `waiting`. -/
def stepped (gate : Gate) (event : GateEvent) (reading : Reading) : Gate :=
  extended (answered gate event reading.now).1 event reading

/-- The step as the steps behind the gate keep it. -/
def stepOf (gate : Gate) (event : GateEvent) (reading : Reading) : GateStep where
  event := event
  reading := reading
  wasActive := gate.active
  isOpen := (gateStep gate event reading).1.isOpen reading

theorem gateStep_ended
    {gate : Gate} {event : GateEvent} {reading : Reading} {reason : EndedReason}
    (h : endsSession event reading = some reason) :
    gateStep gate event reading = (gate, [.ended reason]) := by
  rw [gateStep, h]

theorem gateStep_goes_on
    (gate : Gate)
    {event : GateEvent} {reading : Reading}
    (h : endsSession event reading = none) :
    gateStep gate event reading =
      ({ stepped gate event reading with
          active := reading.active
          waiting := !(stepped gate event reading).isOpen reading },
        (answered gate event reading.now).2 ++
          streamActions (stepped gate event reading)
            ((stepped gate event reading).isOpen reading) reading ++
          listeningActions gate ((stepped gate event reading).isOpen reading)) := by
  have hlistening (isOpen : Bool) :
      listeningActions (stepped gate event reading) isOpen = listeningActions gate isOpen := by
    unfold listeningActions stepped
    rw [extended_waiting, answered_waiting]
  rw [gateStep, h, ← hlistening]
  rfl

theorem stepOf_isOpen
    (gate : Gate)
    {event : GateEvent} {reading : Reading}
    (h : endsSession event reading = none) :
    (stepOf gate event reading).isOpen = (stepped gate event reading).isOpen reading := by
  rw [stepOf, gateStep_goes_on gate h]
  rfl

/-- The gate after a step stays open as long as the step asks for. -/
theorem stepOf_keeps (gate : Gate) (event : GateEvent) (reading : Reading) :
    (stepOf gate event reading).Keeps (stepped gate event reading).openUntil := by
  have hanswered : (answered gate event reading.now).1.active = gate.active := by simp
  constructor
  · rintro htalk
    unfold stepped extended
    split
    · refine le_trans ?_ (le_max_right _ _)
      exact WithBot.coe_le_coe.2 (add_le_add_right (le_max_left _ _) _)
    · next hhit =>
        have hextends : event = .speech ∨ reading.active = true ∨
            (answered gate event reading.now).1.active = true := by
          rw [hanswered]
          rcases htalk with hspeech | hwas | hactive
          · exact Or.inl hspeech
          · exact Or.inr (Or.inr hwas)
          · exact Or.inr (Or.inl hactive)
        rw [if_pos hextends]
        exact le_max_right _ _
  · rintro hhit
    have hevent : event = .hit := hhit
    unfold stepped extended
    rw [if_pos hevent]
    refine le_trans ?_ (le_max_right _ _)
    exact WithBot.coe_le_coe.2 (add_le_add_right (le_max_right _ _) _)

theorem openUntil_le_stepped (gate : Gate) (event : GateEvent) (reading : Reading) :
    gate.openUntil ≤ (stepped gate event reading).openUntil := by
  have h := openUntil_le_extended (answered gate event reading.now).1 event reading
  rwa [answered_openUntil] at h

/-- A wait before the next stream comes from a refusal behind the gate. -/
theorem stepped_retry
    {gate : Gate} {steps : List GateStep}
    (h : gate.Follows steps)
    (event : GateEvent)
    (reading : Reading) :
    (stepped gate event reading).retryAt = ⊥ ∨
      ∃ now, RefusedAt (stepOf gate event reading :: steps) now ∧
        (stepped gate event reading).retryAt = ((now + retrySecs : ℚ) : Instant) := by
  have hkept :
      gate.retryAt = ⊥ ∨
        ∃ now, RefusedAt (stepOf gate event reading :: steps) now ∧
          gate.retryAt = ((now + retrySecs : ℚ) : Instant) := by
    rcases h.retry with hnever | ⟨now, hrefused, hretry⟩
    · exact Or.inl hnever
    · exact Or.inr ⟨now, hrefused.cons _, hretry⟩
  unfold stepped
  rw [extended_retryAt]
  cases event with
  | refused reason =>
      exact Or.inr ⟨reading.now, ⟨_, List.mem_cons_self, reason, rfl, rfl⟩, rfl⟩
  | opened => exact Or.inl rfl
  | check => exact hkept
  | speech => exact hkept
  | hit => exact hkept

/-- The gate follows its steps as long as none ends the session. -/
theorem Gate.Follows.step
    {gate : Gate} {steps : List GateStep}
    (h : gate.Follows steps)
    {event : GateEvent} {reading : Reading}
    (hgoes : endsSession event reading = none) :
    (gateStep gate event reading).1.Follows (stepOf gate event reading :: steps) := by
  have hopen := stepOf_isOpen gate hgoes
  rw [gateStep_goes_on gate hgoes]
  refine ⟨?_, ?_, ?_, stepped_retry h event reading⟩
  · rintro past hpast
    rcases List.mem_cons.1 hpast with rfl | hpast
    · exact stepOf_keeps gate event reading
    · exact (h.keeps past hpast).mono (openUntil_le_stepped gate event reading)
  · rfl
  · simp [hopen]

/-- A stream closes only in a step after which no activity and no time keeps the gate open. -/
theorem Gate.Follows.due
    {gate : Gate} {steps : List GateStep}
    (h : gate.Follows steps)
    {event : GateEvent} {reading : Reading}
    (hgoes : endsSession event reading = none)
    (hclosed : (stepOf gate event reading).isOpen = false) :
    reading.active = false ∧
      ∀ step ∈ stepOf gate event reading :: steps, step.Keeps (reading.now : Instant) := by
  have hkeeps := (h.step hgoes).keeps
  rw [stepOf_isOpen gate hgoes] at hclosed
  obtain ⟨-, hactive, hover⟩ := (isOpen_eq_false_iff _ _).1 hclosed
  refine ⟨hactive, fun step hstep => (hkeeps step hstep).mono ?_⟩
  rw [gateStep_goes_on gate hgoes]
  exact hover

/-! ## What a step makes the session do -/

/-- A step speaks of the stream as the session has it: one that was refused is closed, and one
that opened is open. -/
structure Fits (event : GateEvent) (reading : Reading) : Prop where
  refused : ∀ reason, event = .refused reason → reading.stream = .closed
  opened : event = .opened → reading.stream = .opened

/-- The order to open a stream: the gate is open, there is none, and the wait is over. -/
structure Opens (gate : Gate) (event : GateEvent) (reading : Reading) : Prop where
  unrefused : ∀ reason, event ≠ .refused reason
  isOpen : (stepOf gate event reading).isOpen = true
  closed : reading.stream = .closed
  retried : gate.retryAt ≤ (reading.now : Instant)

/-- The order to close the stream. -/
structure Closes (gate : Gate) (event : GateEvent) (reading : Reading) : Prop where
  isOpen : (stepOf gate event reading).isOpen = false
  opened : reading.stream = .opened

theorem stepped_retryAt_of_closed
    {event : GateEvent} {reading : Reading}
    (hfits : Fits event reading)
    (hclosed : reading.stream = .closed)
    (gate : Gate) :
    (stepped gate event reading).retryAt =
        ((reading.now + retrySecs : ℚ) : Instant) ∨
      (∀ reason, event ≠ .refused reason) ∧
        (stepped gate event reading).retryAt = gate.retryAt := by
  unfold stepped
  rw [extended_retryAt]
  cases event with
  | refused reason => exact Or.inl rfl
  | opened => cases hclosed.symm.trans (hfits.opened rfl)
  | check => exact Or.inr ⟨by simp, rfl⟩
  | speech => exact Or.inr ⟨by simp, rfl⟩
  | hit => exact Or.inr ⟨by simp, rfl⟩

theorem not_retried (now : ℚ) :
    ¬((now + retrySecs : ℚ) : Instant) ≤ (now : Instant) := by
  rw [WithBot.coe_le_coe, not_le]
  exact lt_add_of_pos_right now (by decide +kernel)

theorem answered_of_not_refused
    {event : GateEvent}
    (h : ∀ reason, event ≠ .refused reason)
    (gate : Gate) (now : ℚ) :
    (answered gate event now).2 = [] := by
  cases event with
  | refused reason => exact absurd rfl (h reason)
  | opened => rfl
  | check => rfl
  | speech => rfl
  | hit => rfl

theorem answered_actions (gate : Gate) (event : GateEvent) (now : ℚ) :
    (answered gate event now).2 = [] ∨
      ∃ message, (answered gate event now).2 = [.error message] := by
  cases event with
  | refused reason =>
      by_cases hfirst : gate.retryAt = ⊥
      · exact Or.inr ⟨refusedMessage reason, by simp [answered, onRefused, hfirst]⟩
      · exact Or.inl (by simp [answered, onRefused, hfirst])
  | opened => exact Or.inl rfl
  | check => exact Or.inl rfl
  | speech => exact Or.inl rfl
  | hit => exact Or.inl rfl

/-- What a step that goes on makes the session do: it opens a stream, or closes it, or does
neither, and then a stream that is missing is one the gate waits to open. -/
theorem gateStep_actions
    (gate : Gate)
    {event : GateEvent} {reading : Reading}
    (hgoes : endsSession event reading = none)
    (hfits : Fits event reading) :
    ((gateStep gate event reading).2 =
        .openStream :: listeningActions gate (stepOf gate event reading).isOpen ∧
      Opens gate event reading) ∨
    ((gateStep gate event reading).2 =
        .closeStream :: listeningActions gate (stepOf gate event reading).isOpen ∧
      Closes gate event reading) ∨
    (∃ told : List GateAction, (told = [] ∨ ∃ message, told = [.error message]) ∧
      (gateStep gate event reading).2 =
        told ++ listeningActions gate (stepOf gate event reading).isOpen ∧
      ((stepOf gate event reading).isOpen = true → reading.stream = .closed →
        (reading.now : Instant) < (gateStep gate event reading).1.retryAt)) := by
  rw [stepOf_isOpen gate hgoes, gateStep_goes_on gate hgoes]
  unfold streamActions
  split
  · next hopens =>
      obtain ⟨hopen, hclosed, hretried⟩ := hopens
      left
      rcases stepped_retryAt_of_closed hfits hclosed gate with hwaits | ⟨hevent, hkept⟩
      · exact absurd (hwaits ▸ hretried) (not_retried reading.now)
      · rw [answered_of_not_refused hevent]
        exact ⟨rfl, hevent, by rwa [stepOf_isOpen gate hgoes], hclosed, hkept ▸ hretried⟩
  · next hopens =>
      split
      · next hcloses =>
          right
          left
          have hevent : ∀ reason, event ≠ .refused reason := by
            rintro reason heq
            cases hcloses.2.symm.trans (hfits.refused reason heq)
          rw [answered_of_not_refused hevent]
          exact ⟨rfl, by rw [stepOf_isOpen gate hgoes]; exact hcloses.1, hcloses.2⟩
      · right
        right
        refine ⟨_, answered_actions gate event reading.now, by simp, ?_⟩
        rintro hopen hclosed
        exact not_le.1 fun hretried => hopens ⟨hopen, hclosed, hretried⟩

end Wake
end VoiceEngine
end Vesta
