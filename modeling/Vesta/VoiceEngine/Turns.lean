import Vesta.Agent.Notification
import Vesta.Lib.Machine

/-!
# The turns of a voice session

Speech to text decides the end of a turn.  `step` decides the rest from the state,
one event and the clock: when a turn that is said to the agent starts, which
committed text goes to the agent, and what live text does to a reply that plays.

`World` is the part of a session that drives the turns: the judge's call for the
newest live text, its verdict, and the frames that went out.  `Spoken` is what
the frames keep, read by the automaton `observe`, and `turns_heard_iff` says that
no committed text that takes the floor is lost on exactly the runs that `Fits`
admits: no such text ends a segment that was answered with a resume.
-/

namespace Vesta
namespace VoiceEngine
namespace Turns

open Lib

def holdWaitMs : Nat := 1000

/-! ## Verdicts, events and actions -/

inductive SaidTo
  | agent
  | echo
  | otherPerson
  | notSpeech
deriving DecidableEq, Repr

structure Verdict where
  saidTo : SaidTo
  wantsStop : Option Bool
deriving DecidableEq, Repr

inductive IgnoredKind
  | backchannel
  | echo
  | otherPerson
  | notSpeech
deriving DecidableEq, Repr

inductive Phase
  | idle
  | userTurn
  | paused
deriving DecidableEq, Repr

structure TurnState where
  phase : Phase
  pausedAt : Nat
  segmentSeen : Bool
  segmentSettled : Bool
deriving DecidableEq, Repr

/-- The state of a segment that has no live text. -/
def TurnState.fresh : TurnState where
  phase := .idle
  pausedAt := 0
  segmentSeen := false
  segmentSettled := false

/-- An event with no verdict has none: the judge is off, or it had no answer. -/
inductive TurnEvent
  | live (text : Text)
  | judged (text : Text) (verdict : Option Verdict)
  | committed (text : Text) (verdict : Option Verdict)
  | tick
  | stoppedByUser
  | wake
deriving DecidableEq, Repr

inductive Action
  | turnStart
  | turnEnd (text : Text)
  | turnDropped (text : Text) (kind : Option IgnoredKind)
  | ignored (text : Text) (kind : IgnoredKind)
  | pausePlayback
  | resumePlayback
  | stopNow
deriving DecidableEq, Repr

/-- What a step reads beside its event: the playback, the barge-in and the clock. -/
structure Reading where
  speaking : Bool
  bargeIn : Bool
  now : Nat
deriving DecidableEq, Repr

def Reading.canPause (reading : Reading) : Bool :=
  reading.speaking && reading.bargeIn

/-! ## step -/

def toAgent : Option Verdict → Bool
  | none => true
  | some verdict => verdict.saidTo = .agent

/-- A verdict that the words are said to the agent while a reply plays, and are no backchannel. -/
def takesFloor : Option Verdict → Bool
  | none => false
  | some verdict => verdict.saidTo = .agent && verdict.wantsStop ≠ some false

/-- A verdict that starts a turn from idle: over a reply only a clear one does. -/
def startsTurn (canPause : Bool) (verdict : Option Verdict) : Bool :=
  if canPause then takesFloor verdict else toAgent verdict

def ignoredKind : Option Verdict → IgnoredKind
  | none => .backchannel
  | some verdict =>
      match verdict.saidTo with
      | .agent => .backchannel
      | .echo => .echo
      | .otherPerson => .otherPerson
      | .notSpeech => .notSpeech

def onLive (state : TurnState) (canPause : Bool) (now : Nat) : TurnState × List Action :=
  let seen := { state with segmentSeen := true }
  if state.phase = .idle ∧ canPause = true ∧ state.segmentSeen = false then
    ({ seen with phase := .paused, pausedAt := now }, [.pausePlayback])
  else (seen, [])

def onJudged (state : TurnState) (text : Text) (verdict : Option Verdict) (canPause : Bool) :
    TurnState × List Action :=
  if state.phase = .paused ∧ verdict.isSome = true then
    if takesFloor verdict then ({ state with phase := .userTurn }, [.stopNow, .turnStart])
    else
      ({ state with phase := .idle, segmentSettled := true },
        [.resumePlayback, .ignored text (ignoredKind verdict)])
  else if state.phase = .idle ∧ startsTurn canPause verdict = true then
    ({ state with phase := .userTurn },
      if canPause then [.stopNow, .turnStart] else [.turnStart])
  else (state, [])

/-- A segment that ended while a reply played, paused or not. -/
def committedWhilePlaying (text : Text) (verdict : Option Verdict) (resume : Bool) : List Action :=
  if takesFloor verdict then [.stopNow, .turnStart, .turnEnd text]
  else
    (if resume then [.resumePlayback] else []) ++
      if text.isEmpty then [] else [.ignored text (ignoredKind verdict)]

def committedActions (state : TurnState) (text : Text) (verdict : Option Verdict)
    (canPause : Bool) : List Action :=
  match state.phase with
  | .userTurn =>
      if text.isEmpty then [.turnDropped [] none]
      else if toAgent verdict then [.turnEnd text]
      else [.turnDropped text (some (ignoredKind verdict))]
  | .paused => committedWhilePlaying text verdict true
  | .idle =>
      if state.segmentSettled || text.isEmpty then []
      else if canPause then committedWhilePlaying text verdict false
      else if toAgent verdict then [.turnStart, .turnEnd text]
      else [.ignored text (ignoredKind verdict)]

def onCommitted (state : TurnState) (text : Text) (verdict : Option Verdict) (canPause : Bool) :
    TurnState × List Action :=
  (.fresh, committedActions state text verdict canPause)

def onTick (state : TurnState) (now : Nat) : TurnState × List Action :=
  if state.phase = .paused ∧ holdWaitMs ≤ now - state.pausedAt then
    ({ state with phase := .userTurn }, [.stopNow, .turnStart])
  else (state, [])

def onStoppedByUser (state : TurnState) : TurnState × List Action :=
  (if state.phase = .paused then { state with phase := .idle } else state, [.stopNow])

def onWake (state : TurnState) (canPause : Bool) : TurnState × List Action :=
  if canPause = false ∨ state.phase = .userTurn then (state, [])
  else if state.segmentSeen then ({ state with phase := .userTurn }, [.stopNow, .turnStart])
  else ({ state with phase := .idle }, [.stopNow])

def step (state : TurnState) (event : TurnEvent) (reading : Reading) : TurnState × List Action :=
  match event with
  | .live _ => onLive state reading.canPause reading.now
  | .judged text verdict => onJudged state text verdict reading.canPause
  | .committed text verdict => onCommitted state text verdict reading.canPause
  | .tick => onTick state reading.now
  | .stoppedByUser => onStoppedByUser state
  | .wake => onWake state reading.canPause

/-- A text that takes the floor and reaches no turn end. -/
def lost (text : Text) (verdict : Option Verdict) (actions : List Action) : List Text :=
  if text.isEmpty then []
  else if takesFloor verdict then if actions.contains (.turnEnd text) then [] else [text]
  else []

/-! ## The session -/

/-- `segment` has the live texts of the open segment, and `unheard` the committed texts that took
the floor and reached no turn end. -/
structure World where
  turn : TurnState
  asking : Option (Text × Bool)
  verdict : Option (Text × Option Verdict)
  sent : List Action
  now : Nat
  segment : List Text
  unheard : List Text

/-- When an event comes, and what plays then. -/
structure Moment where
  speaking : Bool
  bargeIn : Bool
  elapsed : Nat
deriving DecidableEq, Repr

/-- A text as the provider heard it, the answer to the judge's call, and what puts an event into
the inbox.  The answer of a commit is to the call that the commit waits for. -/
inductive Label
  | live (said : Text) (moment : Moment)
  | answer (verdict : Option Verdict)
  | judged (text : Text) (moment : Moment)
  | committed (said : Text) (answer : Option Verdict) (moment : Moment)
  | tick (moment : Moment)
  | stoppedByUser (moment : Moment)
  | wake (moment : Moment)
deriving DecidableEq, Repr

namespace World

/-- The clock never runs back. -/
def reading (w : World) (moment : Moment) : Reading where
  speaking := moment.speaking
  bargeIn := moment.bargeIn
  now := w.now + moment.elapsed

def step (w : World) (event : TurnEvent) (reading : Reading) : World :=
  let next := Turns.step w.turn event reading
  { w with turn := next.1, sent := w.sent ++ next.2, now := reading.now }

end World

section Session

variable (judge : Bool)
variable (withoutPhrase : Bool → Text → Text)

/-- A verdict counts only for the text that it was asked about, so new text replaces the call. -/
def World.onLive (w : World) (said : Text) (reading : Reading) : World :=
  let text := withoutPhrase true said
  if (Agent.strip text).isEmpty then w
  else
    let heard := { w.step (.live text) reading with segment := w.segment ++ [text] }
    if judge then { heard with asking := some (text, true) }
    else heard.step (.judged text none) reading

/-- The pending call answers. -/
def World.onAnswer (w : World) (verdict : Option Verdict) : Option World :=
  match w.asking with
  | some (text, true) =>
      some { w with asking := some (text, false), verdict := some (text, verdict) }
  | _ => none

def World.onJudged (w : World) (text : Text) (reading : Reading) : World :=
  match w.asking, w.verdict with
  | some (asked, _), some (answered, verdict) =>
      if asked = text ∧ answered = text then w.step (.judged text verdict) reading else w
  | _, _ => w

/-- The verdict for a committed text: the one at hand, or that of the call it waits for. -/
def World.verdictFor (w : World) (text : Text) (answer : Option Verdict) : Option Verdict :=
  if judge = false ∨ text.isEmpty = true then none
  else
    match w.verdict with
    | some (answered, verdict) => if answered = text then verdict else answer
    | none => answer

def World.onCommitted (w : World) (said : Text) (answer : Option Verdict) (reading : Reading) :
    World :=
  let text := withoutPhrase false said
  let verdict := w.verdictFor judge text answer
  let event := TurnEvent.committed text verdict
  { w.step event reading with
    asking := none
    verdict := none
    segment := []
    unheard := w.unheard ++ lost text verdict (Turns.step w.turn event reading).2 }

def sessionStep (w : World) : Label → Option World
  | .live said moment => some (w.onLive judge withoutPhrase said (w.reading moment))
  | .answer verdict => w.onAnswer verdict
  | .judged text moment => some (w.onJudged text (w.reading moment))
  | .committed said answer moment =>
      some (w.onCommitted judge withoutPhrase said answer (w.reading moment))
  | .tick moment => some (w.step .tick (w.reading moment))
  | .stoppedByUser moment => some (w.step .stoppedByUser (w.reading moment))
  | .wake moment => some (w.step .wake (w.reading moment))

def initial : World where
  turn := .fresh
  asking := none
  verdict := none
  sent := []
  now := 0
  segment := []
  unheard := []

def machine : Machine World Label where
  start w := w = initial
  step := sessionStep judge withoutPhrase

end Session

/-! ## What the frames keep -/

/-- What the frames say so far: whether a turn is open and a pause unresolved. -/
structure Watch where
  turn : Bool
  pause : Bool
deriving DecidableEq, Repr

/-- A turn starts while none is open and ends while one is.  A resume is for a pause. -/
def Watch.next (watch : Watch) : Action → Option Watch
  | .turnStart => if watch.turn then none else some { watch with turn := true }
  | .turnEnd _ => if watch.turn then some { watch with turn := false } else none
  | .turnDropped _ _ => if watch.turn then some { watch with turn := false } else none
  | .ignored _ _ => some watch
  | .pausePlayback => if watch.pause then none else some { watch with pause := true }
  | .resumePlayback => if watch.pause then some { watch with pause := false } else none
  | .stopNow => some { watch with pause := false }

def observe (watch : Watch) : List Action → Option Watch
  | [] => some watch
  | action :: actions =>
      match watch.next action with
      | some next => observe next actions
      | none => none

def Watch.of (state : TurnState) : Watch where
  turn := state.phase = .userTurn
  pause := state.phase = .paused

/-- The frames are read to the end, and say what the phase says.  A phase that is not idle has
live text in the open segment, so a segment that is over has no turn and no pause. -/
structure Spoken (w : World) : Prop where
  frames : observe ⟨false, false⟩ w.sent = some (.of w.turn)
  open_segment : w.turn.phase ≠ .idle → w.segment ≠ []

/-- A committed text that takes the floor ends no segment that was answered with a resume. -/
def Fits (judge : Bool) (withoutPhrase : Bool → Text → Text) (w : World) : Label → Prop
  | .committed said answer _ =>
      w.turn.phase = .idle → w.turn.segmentSettled = true →
        (withoutPhrase false said).isEmpty = false →
          takesFloor (w.verdictFor judge (withoutPhrase false said) answer) = false
  | _ => True

/-! ## One step -/

section Step

theorem observe_append
    (watch : Watch)
    (first second : List Action) :
    observe watch (first ++ second) =
      (observe watch first).bind fun next => observe next second := by
  induction first generalizing watch with
  | nil => rfl
  | cons action actions ih =>
      simp only [List.cons_append, observe]
      cases watch.next action with
      | none => rfl
      | some next => exact ih next

variable {state : TurnState}
variable {text : Text}
variable {verdict : Option Verdict}

theorem observe_onJudged
    (canPause : Bool) :
    observe (.of state) (onJudged state text verdict canPause).2 =
      some (.of (onJudged state text verdict canPause).1) := by
  unfold onJudged
  split
  · next hphase =>
      split
      · simp [observe, Watch.next, Watch.of, hphase.1]
      · simp [observe, Watch.next, Watch.of, hphase.1]
  · split
    · next hphase =>
        cases canPause <;> simp [observe, Watch.next, Watch.of, hphase.1]
    · rfl

theorem observe_committedWhilePlaying
    (resume : Bool) :
    observe ⟨false, resume⟩ (committedWhilePlaying text verdict resume) =
      some ⟨false, false⟩ := by
  unfold committedWhilePlaying
  split
  · rfl
  · cases resume <;> cases text.isEmpty <;> rfl

theorem observe_committedActions
    (canPause : Bool) :
    observe (.of state) (committedActions state text verdict canPause) =
      some ⟨false, false⟩ := by
  unfold committedActions
  split
  · next hphase =>
      split
      · simp [observe, Watch.next, Watch.of, hphase]
      · split <;> simp [observe, Watch.next, Watch.of, hphase]
  · next hphase =>
      have hwatch : Watch.of state = ⟨false, true⟩ := by simp [Watch.of, hphase]
      rw [hwatch]
      exact observe_committedWhilePlaying true
  · next hphase =>
      have hwatch : Watch.of state = ⟨false, false⟩ := by simp [Watch.of, hphase]
      rw [hwatch]
      split
      · rfl
      · split
        · exact observe_committedWhilePlaying false
        · split <;> rfl

/-- The frames of a step lead from what the phase says to what the next phase says. -/
theorem observe_step
    (state : TurnState)
    (event : TurnEvent)
    (reading : Reading) :
    observe (.of state) (step state event reading).2 =
      some (.of (step state event reading).1) := by
  cases event with
  | live text =>
      simp only [step, onLive]
      split
      · next hphase => simp [observe, Watch.next, Watch.of, hphase.1]
      · rfl
  | judged text verdict => exact observe_onJudged reading.canPause
  | committed text verdict => exact observe_committedActions reading.canPause
  | tick =>
      simp only [step, onTick]
      split
      · next hphase => simp [observe, Watch.next, Watch.of, hphase.1]
      · rfl
  | stoppedByUser =>
      simp only [step, onStoppedByUser]
      split
      · next hphase => simp [observe, Watch.next, Watch.of, hphase]
      · next hphase => simp [observe, Watch.next, Watch.of, hphase]
  | wake =>
      simp only [step, onWake]
      split
      · rfl
      · next hphase =>
          have huser : state.phase ≠ .userTurn := fun h => hphase (Or.inr h)
          split <;> simp [observe, Watch.next, Watch.of, huser]

/-- A commit delivers a text that takes the floor, unless its segment was answered. -/
theorem turnEnd_mem_committedActions_iff
    (state : TurnState)
    (hfloor : takesFloor verdict = true)
    (htext : text.isEmpty = false)
    (canPause : Bool) :
    (committedActions state text verdict canPause).contains (.turnEnd text) = true ↔
      ¬ (state.phase = .idle ∧ state.segmentSettled = true) := by
  have hagent : toAgent verdict = true := by
    cases verdict with
    | none => rfl
    | some verdict =>
        simp only [takesFloor, Bool.and_eq_true] at hfloor
        exact hfloor.1
  cases hphase : state.phase with
  | userTurn => simp [committedActions, hphase, htext, hagent]
  | paused => simp [committedActions, committedWhilePlaying, hphase, hfloor]
  | idle =>
      cases hsettled : state.segmentSettled with
      | true => simp [committedActions, hphase, hsettled]
      | false =>
          cases canPause <;>
            simp [committedActions, committedWhilePlaying, hphase, hsettled, htext, hfloor, hagent]

/-- Only live text, a judgement or a wake hit over live text leads away from idle. -/
theorem phase_of_step
    {event : TurnEvent} {reading : Reading}
    (hphase : (step state event reading).1.phase ≠ .idle) :
    state.phase ≠ .idle ∨ state.segmentSeen = true ∨ (∃ text, event = .live text) ∨
      ∃ text verdict, event = .judged text verdict := by
  cases event with
  | live text => exact Or.inr (Or.inr (Or.inl ⟨text, rfl⟩))
  | judged text verdict => exact Or.inr (Or.inr (Or.inr ⟨text, verdict, rfl⟩))
  | committed text verdict => exact absurd rfl hphase
  | tick =>
      simp only [step, onTick] at hphase
      split at hphase
      · next h => exact Or.inl (by simp [h.1])
      · exact Or.inl hphase
  | stoppedByUser =>
      simp only [step, onStoppedByUser] at hphase
      split at hphase
      · exact absurd rfl hphase
      · exact Or.inl hphase
  | wake =>
      simp only [step, onWake] at hphase
      split at hphase
      · exact Or.inl hphase
      · split at hphase
        · next hseen => exact Or.inr (Or.inl hseen)
        · exact absurd rfl hphase

theorem segmentSeen_of_step
    {event : TurnEvent} {reading : Reading}
    (hseen : (step state event reading).1.segmentSeen = true) :
    state.segmentSeen = true ∨ ∃ text, event = .live text := by
  cases event with
  | live text => exact Or.inr ⟨text, rfl⟩
  | judged text verdict =>
      refine Or.inl ?_
      simp only [step, onJudged] at hseen
      split at hseen
      · split at hseen <;> exact hseen
      · split at hseen <;> exact hseen
  | committed text verdict => cases hseen
  | tick =>
      refine Or.inl ?_
      simp only [step, onTick] at hseen
      split at hseen <;> exact hseen
  | stoppedByUser =>
      refine Or.inl ?_
      simp only [step, onStoppedByUser] at hseen
      split at hseen <;> exact hseen
  | wake =>
      refine Or.inl ?_
      simp only [step, onWake] at hseen
      split at hseen
      · exact hseen
      · split at hseen <;> exact hseen

end Step

/-! ## Runs -/

section Runs

variable {judge : Bool}
variable {withoutPhrase : Bool → Text → Text}
variable {w next : World}

/-- `Spoken`, and that a call and a seen segment have live text. -/
structure Kept (w : World) : Prop where
  spoken : Spoken w
  asking : w.asking.isSome = true → w.segment ≠ []
  seen : w.turn.segmentSeen = true → w.segment ≠ []

theorem Kept.frames_step
    (h : Kept w)
    (event : TurnEvent)
    (reading : Reading) :
    observe ⟨false, false⟩ (w.step event reading).sent =
      some (.of (w.step event reading).turn) := by
  simp only [World.step, observe_append, h.spoken.frames, Option.bind_some]
  exact observe_step w.turn event reading

/-- A step within a segment that has live text, or one that needs none. -/
theorem Kept.step
    (h : Kept w)
    {event : TurnEvent}
    (hlive : ∀ text, event ≠ .live text)
    (hjudged : ∀ text verdict, event = .judged text verdict → w.segment ≠ [])
    (reading : Reading) :
    Kept (w.step event reading) := by
  refine ⟨⟨h.frames_step event reading, ?_⟩, h.asking, ?_⟩
  · intro hphase
    rcases phase_of_step hphase with hphase | hseen | ⟨text, rfl⟩ | ⟨text, verdict, rfl⟩
    · exact h.spoken.open_segment hphase
    · exact h.seen hseen
    · exact absurd rfl (hlive text)
    · exact hjudged text verdict rfl
  · intro hseen
    rcases segmentSeen_of_step hseen with hseen | ⟨text, rfl⟩
    · exact h.seen hseen
    · exact absurd rfl (hlive text)

theorem Kept.onLive
    (h : Kept w)
    (said : Text)
    (reading : Reading) :
    Kept (w.onLive judge withoutPhrase said reading) ∧
      (w.onLive judge withoutPhrase said reading).unheard = w.unheard := by
  simp only [World.onLive]
  split
  · exact ⟨h, rfl⟩
  · have hheard :
        Kept { w.step (.live (withoutPhrase true said)) reading with
          segment := w.segment ++ [withoutPhrase true said] } :=
      ⟨⟨h.frames_step _ reading, fun _ => by simp⟩, fun _ => by simp, fun _ => by simp⟩
    split
    · exact ⟨⟨⟨hheard.spoken.frames, fun _ => by simp⟩, fun _ => by simp, fun _ => by simp⟩, rfl⟩
    · exact ⟨hheard.step (by simp) (fun _ _ _ => by simp) reading, rfl⟩

theorem Kept.onAnswer
    (h : Kept w)
    {verdict : Option Verdict}
    (hstep : w.onAnswer verdict = some next) :
    Kept next ∧ next.unheard = w.unheard := by
  unfold World.onAnswer at hstep
  split at hstep
  · next text hasking =>
      cases hstep
      exact ⟨⟨⟨h.spoken.frames, h.spoken.open_segment⟩, fun _ => h.asking (by simp [hasking]),
        h.seen⟩, rfl⟩
  · cases hstep

theorem Kept.onJudged
    (h : Kept w)
    (text : Text)
    (reading : Reading) :
    Kept (w.onJudged text reading) ∧ (w.onJudged text reading).unheard = w.unheard := by
  unfold World.onJudged
  split
  · next hasking _ =>
      split
      · exact ⟨h.step (by simp) (fun _ _ _ => h.asking (by simp [hasking])) reading, rfl⟩
      · exact ⟨h, rfl⟩
  · exact ⟨h, rfl⟩

theorem Kept.onCommitted
    (h : Kept w)
    (said : Text)
    (answer : Option Verdict)
    (reading : Reading) :
    Kept (w.onCommitted judge withoutPhrase said answer reading) := by
  refine ⟨⟨h.frames_step _ reading, ?_⟩, ?_, ?_⟩
  · exact fun hphase => absurd rfl hphase
  · exact fun hasking => by cases hasking
  · exact fun hseen => by cases hseen

/-- A text that takes the floor is lost at a commit that `Fits` excludes. -/
theorem unheard_onCommitted_iff
    (said : Text)
    (answer : Option Verdict)
    (moment : Moment)
    (hheard : w.unheard = []) :
    (w.onCommitted judge withoutPhrase said answer (w.reading moment)).unheard = [] ↔
      Fits judge withoutPhrase w (.committed said answer moment) := by
  simp only [World.onCommitted, Fits, hheard, List.nil_append, lost]
  cases htext : (withoutPhrase false said).isEmpty with
  | true => simp
  | false =>
      cases hfloor : takesFloor (w.verdictFor judge (withoutPhrase false said) answer) with
      | false => simp
      | true =>
          have hiff :=
            turnEnd_mem_committedActions_iff w.turn hfloor htext (w.reading moment).canPause
          have hactions :
              (step w.turn (.committed (withoutPhrase false said)
                (w.verdictFor judge (withoutPhrase false said) answer)) (w.reading moment)).2 =
                committedActions w.turn (withoutPhrase false said)
                  (w.verdictFor judge (withoutPhrase false said) answer)
                  (w.reading moment).canPause := rfl
          rw [hactions]
          by_cases hsettled : w.turn.phase = .idle ∧ w.turn.segmentSettled = true
          · rw [if_neg (by simp), if_pos rfl, if_neg (fun hcontains => hiff.1 hcontains hsettled)]
            simp [hsettled.1, hsettled.2]
          · rw [if_neg (by simp), if_pos rfl, if_pos (hiff.2 hsettled)]
            simpa using hsettled

theorem Kept.sessionStep
    (h : Kept w)
    {label : Label}
    (hstep : sessionStep judge withoutPhrase w label = some next) :
    Kept next ∧ (w.unheard = [] → (next.unheard = [] ↔ Fits judge withoutPhrase w label)) := by
  cases label with
  | live said moment =>
      cases hstep
      obtain ⟨hnext, hsame⟩ := h.onLive said (w.reading moment)
      exact ⟨hnext, fun hheard => by simp [hsame, hheard, Fits]⟩
  | answer verdict =>
      obtain ⟨hnext, hsame⟩ := h.onAnswer hstep
      exact ⟨hnext, fun hheard => by simp [hsame, hheard, Fits]⟩
  | judged text moment =>
      cases hstep
      obtain ⟨hnext, hsame⟩ := h.onJudged text (w.reading moment)
      exact ⟨hnext, fun hheard => by simp [hsame, hheard, Fits]⟩
  | committed said answer moment =>
      cases hstep
      exact ⟨h.onCommitted said answer (w.reading moment),
        unheard_onCommitted_iff said answer moment⟩
  | tick moment =>
      cases hstep
      exact ⟨h.step (by simp) (by simp) _, fun hheard => by simp [World.step, hheard, Fits]⟩
  | stoppedByUser moment =>
      cases hstep
      exact ⟨h.step (by simp) (by simp) _, fun hheard => by simp [World.step, hheard, Fits]⟩
  | wake moment =>
      cases hstep
      exact ⟨h.step (by simp) (by simp) _, fun hheard => by simp [World.step, hheard, Fits]⟩

theorem kept_initial :
    Kept initial := by
  constructor
  · exact ⟨rfl, fun hphase => absurd rfl hphase⟩
  · exact fun hasking => by cases hasking
  · exact fun hseen => by cases hseen

end Runs

/-- The frames are as `Spoken` says in every run, and every committed text that takes the floor is
delivered, on exactly the runs in which no such text ends a segment that was answered. -/
theorem turns_heard_iff
    (judge : Bool)
    (withoutPhrase : Bool → Text → Text)
    (run : List Label) :
    (machine judge withoutPhrase).Admits
        (fun w label => ∀ t ∈ sessionStep judge withoutPhrase w label, Spoken t ∧ t.unheard = [])
        initial run ↔
      (machine judge withoutPhrase).Admits (Fits judge withoutPhrase) initial run := by
  refine (machine judge withoutPhrase).admits_iff_within (J := Kept) ?_ ?_ ?_ run kept_initial
    ⟨kept_initial.spoken, rfl⟩
  · exact fun w label t hkept hstep => (hkept.sessionStep hstep).1
  · intro w label t hkept hheard hstep
    obtain ⟨hnext, hiff⟩ := hkept.sessionStep hstep
    rw [← hiff hheard.2]
    exact ⟨fun h => h.2, fun h => ⟨hnext.spoken, h⟩⟩
  · intro w label _ _ hstuck
    cases label with
    | committed said answer moment => cases hstuck
    | _ => trivial

/-! ## A run that is not admitted -/

def playing : Moment := ⟨true, true, 0⟩

def stopIt : Text := "yeah but stop".toList

/-- The reply was resumed for a backchannel, and the segment goes on to a request. -/
def resumed : List Label :=
  [.live "yeah".toList playing, .answer (some ⟨.agent, some false⟩), .judged "yeah".toList playing,
    .live stopIt playing, .committed stopIt (some ⟨.agent, some true⟩) playing]

theorem resumed_segment_unheard :
    ∃ w, (machine true fun _ text => text).Reaches Machine.always w ∧ w.unheard = [stopIt] := by
  have hstart : (machine true fun _ text => text).Reaches Machine.always initial := .start rfl
  exact ⟨(machine true fun _ text => text).runTo initial resumed,
    hstart.runTo _ (Machine.admits_always _ _ _) (by decide +kernel), by decide +kernel⟩

end Turns
end VoiceEngine
end Vesta
