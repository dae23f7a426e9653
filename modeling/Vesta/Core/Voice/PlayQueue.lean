import Vesta.Lib.Machine
import Vesta.Lib.Map

/-!
# The play queue of a voice session

A drain loop takes the plays of the queue one at a time: it resolves the url,
waits out a pause, gives the play to the speaker and reports what became of it.
A stop ends the loop by raising the epoch, which the loop reads after each wait.
So a stopped loop may still be suspended while a new one runs, and the two share
the paused flag and the one callback that a resume calls.

`World` holds the variables of the closure, the loops by the order they started
in, and what was enqueued, played and reported since the last stop.  `Orderly`
and `Unstranded` are what the queue promises; `play_queue_iff` says that it keeps
both exactly on the runs whose resumes and speaker ends `Fits` admits.
-/

namespace Vesta
namespace Core
namespace Voice
namespace PlayQueue

open Lib

/-! ## Plays and loops -/

/-- A play as the engine named it.  The serial tells apart two plays of one name. -/
structure Play where
  serial : Nat
  id : String
  path : String
deriving DecidableEq, Repr

inductive PlayReport
  | started
  | finished
  | failed
deriving DecidableEq, Repr

/-- What the queue tells the speaker and the engine about a play. -/
inductive Event
  | play (play : Play) (url : String)
  | report (play : Play) (state : PlayReport)
  | onFailed (play : Play)
deriving DecidableEq, Repr

/-- What the queue tells of itself. -/
inductive Signal
  | pause
  | resume
  | speakingChange (speaking : Bool)
deriving DecidableEq, Repr

/-- Where a drain loop stands: at one of its waits, or past one and about to run on. -/
inductive Stage
  | resolving
  | waiting (url : String)
  | resumed (url : String)
  | playing (url : String)
  | over
deriving DecidableEq, Repr

/-- A drain loop in the play it took last, with the abort signal and the outcome of the play. -/
structure DrainLoop where
  myEpoch : Nat
  play : Play
  stage : Stage
  aborted : Bool
  started : Bool
  gaveUp : Bool
deriving DecidableEq, Repr

structure World where
  queue : List Play
  draining : Bool
  abort : Option Nat
  epoch : Nat
  paused : Bool
  onResume : Option Nat
  sounding : Bool
  loops : Map Nat DrainLoop
  loopCount : Nat
  enqueued : Nat
  accepted : List Play
  log : List Event
  signals : List Signal

/-- What a loop waited for comes, or its turn to run. -/
inductive Move
  | resolved (url : String)
  | resolveFailed
  | pass
  | started
  | watchdog
  | settle (ok : Bool)
  | turn
deriving DecidableEq, Repr

/-- A call of the queue, or a move of one of its loops. -/
inductive Label
  | enqueue (id path : String)
  | pause
  | resume
  | stop
  | loop (i : Nat) (move : Move)
deriving DecidableEq, Repr

def initial : World where
  queue := []
  draining := false
  abort := none
  epoch := 0
  paused := false
  onResume := none
  sounding := false
  loops := ∅
  loopCount := 0
  enqueued := 0
  accepted := []
  log := []
  signals := []

namespace DrainLoop

/-- `playOne` up to its first wait. -/
def begin (myEpoch : Nat) (play : Play) : DrainLoop where
  myEpoch := myEpoch
  play := play
  stage := .resolving
  aborted := false
  started := false
  gaveUp := false

def goto (loop : DrainLoop) (stage : Stage) : DrainLoop :=
  { loop with stage := stage }

/-- The watchdog gives up a play that has not started. -/
def giveUp (loop : DrainLoop) : DrainLoop :=
  if loop.started then loop else { loop with gaveUp := true, aborted := true }

def cancel (loop : DrainLoop) : DrainLoop :=
  { loop with aborted := true }

/-- The promise of `resumed` is kept. -/
def wake (loop : DrainLoop) : DrainLoop :=
  match loop.stage with
  | .waiting url => loop.goto (.resumed url)
  | _ => loop

end DrainLoop

/-- `f` for the loop that a variable refers to, when it refers to one. -/
def callLoop (f : DrainLoop → DrainLoop) (loops : Map Nat DrainLoop) :
    Option Nat → Map Nat DrainLoop
  | none => loops
  | some i => loops.modify i f

namespace World

def put (w : World) (i : Nat) (loop : DrainLoop) : World :=
  { w with loops := w.loops.insert i loop }

def drop (w : World) (i : Nat) : World :=
  { w with loops := w.loops.erase i }

def tell (w : World) (events : List Event) : World :=
  { w with log := w.log ++ events }

def signal (w : World) (signal : Signal) : World :=
  { w with signals := w.signals ++ [signal] }

def setDraining (w : World) (value : Bool) : World :=
  if w.draining = value then w
  else { w with draining := value, signals := w.signals ++ [.speakingChange value] }

/-- The loop shifts the next play, or ends on an empty queue. -/
def shift (w : World) (i myEpoch : Nat) : World :=
  match w.queue with
  | [] => (w.drop i).setDraining false
  | play :: rest =>
      { w with
        queue := rest
        abort := some i
        loops := w.loops.insert i (.begin myEpoch play) }

def drain (w : World) : World :=
  if w.draining then w
  else
    { w.setDraining true with loopCount := w.loopCount + 1 }.shift w.loopCount w.epoch

/-- The queue with one more play, before a loop is started for it. -/
def push (w : World) (play : Play) : World :=
  { w with
    queue := w.queue ++ [play]
    enqueued := w.enqueued + 1
    accepted := w.accepted ++ [play] }

def enqueue (w : World) (id path : String) : World :=
  (w.push ⟨w.enqueued, id, path⟩).drain

def pause (w : World) : World :=
  if w.sounding then { w with paused := true }.signal .pause else { w with paused := true }

/-- `onResume?.()`: the loop that registered last goes on. -/
def callResume (w : World) : World :=
  { w with loops := callLoop .wake w.loops w.onResume, onResume := none }

def resume (w : World) : World :=
  if w.sounding then ({ w with paused := false }.callResume).signal .resume
  else { w with paused := false }.callResume

/-- `abort?.abort()`. -/
def callAbort (w : World) : World :=
  { w with loops := callLoop .cancel w.loops w.abort, abort := none }

def stop (w : World) : World :=
  let emptied := { w with queue := [], epoch := w.epoch + 1, accepted := [], log := [] }
  ({ emptied.callAbort with sounding := false, paused := false }.callResume).setDraining false

/-- The url came: the loop waits out a pause, or goes on in its turn. -/
def resolved (w : World) (i : Nat) (loop : DrainLoop) (url : String) : World :=
  if w.paused then { w.put i (loop.goto (.waiting url)) with onResume := some i }
  else w.put i (loop.goto (.resumed url))

/-- The `finally` of a play. -/
def finish (w : World) (i : Nat) (loop : DrainLoop) : World :=
  if w.abort = some i then
    { w.put i (loop.goto .over) with abort := none, sounding := false }
  else
    w.put i (loop.goto .over)

/-- The `catch` of a play. -/
def caught (w : World) (loop : DrainLoop) : World :=
  if loop.aborted && !loop.gaveUp then w
  else w.tell [.report loop.play .failed, .onFailed loop.play]

/-- Past the pause: a stopped loop leaves, another one gives its play to the speaker. -/
def pass (w : World) (i : Nat) (loop : DrainLoop) (url : String) : World :=
  if w.epoch = loop.myEpoch then
    { (w.put i (loop.goto (.playing url))).tell [.play loop.play url] with sounding := true }
  else
    w.finish i loop

/-- The first sound reaches the speaker. -/
def started (w : World) (i : Nat) (loop : DrainLoop) : World :=
  if loop.aborted then w.put i { loop with started := true }
  else (w.put i { loop with started := true }).tell [.report loop.play .started]

/-- The promise of the speaker is kept. -/
def ended (w : World) (loop : DrainLoop) : World :=
  if loop.gaveUp then w.caught loop
  else if loop.aborted then w
  else w.tell [.report loop.play .finished]

/-- The promise of the speaker is kept or broken. -/
def settle (w : World) (i : Nat) (loop : DrainLoop) (ok : Bool) : World :=
  if ok then (w.ended loop).finish i loop else (w.caught loop).finish i loop

/-- The loop after a play. -/
def turn (w : World) (i : Nat) (loop : DrainLoop) : World :=
  if w.epoch = loop.myEpoch then w.shift i loop.myEpoch else w.drop i

end World

namespace World

/-- A speaker says once at most that a play started, and before the play ends. -/
def advance (w : World) (i : Nat) (loop : DrainLoop) (move : Move) : Option World :=
  match move, loop.stage with
  | .resolved url, .resolving => some (w.resolved i loop url)
  | .resolveFailed, .resolving => some ((w.caught loop).finish i loop)
  | .pass, .resumed url => some (w.pass i loop url)
  | .started, .playing _ => if loop.started then none else some (w.started i loop)
  | .watchdog, .playing _ => some (w.put i loop.giveUp)
  | .settle ok, .playing _ => some (w.settle i loop ok)
  | .turn, .over => some (w.turn i loop)
  | _, _ => none

end World

def step (w : World) : Label → Option World
  | .enqueue id path => some (w.enqueue id path)
  | .pause => some w.pause
  | .resume => some w.resume
  | .stop => some w.stop
  | .loop i move =>
      match w.loops[i]? with
      | some loop => w.advance i loop move
      | none => none

def machine : Machine World Label where
  start w := w = initial
  step := step

/-! ## What the queue promises -/

def Event.about : Event → Play
  | .play subject _ => subject
  | .report subject _ => subject
  | .onFailed subject => subject

/-- The end of a play that was not stopped. -/
inductive Ending (play : Play) : List Event → Prop
  | finished : Ending play [.report play .finished]
  | failed : Ending play [.report play .failed, .onFailed play]

/-- All that is said of a play that was not stopped: it failed without its url, or it went to
the speaker, started or not, and then ended. -/
inductive Account (play : Play) : List Event → Prop
  | unresolved : Account play [.report play .failed, .onFailed play]
  | played (url : String) {ending : List Event} :
      Ending play ending → Account play (.play play url :: ending)
  | heard (url : String) {ending : List Event} :
      Ending play ending → Account play (.play play url :: .report play .started :: ending)

/-- The accounts of plays, one after the other. -/
inductive Accounts : List Play → List Event → Prop
  | nil : Accounts [] []
  | snoc {past : List Play} {log : List Event} {play : Play} {account : List Event} :
      Accounts past log → Account play account → Accounts (past ++ [play]) (log ++ account)

/-- Since the last stop the queue has told the accounts of the first plays in the order of
their arrival, and a part of the account of one more play; the others are still queued. -/
def Orderly (w : World) : Prop :=
  ∃ past log, Accounts past log ∧
    (w.accepted = past ++ w.queue ∧ w.log = log ∨
      ∃ play told rest, Account play (told ++ rest) ∧
        w.accepted = past ++ play :: w.queue ∧ w.log = log ++ told)

/-- A loop that only a resume can move is idle. -/
def Stage.idle : Stage → Bool
  | .waiting _ => true
  | _ => false

/-- A queue that is not paused, and has nothing under way for the plays since the last stop,
is empty and not speaking. -/
def Unstranded (w : World) : Prop :=
  w.paused = false →
    (∀ loop ∈ w.loops.valueList, loop.myEpoch = w.epoch → loop.stage.idle = true) →
      w.queue = [] ∧ w.draining = false

instance : DecidablePred Unstranded := fun _ => inferInstanceAs (Decidable (_ → _))

/-- A resume finds the loop of the queue registered if it waits, and the speaker ends no play of
a stopped loop after the watchdog gave it up. -/
def Fits (w : World) : Label → Prop
  | .resume =>
      ∀ i loop, w.loops[i]? = some loop → loop.myEpoch = w.epoch → loop.stage.idle = true →
        w.onResume = some i
  | .loop i (.settle _) =>
      ∀ loop ∈ w.loops[i]?, ∀ url, loop.stage = .playing url → loop.gaveUp = true →
        loop.myEpoch = w.epoch
  | _ => True

/-! ## What every loop keeps -/

/-- A play that the speaker was not given yet. -/
def Stage.early : Stage → Bool
  | .playing _ => false
  | .over => false
  | _ => true

/-- A loop of a past epoch holds no play of the queue, and was told to abort its play. -/
structure Sound (epoch enqueued : Nat) (accepted : List Play) (loop : DrainLoop) : Prop where
  myEpoch : loop.myEpoch ≤ epoch
  serial : loop.play.serial < enqueued
  early : loop.stage.early = true → loop.started = false ∧ loop.gaveUp = false
  apart : loop.myEpoch ≠ epoch → loop.play ∉ accepted
  aborted : loop.myEpoch ≠ epoch → loop.stage ≠ .over → loop.aborted = true

/-- The loops are sound, under names that were given out. -/
def Loops (w : World) : Prop :=
  ∀ i loop, w.loops[i]? = some loop →
    i < w.loopCount ∧ Sound w.epoch w.enqueued w.accepted loop

section Loops

variable {w : World} {i j : Nat} {loop other : DrainLoop}

theorem lookup_put
    (h : (w.put i loop).loops[j]? = some other) :
    j = i ∧ other = loop ∨ j ≠ i ∧ w.loops[j]? = some other := by
  by_cases hij : i = j
  · subst hij
    exact Or.inl ⟨rfl, by simpa [World.put] using h.symm⟩
  · exact Or.inr ⟨fun hji => hij hji.symm,
      by simpa [World.put, Std.ExtTreeMap.getElem?_insert, hij] using h⟩

theorem lookup_drop
    (h : (w.drop i).loops[j]? = some other) :
    j ≠ i ∧ w.loops[j]? = some other := by
  by_cases hij : i = j
  · subst hij
    simp [World.drop] at h
  · exact ⟨fun hji => hij hji.symm,
      by simpa [World.drop, Std.ExtTreeMap.getElem?_erase, hij] using h⟩

theorem lookup_callLoop
    {f : DrainLoop → DrainLoop} {loops : Map Nat DrainLoop} {called : Option Nat}
    (h : (callLoop f loops called)[j]? = some other) :
    ∃ loop, loops[j]? = some loop ∧
      (called ≠ some j ∧ other = loop ∨ called = some j ∧ other = f loop) := by
  cases called with
  | none => exact ⟨other, h, Or.inl ⟨by simp, rfl⟩⟩
  | some i =>
      by_cases hij : i = j
      · subst hij
        obtain ⟨loop, hloop, rfl⟩ : ∃ loop, loops[i]? = some loop ∧ f loop = other := by
          simpa [callLoop] using h
        exact ⟨loop, hloop, Or.inr ⟨rfl, rfl⟩⟩
      · refine ⟨other, ?_, Or.inl ⟨by simp [hij], rfl⟩⟩
        simpa [callLoop, Std.ExtTreeMap.getElem?_modify, hij] using h

theorem getElem?_callLoop
    {f : DrainLoop → DrainLoop} {loops : Map Nat DrainLoop} {called : Option Nat}
    (hi : loops[i]? = some loop) :
    (callLoop f loops called)[i]? = some (if called = some i then f loop else loop) := by
  cases called with
  | none => simpa [callLoop] using hi
  | some k =>
      by_cases hki : k = i
      · subst hki
        simp [callLoop, hi]
      · simp [callLoop, Std.ExtTreeMap.getElem?_modify, hki, hi]

theorem Loops.put
    (h : Loops w)
    (hi : i < w.loopCount)
    (hloop : Sound w.epoch w.enqueued w.accepted loop) :
    Loops (w.put i loop) := by
  intro j other hother
  rcases lookup_put hother with ⟨rfl, rfl⟩ | ⟨-, hold⟩
  · exact ⟨hi, hloop⟩
  · exact h j other hold

theorem Loops.drop
    (h : Loops w) :
    Loops (w.drop i) :=
  fun j other hother => h j other (lookup_drop hother).2

end Loops

section Sound

variable {epoch enqueued : Nat} {accepted : List Play} {loop : DrainLoop}

theorem Sound.goto
    {stage : Stage}
    (h : Sound epoch enqueued accepted loop)
    (hearly : stage.early = true → loop.stage.early = true)
    (hover : stage ≠ .over → loop.stage ≠ .over) :
    Sound epoch enqueued accepted (loop.goto stage) where
  myEpoch := h.myEpoch
  serial := h.serial
  early := fun hstage => h.early (hearly hstage)
  apart := h.apart
  aborted := fun hepoch hstage => h.aborted hepoch (hover hstage)

theorem Sound.wake
    (h : Sound epoch enqueued accepted loop) :
    Sound epoch enqueued accepted loop.wake := by
  cases hstage : loop.stage with
  | waiting url =>
      have hwake : loop.wake = loop.goto (.resumed url) := by simp [DrainLoop.wake, hstage]
      rw [hwake]
      exact h.goto (by simp [hstage, Stage.early]) (by simp [hstage])
  | _ =>
      have hwake : loop.wake = loop := by simp [DrainLoop.wake, hstage]
      rwa [hwake]

/-- What the speaker and the watchdog change of the outcome of a play. -/
theorem Sound.outcome
    {url : String} {started gaveUp aborted : Bool}
    (h : Sound epoch enqueued accepted loop)
    (hstage : loop.stage = .playing url)
    (haborted : loop.aborted = true → aborted = true) :
    Sound epoch enqueued accepted
      { loop with started := started, gaveUp := gaveUp, aborted := aborted } where
  myEpoch := h.myEpoch
  serial := h.serial
  early := by simp [hstage, Stage.early]
  apart := h.apart
  aborted := fun hepoch hover => haborted (h.aborted hepoch hover)

theorem Sound.started
    {url : String}
    (h : Sound epoch enqueued accepted loop)
    (hstage : loop.stage = .playing url) :
    Sound epoch enqueued accepted { loop with started := true } :=
  h.outcome hstage id

theorem Sound.giveUp
    {url : String}
    (h : Sound epoch enqueued accepted loop)
    (hstage : loop.stage = .playing url) :
    Sound epoch enqueued accepted loop.giveUp := by
  rw [DrainLoop.giveUp]
  split
  · exact h
  · exact h.outcome hstage fun _ => rfl

theorem wake_myEpoch : loop.wake.myEpoch = loop.myEpoch := by
  cases h : loop.stage <;> simp [DrainLoop.wake, DrainLoop.goto, h]

theorem giveUp_myEpoch : loop.giveUp.myEpoch = loop.myEpoch := by
  cases h : loop.started <;> simp [DrainLoop.giveUp, h]

end Sound

/-! ## The loop of the queue -/

/-- What was told of the play that a loop holds. -/
def Told (loop : DrainLoop) (told : List Event) : Prop :=
  match loop.stage with
  | .playing url =>
      told = .play loop.play url ::
        if loop.started && !loop.gaveUp then [.report loop.play .started] else []
  | .over => Account loop.play told
  | _ => told = []

/-- The one loop of the present epoch. -/
structure Serving (w : World) (i : Nat) (loop : DrainLoop) : Prop where
  here : w.loops[i]? = some loop
  epoch : loop.myEpoch = w.epoch
  alone :
    ∀ (j : Nat) (other : DrainLoop), w.loops[j]? = some other → other.myEpoch = w.epoch → j = i
  draining : w.draining = true
  abort : w.abort = if loop.stage = .over then none else some i
  aborted : loop.stage ≠ .over → loop.aborted = loop.gaveUp
  waits : loop.stage.idle = true → w.paused = true
  told :
    ∃ past log told, Accounts past log ∧ w.accepted = past ++ loop.play :: w.queue ∧
      w.log = log ++ told ∧ Told loop told

/-- No loop of the present epoch. -/
structure Resting (w : World) : Prop where
  alone : ∀ (j : Nat) (other : DrainLoop), w.loops[j]? = some other → other.myEpoch ≠ w.epoch
  draining : w.draining = false
  abort : w.abort = none
  queue : w.queue = []
  told : Accounts w.accepted w.log

def Served (w : World) : Prop :=
  Resting w ∨ ∃ i loop, Serving w i loop

/-- What holds along the runs that `Fits` admits. -/
structure Kept (w : World) : Prop where
  loops : Loops w
  accepted : ∀ play ∈ w.accepted, play.serial < w.enqueued
  served : Served w

theorem kept_initial : Kept initial where
  loops := by simp [Loops, initial]
  accepted := fun _ hplay => absurd hplay List.not_mem_nil
  served := Or.inl ⟨by simp [initial], rfl, rfl, rfl, Accounts.nil⟩

section Promises

variable {w : World} {i : Nat} {loop : DrainLoop}

/-- What was told of a play in hand begins its account. -/
theorem Told.account
    {told : List Event}
    (h : Told loop told) :
    ∃ rest, Account loop.play (told ++ rest) := by
  rw [Told] at h
  split at h
  · rename_i url hstage
    refine ⟨[.report loop.play .finished], ?_⟩
    subst h
    split
    · exact Account.heard url Ending.finished
    · exact Account.played url Ending.finished
  · exact ⟨[], by simpa using h⟩
  · subst h
    exact ⟨_, Account.unresolved⟩

theorem Kept.orderly
    (h : Kept w) :
    Orderly w := by
  rcases h.served with hrest | ⟨i, loop, hserving⟩
  · exact ⟨w.accepted, w.log, hrest.told, Or.inl ⟨by simp [hrest.queue], rfl⟩⟩
  · obtain ⟨past, log, told, hpast, haccepted, hlog, htold⟩ := hserving.told
    obtain ⟨rest, haccount⟩ := htold.account
    exact ⟨past, log, hpast, Or.inr ⟨loop.play, told, rest, haccount, haccepted, hlog⟩⟩

theorem Kept.unstranded
    (h : Kept w) :
    Unstranded w := by
  intro hpaused hidle
  rcases h.served with hrest | ⟨i, loop, hserving⟩
  · exact ⟨hrest.queue, hrest.draining⟩
  · have hmem := Map.mem_valueList.2 ⟨i, hserving.here⟩
    have := hserving.waits (hidle loop hmem hserving.epoch)
    rw [hpaused] at this
    exact absurd this Bool.false_ne_true

theorem Account.about
    {play : Play} {account : List Event} {event : Event}
    (h : Account play account)
    (hevent : event ∈ account) :
    event.about = play := by
  cases h with
  | unresolved =>
      simp only [List.mem_cons, List.not_mem_nil, or_false] at hevent
      rcases hevent with rfl | rfl <;> rfl
  | played url hending =>
      cases hending <;> simp only [List.mem_cons, List.not_mem_nil, or_false] at hevent
      · rcases hevent with rfl | rfl <;> rfl
      · rcases hevent with rfl | rfl | rfl <;> rfl
  | heard url hending =>
      cases hending <;> simp only [List.mem_cons, List.not_mem_nil, or_false] at hevent
      · rcases hevent with rfl | rfl | rfl <;> rfl
      · rcases hevent with rfl | rfl | rfl | rfl <;> rfl

theorem Accounts.about
    {past : List Play} {log : List Event} {event : Event}
    (h : Accounts past log)
    (hevent : event ∈ log) :
    event.about ∈ past := by
  induction h with
  | nil => exact absurd hevent List.not_mem_nil
  | snoc _ haccount ih =>
      rcases List.mem_append.1 hevent with hpast | hlast
      · exact List.mem_append_left _ (ih hpast)
      · rw [haccount.about hlast]
        exact List.mem_append_right _ (List.mem_singleton_self _)

/-- What is told since the last stop is about plays enqueued since. -/
theorem Orderly.about
    {event : Event}
    (h : Orderly w)
    (hevent : event ∈ w.log) :
    event.about ∈ w.accepted := by
  obtain ⟨past, log, hpast, ⟨haccepted, rfl⟩ | ⟨play, told, rest, haccount, haccepted, hlog⟩⟩ := h
  · rw [haccepted]
    exact List.mem_append_left _ (hpast.about hevent)
  · rw [hlog] at hevent
    rw [haccepted]
    rcases List.mem_append.1 hevent with hold | hnew
    · exact List.mem_append_left _ (hpast.about hold)
    · rw [haccount.about (List.mem_append_left rest hnew)]
      exact List.mem_append_right _ List.mem_cons_self

end Promises

section Steps

variable {w : World} {i j : Nat} {loop other next : DrainLoop}

theorem Serving.put_other
    (h : Serving w i loop)
    (hj : j ≠ i)
    (hnext : next.myEpoch ≠ w.epoch)
    (r : Option Nat) :
    Serving { w.put j next with onResume := r } i loop where
  here := by simpa [World.put, Std.ExtTreeMap.getElem?_insert, hj] using h.here
  epoch := h.epoch
  alone := by
    intro k other hother hepoch
    rcases lookup_put hother with ⟨-, rfl⟩ | ⟨-, hold⟩
    · exact absurd hepoch hnext
    · exact h.alone k other hold hepoch
  draining := h.draining
  abort := h.abort
  aborted := h.aborted
  waits := h.waits
  told := h.told

theorem Resting.put
    (h : Resting w)
    (hnext : next.myEpoch ≠ w.epoch)
    (r : Option Nat) :
    Resting { w.put j next with onResume := r } where
  alone := by
    intro k other hother
    rcases lookup_put hother with ⟨-, rfl⟩ | ⟨-, hold⟩
    · exact hnext
    · exact h.alone k other hold
  draining := h.draining
  abort := h.abort
  queue := h.queue
  told := h.told

/-- What a loop of a past epoch does disturbs nothing. -/
theorem Kept.put_stopped
    (h : Kept w)
    (hj : w.loops[j]? = some other)
    (hstopped : other.myEpoch ≠ w.epoch)
    (next : DrainLoop)
    (hepoch : next.myEpoch = other.myEpoch)
    (hnext : Sound w.epoch w.enqueued w.accepted next)
    (r : Option Nat) :
    Kept { w.put j next with onResume := r } where
  loops := h.loops.put (h.loops j other hj).1 hnext
  accepted := h.accepted
  served := by
    rw [← hepoch] at hstopped
    rcases h.served with hrest | ⟨i, loop, hserving⟩
    · exact Or.inl (hrest.put hstopped r)
    · refine Or.inr ⟨i, loop, hserving.put_other ?_ hstopped r⟩
      rintro rfl
      rw [hserving.here] at hj
      cases hj
      exact hstopped (hepoch.trans hserving.epoch)

theorem Kept.drop_stopped
    (h : Kept w)
    (hj : w.loops[j]? = some other)
    (hstopped : other.myEpoch ≠ w.epoch) :
    Kept (w.drop j) where
  loops := h.loops.drop
  accepted := h.accepted
  served := by
    rcases h.served with hrest | ⟨i, loop, hserving⟩
    · exact Or.inl ⟨fun k other hother => hrest.alone k other (lookup_drop hother).2,
        hrest.draining, hrest.abort, hrest.queue, hrest.told⟩
    · refine Or.inr ⟨i, loop, ?_, hserving.epoch,
        fun k other hother => hserving.alone k other (lookup_drop hother).2, hserving.draining,
        hserving.abort, hserving.aborted, hserving.waits, hserving.told⟩
      have hji : j ≠ i := by
        rintro rfl
        rw [hserving.here] at hj
        cases hj
        exact hstopped hserving.epoch
      simpa [World.drop, Std.ExtTreeMap.getElem?_erase, hji] using hserving.here

/-- The abort that the queue can call is of the present loop. -/
theorem Kept.abort_ne
    (h : Kept w)
    (hj : w.loops[j]? = some other)
    (hstopped : other.myEpoch ≠ w.epoch) :
    w.abort ≠ some j := by
  intro habort
  rcases h.served with hrest | ⟨i, loop, hserving⟩
  · rw [hrest.abort] at habort
    cases habort
  · rw [hserving.abort] at habort
    split at habort
    · cases habort
    · cases habort
      rw [hserving.here] at hj
      cases hj
      exact hstopped hserving.epoch

/-- What the present loop does in its play. -/
theorem Kept.put_serving
    (h : Kept w)
    (hserving : Serving w i loop)
    (next : DrainLoop)
    (hepoch : next.myEpoch = loop.myEpoch)
    (hplay : next.play = loop.play)
    (hnext : Sound w.epoch w.enqueued w.accepted next)
    {abort : Option Nat}
    (habort : abort = if next.stage = .over then none else some i)
    (haborted : next.stage ≠ .over → next.aborted = next.gaveUp)
    (hwaits : next.stage.idle = true → w.paused = true)
    {log events : List Event}
    (hlog : log = w.log ++ events)
    (htold : ∀ told, Told loop told → Told next (told ++ events))
    (r : Option Nat)
    (sounding : Bool) :
    Kept { w.put i next with log := log, abort := abort, onResume := r, sounding := sounding } where
  loops := h.loops.put (h.loops i loop hserving.here).1 hnext
  accepted := h.accepted
  served := by
    obtain ⟨past, pastLog, told, hpast, haccepted, hw, hloop⟩ := hserving.told
    refine Or.inr ⟨i, next, ?_, hepoch.trans hserving.epoch, ?_, hserving.draining, habort,
      haborted, hwaits, past, pastLog, told ++ events, hpast, ?_, ?_, htold told hloop⟩
    · simp [World.put]
    · intro k other hother hk
      rcases lookup_put hother with ⟨rfl, -⟩ | ⟨-, hold⟩
      · rfl
      · exact hserving.alone k other hold hk
    · rw [hplay]
      exact haccepted
    · rw [hlog, hw, List.append_assoc]

/-- The loop of the queue takes its next play. -/
theorem kept_begin
    {play : Play} {past rest : List Play}
    (hloops : Loops w)
    (haccepted : ∀ play ∈ w.accepted, play.serial < w.enqueued)
    (hi : i < w.loopCount)
    (halone :
      ∀ (j : Nat) (other : DrainLoop), w.loops[j]? = some other → other.myEpoch = w.epoch → j = i)
    (hdraining : w.draining = true)
    (hpast : Accounts past w.log)
    (hqueue : w.accepted = past ++ play :: rest) :
    Kept { w with
      queue := rest
      abort := some i
      loops := w.loops.insert i (.begin w.epoch play) } where
  loops := by
    refine hloops.put hi ⟨Nat.le_refl _, ?_, fun _ => ⟨rfl, rfl⟩, ?_, ?_⟩
    · refine haccepted play ?_
      rw [hqueue]
      exact List.mem_append_right _ List.mem_cons_self
    · exact fun hne => absurd rfl hne
    · exact fun hne => absurd rfl hne
  accepted := haccepted
  served := by
    refine Or.inr ⟨i, .begin w.epoch play, ?_, rfl, ?_, hdraining, ?_, fun _ => rfl, ?_,
      past, w.log, [], hpast, hqueue, ?_, rfl⟩
    · simp
    · intro k other hother hk
      have hother : (w.put i (.begin w.epoch play)).loops[k]? = some other := hother
      rcases lookup_put hother with ⟨rfl, -⟩ | ⟨-, hold⟩
      · rfl
      · exact halone k other hold hk
    · simp [DrainLoop.begin]
    · simp [DrainLoop.begin, Stage.idle]
    · simp

end Steps

/-! ## Moves of a loop -/

/-- What a loop may do, and where. -/
inductive Moved (w : World) (i : Nat) (loop : DrainLoop) : Move → World → Prop
  | resolved (url : String) :
      loop.stage = .resolving →
      Moved w i loop (.resolved url) (w.resolved i loop url)
  | resolveFailed :
      loop.stage = .resolving →
      Moved w i loop .resolveFailed ((w.caught loop).finish i loop)
  | pass {url : String} :
      loop.stage = .resumed url →
      Moved w i loop .pass (w.pass i loop url)
  | started {url : String} :
      loop.stage = .playing url →
      loop.started = false →
      Moved w i loop .started (w.started i loop)
  | watchdog {url : String} :
      loop.stage = .playing url →
      Moved w i loop .watchdog (w.put i loop.giveUp)
  | settle {url : String} (ok : Bool) :
      loop.stage = .playing url →
      Moved w i loop (.settle ok) (w.settle i loop ok)
  | turn :
      loop.stage = .over →
      Moved w i loop .turn (w.turn i loop)

section Moves

variable {w t : World} {i : Nat} {loop : DrainLoop} {move : Move}

theorem moved_of_advance
    (h : w.advance i loop move = some t) :
    Moved w i loop move t := by
  unfold World.advance at h
  split at h
  · rename_i hstage
    cases h
    exact Moved.resolved _ hstage
  · rename_i hstage
    cases h
    exact Moved.resolveFailed hstage
  · rename_i hstage
    cases h
    exact Moved.pass hstage
  · rename_i hstage
    split at h
    · cases h
    · rename_i hstarted
      cases h
      exact Moved.started hstage (Bool.eq_false_iff.2 hstarted)
  · rename_i hstage
    cases h
    exact Moved.watchdog hstage
  · rename_i hstage
    cases h
    exact Moved.settle _ hstage
  · rename_i hstage
    cases h
    exact Moved.turn hstage
  · cases h

theorem caught_of_aborted
    (haborted : loop.aborted = true)
    (hgaveUp : loop.gaveUp = false) :
    w.caught loop = w := by
  simp [World.caught, haborted, hgaveUp]

theorem caught_of_serving
    (haborted : loop.aborted = loop.gaveUp) :
    w.caught loop = w.tell [.report loop.play .failed, .onFailed loop.play] := by
  cases hgaveUp : loop.gaveUp <;> simp [World.caught, haborted, hgaveUp]

theorem finish_of_ne
    (h : w.abort ≠ some i) :
    w.finish i loop = w.put i (loop.goto .over) := by
  simp [World.finish, h]

/-- A loop of a past epoch moves without a word, unless its play was given up. -/
theorem Kept.advance_stopped
    (h : Kept w)
    (hi : w.loops[i]? = some loop)
    (hstopped : loop.myEpoch ≠ w.epoch)
    (hgaveUp : ∀ ok, move = .settle ok → loop.gaveUp = false)
    (hmoved : Moved w i loop move t) :
    Kept t := by
  obtain ⟨-, hsound⟩ := h.loops i loop hi
  have habort := h.abort_ne hi hstopped
  -- whatever stage the loop goes to, the play it holds ends without a report
  have hover : Kept (w.put i (loop.goto .over)) :=
    h.put_stopped hi hstopped (loop.goto .over) rfl
      (hsound.goto (by simp [Stage.early]) (by simp)) w.onResume
  have hcaught :
      loop.stage ≠ .over → loop.gaveUp = false →
        Kept ((w.caught loop).finish i loop) := by
    intro hne hgaveUp
    rw [caught_of_aborted (hsound.aborted hstopped hne) hgaveUp, finish_of_ne habort]
    exact hover
  cases hmoved with
  | resolved url hstage =>
      have hgoto : ∀ stage : Stage, Sound w.epoch w.enqueued w.accepted (loop.goto stage) :=
        fun stage => hsound.goto (by simp [hstage, Stage.early]) (by simp [hstage])
      rw [World.resolved]
      split
      · exact h.put_stopped hi hstopped (loop.goto (.waiting url)) rfl
          (hgoto (.waiting url)) (some i)
      · exact h.put_stopped hi hstopped (loop.goto (.resumed url)) rfl
          (hgoto (.resumed url)) w.onResume
  | resolveFailed hstage =>
      exact hcaught (by simp [hstage]) (hsound.early (by simp [hstage, Stage.early])).2
  | pass hstage =>
      rw [World.pass, if_neg fun heq => hstopped heq.symm, finish_of_ne habort]
      exact hover
  | started hstage _ =>
      rw [World.started, if_pos (hsound.aborted hstopped (by simp [hstage]))]
      exact h.put_stopped hi hstopped ({ loop with started := true }) rfl
        (hsound.started hstage) w.onResume
  | watchdog hstage =>
      exact h.put_stopped hi hstopped loop.giveUp giveUp_myEpoch
        (hsound.giveUp hstage) w.onResume
  | settle ok hstage =>
      have haborted := hsound.aborted hstopped (by simp [hstage])
      have hgaveUp := hgaveUp ok rfl
      rw [World.settle]
      split
      · have hended : w.ended loop = w := by simp [World.ended, hgaveUp, haborted]
        rw [hended, finish_of_ne habort]
        exact hover
      · exact hcaught (by simp [hstage]) hgaveUp
  | turn hstage =>
      rw [World.turn, if_neg fun heq => hstopped heq.symm]
      exact h.drop_stopped hi hstopped

theorem told_early
    {told : List Event}
    (h : Told loop told)
    (hearly : loop.stage.early = true) :
    told = [] := by
  rw [Told] at h
  split at h
  · rename_i hstage
    simp [hstage, Stage.early] at hearly
  · rename_i hstage
    simp [hstage, Stage.early] at hearly
  · exact h

theorem told_of_early
    (hearly : loop.stage.early = true) :
    Told loop [] := by
  rw [Told]
  split
  · rename_i hstage
    simp [hstage, Stage.early] at hearly
  · rename_i hstage
    simp [hstage, Stage.early] at hearly
  · rfl

theorem told_playing
    {url : String} {told : List Event}
    (h : Told loop told)
    (hstage : loop.stage = .playing url) :
    told = .play loop.play url ::
      if loop.started && !loop.gaveUp then [.report loop.play .started] else [] := by
  simpa [Told, hstage] using h

/-- A play on the speaker ends with its account told. -/
theorem account_playing
    {url : String} {told ending : List Event}
    (h : Told loop told)
    (hstage : loop.stage = .playing url)
    (hending : Ending loop.play ending) :
    Account loop.play (told ++ ending) := by
  rw [told_playing h hstage]
  split
  · exact Account.heard url hending
  · exact Account.played url hending

end Moves

section Serving

variable {w t : World} {i : Nat} {loop : DrainLoop} {move : Move}

/-- The present loop takes its next play, or leaves the queue at rest. -/
theorem Kept.shift
    (h : Kept w)
    (hserving : Serving w i loop)
    (hover : loop.stage = .over) :
    Kept (w.shift i loop.myEpoch) := by
  obtain ⟨past, log, told, hpast, haccepted, hlog, htold⟩ := hserving.told
  have haccount : Account loop.play told := by simpa [Told, hover] using htold
  have hpast' : Accounts (past ++ [loop.play]) w.log := by
    rw [hlog]
    exact hpast.snoc haccount
  rw [World.shift, hserving.epoch]
  split
  · rename_i hqueue
    have haccepted' : w.accepted = past ++ [loop.play] := by rw [haccepted, hqueue]
    have hdraining : (w.drop i).draining ≠ false := by simp [World.drop, hserving.draining]
    rw [World.setDraining, if_neg hdraining]
    refine ⟨h.loops.drop, h.accepted, Or.inl ⟨?_, rfl, ?_, hqueue, ?_⟩⟩
    · intro j other hother hepoch
      obtain ⟨hj, hold⟩ := lookup_drop hother
      exact hj (hserving.alone j other hold hepoch)
    · exact hserving.abort.trans (if_pos hover)
    · exact haccepted' ▸ hpast'
  · rename_i play rest hqueue
    refine kept_begin h.loops h.accepted (h.loops i loop hserving.here).1 hserving.alone
      hserving.draining hpast' ?_
    rw [haccepted, hqueue, List.append_assoc]
    rfl

/-- A play on the speaker, or without its url, is ended with a report. -/
theorem Kept.finish
    {ending : List Event}
    (h : Kept w)
    (hserving : Serving w i loop)
    (hstage : loop.stage ≠ .over)
    (haccount : ∀ told, Told loop told → Account loop.play (told ++ ending)) :
    Kept ((w.tell ending).finish i loop) := by
  have habort : (w.tell ending).abort = some i := by
    rw [World.tell, hserving.abort, if_neg hstage]
  rw [World.finish, if_pos habort]
  refine h.put_serving hserving (loop.goto .over) rfl rfl ?_ rfl ?_ ?_ rfl ?_ w.onResume false
  · exact (h.loops i loop hserving.here).2.goto (by simp [Stage.early]) (by simp [hstage])
  · exact fun hne => absurd rfl hne
  · simp [DrainLoop.goto, Stage.idle]
  · exact haccount

theorem Kept.advance_serving
    (h : Kept w)
    (hserving : Serving w i loop)
    (hmoved : Moved w i loop move t) :
    Kept t := by
  obtain ⟨-, hsound⟩ := h.loops i loop hserving.here
  cases hmoved with
  | resolved url hstage =>
      have hearly : loop.stage.early = true := by simp [hstage, Stage.early]
      have hgoto : ∀ stage : Stage, Sound w.epoch w.enqueued w.accepted (loop.goto stage) :=
        fun stage => hsound.goto (fun _ => hearly) (by simp [hstage])
      have hne : loop.stage ≠ .over := by simp [hstage]
      have habort : w.abort = some i := hserving.abort.trans (if_neg hne)
      have htold : ∀ stage : Stage, stage.early = true →
          ∀ told, Told loop told → Told (loop.goto stage) (told ++ []) := by
        intro stage hstage told htold
        rw [told_early htold hearly]
        exact told_of_early hstage
      rw [World.resolved]
      split
      · rename_i hpaused
        exact h.put_serving hserving (loop.goto (.waiting url)) rfl rfl (hgoto _) habort
          (fun _ => hserving.aborted hne) (fun _ => hpaused) (List.append_nil _).symm
          (htold _ rfl) (some i) w.sounding
      · exact h.put_serving hserving (loop.goto (.resumed url)) rfl rfl (hgoto _) habort
          (fun _ => hserving.aborted hne) (by simp [DrainLoop.goto, Stage.idle])
          (List.append_nil _).symm (htold _ rfl) w.onResume w.sounding
  | resolveFailed hstage =>
      have hne : loop.stage ≠ .over := by simp [hstage]
      rw [caught_of_serving (hserving.aborted hne)]
      refine h.finish hserving hne fun told htold => ?_
      rw [told_early htold (by simp [hstage, Stage.early])]
      exact Account.unresolved
  | @pass url hstage =>
      have hearly : loop.stage.early = true := by simp [hstage, Stage.early]
      have hne : loop.stage ≠ .over := by simp [hstage]
      rw [World.pass, if_pos hserving.epoch.symm]
      refine h.put_serving hserving (loop.goto (.playing url)) rfl rfl ?_
        (hserving.abort.trans (if_neg hne))
        (fun _ => hserving.aborted hne) (by simp [DrainLoop.goto, Stage.idle]) rfl ?_ w.onResume
        true
      · exact hsound.goto (fun _ => hearly) (by simp [hstage])
      · intro told htold
        rw [told_early htold hearly]
        simp [Told, DrainLoop.goto, (hsound.early hearly).1]
  | @started url hstage hstarted =>
      have hne : loop.stage ≠ .over := by simp [hstage]
      have habort : w.abort = some i := hserving.abort.trans (if_neg hne)
      have haborted := hserving.aborted hne
      rw [World.started]
      split
      · rename_i hcancelled
        refine h.put_serving hserving { loop with started := true } rfl rfl
          (hsound.started hstage) (habort.trans (if_neg hne).symm) (fun _ => haborted)
          (by simp [hstage, Stage.idle]) (List.append_nil _).symm ?_ w.onResume w.sounding
        intro told htold
        rw [told_playing htold hstage]
        simp [Told, hstage, ← haborted, hcancelled]
      · rename_i hcancelled
        refine h.put_serving hserving { loop with started := true } rfl rfl
          (hsound.started hstage) (habort.trans (if_neg hne).symm) (fun _ => haborted)
          (by simp [hstage, Stage.idle]) rfl ?_ w.onResume w.sounding
        intro told htold
        rw [told_playing htold hstage]
        simp [Told, hstage, ← haborted, hcancelled, hstarted]
  | @watchdog url hstage =>
      have hne : loop.stage ≠ .over := by simp [hstage]
      have habort : w.abort = some i := hserving.abort.trans (if_neg hne)
      have haborted := hserving.aborted hne
      rw [DrainLoop.giveUp]
      split
      · exact h.put_serving hserving loop rfl rfl hsound hserving.abort
          (fun _ => haborted) hserving.waits (List.append_nil _).symm
          (fun told htold => by simpa using htold) w.onResume w.sounding
      · rename_i hstarted
        refine h.put_serving hserving { loop with gaveUp := true, aborted := true } rfl
          rfl (hsound.outcome hstage fun _ => rfl) (habort.trans (if_neg hne).symm)
          (fun _ => rfl) (by simp [hstage, Stage.idle]) (List.append_nil _).symm ?_ w.onResume
          w.sounding
        intro told htold
        rw [told_playing htold hstage]
        simp [Told, hstage, hstarted]
  | @settle url ok hstage =>
      have hne : loop.stage ≠ .over := by simp [hstage]
      have haborted := hserving.aborted hne
      have hcaught : Kept ((w.caught loop).finish i loop) := by
        rw [caught_of_serving haborted]
        exact h.finish hserving hne fun told htold =>
          account_playing htold hstage Ending.failed
      rw [World.settle]
      split
      · rw [World.ended]
        split
        · exact hcaught
        · rename_i hgaveUp
          rw [haborted, if_neg hgaveUp]
          exact h.finish hserving hne fun told htold =>
            account_playing htold hstage Ending.finished
      · exact hcaught
  | turn hstage =>
      rw [World.turn, if_pos hserving.epoch.symm]
      exact h.shift hserving hstage

end Serving

/-! ## Calls of the queue -/

section Calls

variable {w : World} {i : Nat} {loop : DrainLoop}

theorem Kept.enqueue
    (h : Kept w)
    (id path : String) :
    Kept (w.enqueue id path) := by
  obtain ⟨play, hplay⟩ : ∃ play : Play, play = ⟨w.enqueued, id, path⟩ := ⟨_, rfl⟩
  have hserial : play.serial = w.enqueued := by rw [hplay]
  have hloops : Loops (w.push play) := by
    intro j other hother
    obtain ⟨hj, hsound⟩ := h.loops j other hother
    have hfresh : other.play ≠ play := by
      rintro rfl
      exact absurd hserial (Nat.ne_of_lt hsound.serial)
    refine ⟨hj, hsound.myEpoch, Nat.lt_succ_of_lt hsound.serial, hsound.early, ?_,
      hsound.aborted⟩
    intro hstopped hmem
    rcases List.mem_append.1 hmem with hold | hnew
    · exact hsound.apart hstopped hold
    · exact hfresh (List.mem_singleton.1 hnew)
  have haccepted : ∀ other ∈ (w.push play).accepted, other.serial < w.enqueued + 1 := by
    intro other hother
    rcases List.mem_append.1 hother with hold | hnew
    · exact Nat.lt_succ_of_lt (h.accepted other hold)
    · rw [List.mem_singleton.1 hnew, hserial]
      exact Nat.lt_succ_self _
  rw [World.enqueue, ← hplay, World.drain]
  rcases h.served with hrest | ⟨i, loop, hserving⟩
  · have hdraining : (w.push play).draining ≠ true := by simp [World.push, hrest.draining]
    rw [if_neg hdraining, World.setDraining, if_neg hdraining, World.shift]
    have hqueue : (w.push play).queue = [play] := by simp [World.push, hrest.queue]
    simp only [hqueue]
    refine kept_begin (w := { w.push play with
      draining := true
      signals := w.signals ++ [.speakingChange true]
      loopCount := w.loopCount + 1 }) ?_ haccepted (Nat.lt_succ_self _) ?_ rfl hrest.told rfl
    · intro j other hother
      obtain ⟨hj, hsound⟩ := hloops j other hother
      exact ⟨Nat.lt_succ_of_lt hj, hsound⟩
    · exact fun j other hother hepoch => absurd hepoch (hrest.alone j other hother)
  · have hdraining : (w.push play).draining = true := hserving.draining
    rw [if_pos hdraining]
    obtain ⟨past, log, told, hpast, hqueue, hlog, htold⟩ := hserving.told
    refine ⟨hloops, haccepted, Or.inr ⟨i, loop, hserving.here, hserving.epoch, hserving.alone,
      hserving.draining, hserving.abort, hserving.aborted, hserving.waits, past, log, told, hpast,
      ?_, hlog, htold⟩⟩
    simp [World.push, hqueue]

theorem Kept.pause
    (h : Kept w) :
    Kept w.pause := by
  have hserved : ∀ signals : List Signal,
      Served { w with paused := true, signals := signals } := by
    intro signals
    rcases h.served with hrest | ⟨i, loop, hserving⟩
    · exact Or.inl ⟨hrest.alone, hrest.draining, hrest.abort, hrest.queue, hrest.told⟩
    · exact Or.inr ⟨i, loop, hserving.here, hserving.epoch, hserving.alone, hserving.draining,
        hserving.abort, hserving.aborted, fun _ => rfl, hserving.told⟩
  rw [World.pause]
  split
  · exact ⟨h.loops, h.accepted, hserved (w.signals ++ [Signal.pause])⟩
  · exact ⟨h.loops, h.accepted, hserved w.signals⟩

theorem wake_of_not_idle
    (h : loop.stage.idle ≠ true) :
    loop.wake = loop := by
  cases hstage : loop.stage with
  | waiting url => simp [hstage, Stage.idle] at h
  | _ => simp [DrainLoop.wake, hstage]

theorem Loops.callResume
    (h : Loops w) :
    Loops w.callResume := by
  intro j other hother
  obtain ⟨loop, hloop, ⟨-, rfl⟩ | ⟨-, rfl⟩⟩ := lookup_callLoop hother
  · exact h j other hloop
  · obtain ⟨hj, hsound⟩ := h j loop hloop
    exact ⟨hj, hsound.wake⟩

theorem epoch_callResume
    {j : Nat} {other : DrainLoop}
    (h : w.callResume.loops[j]? = some other) :
    ∃ loop, w.loops[j]? = some loop ∧ other.myEpoch = loop.myEpoch := by
  obtain ⟨loop, hloop, ⟨-, rfl⟩ | ⟨-, rfl⟩⟩ := lookup_callLoop h
  · exact ⟨other, hloop, rfl⟩
  · exact ⟨loop, hloop, wake_myEpoch⟩

/-- The loop of the queue goes on at a resume that finds it registered. -/
theorem Kept.callResume
    (h : Kept w)
    (hfits : Fits w .resume) :
    Kept { w with paused := false }.callResume where
  loops := Loops.callResume (w := { w with paused := false }) h.loops
  accepted := h.accepted
  served := by
    rcases h.served with hrest | ⟨i, loop, hserving⟩
    · refine Or.inl ⟨?_, hrest.draining, hrest.abort, hrest.queue, hrest.told⟩
      intro j other hother
      obtain ⟨loop, hloop, hepoch⟩ := epoch_callResume hother
      rw [hepoch]
      exact hrest.alone j loop hloop
    · have halone : ∀ (j : Nat) (other : DrainLoop),
          ({ w with paused := false }.callResume).loops[j]? = some other →
            other.myEpoch = w.epoch → j = i := by
        intro j other hother hj
        obtain ⟨loop, hloop, hepoch⟩ := epoch_callResume hother
        exact hserving.alone j loop hloop (hepoch ▸ hj)
      have hhere : { w with paused := false }.callResume.loops[i]? = _ :=
        getElem?_callLoop hserving.here
      cases hstage : loop.stage with
      | waiting url =>
          have hidle : loop.stage.idle = true := by simp [hstage, Stage.idle]
          have hresume := hfits i loop hserving.here hserving.epoch hidle
          have hwake : loop.wake = loop.goto (.resumed url) := by simp [DrainLoop.wake, hstage]
          rw [if_pos hresume, hwake] at hhere
          obtain ⟨past, log, told, hpast, hqueue, hlog, htold⟩ := hserving.told
          refine Or.inr ⟨i, loop.goto (.resumed url), hhere, hserving.epoch, halone,
            hserving.draining, ?_, ?_, ?_, past, log, told, hpast, hqueue, hlog, ?_⟩
          · exact hserving.abort.trans (by simp [hstage, DrainLoop.goto])
          · exact fun _ => hserving.aborted (by simp [hstage])
          · simp [DrainLoop.goto, Stage.idle]
          · simpa [Told, hstage, DrainLoop.goto] using htold
      | _ =>
          have hidle : loop.stage.idle ≠ true := by simp [hstage, Stage.idle]
          rw [wake_of_not_idle hidle, ite_self] at hhere
          exact Or.inr ⟨i, loop, hhere, hserving.epoch, halone, hserving.draining,
            hserving.abort, hserving.aborted, fun h => absurd h hidle, hserving.told⟩

theorem Kept.signal
    (h : Kept w)
    (signal : Signal) :
    Kept (w.signal signal) where
  loops := h.loops
  accepted := h.accepted
  served := by
    rcases h.served with hrest | ⟨i, loop, hserving⟩
    · exact Or.inl ⟨hrest.alone, hrest.draining, hrest.abort, hrest.queue, hrest.told⟩
    · exact Or.inr ⟨i, loop, hserving.here, hserving.epoch, hserving.alone, hserving.draining,
        hserving.abort, hserving.aborted, hserving.waits, hserving.told⟩

theorem Kept.resume
    (h : Kept w)
    (hfits : Fits w .resume) :
    Kept w.resume := by
  rw [World.resume]
  split
  · exact (h.callResume hfits).signal .resume
  · exact h.callResume hfits

/-- A stop tells the loop of the queue to abort, and leaves it in a past epoch. -/
theorem Kept.callAbort
    (h : Kept w)
    {j : Nat} {other : DrainLoop}
    (hother : w.callAbort.loops[j]? = some other) :
    j < w.loopCount ∧ other.myEpoch ≤ w.epoch ∧ Sound (w.epoch + 1) w.enqueued [] other := by
  obtain ⟨loop, hloop, hother⟩ := lookup_callLoop hother
  obtain ⟨hj, hsound⟩ := h.loops j loop hloop
  have hle := Nat.le_succ_of_le hsound.myEpoch
  rcases hother with ⟨habort, rfl⟩ | ⟨-, rfl⟩
  · refine ⟨hj, hsound.myEpoch, hle, hsound.serial, hsound.early, fun _ => List.not_mem_nil, ?_⟩
    intro _ hover
    by_cases hepoch : other.myEpoch = w.epoch
    · rcases h.served with hrest | ⟨i, present, hserving⟩
      · exact absurd hepoch (hrest.alone j other hloop)
      · obtain rfl := hserving.alone j other hloop hepoch
        rw [hserving.here] at hloop
        cases hloop
        exact absurd (hserving.abort.trans (if_neg hover)) habort
    · exact hsound.aborted hepoch hover
  · exact ⟨hj, hsound.myEpoch, hle, hsound.serial, hsound.early, fun _ => List.not_mem_nil,
      fun _ _ => rfl⟩

theorem Kept.stop
    (h : Kept w) :
    Kept w.stop := by
  obtain ⟨cleared, hcleared⟩ : ∃ cleared : World, cleared =
      { { w with queue := [], epoch := w.epoch + 1, accepted := [], log := [] }.callAbort with
        sounding := false
        paused := false } := ⟨_, rfl⟩
  have hstop : w.stop = cleared.callResume.setDraining false := by
    rw [hcleared]
    rfl
  have hloops : Loops cleared := by
    rw [hcleared]
    exact fun j other hother => ⟨(h.callAbort hother).1, (h.callAbort hother).2.2⟩
  have halone : ∀ (j : Nat) (other : DrainLoop),
      cleared.callResume.loops[j]? = some other → other.myEpoch ≠ w.epoch + 1 := by
    intro j other hother
    obtain ⟨loop, hloop, hepoch⟩ := epoch_callResume hother
    rw [hcleared] at hloop
    rw [hepoch]
    exact Nat.ne_of_lt (Nat.lt_succ_of_le (h.callAbort hloop).2.1)
  have hresting : ∀ signals : List Signal,
      Resting { cleared.callResume with draining := false, signals := signals } := by
    intro signals
    rw [hcleared] at halone ⊢
    exact ⟨halone, rfl, rfl, rfl, Accounts.nil⟩
  have haccepted : ∀ play ∈ cleared.accepted, play.serial < cleared.enqueued := by
    rw [hcleared]
    exact fun _ hplay => absurd hplay List.not_mem_nil
  rw [hstop, World.setDraining]
  split
  · rename_i hdraining
    have hsame := hresting cleared.callResume.signals
    exact ⟨hloops.callResume, haccepted,
      Or.inl ⟨hsame.alone, hdraining, hsame.abort, hsame.queue, hsame.told⟩⟩
  · exact ⟨hloops.callResume, haccepted, Or.inl (hresting _)⟩

end Calls

/-! ## Runs -/

section Runs

variable {w t : World} {label : Label}

theorem step_loop
    {i : Nat} {move : Move}
    (h : step w (.loop i move) = some t) :
    ∃ loop, w.loops[i]? = some loop ∧ Moved w i loop move t := by
  rw [step] at h
  split at h
  · rename_i loop hi
    exact ⟨loop, hi, moved_of_advance h⟩
  · cases h

theorem kept_step
    (h : Kept w)
    (hfits : Fits w label)
    (hstep : step w label = some t) :
    Kept t := by
  cases label with
  | enqueue id path =>
      cases hstep
      exact h.enqueue id path
  | pause =>
      cases hstep
      exact h.pause
  | resume =>
      cases hstep
      exact h.resume hfits
  | stop =>
      cases hstep
      exact h.stop
  | loop i move =>
      obtain ⟨loop, hi, hmoved⟩ := step_loop hstep
      by_cases hepoch : loop.myEpoch = w.epoch
      · rcases h.served with hrest | ⟨k, present, hserving⟩
        · exact absurd hepoch (hrest.alone i loop hi)
        · obtain rfl := hserving.alone i loop hi hepoch
          rw [hserving.here] at hi
          cases hi
          exact h.advance_serving hserving hmoved
      · refine h.advance_stopped hi hepoch ?_ hmoved
        rintro ok rfl
        cases hmoved with
        | settle ok hstage =>
            refine Bool.eq_false_iff.2 fun hgaveUp => hepoch ?_
            exact hfits loop hi _ hstage hgaveUp

/-- A resume that does not find the loop of the queue registered leaves it behind. -/
theorem fits_resume
    (h : Kept w)
    (hunstranded : Unstranded w.resume) :
    Fits w .resume := by
  intro i loop hi hepoch hidle
  rcases h.served with hrest | ⟨k, present, hserving⟩
  · exact absurd hepoch (hrest.alone i loop hi)
  · obtain rfl := hserving.alone i loop hi hepoch
    rw [hserving.here] at hi
    cases hi
    refine by_contra fun hresume => ?_
    have hhere : { w with paused := false }.callResume.loops[i]? = _ :=
      getElem?_callLoop hserving.here
    rw [if_neg hresume] at hhere
    have hstill : w.resume.draining = true ∧ w.resume.paused = false ∧ w.resume.epoch = w.epoch ∧
        w.resume.loops = { w with paused := false }.callResume.loops := by
      rw [World.resume]
      split <;> exact ⟨hserving.draining, rfl, rfl, rfl⟩
    obtain ⟨hdraining, hpaused, hepoch', hloops⟩ := hstill
    have hrested := (hunstranded hpaused ?_).2
    · rw [hdraining] at hrested
      cases hrested
    · intro other hmem hother
      rw [hloops] at hmem
      obtain ⟨j, hj⟩ := Map.mem_valueList.1 hmem
      obtain ⟨before, hbefore, heq⟩ := epoch_callResume hj
      have hji := hserving.alone j before hbefore (by rw [← heq, hother, hepoch'])
      subst hji
      rw [hhere] at hj
      cases hj
      exact hidle

/-- The end of a play of a stopped loop that was given up is reported as failed. -/
theorem fits_settle
    {i : Nat} {ok : Bool} {loop : DrainLoop}
    (h : Kept w)
    (hi : w.loops[i]? = some loop)
    (hgaveUp : loop.gaveUp = true)
    (horderly : Orderly (w.settle i loop ok)) :
    loop.myEpoch = w.epoch := by
  obtain ⟨-, hsound⟩ := h.loops i loop hi
  refine by_contra fun hstopped => hsound.apart hstopped ?_
  have hcaught : w.caught loop = w.tell [.report loop.play .failed, .onFailed loop.play] := by
    simp [World.caught, hgaveUp]
  have hended : w.ended loop = w.caught loop := by simp [World.ended, hgaveUp]
  have hfinish : ∀ v : World,
      (v.finish i loop).log = v.log ∧ (v.finish i loop).accepted = v.accepted := by
    intro v
    rw [World.finish]
    split <;> exact ⟨rfl, rfl⟩
  have hsettle : w.settle i loop ok =
      (w.tell [.report loop.play .failed, .onFailed loop.play]).finish i loop := by
    rw [World.settle, hended, hcaught, ite_self]
  rw [hsettle] at horderly
  have hmem : Event.onFailed loop.play ∈
      ((w.tell [.report loop.play .failed, .onFailed loop.play]).finish i loop).log := by
    simp [hfinish, World.tell]
  have habout := horderly.about hmem
  rw [(hfinish _).2] at habout
  exact habout

theorem step_fits_iff
    (h : Kept w)
    (hstep : step w label = some t) :
    Orderly t ∧ Unstranded t ↔ Fits w label := by
  constructor
  · rintro ⟨horderly, hunstranded⟩
    cases label with
    | resume =>
        cases hstep
        exact fits_resume h hunstranded
    | loop i move =>
        obtain ⟨loop, hi, hmoved⟩ := step_loop hstep
        cases hmoved with
        | settle ok hstage =>
            intro other hother url _ hgaveUp
            rw [hi] at hother
            cases hother
            exact fits_settle h hi hgaveUp horderly
        | _ => trivial
    | _ => trivial
  · intro hfits
    have hkept := kept_step h hfits hstep
    exact ⟨hkept.orderly, hkept.unstranded⟩

theorem fits_of_stuck
    (hstep : step w label = none) :
    Fits w label := by
  cases label with
  | resume => cases hstep
  | loop i move =>
      cases move with
      | settle ok =>
          intro loop hi url hstage _
          rw [step, hi] at hstep
          simp [World.advance, hstage] at hstep
      | _ => trivial
  | _ => trivial

end Runs

/-- The queue keeps its order and strands no play on exactly the runs in which each resume finds
the waiting loop registered and no stopped play ends after the watchdog gave it up. -/
theorem play_queue_iff (run : List Label) :
    machine.Admits (fun w label => ∀ t ∈ step w label, Orderly t ∧ Unstranded t) initial run ↔
      machine.Admits Fits initial run :=
  machine.admits_iff_while
    (fun _ _ _ hkept _ hfits => kept_step hkept hfits)
    (fun _ _ _ hkept _ hstep => step_fits_iff hkept hstep)
    (fun _ _ _ _ hstep => fits_of_stuck hstep)
    run kept_initial ⟨kept_initial.orderly, kept_initial.unstranded⟩

/-- The url of a stopped play comes during a pause in which the next play waits. -/
def stranding : List Label :=
  [.enqueue "a" "/a", .stop, .enqueue "b" "/b", .pause,
    .loop 1 (.resolved "url-b"), .loop 0 (.resolved "url-a"), .resume, .loop 0 .pass,
    .loop 0 .turn]

/-- After the resume nothing is under way, and the play still waits. -/
theorem resume_strands_play :
    ∃ w, machine.Reaches Machine.always w ∧ ¬ Unstranded w ∧
      w.paused = false ∧ (∀ loop ∈ w.loops.valueList, loop.stage.idle = true) ∧
        w.draining = true := by
  have hstart : machine.Reaches Machine.always initial := .start rfl
  exact ⟨machine.runTo initial stranding,
    hstart.runTo stranding (Machine.admits_always _ _ _) (by decide +kernel),
    by decide +kernel, by decide +kernel, by decide +kernel, by decide +kernel⟩

end PlayQueue
end Voice
end Core
end Vesta
