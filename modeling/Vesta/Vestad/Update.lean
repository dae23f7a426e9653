import Mathlib.Data.List.Basic
import Vesta.Lib.Machine
import Vesta.Vestad.Operation

/-!
# Gateway updates and their ledger

An update takes the operation slot, backs up the agents, swaps the gateway's binary and
restarts the process.  At every phase it moves the slot and then writes a ledger file,
which is all that survives the restart.  A failed update puts the failure into the slot
and then removes the ledger.  A starting process reads the ledger, removes it and says
how the update ended.

The process may die between any two of these calls, and its updates and restarts go on
side by side, one call of one of them at a time.  A started update is numbered, and the
attempt of the ledger last written is remembered until the update that wrote it has
removed the ledger or a start has; both are kept for the statements only.
-/

namespace Vesta
namespace Vestad
namespace Update

open Lib
open Operation

structure UpdateLedger where
  targetVersion : String
  phase : UpdatePhase
  warnings : List String
deriving DecidableEq

/-- What a start does about the update that the ledger describes. -/
inductive BootRecovery
  | normal
  | updated (version : String) (warnings : List String)
  | interrupted (targetVersion : String) (during : UpdateStage)
deriving DecidableEq

/-- `recover_at_boot`, from the ledger that is read; the ledger is removed. -/
def recoverAtBoot (ledger : Option UpdateLedger) (runningVersion : String) : BootRecovery :=
  match ledger with
  | none => .normal
  | some ledger =>
      if runningVersion = ledger.targetVersion then
        .updated ledger.targetVersion ledger.warnings
      else
        .interrupted ledger.targetVersion ledger.phase.stage

/-- An update that holds or held the slot: its number, its target, the agents it backs up
and how many it is done with. -/
structure UpdateRun where
  no : Nat
  target : String
  agents : List String
  index : Nat
deriving DecidableEq

/-- Where an update or a restart stands: the call it makes next. -/
inductive Task
  /-- `advance`: to move the slot. -/
  | setPhase (run : UpdateRun) (phase : UpdatePhase)
  /-- `advance`: to write the ledger. -/
  | writeLedger (run : UpdateRun) (ledger : UpdateLedger)
  | listAgents (run : UpdateRun)
  | snapshotAgent (run : UpdateRun) (agent : String)
  | warn (run : UpdateRun) (warning : String)
  | updateBinary (run : UpdateRun)
  | isThisProcess (run : UpdateRun)
  | restartSelf (run : UpdateRun)
  /-- `fail`: to put the failure into the slot. -/
  | setFailed (run : UpdateRun) (during : UpdateStage) (error : String)
  /-- `fail`: to remove the ledger. -/
  | clearFailed (run : UpdateRun)
  /-- `finish`: to remove the ledger. -/
  | clearFinished (run : UpdateRun)
  /-- `finish`, or a restart that failed: to empty the slot. -/
  | clearSlot
  | restartGateway
  /-- The restart was accepted and stops this process. -/
  | dying (run : Option UpdateRun)
  | done
deriving DecidableEq

/-- What the calls outside the process answer. -/
structure Answer where
  agents : List String
  error : Option String
  systemd : Bool

/-- The phase after the agents that are done. -/
def UpdateRun.nextPhase (run : UpdateRun) : UpdatePhase :=
  match run.agents[run.index]? with
  | some agent =>
      .snapshotting (some agent) (min run.index (UInt32.size - 1))
        (min run.agents.length (UInt32.size - 1))
  | none => .applying

/-- What an update does after it advanced to a phase. -/
def UpdateRun.afterAdvance (run : UpdateRun) : UpdatePhase → Task
  | .snapshotting none _ _ => .listAgents run
  | .snapshotting (some agent) _ _ => .snapshotAgent run agent
  | .applying => .updateBinary run
  | .restarting => .restartSelf run
  | .failed _ _ => .done

/-- Go on with the agent after this one. -/
def UpdateRun.nextAgent (run : UpdateRun) : Task :=
  let run := { run with index := run.index + 1 }
  .setPhase run run.nextPhase

/-- The attempt that a ledger stands for: the task that wrote it, the number of its update
and the ledger. -/
structure Attempt where
  task : Nat
  no : Nat
  ledger : UpdateLedger
deriving DecidableEq

/-- How far a process is with its start. -/
inductive Boot
  | reading (found : Option Attempt)
  | clearing (found : Option Attempt) (ledger : UpdateLedger)
  | recovered (recovery : BootRecovery)
  | serving
deriving DecidableEq

structure Process where
  version : String
  boot : Boot
  slot : OperationSlot
  tasks : List Task
deriving DecidableEq

/-- What a start reported, of the attempt it found. -/
structure Report where
  attempt : Option Attempt
  running : String
  recovery : BootRecovery
deriving DecidableEq

/-- The ledger file, the version of the installed binary and the process, if it runs; and
for the statements the attempt under way, the number of operations started and the
reports. -/
structure World where
  ledger : Option UpdateLedger
  installed : String
  process : Option Process
  attempt : Option Attempt
  attempts : Nat
  reports : List Report
deriving DecidableEq

inductive Label
  /-- Another binary is put in place. -/
  | install (version : String)
  | crash
  | start
  /-- The start's next call. -/
  | boot
  /-- `start_update`, with the newer release that it found. -/
  | startUpdate (target : String)
  | restartGateway
  | dismiss
  /-- The next call of a task. -/
  | advance (task : Nat) (answer : Answer)

/-- The process with a task at its next call. -/
def World.enter (w : World) (p : Process) (i : Nat) (task : Task) : World :=
  { w with process := some { p with tasks := p.tasks.set i task } }

/-- The attempt after a task removed the ledger. -/
def World.ended (w : World) (i : Nat) : Option Attempt :=
  w.attempt.filter fun attempt => attempt.task ≠ i

def stepTask (w : World) (p : Process) (i : Nat) (answer : Answer) : Task → Option World
  | .setPhase run phase =>
      let moved := setPhase p.slot phase
      some
        (w.enter { p with slot := moved.1 } i
          (.writeLedger run { targetVersion := run.target, phase, warnings := moved.2 }))
  | .writeLedger run ledger =>
      some
        { w.enter p i (run.afterAdvance ledger.phase) with
          ledger := some ledger
          attempt := some { task := i, no := run.no, ledger } }
  | .listAgents run =>
      let run := { run with agents := answer.agents }
      some (w.enter p i (.setPhase run run.nextPhase))
  | .snapshotAgent run agent =>
      match answer.error with
      | none => some (w.enter p i run.nextAgent)
      | some error =>
          some (w.enter p i (.warn run (agent ++ ": backup failed (" ++ error ++ ")")))
  | .warn run warning =>
      some (w.enter { p with slot := Operation.warn p.slot warning } i run.nextAgent)
  | .updateBinary run =>
      match answer.error with
      | none => some { w.enter p i (.isThisProcess run) with installed := run.target }
      | some error => some (w.enter p i (.setFailed run .applying error))
  | .isThisProcess run =>
      if answer.systemd then
        some (w.enter p i (.setPhase run .restarting))
      else
        some (w.enter p i (.clearFinished run))
  | .restartSelf run =>
      match answer.error with
      | none => some (w.enter p i (.dying (some run)))
      | some error => some (w.enter p i (.setFailed run .restarting error))
  | .setFailed run during error =>
      let moved := setPhase p.slot (.failed during error)
      some (w.enter { p with slot := moved.1 } i (.clearFailed run))
  | .clearFailed _ =>
      some { w.enter p i .done with ledger := none, attempt := w.ended i }
  | .clearFinished _ =>
      some { w.enter p i .clearSlot with ledger := none, attempt := w.ended i }
  | .clearSlot => some (w.enter { p with slot := none } i .done)
  | .restartGateway =>
      match answer.error with
      | none => some (w.enter p i (.dying none))
      | some _ => some (w.enter p i .clearSlot)
  | .dying _ => none
  | .done => none

attribute [grind =] stepTask

/-- The process takes the slot for a new task. -/
def claimFor (w : World) (p : Process) (operation : ActiveOperation) (task : Task) :
    Option World :=
  match claim p.slot operation with
  | .error _ => none
  | .ok slot =>
      some
        { w with
          process := some { p with slot, tasks := p.tasks ++ [task] }
          attempts := w.attempts + 1 }

/-- The next call of a start. -/
def stepBoot (w : World) (p : Process) : Option World :=
  match p.boot with
  | .reading found =>
      match w.ledger with
      | none =>
          some
            { w with
              process := some { p with boot := .recovered (recoverAtBoot none p.version) }
              reports := w.reports ++ [⟨found, p.version, recoverAtBoot none p.version⟩] }
      | some ledger => some { w with process := some { p with boot := .clearing found ledger } }
  | .clearing found ledger =>
      let recovery := recoverAtBoot (some ledger) p.version
      some
        { w with
          ledger := none
          attempt := none
          process := some { p with boot := .recovered recovery }
          reports := w.reports ++ [⟨found, p.version, recovery⟩] }
  | .recovered recovery =>
      let slot := match recovery with
        | .interrupted targetVersion during => setInterrupted targetVersion during
        | _ => p.slot
      some { w with process := some { p with boot := .serving, slot } }
  | .serving => none

def initialPhase : UpdatePhase := .snapshotting none 0 0

def step (w : World) : Label → Option World
  | .install version => some { w with installed := version }
  | .crash => some { w with process := none }
  | .start =>
      match w.process with
      | some _ => none
      | none =>
          some
            { w with
              process :=
                some
                  { version := w.installed, boot := .reading w.attempt, slot := none, tasks := [] } }
  | .boot => w.process.bind (stepBoot w)
  | .startUpdate target =>
      w.process.bind fun p =>
        if p.boot = .serving then
          claimFor w p
            (.update { targetVersion := target, phase := initialPhase, warnings := [] })
            (.setPhase { no := w.attempts, target, agents := [], index := 0 } initialPhase)
        else
          none
  | .restartGateway =>
      w.process.bind fun p =>
        if p.boot = .serving then claimFor w p .restart .restartGateway else none
  | .dismiss =>
      w.process.bind fun p =>
        if p.boot = .serving then
          some { w with process := some { p with slot := (dismiss p.slot).1 } }
        else
          none
  | .advance i answer =>
      w.process.bind fun p => p.tasks[i]?.bind (stepTask w p i answer)

attribute [grind =] step

/-- No ledger, no process, no attempt yet. -/
def initial (installed : String) : World where
  ledger := none
  installed := installed
  process := none
  attempt := none
  attempts := 0
  reports := []

def machine : Machine World Label where
  start w := ∃ installed, w = initial installed
  step := step

/-! ## What a crash leaves -/

/-- Whether a task holds the slot. -/
def Task.holds : Task → Bool
  | clearFailed _ => false
  | done => false
  | _ => true

/-- The update of a task between two of its advances. -/
def Task.advanced : Task → Option UpdateRun
  | listAgents run => some run
  | snapshotAgent run _ => some run
  | warn run _ => some run
  | updateBinary run => some run
  | isThisProcess run => some run
  | restartSelf run => some run
  | setFailed run _ _ => some run
  | clearFinished run => some run
  | dying run => run
  | _ => none

/-- How an attempt ended, as the next start is to say. -/
def verdict (attempt : Option Attempt) (running : String) : BootRecovery :=
  match attempt with
  | none => .normal
  | some attempt =>
      if running = attempt.ledger.targetVersion then
        .updated attempt.ledger.targetVersion attempt.ledger.warnings
      else
        .interrupted attempt.ledger.targetVersion attempt.ledger.phase.stage

/-- The numbers of the attempts that starts reported. -/
def reported (reports : List Report) : List Nat :=
  reports.filterMap fun report => report.attempt.map (·.no)

/-- The slot and the ledger are of one update and in one phase. -/
def Agrees (w : World) (p : Process) (run : UpdateRun) : Prop :=
  ∃ active ledger, p.slot = some (.update active) ∧ w.ledger = some ledger ∧
    active.phase = ledger.phase ∧ active.targetVersion = run.target ∧
      ledger.targetVersion = run.target

/-- Every start reported what became of the attempt it found, and the next one would; no
attempt is reported twice; a served process has no ledger until an update starts; the
slot agrees with the ledger after every advance; and one task at most holds the slot. -/
structure CrashSafe (w : World) : Prop where
  reports : ∀ report ∈ w.reports, report.recovery = verdict report.attempt report.running
  next : ∀ running, recoverAtBoot w.ledger running = verdict w.attempt running
  once : (reported w.reports).Nodup
  cleared : ∀ p, w.process = some p → p.boot = .serving → p.tasks = [] → w.ledger = none
  agree :
    ∀ p, w.process = some p → ∀ task ∈ p.tasks, ∀ run, task.advanced = some run → Agrees w p run
  single :
    ∀ p, w.process = some p → ∀ (i j : Nat) (a b : Task), p.tasks[i]? = some a →
      p.tasks[j]? = some b → a.holds = true → b.holds = true → i = j

/-- The label does not remove, for an update that failed, the ledger of another. -/
def clearsOwn (w : World) : Label → Bool
  | .advance i _ =>
      match w.process.bind fun p => p.tasks[i]? with
      | some (.clearFailed _) => w.attempt.all fun attempt => attempt.task = i
      | _ => true
  | _ => true

/-- The update of a task. -/
def Task.run : Task → Option UpdateRun
  | setPhase run _ => some run
  | writeLedger run _ => some run
  | clearFailed run => some run
  | task => task.advanced

/-- The slot and the attempt are of one update and in one phase. -/
def Linked (w : World) (p : Process) (i : Nat) (run : UpdateRun) : Prop :=
  ∃ active ledger, p.slot = some (.update active) ∧
    w.attempt = some { task := i, no := run.no, ledger } ∧ active.phase = ledger.phase ∧
      active.targetVersion = run.target ∧ ledger.targetVersion = run.target ∧
        active.phase.isFailed = false

/-- What holds of the world at each point of a task. -/
def TaskInv (w : World) (p : Process) (i : Nat) : Task → Prop
  | .setPhase run phase =>
      phase.isFailed = false ∧
        ∃ active, p.slot = some (.update active) ∧ active.targetVersion = run.target ∧
          active.phase.isFailed = false
  | .writeLedger run ledger =>
      ledger.targetVersion = run.target ∧ ledger.phase.isFailed = false ∧
        ∃ active, p.slot = some (.update active) ∧ active.targetVersion = run.target ∧
          active.phase = ledger.phase
  | .listAgents run => Linked w p i run
  | .snapshotAgent run _ => Linked w p i run
  | .warn run _ => Linked w p i run
  | .updateBinary run => Linked w p i run
  | .isThisProcess run => Linked w p i run
  | .restartSelf run => Linked w p i run
  | .setFailed run _ _ => Linked w p i run
  | .clearFinished run => Linked w p i run
  | .dying (some run) => Linked w p i run
  | .dying none => p.slot = some .restart
  | .restartGateway => p.slot = some .restart
  | .clearSlot => (runningPhase p.slot).isSome = true
  | .clearFailed _ => True
  | .done => True

/-- How far a process is with its start, and what it has found. -/
def BootInv (w : World) (p : Process) : Prop :=
  match p.boot with
  | .reading found => found = w.attempt ∧ p.tasks = []
  | .clearing found ledger => found = w.attempt ∧ w.ledger = some ledger ∧ p.tasks = []
  | .recovered _ => w.attempt = none ∧ p.tasks = []
  | .serving => p.tasks = [] → w.attempt = none

structure ProcessInv (w : World) (p : Process) : Prop where
  task : ∀ (i : Nat) (t : Task), p.tasks[i]? = some t → TaskInv w p i t
  unique :
    ∀ (i j : Nat) (a b : Task), p.tasks[i]? = some a → p.tasks[j]? = some b →
      a.holds = true → b.holds = true → i = j
  fresh :
    ∀ t ∈ p.tasks, ∀ run, t.run = some run →
      run.no < w.attempts ∧ run.no ∉ reported w.reports
  boot : BootInv w p

/-- The invariant: the ledger is the attempt's. -/
structure Sound (w : World) : Prop where
  ledger : w.ledger = w.attempt.map (·.ledger)
  reports : ∀ report ∈ w.reports, report.recovery = verdict report.attempt report.running
  once : (reported w.reports).Nodup
  counted : ∀ no ∈ reported w.reports, no < w.attempts
  attempt :
    ∀ attempt, w.attempt = some attempt →
      attempt.no < w.attempts ∧ attempt.no ∉ reported w.reports
  process : ∀ p, w.process = some p → ProcessInv w p

section Runs

variable {w t : World} {p : Process}

theorem recoverAtBoot_eq (attempt : Option Attempt) (running : String) :
    recoverAtBoot (attempt.map (·.ledger)) running = verdict attempt running := by
  cases attempt <;> rfl

theorem runningPhase_update
    {active : ActiveUpdate}
    (h : active.phase.isFailed = false) :
    (runningPhase (some (.update active))).isSome = true := by
  simp [runningPhase, ActiveOperation.phase, Option.filter, h]

/-- A task that holds the slot holds it for a live operation. -/
theorem TaskInv.live
    {i : Nat} {task : Task}
    (h : TaskInv w p i task)
    (hholds : task.holds = true) :
    (runningPhase p.slot).isSome = true := by
  have hlinked : ∀ run, Linked w p i run → (runningPhase p.slot).isSome = true := by
    rintro run ⟨active, ledger, hslot, -, -, -, -, hlive⟩
    rw [hslot]
    exact runningPhase_update hlive
  cases task with
  | setPhase run phase =>
      obtain ⟨-, active, hslot, -, hlive⟩ := h
      rw [hslot]
      exact runningPhase_update hlive
  | writeLedger run ledger =>
      obtain ⟨-, hlive, active, hslot, -, hphase⟩ := h
      rw [hslot]
      exact runningPhase_update (hphase ▸ hlive)
  | listAgents run => exact hlinked run h
  | snapshotAgent run agent => exact hlinked run h
  | warn run warning => exact hlinked run h
  | updateBinary run => exact hlinked run h
  | isThisProcess run => exact hlinked run h
  | restartSelf run => exact hlinked run h
  | setFailed run during error => exact hlinked run h
  | clearFinished run => exact hlinked run h
  | dying run =>
      cases run with
      | none =>
          have hslot : p.slot = some .restart := h
          rw [hslot]
          rfl
      | some run => exact hlinked run h
  | restartGateway =>
      have hslot : p.slot = some .restart := h
      rw [hslot]
      rfl
  | clearSlot => exact h
  | clearFailed run => cases hholds
  | done => cases hholds

theorem TaskInv.of_not_holds
    {i : Nat} {task : Task}
    (h : task.holds = false) :
    TaskInv w p i task := by
  cases task with
  | clearFailed run => trivial
  | done => trivial
  | _ => cases h

/-- A task between two advances is linked to the attempt. -/
theorem TaskInv.linked
    {i : Nat} {task : Task} {run : UpdateRun}
    (h : TaskInv w p i task)
    (hadvanced : task.advanced = some run) :
    Linked w p i run := by
  cases task with
  | dying run' =>
      cases run' with
      | none => cases hadvanced
      | some run' =>
          cases hadvanced
          exact h
  | _ =>
      cases hadvanced
      try exact h

theorem Sound.safe (h : Sound w) : CrashSafe w where
  reports := h.reports
  next running := by rw [h.ledger, recoverAtBoot_eq]
  once := h.once
  cleared p hp hserving htasks := by
    have hboot := (h.process p hp).boot
    rw [BootInv, hserving] at hboot
    rw [h.ledger, hboot htasks]
    rfl
  agree p hp task htask run hadvanced := by
    obtain ⟨i, hi⟩ := List.mem_iff_getElem?.1 htask
    obtain ⟨active, ledger, hslot, hattempt, hphase, htarget, hledger, -⟩ :=
      ((h.process p hp).task i task hi).linked hadvanced
    exact ⟨active, ledger, hslot, by rw [h.ledger, hattempt]; rfl, hphase, htarget, hledger⟩
  single p hp := (h.process p hp).unique

/-- A task that holds the slot goes on: the other tasks hold nothing. -/
theorem Sound.enter
    (h : Sound w)
    (hp : w.process = some p)
    {i : Nat} {task task' : Task}
    (hi : p.tasks[i]? = some task)
    (hholds : task.holds = true)
    (hrun : ∀ run, task'.run = some run → task.run.map (·.no) = some run.no)
    {slot : OperationSlot} {ledger : Option UpdateLedger} {installed : String}
    {attempt : Option Attempt}
    (hledger : ledger = attempt.map (·.ledger))
    (hattempt :
      ∀ a, attempt = some a → a.no < w.attempts ∧ a.no ∉ reported w.reports)
    (htask :
      TaskInv
        { w with
          ledger, installed, attempt
          process := some { p with slot, tasks := p.tasks.set i task' } }
        { p with slot, tasks := p.tasks.set i task' } i task') :
    Sound
      { w with
        ledger, installed, attempt
        process := some { p with slot, tasks := p.tasks.set i task' } } := by
  have hproc := h.process p hp
  have hlt : i < p.tasks.length := (List.getElem?_eq_some_iff.1 hi).1
  have hother : ∀ (j : Nat) (other : Task),
      j ≠ i → p.tasks[j]? = some other → other.holds = false := by
    intro j other hj hget
    exact Bool.eq_false_iff.2 fun hheld => hj (hproc.unique j i other task hget hi hheld hholds)
  refine ⟨hledger, h.reports, h.once, h.counted, hattempt, ?_⟩
  rintro q ⟨⟩
  refine ⟨?_, ?_, ?_, ?_⟩
  · intro j other hget
    by_cases hj : j = i
    · subst hj
      rw [List.getElem?_set_self hlt] at hget
      cases hget
      exact htask
    · rw [List.getElem?_set_ne (Ne.symm hj)] at hget
      exact TaskInv.of_not_holds (hother j other hj hget)
  · intro j k a b ha hb hheld hheld'
    have hself : ∀ (j : Nat) (a : Task),
        (p.tasks.set i task')[j]? = some a → a.holds = true → j = i := by
      intro j a ha hheld
      by_contra hj
      rw [List.getElem?_set_ne (Ne.symm hj)] at ha
      rw [hother j a hj ha] at hheld
      cases hheld
    rw [hself j a ha hheld, hself k b hb hheld']
  · intro other hmem run hother
    rcases List.mem_or_eq_of_mem_set hmem with hmem | rfl
    · exact hproc.fresh other hmem run hother
    · obtain ⟨before, hbefore, hno⟩ := Option.map_eq_some_iff.1 (hrun run hother)
      rw [← hno]
      exact hproc.fresh task (List.mem_of_getElem? hi) before hbefore
  · have hboot := hproc.boot
    have hne : p.tasks ≠ [] := by
      intro hnil
      simp [hnil] at hlt
    have hne' : p.tasks.set i task' ≠ [] := by
      intro hnil
      exact hne ((List.set_eq_nil_iff _ _).1 hnil)
    rw [BootInv] at hboot ⊢
    cases hcase : p.boot with
    | serving => exact fun hnil => absurd hnil hne'
    | reading found =>
        rw [hcase] at hboot
        exact absurd hboot.2 hne
    | clearing found ledger =>
        rw [hcase] at hboot
        exact absurd hboot.2.2 hne
    | recovered recovery =>
        rw [hcase] at hboot
        exact absurd hboot.2 hne

theorem nextPhase_live (run : UpdateRun) : run.nextPhase.isFailed = false := by
  rw [UpdateRun.nextPhase]
  split <;> rfl

theorem run_afterAdvance
    {run run' : UpdateRun} {phase : UpdatePhase}
    (h : (run.afterAdvance phase).run = some run') :
    run' = run := by
  cases phase with
  | snapshotting agent done total =>
      cases agent <;>
        · cases h
          rfl
  | applying =>
      cases h
      rfl
  | restarting =>
      cases h
      rfl
  | failed during error => cases h

theorem Linked.afterAdvance
    {i : Nat} {run : UpdateRun}
    (h : Linked w p i run)
    (phase : UpdatePhase) :
    TaskInv w p i (run.afterAdvance phase) := by
  cases phase with
  | snapshotting agent done total => cases agent <;> exact h
  | applying => exact h
  | restarting => exact h
  | failed during error => trivial

/-- An advance from a point between two of them. -/
theorem Linked.setPhase
    {i : Nat} {run run' : UpdateRun} {phase : UpdatePhase}
    (h : Linked w p i run)
    (htarget : run'.target = run.target)
    (hphase : phase.isFailed = false) :
    TaskInv w p i (.setPhase run' phase) := by
  obtain ⟨active, ledger, hslot, -, -, hactive, -, hlive⟩ := h
  exact ⟨hphase, active, hslot, by rw [hactive, htarget], hlive⟩

/-- The attempt of a task has ended once the task removed the ledger. -/
theorem Linked.ended
    {i : Nat} {run : UpdateRun}
    (h : Linked w p i run) :
    w.ended i = none := by
  obtain ⟨active, ledger, -, hattempt, -⟩ := h
  rw [World.ended, hattempt]
  simp [Option.filter]

/-- The next call of a task that holds the slot. -/
theorem Sound.stepHolder
    (h : Sound w)
    (hp : w.process = some p)
    {i : Nat} {task : Task} {answer : Answer}
    (hi : p.tasks[i]? = some task)
    (hholds : task.holds = true)
    (hstep : stepTask w p i answer task = some t) :
    Sound t := by
  have htask := (h.process p hp).task i task hi
  have hfresh := (h.process p hp).fresh task (List.mem_of_getElem? hi)
  cases task with
  | setPhase run phase =>
      obtain ⟨hphase, active, hslot, htarget, hlive⟩ := htask
      cases hstep
      refine h.enter hp hi hholds (by rintro _ ⟨⟩; rfl) h.ledger h.attempt ?_
      rw [hslot]
      exact ⟨rfl, hphase, { active with phase }, rfl, htarget, rfl⟩
  | writeLedger run ledger =>
      obtain ⟨htarget, hlive, active, hslot, hactive, hphase⟩ := htask
      cases hstep
      refine h.enter hp hi hholds (fun run' hrun' => ?_) rfl ?_ ?_
      · rw [run_afterAdvance hrun']
        rfl
      · rintro a ⟨⟩
        exact hfresh run rfl
      · refine Linked.afterAdvance ?_ ledger.phase
        exact ⟨active, ledger, hslot, rfl, hphase, hactive, htarget, hphase ▸ hlive⟩
  | listAgents run =>
      have hlinked : Linked w p i run := htask
      cases hstep
      exact h.enter hp hi hholds (by rintro _ ⟨⟩; rfl) h.ledger h.attempt
        (hlinked.setPhase rfl (nextPhase_live _))
  | snapshotAgent run agent =>
      have hlinked : Linked w p i run := htask
      rw [stepTask] at hstep
      split at hstep
      · cases hstep
        exact h.enter hp hi hholds (by rintro _ ⟨⟩; rfl) h.ledger h.attempt
          (hlinked.setPhase rfl (nextPhase_live _))
      · cases hstep
        exact h.enter hp hi hholds (by rintro _ ⟨⟩; rfl) h.ledger h.attempt hlinked
  | warn run warning =>
      obtain ⟨active, ledger, hslot, -, -, hactive, -, hlive⟩ := htask
      cases hstep
      refine h.enter hp hi hholds (by rintro _ ⟨⟩; rfl) h.ledger h.attempt ?_
      rw [hslot]
      exact ⟨nextPhase_live _, { active with warnings := active.warnings ++ [warning] }, rfl,
        hactive, hlive⟩
  | updateBinary run =>
      have hlinked : Linked w p i run := htask
      rw [stepTask] at hstep
      split at hstep <;>
        · cases hstep
          exact h.enter hp hi hholds (by rintro _ ⟨⟩; rfl) h.ledger h.attempt hlinked
  | isThisProcess run =>
      have hlinked : Linked w p i run := htask
      rw [stepTask] at hstep
      split at hstep
      · cases hstep
        exact h.enter hp hi hholds (by rintro _ ⟨⟩; rfl) h.ledger h.attempt
          (hlinked.setPhase rfl rfl)
      · cases hstep
        exact h.enter hp hi hholds (by rintro _ ⟨⟩; rfl) h.ledger h.attempt hlinked
  | restartSelf run =>
      have hlinked : Linked w p i run := htask
      rw [stepTask] at hstep
      split at hstep <;>
        · cases hstep
          exact h.enter hp hi hholds (by rintro _ ⟨⟩; rfl) h.ledger h.attempt hlinked
  | setFailed run during error =>
      cases hstep
      exact h.enter hp hi hholds (by rintro _ ⟨⟩; rfl) h.ledger h.attempt trivial
  | clearFinished run =>
      have hlinked : Linked w p i run := htask
      cases hstep
      rw [hlinked.ended]
      exact h.enter hp hi hholds (by rintro _ ⟨⟩) rfl (by rintro _ ⟨⟩) (htask.live rfl)
  | dying run => cases hstep
  | restartGateway =>
      have hslot : p.slot = some .restart := htask
      rw [stepTask] at hstep
      split at hstep
      · cases hstep
        exact h.enter hp hi hholds (by rintro _ ⟨⟩) h.ledger h.attempt hslot
      · cases hstep
        exact h.enter hp hi hholds (by rintro _ ⟨⟩) h.ledger h.attempt
          (htask.live rfl)
  | clearSlot =>
      cases hstep
      exact h.enter hp hi hholds (by rintro _ ⟨⟩) h.ledger h.attempt trivial
  | clearFailed run => cases hholds
  | done => cases hholds

/-- The end of a failed update that removes its own ledger. -/
theorem Sound.stepClearFailed
    (h : Sound w)
    (hp : w.process = some p)
    {i : Nat} {run : UpdateRun} {answer : Answer}
    (hi : p.tasks[i]? = some (.clearFailed run))
    (hown : ∀ attempt, w.attempt = some attempt → attempt.task = i)
    (hstep : stepTask w p i answer (.clearFailed run) = some t) :
    Sound t := by
  have hproc := h.process p hp
  have hlt : i < p.tasks.length := (List.getElem?_eq_some_iff.1 hi).1
  have hended : w.ended i = none := by
    cases hattempt : w.attempt with
    | none => rw [World.ended, hattempt]; rfl
    | some attempt => simp [World.ended, hattempt, Option.filter, hown attempt hattempt]
  have hold : ∀ (j : Nat) (other : Task), (p.tasks.set i .done)[j]? = some other →
      other = .done ∨ j ≠ i ∧ p.tasks[j]? = some other := by
    intro j other hget
    by_cases hj : j = i
    · subst hj
      rw [List.getElem?_set_self hlt] at hget
      exact Or.inl (Option.some_inj.1 hget).symm
    · rw [List.getElem?_set_ne (Ne.symm hj)] at hget
      exact Or.inr ⟨hj, hget⟩
  cases hstep
  rw [hended]
  refine ⟨rfl, h.reports, h.once, h.counted, by rintro _ ⟨⟩, ?_⟩
  rintro q ⟨⟩
  refine ⟨?_, ?_, ?_, ?_⟩
  · intro j other hget
    rcases hold j other hget with rfl | ⟨hj, hget⟩
    · trivial
    · have htask := hproc.task j other hget
      -- a task between two advances wrote the attempt, and is not this one
      have hnot : ∀ run, ¬Linked w p j run := by
        rintro run ⟨active, ledger, -, hattempt, -⟩
        exact hj (hown _ hattempt)
      cases hadvanced : other.advanced with
      | some run => exact absurd (htask.linked hadvanced) (hnot run)
      | none =>
          cases other with
          | setPhase run phase => exact htask
          | writeLedger run ledger => exact htask
          | clearSlot => exact htask
          | restartGateway => exact htask
          | dying run =>
              cases run with
              | none => exact htask
              | some run => cases hadvanced
          | clearFailed run => trivial
          | done => trivial
          | _ => cases hadvanced
  · intro j k a b ha hb hheld hheld'
    rcases hold j a ha with rfl | ⟨-, ha⟩
    · cases hheld
    · rcases hold k b hb with rfl | ⟨-, hb⟩
      · cases hheld'
      · exact hproc.unique j k a b ha hb hheld hheld'
  · intro other hmem run hother
    rcases List.mem_or_eq_of_mem_set hmem with hmem | rfl
    · exact hproc.fresh other hmem run hother
    · cases hother
  · have hne : p.tasks ≠ [] := by
      intro hnil
      simp [hnil] at hlt
    have hboot := hproc.boot
    rw [BootInv] at hboot ⊢
    cases hcase : p.boot with
    | serving => exact fun _ => rfl
    | reading found =>
        rw [hcase] at hboot
        exact absurd hboot.2 hne
    | clearing found ledger =>
        rw [hcase] at hboot
        exact absurd hboot.2.2 hne
    | recovered recovery =>
        rw [hcase] at hboot
        exact absurd hboot.2 hne

/-- A process without tasks. -/
theorem ProcessInv.of_no_tasks
    (hnone : p.tasks = [])
    (hboot : BootInv w p) :
    ProcessInv w p where
  task i task hi := by simp [hnone] at hi
  unique i j a b hi := by simp [hnone] at hi
  fresh task hmem := by simp [hnone] at hmem
  boot := hboot

/-- A start says what became of the attempt, and the attempt is over. -/
theorem Sound.report
    (h : Sound w)
    (htasks : p.tasks = []) :
    Sound
      { w with
        ledger := none
        attempt := none
        process := some { p with boot := .recovered (recoverAtBoot w.ledger p.version) }
        reports :=
          w.reports ++ [⟨w.attempt, p.version, recoverAtBoot w.ledger p.version⟩] } := by
  have hreported : ∀ report : Report,
      reported (w.reports ++ [report]) =
        reported w.reports ++ (report.attempt.map (·.no)).toList := by
    intro report
    rw [reported, List.filterMap_append, ← reported]
    cases hattempt : report.attempt <;> simp [hattempt]
  refine ⟨rfl, ?_, ?_, ?_, by rintro _ ⟨⟩, ?_⟩
  · intro report hreport
    rcases List.mem_append.1 hreport with hreport | hreport
    · exact h.reports report hreport
    · rw [List.mem_singleton.1 hreport, h.ledger]
      exact recoverAtBoot_eq w.attempt p.version
  · rw [hreported]
    cases hattempt : w.attempt with
    | none => simpa using h.once
    | some attempt =>
        have hnew := (h.attempt attempt hattempt).2
        simp only [Option.map_some, Option.toList_some]
        refine List.nodup_append.2 ⟨h.once, by simp, fun no hno other hother => ?_⟩
        rintro rfl
        exact hnew (List.mem_singleton.1 hother ▸ hno)
  · intro no hno
    rw [hreported] at hno
    rcases List.mem_append.1 hno with hno | hno
    · exact h.counted no hno
    · obtain ⟨attempt, hattempt, rfl⟩ := Option.map_eq_some_iff.1 (Option.mem_toList.1 hno)
      exact (h.attempt attempt hattempt).1
  · rintro q ⟨⟩
    exact .of_no_tasks htasks ⟨rfl, htasks⟩

/-- The next call of a start. -/
theorem Sound.stepBoot
    (h : Sound w)
    (hp : w.process = some p)
    (hstep : stepBoot w p = some t) :
    Sound t := by
  have hboot := (h.process p hp).boot
  rw [BootInv] at hboot
  rw [Update.stepBoot] at hstep
  cases hcase : p.boot with
  | serving =>
      rw [hcase] at hstep
      cases hstep
  | reading found =>
      rw [hcase] at hstep hboot
      obtain ⟨rfl, htasks⟩ := hboot
      cases hledger : w.ledger with
      | none =>
          have hnone : w.attempt = none := by
            have hmap := h.ledger
            rw [hledger] at hmap
            exact Option.map_eq_none_iff.1 hmap.symm
          have hreport := h.report htasks
          simp only [hledger, hnone] at hstep hreport
          cases hstep
          exact hreport
      | some ledger =>
          simp only [hledger] at hstep
          cases hstep
          refine ⟨hledger ▸ h.ledger, h.reports, h.once, h.counted, h.attempt, ?_⟩
          rintro q ⟨⟩
          exact .of_no_tasks htasks ⟨rfl, rfl, htasks⟩
  | clearing found ledger =>
      rw [hcase] at hstep hboot
      obtain ⟨rfl, hledger, htasks⟩ := hboot
      have hreport := h.report htasks
      rw [hledger] at hreport
      cases hstep
      exact hreport
  | recovered recovery =>
      rw [hcase] at hstep hboot
      cases hstep
      refine ⟨h.ledger, h.reports, h.once, h.counted, h.attempt, ?_⟩
      rintro q ⟨⟩
      exact .of_no_tasks hboot.2 fun _ => hboot.1

/-- A new task takes a slot without a live operation. -/
theorem Sound.claimFor
    (h : Sound w)
    (hp : w.process = some p)
    (hserving : p.boot = .serving)
    {operation : ActiveOperation} {task : Task}
    (hrun : ∀ run, task.run = some run → run.no = w.attempts)
    (htask :
      ∀ w' p' i, p'.slot = some operation → TaskInv w' p' i task)
    (hstep : claimFor w p operation task = some t) :
    Sound t := by
  have hproc := h.process p hp
  rw [Update.claimFor] at hstep
  split at hstep
  · cases hstep
  · rename_i slot hclaim
    obtain ⟨hidle, rfl⟩ := runningPhase_of_claim hclaim
    cases hstep
    have hfree : ∀ (i : Nat) (other : Task), p.tasks[i]? = some other → other.holds = false := by
      intro i other hi
      rw [Bool.eq_false_iff]
      intro hheld
      have hlive := (hproc.task i other hi).live hheld
      rw [hidle] at hlive
      cases hlive
    have hold : ∀ (i : Nat) (other : Task), (p.tasks ++ [task])[i]? = some other →
        p.tasks[i]? = some other ∨ i = p.tasks.length ∧ other = task := by
      intro i other hi
      rw [List.getElem?_append] at hi
      split at hi
      · exact Or.inl hi
      · rename_i hlt
        obtain ⟨hindex, rfl⟩ := List.getElem?_eq_some_iff.1 hi
        simp only [List.length_singleton] at hindex
        exact Or.inr ⟨by omega, by simp⟩
    refine ⟨h.ledger, h.reports, h.once, fun no hno => Nat.lt_succ_of_lt (h.counted no hno),
      fun a ha => ⟨Nat.lt_succ_of_lt (h.attempt a ha).1, (h.attempt a ha).2⟩, ?_⟩
    rintro q ⟨⟩
    refine ⟨?_, ?_, ?_, ?_⟩
    · intro i other hi
      rcases hold i other hi with hi | ⟨-, rfl⟩
      · exact .of_not_holds (hfree i other hi)
      · exact htask _ _ _ rfl
    · intro i j a b ha hb hheld hheld'
      have hlast : ∀ (i : Nat) (a : Task), (p.tasks ++ [task])[i]? = some a → a.holds = true →
          i = p.tasks.length := by
        intro i a ha hheld
        rcases hold i a ha with ha | ⟨hi, -⟩
        · rw [hfree i a ha] at hheld
          cases hheld
        · exact hi
      rw [hlast i a ha hheld, hlast j b hb hheld']
    · intro other hmem run hother
      rcases List.mem_append.1 hmem with hmem | hmem
      · obtain ⟨hlt, hnot⟩ := hproc.fresh other hmem run hother
        exact ⟨Nat.lt_succ_of_lt hlt, hnot⟩
      · rw [List.mem_singleton] at hmem
        subst hmem
        rw [hrun run hother]
        exact ⟨Nat.lt_succ_self _, fun hno => absurd (h.counted _ hno) (Nat.lt_irrefl _)⟩
    · rw [BootInv, hserving]
      exact fun hnil => absurd hnil (by simp)

/-- A call that removes no other update's ledger keeps the ledger and the attempt one. -/
theorem Sound.step
    {label : Label}
    (h : Sound w)
    (hown : clearsOwn w label = true)
    (hstep : step w label = some t) :
    Sound t := by
  cases label with
  | install version =>
      cases hstep
      refine ⟨h.ledger, h.reports, h.once, h.counted, h.attempt, fun p hp => ?_⟩
      have hproc := h.process p hp
      exact ⟨hproc.task, hproc.unique, hproc.fresh, hproc.boot⟩
  | crash =>
      cases hstep
      exact ⟨h.ledger, h.reports, h.once, h.counted, h.attempt, by rintro _ ⟨⟩⟩
  | start =>
      rw [Update.step] at hstep
      split at hstep
      · cases hstep
      · cases hstep
        refine ⟨h.ledger, h.reports, h.once, h.counted, h.attempt, ?_⟩
        rintro q ⟨⟩
        exact .of_no_tasks rfl ⟨rfl, rfl⟩
  | boot =>
      obtain ⟨p, hp, hstep⟩ := Option.bind_eq_some_iff.1 hstep
      exact h.stepBoot hp hstep
  | startUpdate target =>
      obtain ⟨p, hp, hstep⟩ := Option.bind_eq_some_iff.1 hstep
      split at hstep
      · rename_i hserving
        refine h.claimFor hp hserving (by rintro _ ⟨⟩; rfl) ?_ hstep
        intro w' p' i hslot
        exact ⟨rfl, _, hslot, rfl, rfl⟩
      · cases hstep
  | restartGateway =>
      obtain ⟨p, hp, hstep⟩ := Option.bind_eq_some_iff.1 hstep
      split at hstep
      · rename_i hserving
        refine h.claimFor hp hserving (by rintro _ ⟨⟩) ?_ hstep
        exact fun w' p' i hslot => hslot
      · cases hstep
  | dismiss =>
      obtain ⟨p, hp, hstep⟩ := Option.bind_eq_some_iff.1 hstep
      have hproc := h.process p hp
      split at hstep
      · cases hstep
        refine ⟨h.ledger, h.reports, h.once, h.counted, h.attempt, ?_⟩
        rintro q ⟨⟩
        refine ⟨?_, hproc.unique, hproc.fresh, ?_⟩
        · intro i task hi
          cases hheld : task.holds with
          | false => exact .of_not_holds hheld
          | true =>
              have htask := hproc.task i task hi
              rw [dismiss_of_running (htask.live hheld)]
              exact htask
        · have hboot := hproc.boot
          rw [BootInv] at hboot ⊢
          exact hboot
      · cases hstep
  | advance i answer =>
      obtain ⟨p, hp, hstep⟩ := Option.bind_eq_some_iff.1 hstep
      obtain ⟨task, hi, hstep⟩ := Option.bind_eq_some_iff.1 hstep
      cases hheld : task.holds with
      | true => exact h.stepHolder hp hi hheld hstep
      | false =>
          cases task with
          | clearFailed run =>
              refine h.stepClearFailed hp hi (fun attempt hattempt => ?_) hstep
              simp only [clearsOwn, hp, Option.bind_some, hi, hattempt, Option.all_some,
                decide_eq_true_eq] at hown
              exact hown
          | done => cases hstep
          | _ => cases hheld

/-- In every run, cut by crashes anywhere and started again any number of times, in which no
failed update removes the ledger of another: every start reports what became of the attempt
it found, the next start would, no attempt is reported twice, a start leaves no ledger, the
slot and the ledger agree after every advance, and one task at most holds the slot. -/
theorem crash_safe
    (h : machine.Reaches (fun w label => clearsOwn w label = true) w) :
    CrashSafe w := by
  have hsound : Sound w := by
    refine h.invariant ?_ fun _ _ _ hs hown hstep => hs.step hown hstep
    rintro s ⟨installed, rfl⟩
    refine ⟨rfl, ?_, List.nodup_nil, ?_, by rintro _ ⟨⟩, by rintro _ ⟨⟩⟩
    · exact fun report hreport => absurd hreport List.not_mem_nil
    · exact fun no hno => absurd hno List.not_mem_nil
  exact hsound.safe

theorem starts_initial : machine.start (initial "0.1.189") := ⟨_, rfl⟩

/-- The answers of calls that succeed, where there are no agents. -/
def plain : Answer where
  agents := []
  error := none
  systemd := true

def failing : Answer := { plain with error := some "curl failed" }

/-- A process that runs until an update is about to swap the binary. -/
def startedRun : List Label :=
  [.start, .boot, .boot, .startUpdate "0.1.190", .advance 0 plain, .advance 0 plain,
    .advance 0 plain, .advance 0 plain, .advance 0 plain]

/-- It dies there, and starts again. -/
def cutRun : List Label := startedRun ++ [.crash, .start, .boot, .boot, .boot]

theorem crash_safe_cutRun :
    CrashSafe (machine.runTo (initial "0.1.189") cutRun) ∧
      (machine.runTo (initial "0.1.189") cutRun).reports.map (·.recovery) =
        [.normal, .interrupted "0.1.190" .applying] :=
  ⟨crash_safe ((Machine.Reaches.start starts_initial).runTo cutRun (by decide) (by decide)),
    by decide⟩

/-- The swap fails, and a second update starts and writes its ledger before the first one
removes its own. -/
def racedRun : List Label :=
  startedRun ++
    [.advance 0 failing, .advance 0 plain, .startUpdate "0.1.190", .advance 1 plain,
      .advance 1 plain, .advance 0 plain]

/-- The second update has no ledger while it goes on, and a start after a crash there says
nothing of it. -/
theorem not_crash_safe :
    machine.Reaches Machine.always (machine.runTo (initial "0.1.189") racedRun) ∧
      ¬CrashSafe (machine.runTo (initial "0.1.189") racedRun) ∧
        (machine.runTo (initial "0.1.189")
          (racedRun ++ [.crash, .start, .boot, .boot])).reports.map (·.recovery) =
            [.normal, .normal] := by
  refine ⟨(Machine.Reaches.start starts_initial).runTo racedRun (Machine.admits_always _ _ _)
    (by decide), fun h => ?_, by decide⟩
  exact absurd (h.next "0.1.189") (by decide)

end Runs

end Update
end Vestad
end Vesta
