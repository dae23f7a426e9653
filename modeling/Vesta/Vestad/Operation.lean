import Mathlib.Logic.Basic

/-!
# The gateway's operation slot

One slot holds the operation that the gateway runs on itself, an update or a restart,
and holding it is the lock.  A failed update stays in the slot for the clients to see
and yields it to the next operation.
-/

namespace Vesta
namespace Vestad
namespace Operation

/-- The step an update was on. -/
inductive UpdateStage
  | resolving
  | snapshotting
  | applying
  | restarting
deriving DecidableEq

/-- Where an update is. -/
inductive UpdatePhase
  | snapshotting (agent : Option String) (done total : Nat)
  | applying
  | restarting
  | failed (during : UpdateStage) (error : String)
deriving DecidableEq

def UpdatePhase.stage : UpdatePhase → UpdateStage
  | snapshotting _ _ _ => .snapshotting
  | applying => .applying
  | restarting => .restarting
  | failed during _ => during

def UpdatePhase.isFailed : UpdatePhase → Bool
  | failed _ _ => true
  | _ => false

structure ActiveUpdate where
  targetVersion : String
  phase : UpdatePhase
  warnings : List String
deriving DecidableEq

inductive ActiveOperation
  | update (active : ActiveUpdate)
  | restart
deriving DecidableEq

def ActiveOperation.phase : ActiveOperation → UpdatePhase
  | update active => active.phase
  | restart => .restarting

abbrev OperationSlot := Option ActiveOperation

/-- The phase of a live operation. -/
def runningPhase (slot : OperationSlot) : Option UpdatePhase :=
  (slot.map ActiveOperation.phase).filter fun phase => !phase.isFailed

/-- Take the slot, or hand back the live phase that holds it. -/
def claim (slot : OperationSlot) (operation : ActiveOperation) :
    Except UpdatePhase OperationSlot :=
  match runningPhase slot with
  | some phase => .error phase
  | none => .ok (some operation)

/-- Move the update in the slot to a phase, and report its warnings. -/
def setPhase (slot : OperationSlot) (phase : UpdatePhase) : OperationSlot × List String :=
  match slot with
  | some (.update active) => (some (.update { active with phase }), active.warnings)
  | _ => (slot, [])

def warn (slot : OperationSlot) (warning : String) : OperationSlot :=
  match slot with
  | some (.update active) =>
      some (.update { active with warnings := active.warnings ++ [warning] })
  | _ => slot

/-- Project the failure of an update that an earlier process did not report. -/
def setInterrupted (targetVersion : String) (during : UpdateStage) : OperationSlot :=
  some
    (.update
      { targetVersion
        phase := .failed during "the update stopped before it finished"
        warnings := [] })

/-- Drop a failure; a running operation is untouched. -/
def dismiss (slot : OperationSlot) : OperationSlot × Bool :=
  match slot.map ActiveOperation.phase with
  | some (.failed _ _) => (none, true)
  | _ => (slot, false)

/-- A slot that is taken or dismissed had no live operation. -/
theorem runningPhase_of_claim
    {slot taken : OperationSlot} {operation : ActiveOperation}
    (h : claim slot operation = .ok taken) :
    runningPhase slot = none ∧ taken = some operation := by
  rw [claim] at h
  split at h
  · cases h
  · rename_i hnone
    cases h
    exact ⟨hnone, rfl⟩

theorem dismiss_of_running
    {slot : OperationSlot}
    (h : (runningPhase slot).isSome = true) :
    dismiss slot = (slot, false) := by
  cases slot with
  | none => cases h
  | some operation =>
      rw [dismiss, Option.map_some]
      cases hphase : operation.phase with
      | failed during error => simp [runningPhase, hphase, UpdatePhase.isFailed] at h
      | _ => rfl

end Operation
end Vestad
end Vesta
