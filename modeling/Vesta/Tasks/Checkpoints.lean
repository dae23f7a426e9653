import Mathlib.Data.Nat.Log
import Vesta.Lib.Json
import Vesta.Lib.Rounding

/-!
# Due-date checkpoints

A task with a due date is announced at fixed leads before the date, at leads that double
from two weeks on, and at the date.  The ladder of these rungs is computed at each tick; a
task keeps only the instant that its rungs are covered through.

Instants are microseconds since the first that a `datetime` can have; a lead that reaches
before it raises.  Ids and the due dates that are written are inputs, and writing a
notification does not fail.
-/

namespace Vesta
namespace Tasks

open Lib

def minute : Nat := 60000000

def hour : Nat := 60 * minute

def day : Nat := 24 * hour

def week : Nat := 7 * day

/-! ## Tasks -/

inductive Status
  | pending
  | inProgress
  | completed
deriving DecidableEq

structure Row where
  id : Text
  subject : Text
  status : Status
  due : Option Nat
  backburner : Bool
  created : Nat
  deletedAt : Option Nat
  firedThrough : Option Nat
deriving DecidableEq

/-- A task the daemon still acts on. -/
def Row.isOpen (row : Row) : Bool :=
  match row.status with
  | .completed => false
  | _ => row.deletedAt.isNone

/-- The instant that the rungs of a task are covered through. -/
def Row.floor (row : Row) : Nat := row.firedThrough.getD row.created

def addTask (id subject : Text) (due : Option Nat) (created now : Nat) : Row where
  id := id
  subject := subject
  status := .pending
  due := due
  backburner := false
  created := created
  deletedAt := none
  firedThrough := some now

/-- A change that `update_task` is asked for; a due date may be set or cleared. -/
structure Change where
  status : Option Status
  subject : Option Text
  due : Option (Option Nat)
  backburner : Option Bool
deriving DecidableEq

/-- The new flag, and whether the due date is dropped with it. -/
def backburnerUpdate (row : Row) (change : Change) : Option Bool × Bool :=
  if change.due.join.isSome then (some false, false)
  else
    match change.backburner with
    | none => (none, false)
    | some parked => (some parked, parked && change.due.isNone && row.due.isSome)

/-- The row after a change; a deleted task is not changed. -/
def updateTask (row : Row) (change : Change) (now : Nat) : Option Row :=
  if row.deletedAt.isSome then none
  else
    let (backburner, dropped) := backburnerUpdate row change
    some { row with
      status := change.status.getD row.status
      subject := change.subject.getD row.subject
      backburner := backburner.getD row.backburner
      due :=
        match change.due with
        | some due => due
        | none => if dropped then none else row.due
      firedThrough := if change.due.isSome then some now else row.firedThrough }

def deleteTask (row : Row) (now : Nat) : Row := { row with deletedAt := some now }

/-! ## The ladder -/

/-- A checkpoint; the one at the due date has no label. -/
structure Rung where
  label : Option Text
  time : Nat
deriving DecidableEq

def checkpointTail : List (Text × Nat) :=
  [("15 minutes".toList, 15 * minute), ("1 hour".toList, hour), ("1 day".toList, day),
    ("1 week".toList, week)]

def checkpointDoublingStart : Nat := 2 * week

def humanizeLead (delta : Nat) : Text :=
  let days := (Rounding.divEven delta day).toNat
  if 60 ≤ days then
    "about ".toList ++ Json.printNat (Rounding.divEven days 30).toNat ++ " months".toList
  else "about ".toList ++ Json.printNat (Rounding.divEven days 7).toNat ++ " weeks".toList

/-- `due_dt - delta` -/
def before (due delta : Nat) : Option Nat := if delta ≤ due then some (due - delta) else none

def tailRungs (due : Nat) : List (Text × Nat) → Option (List Rung)
  | [] => some []
  | (label, delta) :: tail => do
      let time ← before due delta
      let rungs ← tailRungs due tail
      some (⟨some label, time⟩ :: rungs)

/-- The rungs with doubling leads, as long as they are after the creation. -/
def doublingRungs (due created : Nat) : Nat → Nat → Option (List Rung)
  | 0, _ => some []
  | fuel + 1, lead => do
      let time ← before due lead
      if created < time then do
        let rungs ← doublingRungs due created fuel (2 * lead)
        some (⟨some (humanizeLead lead), time⟩ :: rungs)
      else some []

def checkpointTimes (due created : Nat) : Option (List Rung) := do
  let tail ← tailRungs due checkpointTail
  let doubling ← doublingRungs due created (due + 1) checkpointDoublingStart
  let rungs := tail ++ doubling ++ [⟨none, due⟩]
  some ((rungs.filter fun rung => created < rung.time).mergeSort fun a b => a.time ≤ b.time)

/-! ## A tick -/

structure Note where
  taskId : Text
  rung : Rung
  message : Text
deriving DecidableEq

def dueNowMessage (subject taskId : Text) : Text :=
  "Task \"".toList ++ subject ++
    "\" is due now. Decide immediately: do it and run `tasks done ".toList ++ taskId ++
    "`, or postpone it (`tasks postpone ".toList ++ taskId ++
    " --in-days N`), or delete it if stale (`tasks delete ".toList ++ taskId ++
    "`). Never leave a task sitting overdue.".toList

def leadTimeMessage (label subject : Text) : Text :=
  "Task due in ".toList ++ label ++ ": ".toList ++ subject

def notify (row : Row) (rung : Rung) : Note where
  taskId := row.id
  rung := rung
  message :=
    match rung.label with
    | none => dueNowMessage row.subject row.id
    | some label => leadTimeMessage label row.subject

def eligible (floor now : Nat) (ladder : List Rung) : List Rung :=
  ladder.filter fun rung => floor < rung.time && rung.time ≤ now

/-- What a tick does to a task, and what it announces; a ladder that cannot be computed
raises. -/
def fireRow (now : Nat) (row : Row) : Option (Row × Option Note) :=
  match row.due with
  | none => some (row, none)
  | some due =>
      if row.isOpen then do
        let ladder ← checkpointTimes due row.created
        match (eligible row.floor now ladder).getLast? with
        | none => some (row, none)
        | some rung => some ({ row with firedThrough := some now }, some (notify row rung))
      else some (row, none)

/-- The notifications that a tick writes, and the rows it commits if it does not raise. -/
def fireDueCheckpoints (now : Nat) : List Row → List Note × Option (List Row)
  | [] => ([], some [])
  | row :: rows =>
      match fireRow now row with
      | none => ([], none)
      | some (row', note) =>
          let rest := fireDueCheckpoints now rows
          (note.toList ++ rest.1, rest.2.map (row' :: ·))

end Tasks
end Vesta
