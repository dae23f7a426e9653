import Vesta.Lib.Machine
import Vesta.Vestad.Rename.Handler

/-!
# Handlers beside a rebuild

The boot reconcile runs while the server already answers requests.  It resumes
the rebuilds that were interrupted, rebuilds the containers whose configuration
is outdated, and starts or stops the agents as the user wishes.  It takes no
lock; it marks the agents that it rebuilds.

The handlers of one agent exclude each other by the agent's write lock.  All but
the rename also test the marks, once, before they wait for the lock.  Every
handler but the restart ends where its request is cancelled.

The machine interleaves the calls of the handlers of one agent with those of the
reconcile.  A rebuild is open from the moment it stops the old container, or
takes its snapshot when that was stopped already, until it has created the new
one.  What the agent finds in its inboxes, and the env files, are left out.
-/

namespace Vesta
namespace Vestad
namespace Rebuilding

open Lib
open Prog
open Docker (ContainerStatus Inspected Tick View)

inductive Call
  | docker (c : Docker.Call)
  | rename (c : Rename.Call)
  /-- The rebuild snapshots among the images, oldest first. -/
  | listRebuilds
  | needsRebuild
  | diskOk
  | ensureAgentCode
  | mountsOrGpuDrifted
  | wantsRunning
  | restartContainer
  /-- The reconcile's mark for an agent in its queue. -/
  | markPending
  | dropPending
  /-- The mark of a rebuild itself. -/
  | markRebuild
  | dropRebuild

abbrev Answer : Call → Type
  | .docker c => Docker.Answer c
  | .rename c => Rename.Answer c
  | .listRebuilds => Option (List Nat)
  | _ => Bool

abbrev Op : Type → Type := Prog Answer String

abbrev ask (c : Call) : Op (Answer c) := request c

def orFail (message : String) (worked : Bool) : Op Unit :=
  if worked then pure () else fail message

/-- An operation of the agent's container. -/
def onDocker {α : Type} : Docker.Op α → Op α
  | .ret r => .ret r
  | .call c k => .call (.docker c) fun r => onDocker (k r)

/-- A rename of the agent. -/
def onRename {α : Type} : Rename.Op α → Op α
  | .ret r => .ret r
  | .call c k => .call (.rename c) fun r => onRename (k r)

/-! ## The operations -/

/-- `rebuild_agent`, which holds its mark until it returns. -/
def rebuildAgent : Op Unit := do
  let _ ← ask .markRebuild
  let result ← attempt (onDocker Docker.rebuildAgent)
  let _ ← ask .dropRebuild
  .ret result

def plainRestart : Op Unit := do
  ask .restartContainer >>= orFail "failed to restart"

/-- A restart that recreates the container. -/
def recreate : Op Unit := do
  if ← ask .diskOk then
    rebuildAgent
    onDocker Docker.startAgent
  else fail "disk is critically low"

def restartAgent : Op Unit := do
  onDocker (Docker.ask .containerStatus >>= Docker.guardAlive)
  match (← ask (.docker .inspectContainer) : Option Inspected) with
  | none => plainRestart
  | some _ => if ← ask .mountsOrGpuDrifted then recreate else plainRestart

/-- The container in line with what the user wants, once its rebuild is over. -/
def align (codeChanged : Bool) : Op Unit := do
  let running :=
    (← ask (.docker .inspectContainer) : Option Inspected).any (·.status = .running)
  if ← ask .wantsRunning then
    if !running then
      let _ ← ask (.docker .startContainer)
      pure ()
    else if codeChanged then
      let _ ← ask .restartContainer
      pure ()
    else pure ()
  else if running then
    let _ ← ask (.docker .stopContainer)
    pure ()
  else pure ()

/-- The rebuild of a marked agent.  The mark is kept until the reconcile ends, or dropped where
the rebuild fails. -/
def rebuildMarked (codeChanged : Bool) : Op Unit := do
  if ← ask .ensureAgentCode then
    match ← attempt rebuildAgent with
    | .ok () =>
        align codeChanged
        let _ ← ask .dropPending
        pure ()
    | .error _ =>
        let _ ← ask .dropPending
        align codeChanged
  else
    let _ ← ask .dropPending
    align codeChanged

/-- What the reconcile does with an agent that has a container. -/
def reconcileAgent (codeChanged : Bool) : Op Unit := do
  match (← ask (.docker .inspectContainer) : Option Inspected) with
  | none => align codeChanged
  | some _ =>
      if ← ask .needsRebuild then
        if ← ask .diskOk then
          let _ ← ask .markPending
          rebuildMarked codeChanged
        else align codeChanged
      else align codeChanged

/-- Finish the rebuild that was interrupted, if the images list. -/
def resumeInterruptedRebuilds : Op Unit := do
  match (← ask .listRebuilds : Option (List Nat)) with
  | none => pure ()
  | some tss => onDocker (Docker.resumeInterruptedRebuild tss)

/-- `reconcile_containers`, as far as it is about one agent. -/
def reconcileContainers (codeChanged : Bool) : Op Unit := do
  let _ ← attempt resumeInterruptedRebuilds
  if ← ask (.docker .listManaged) then reconcileAgent codeChanged else pure ()

/-! ## The handlers -/

inductive Kind
  | start
  | stop
  | restart
  | destroy
  | rename (new : String)

/-- Whether the handler tests the marks. -/
def Kind.ensuresNotRebuilding : Kind → Bool
  | .rename _ => false
  | _ => true

/-- Whether the handler runs on after its request is cancelled. -/
def Kind.detached : Kind → Bool
  | .restart => true
  | _ => false

/-- What a handler does under the lock of the agent of a name. -/
def Kind.prog (name : String) : Kind → Op Unit
  | .start => onDocker Docker.startAgent
  | .stop => onDocker Docker.stopAgent
  | .restart => restartAgent
  | .destroy => onDocker Docker.destroyAgent
  | .rename new => onRename (Rename.renameLocked name new)

/-- The marks that a task holds. -/
structure Marks where
  pending : Bool
  rebuild : Bool
deriving DecidableEq

def Marks.none : Marks := ⟨false, false⟩

def Marks.count (m : Marks) : Nat := m.pending.toNat + m.rebuild.toNat

/-- A program in progress, the marks it holds and whether its rebuild is open. -/
structure Task where
  prog : Op Unit
  marks : Marks
  opened : Bool

def Task.fresh (prog : Op Unit) : Task := ⟨prog, .none, false⟩

inductive Handler
  | absent
  /-- It waits for the lock. -/
  | waiting (kind : Kind)
  | working (kind : Kind) (task : Task)
  | done

/-- Whether a handler is on its way. -/
def Handler.active : Handler → Bool
  | .absent => false
  | .done => false
  | _ => true

/-- Whether a rebuild of the handler is open. -/
def Handler.opened : Handler → Bool
  | .working _ task => task.opened
  | _ => false

structure World where
  view : View
  /-- How many marks the tracker counts for the agent. -/
  marks : Nat
  /-- Who holds the agent's write lock. -/
  holder : Option Nat
  handlers : Nat → Handler
  boot : Task
  /-- A rebuild was interrupted before this boot, and the agent has had no container since. -/
  interrupted : Bool

/-- How a call ends: Docker's part of it, what a question is answered, and what a rename hears of
the other name. -/
structure CallTick where
  tick : Tick
  flag : Bool
  elsewhere : (c : Rename.Call) → Rename.Answer c

/-- The answer to a call of a rename, and what it does to the container of the agent of a name. -/
def renameAct (name : String) (v : View) : (c : Rename.Call) → CallTick → Rename.Answer c × View
  | .containerStatus other, t =>
      (if other = name then (v.act .containerStatus t.tick).1
        else t.elsewhere (.containerStatus other), v)
  | .removalStatus other, t =>
      (if other = name then (v.act .containerStatus t.tick).1
        else t.elsewhere (.removalStatus other), v)
  | .stopContainer other, t =>
      (t.elsewhere (.stopContainer other),
        if other = name then (v.act .stopContainer t.tick).2 else v)
  | .removeContainer other, t =>
      (t.elsewhere (.removeContainer other),
        if other = name then (v.act (.removeContainer .base) t.tick).2 else v)
  | .startContainer other, t =>
      (t.elsewhere (.startContainer other),
        if other = name then (v.act .startContainer t.tick).2 else v)
  | c, t => (t.elsewhere c, v)

/-- The answer to a call, and what is held under the agent's name after it. -/
def act (name : String) (v : View) : (c : Call) → CallTick → Answer c × View
  | .docker c, t => v.act c t.tick
  | .rename c, t => renameAct name v c t
  | .listRebuilds, t =>
      (if t.tick.outcome.reports then some (v.snapshots.reverse.map (·.1)) else none, v)
  | .restartContainer, t =>
      (t.tick.outcome.reports, if t.tick.outcome.acts then v.setRunning true else v)
  | .needsRebuild, t => (t.flag, v)
  | .diskOk, t => (t.flag, v)
  | .ensureAgentCode, t => (t.flag, v)
  | .mountsOrGpuDrifted, t => (t.flag, v)
  | .wantsRunning, t => (t.flag, v)
  | .markPending, _ => (true, v)
  | .dropPending, _ => (true, v)
  | .markRebuild, _ => (true, v)
  | .dropRebuild, _ => (true, v)

attribute [grind =] act

/-- The tracker after a call. -/
def countAfter : Call → Nat → Nat
  | .markPending, marks => marks + 1
  | .markRebuild, marks => marks + 1
  | .dropPending, marks => marks - 1
  | .dropRebuild, marks => marks - 1
  | _, marks => marks

/-- The marks of a task after its call. -/
def Marks.after (m : Marks) : Call → Marks
  | .markPending => { m with pending := true }
  | .markRebuild => { m with rebuild := true }
  | .dropPending => { m with pending := false }
  | .dropRebuild => { m with rebuild := false }
  | _ => m

/-- Whether a rebuild is open after a call of the task that runs it. -/
def openedAfter (m : Marks) (opened : Bool) : (c : Call) → Answer c → Bool
  | .docker .stopContainer, _ => opened || m.rebuild
  | .docker (.snapshotContainer _), _ => opened || m.rebuild
  | .docker (.createContainer _), created => opened && !created
  | .dropRebuild, _ => false
  | _, _ => opened

/-- The view, the tracker and the task after the task's next call. -/
def Task.advance (name : String) (v : View) (marks : Nat) (task : Task) (t : CallTick) :
    Option (View × Nat × Task) :=
  match task.prog with
  | .ret _ => none
  | .call c k =>
      let answer := (act name v c t).1
      some
        ((act name v c t).2, countAfter c marks,
          { prog := k answer
            marks := task.marks.after c
            opened := openedAfter task.marks task.opened c answer })

inductive Label
  | request (h : Nat) (kind : Kind)
  | acquire (h : Nat)
  | advance (h : Nat) (t : CallTick)
  | finish (h : Nat)
  | cancel (h : Nat)
  | boot (t : CallTick)
  /-- The agent writes, or ends by itself. -/
  | write
  | exit

/-- Whose step it is, if it is a handler's. -/
def Label.handler : Label → Option Nat
  | .request h _ => some h
  | .acquire h => some h
  | .advance h _ => some h
  | .finish h => some h
  | .cancel h => some h
  | .boot _ => none
  | .write => none
  | .exit => none

namespace World

def setHandler (w : World) (h : Nat) (handler : Handler) : World :=
  { w with handlers := Function.update w.handlers h handler }

/-- The world with another view: an interruption is over once there is a container. -/
def see (w : World) (v : View) : World :=
  { w with view := v, interrupted := w.interrupted && v.container.isNone }

/-- A handler ends and gives its lock back. -/
def leave (w : World) (h : Nat) : World :=
  { w.setHandler h .done with holder := none }

end World

def step (name : String) (w : World) : Label → Option World
  | .request h kind =>
      match w.handlers h with
      | .absent =>
          if kind.ensuresNotRebuilding && decide (0 < w.marks) then some (w.setHandler h .done)
          else some (w.setHandler h (.waiting kind))
      | _ => none
  | .acquire h =>
      match w.handlers h, w.holder with
      | .waiting kind, none =>
          some { w.setHandler h (.working kind (.fresh (kind.prog name))) with holder := some h }
      | _, _ => none
  | .advance h t =>
      match w.handlers h with
      | .working kind task =>
          match task.advance name w.view w.marks t with
          | none => none
          | some (v, marks, task) =>
              some { (w.setHandler h (.working kind task)).see v with marks := marks }
      | _ => none
  | .finish h =>
      match w.handlers h with
      | .working _ task =>
          match task.prog with
          | .ret _ => some (w.leave h)
          | .call _ _ => none
      | _ => none
  | .cancel h =>
      match w.handlers h with
      | .waiting kind => if kind.detached then none else some (w.setHandler h .done)
      | .working kind _ => if kind.detached then none else some (w.leave h)
      | _ => none
  | .boot t =>
      match w.boot.advance name w.view w.marks t with
      | none => none
      | some (v, marks, task) => some { w.see v with marks := marks, boot := task }
  | .write => some (w.see w.view.write)
  | .exit => some (w.see (w.view.setRunning false))

attribute [grind =] step

/-- The process has just started. -/
structure Start (codeChanged : Bool) (w : World) : Prop where
  marks : w.marks = 0
  holder : w.holder = none
  handlers : ∀ h, w.handlers h = .absent
  boot : w.boot = .fresh (reconcileContainers codeChanged)
  interrupted : w.interrupted = true → w.view.container = none

/-- The runs of a process that serves the agent of a name, and whose boot has changed the agents'
code or not. -/
def machine (name : String) (codeChanged : Bool) : Machine World Label where
  start := Start codeChanged
  step := step name

end Rebuilding
end Vestad
end Vesta
