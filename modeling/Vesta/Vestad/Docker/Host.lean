import Mathlib.Data.List.Infix
import Vesta.Lib.Machine
import Vesta.Lib.Map
import Vesta.Vestad.Docker.Snapshots
import Vesta.Vestad.Docker.Completion

/-!
# The host of all agents, its operations and its boots

The host holds one slot for each agent name.  An operation on one agent is its
program, run on that agent's slot, while the other agents go on writing.  A
boot lists the images of the host, groups the rebuild snapshots of this user by
agent and resumes the agents in turn.

An operation may be cut before any of its calls, when the process crashes; what
it has done so far stays.
-/

namespace Vesta
namespace Vestad
namespace Docker

open Lib
open Prog

inductive HostCall
  | listImages
  | agent (name : String) (c : Call)

abbrev HostAnswer : HostCall → Type
  | .listImages => Option (List String)
  | .agent _ c => Answer c

abbrev HostOp : Type → Type := Prog HostAnswer String

/-- An agent's operation, on the slot of its name. -/
def onAgent {α : Type} (name : String) : Op α → HostOp α
  | .ret r => .ret r
  | .call c k => .call (.agent name c) fun r => onAgent name (k r)

/-- Finish the rebuilds that died between removing the old container and creating the new one. -/
def resumeInterruptedRebuilds (user : String) : HostOp Unit := do
  match (← request (R := HostAnswer) .listImages : Option (List String)) with
  | none => pure ()
  | some tags =>
      forEach (fun found => onAgent found.1 (resumeInterruptedRebuild found.2))
        (rebuildSnapshotsByAgent user tags)

inductive AgentOp
  | createAgent
  | destroyAgent
  | rebuildAgent
  | startAgent
  | stopAgent
  | ensureEnvFile
  | createBackup
  | restoreBackup (id : Nat)

def AgentOp.prog : AgentOp → Op Unit
  | .createAgent => Docker.createAgent
  | .destroyAgent => Docker.destroyAgent
  | .rebuildAgent => Docker.rebuildAgent
  | .startAgent => Docker.startAgent
  | .stopAgent => Docker.stopAgent
  | .ensureEnvFile => Docker.ensureEnvFile
  | .createBackup => Docker.createBackup
  | .restoreBackup id => Docker.restoreBackup id

attribute [grind =] AgentOp.prog

/-- The name an agent is created under. -/
def createdName (raw : String) : String := if raw = "ignisinextinctus" then "vesta" else raw

def AgentOp.target (name : String) : AgentOp → String
  | .createAgent => createdName name
  | _ => name

/-- No agent is created whose name contains the gateway's. -/
def AgentOp.admits (name : String) : AgentOp → Bool
  | .createAgent => name = "vesta" ∨ ¬"vesta".toList <:+: name.toList
  | _ => true

def AgentOp.onName (op : AgentOp) (name : String) : HostOp Unit :=
  match validateName name with
  | .error e => fail e
  | .ok _ =>
      if op.admits name then onAgent name op.prog
      else fail "agent name must not contain 'vesta'"

inductive Operation
  | agent (op : AgentOp) (name : String)
  | resumeInterruptedRebuilds

def Operation.prog (user : String) : Operation → HostOp Unit
  | .agent op name => op.onName (op.target name)
  | .resumeInterruptedRebuilds => Docker.resumeInterruptedRebuilds user

/-! ## The host -/

structure World where
  now : Nat
  slots : Map String Slot

structure HostTick where
  tick : Tick
  /-- The other agents that write before the next call. -/
  writers : List String
  /-- The tags of all images, in the order Docker lists them. -/
  listed : List String

namespace World

def view (w : World) (name : String) : View where
  toSlot := (w.slots[name]?).getD Slot.empty
  now := w.now

def put (w : World) (name : String) (v : View) : World where
  now := v.now
  slots := w.slots.insert name v.toSlot

def write (w : World) (name : String) : World := w.put name (w.view name).write

/-- The tags of this user's rebuild snapshots. -/
def tags (user : String) (w : World) : List String :=
  w.slots.toList.flatMap fun e => e.2.snapshots.map fun s => rebuildSnapshotTag user e.1 s.1

/-- The images' tags as Docker lists them: this user's snapshots among them, in any order. -/
def listing (user : String) (w : World) (listed : List String) : List String :=
  if (listed.filter fun tag => (parseRebuildSnapshot user tag).isSome).isPerm (w.tags user) then
    listed
  else
    w.tags user

end World

def hostExec (user : String) : Answers HostAnswer World HostTick
  | w, .listImages, t =>
      (if t.tick.outcome.reports then some (w.listing user t.listed) else none,
        t.writers.foldl World.write w)
  | w, .agent name c, t =>
      let result := exec (w.view name) c t.tick
      (result.1, (t.writers.filter (· ≠ name)).foldl World.write (w.put name result.2))

/-- A step of the host: an operation, to its end or to a crash, or what an agent does by itself. -/
inductive Label
  | operate (op : Operation) (ticks : List HostTick)
  | write (name : String)
  | exit (name : String)

def machine (user : String) : Machine World Label where
  start w := w.slots = ∅
  step w
    | .operate op ticks => some (run (hostExec user) (op.prog user) w ticks).1
    | .write name => some (w.write name)
    | .exit name => some (w.put name ((w.view name).setRunning false))

/-! ## The conditions, on the host -/

/-- The condition on the calls of one agent, for each call about it. -/
def onHost (g : Guard Call View Tick) (lists : Tick → Prop) (cut : Prop) :
    Guard HostCall World HostTick where
  call w
    | .listImages, t => lists t.tick
    | .agent name c, t => g.call (w.view name) c t.tick
  cut w
    | .listImages => cut
    | .agent name c => g.cut (w.view name) c

/-- The condition on the calls, when the process crashes only where the agent at hand is
settled. -/
def crashing (restores : Bool) : Guard Call View Tick where
  call := (tidy restores).call
  cut v _ := Settled v

/-- No agent is created under the name of one that waits to be resumed. -/
def Operation.Fits (w : World) : Operation → Prop
  | .agent .createAgent name =>
      (w.view (createdName name)).container = none → (w.view (createdName name)).latest = none
  | _ => True

/-- A step along which the condition on the calls is met. -/
def Tidy (user : String) (restores : Bool) (w : World) : Label → Prop
  | .operate op ticks =>
      op.Fits w ∧
        Meets (hostExec user) (onHost (crashing restores) (fun _ => True) True) (op.prog user) w ticks
  | .write _ => True
  | .exit _ => True

end Docker
end Vestad
end Vesta
