import Vesta.Lib.Map

/-!
# The state tree and the frames of a `/sync` connection

The gateway sends a connecting client one snapshot of the state tree and then
deltas to it.  The tree has three branches: the gateway's own, one node per
agent (its info and its pending notifications) and the known devices.

The gateway branch `G`, the devices `D` and one pending event `V` are relayed
as they are and never looked into, so they are parameters.
-/

namespace Vesta
namespace Vestad

open Lib

inductive AgentStatus
  | alive
  | settingUp
  | starting
  | notAuthenticated
  | unprovisioned
  | restarting
  | rebuilding
  | stopped
  | dead
  | notFound
deriving DecidableEq, Repr

inductive BuildPhase
  | pulling
  | building
  | preparing
  | creating
  | starting
deriving DecidableEq, Repr

/-- A long-running operation the gateway runs against an existing agent. -/
inductive AgentOperation
  | backingUp
  | restoring
  | restarting
  | stopping
deriving DecidableEq, Repr

/-- Whether shipped clients know the operation; the roster carries only these. -/
def AgentOperation.onWire : AgentOperation → Bool
  | backingUp => true
  | restoring => true
  | restarting => false
  | stopping => false

namespace Sync

structure ServiceInfo where
  port : UInt16
  rev : UInt64
  isPublic : Bool
deriving DecidableEq

structure RateLimitedInfo where
  window : Option String
  resetsAt : Option Int64
deriving DecidableEq

/-- The per-agent `info` branch. -/
structure AgentInfo where
  status : AgentStatus
  activityState : String
  buildPhase : Option BuildPhase
  operation : Option AgentOperation
  booting : Bool
  rateLimited : Option RateLimitedInfo
  startedAt : Option String
  services : Map String ServiceInfo
deriving DecidableEq

/-- The per-agent node: the info and the pending notifications. -/
structure AgentNode (V : Type) where
  info : AgentInfo
  pending : List V
deriving DecidableEq

/-- The full state tree, as the gateway sends it and as the client holds it. -/
structure Tree (G D V : Type) where
  gateway : G
  agents : Map String (AgentNode V)
  devices : List D
deriving DecidableEq

/-- The frames a client folds into its tree. -/
inductive Delta (G D V : Type)
  | state (value : G)
  | agent (name : String) (info : AgentInfo)
  | agentRemoved (name : String)
  | agentNotifications (agent : String) (pending : List V)
  | userNotification (id at_ : Nat) (agent kind title body : String)
  | presence (anyFocused : Bool)
  | devices (devices : List D)

/-- The roster a tree shows: the info of every agent node. -/
def Tree.roster {G D V : Type} (tree : Tree G D V) : Map String AgentInfo :=
  tree.agents.map fun _ node => node.info

/-- The pending notifications a tree holds for an agent. -/
def Tree.pending {G D V : Type} (tree : Tree G D V) (agent : String) : Option (List V) :=
  tree.agents[agent]?.map (·.pending)

section Lemmas

variable {G D V : Type}

@[simp] theorem getElem?_roster
    (tree : Tree G D V) (name : String) :
    tree.roster[name]? = tree.agents[name]?.map (·.info) := by
  simp [Tree.roster]

@[simp] theorem mem_roster
    {tree : Tree G D V} {name : String} :
    name ∈ tree.roster ↔ name ∈ tree.agents := by
  simp [Tree.roster]

end Lemmas

end Sync

end Vestad
end Vesta
