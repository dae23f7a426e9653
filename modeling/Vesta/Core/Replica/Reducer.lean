import Vesta.Vestad.Sync.Protocol

/-!
# The client's replica of the state tree

`reduceDelta` is the client's fold of one frame.  A record of agent nodes is a
map on its own keys.

The facts below are about what a frame does to the two views of the tree the
gateway tracks separately: the roster and the pending notifications.
-/

namespace Vesta
namespace Core

open Lib
open Vestad.Sync

variable {G D V : Type}

def reduceDelta (tree : Tree G D V) : Delta G D V → Tree G D V
  | .state value => { tree with gateway := value }
  | .agent name info =>
      let prev := tree.agents[name]?
      let node : AgentNode V :=
        { info := info, pending := (prev.map (·.pending)).getD [] }
      { tree with agents := tree.agents.insert name node }
  | .agentRemoved name =>
      if name ∈ tree.agents then
        { tree with agents := tree.agents.erase name }
      else
        tree
  | .agentNotifications agent pending =>
      match tree.agents[agent]? with
      | none => tree
      | some prev =>
          { tree with agents := tree.agents.insert agent { prev with pending := pending } }
  | .userNotification .. => tree
  | .presence _ => tree
  | .devices devices => { tree with devices := devices }

/-- The edit of the roster a frame stands for, when it is a roster frame. -/
def rosterEdit : Delta G D V → Option (Map.Edit String AgentInfo)
  | .agent name info => some (.set name info)
  | .agentRemoved name => some (.drop name)
  | _ => none

theorem roster_reduceDelta_of_some
    {delta : Delta G D V} {e : Map.Edit String AgentInfo}
    (he : rosterEdit delta = some e)
    (tree : Tree G D V) :
    (reduceDelta tree delta).roster = e.apply tree.roster := by
  cases delta with
  | agent name info =>
      cases he
      apply Std.ExtTreeMap.ext_getElem?
      intro k
      rw [getElem?_roster]
      by_cases hk : name = k
      · subst hk
        simp [reduceDelta, Map.Edit.apply]
      · simp [reduceDelta, Map.Edit.apply, Std.ExtTreeMap.getElem?_insert, hk]
  | agentRemoved name =>
      cases he
      apply Std.ExtTreeMap.ext_getElem?
      intro k
      by_cases hmem : name ∈ tree.agents
      · by_cases hk : name = k
        · subst hk
          simp [reduceDelta, Map.Edit.apply, hmem]
        · simp [reduceDelta, Map.Edit.apply, hmem, Std.ExtTreeMap.getElem?_erase, hk]
      · by_cases hk : name = k
        · subst hk
          simp [reduceDelta, Map.Edit.apply, hmem]
        · simp [reduceDelta, Map.Edit.apply, hmem, Std.ExtTreeMap.getElem?_erase, hk]
  | state | agentNotifications | userNotification | presence | devices => cases he

theorem roster_reduceDelta_of_none
    {delta : Delta G D V}
    (he : rosterEdit delta = none)
    (tree : Tree G D V) :
    (reduceDelta tree delta).roster = tree.roster := by
  cases delta with
  | agent | agentRemoved => cases he
  | agentNotifications agent pending =>
      apply Std.ExtTreeMap.ext_getElem?
      intro k
      rw [getElem?_roster, getElem?_roster]
      cases hprev : tree.agents[agent]? with
      | none => simp [reduceDelta, hprev]
      | some prev =>
          by_cases hk : agent = k
          · subst hk
            simp [reduceDelta, hprev]
          · simp [reduceDelta, hprev, Std.ExtTreeMap.getElem?_insert, hk]
  | state | userNotification | presence | devices => rfl

/-- A roster frame leaves the other top-level branches alone. -/
theorem reduceDelta_frame
    {delta : Delta G D V} {e : Map.Edit String AgentInfo}
    (he : rosterEdit delta = some e)
    (tree : Tree G D V) :
    (reduceDelta tree delta).gateway = tree.gateway ∧
      (reduceDelta tree delta).devices = tree.devices := by
  cases delta with
  | agent name info => exact ⟨rfl, rfl⟩
  | agentRemoved name =>
      by_cases hmem : name ∈ tree.agents <;> simp [reduceDelta, hmem]
  | state | agentNotifications | userNotification | presence | devices => cases he

/-- A roster frame that does not drop an agent's node keeps its notifications, and a new
node starts with none. -/
theorem pending_reduceDelta_of_some
    {delta : Delta G D V} {e : Map.Edit String AgentInfo}
    (he : rosterEdit delta = some e)
    (tree : Tree G D V) (name : String) :
    (reduceDelta tree delta).pending name =
      match e with
      | .set k _ => if k = name then some ((tree.pending name).getD []) else tree.pending name
      | .drop k => if k = name then none else tree.pending name := by
  cases delta with
  | agent k info =>
      cases he
      by_cases hk : k = name
      · subst hk
        simp [reduceDelta, Tree.pending]
      · simp [reduceDelta, Tree.pending, Std.ExtTreeMap.getElem?_insert, hk]
  | agentRemoved k =>
      cases he
      by_cases hmem : k ∈ tree.agents
      · by_cases hk : k = name
        · subst hk
          simp [reduceDelta, Tree.pending, hmem]
        · simp [reduceDelta, Tree.pending, hmem, Std.ExtTreeMap.getElem?_erase, hk]
      · by_cases hk : k = name
        · subst hk
          simp [reduceDelta, Tree.pending, hmem]
        · simp [reduceDelta, Tree.pending, hmem, hk]
  | state | agentNotifications | userNotification | presence | devices => cases he

end Core
end Vesta
