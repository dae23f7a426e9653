import Vesta.Lib.Map

/-!
# The pending-notifications hub

The hub holds one pending-notification projection per agent.  Membership and
order come from the agent's connect snapshot, a list of ids; the full events
come from live changes.  Every operation says whether the list a client would
be shown has changed, and the hub wakes the `/sync` sessions only then.

An event is relayed as it is, so events are any type `V` with a stub for an id
that has not been observed live.
-/

namespace Vesta
namespace Vestad
namespace Sync

open Lib

variable {V : Type}

/-- A live change of an agent's pending set. -/
inductive NotificationChange (V : Type)
  | added (notifId : String) (event : V)
  | cleared (notifId : String)

/-- The pending projection of one agent. -/
structure PendingNotifications (V : Type) where
  known : Map String V
  order : List String
deriving DecidableEq

namespace PendingNotifications

def empty : PendingNotifications V where
  known := ∅
  order := []

def render (p : PendingNotifications V) : List V :=
  p.order.filterMap fun id => p.known[id]?

/-- Reconcile the membership to exactly `ids`. -/
def seed (stub : String → V) (ids : List String) (p : PendingNotifications V) :
    PendingNotifications V :=
  let known := p.known.retain fun id _ => ids.contains id
  { known := ids.foldl (fun known id => known.insertIfNew id (stub id)) known
    order := ids }

def apply (p : PendingNotifications V) : NotificationChange V → PendingNotifications V
  | .added notifId event =>
      { known := p.known.insert notifId event
        order := if p.order.contains notifId then p.order else p.order ++ [notifId] }
  | .cleared notifId =>
      { known := p.known.erase notifId
        order := p.order.filter (· != notifId) }

@[simp] theorem render_empty : (empty : PendingNotifications V).render = [] := rfl

end PendingNotifications

/-- The hub's projections, one for each agent it has heard of. -/
abbrev SyncHub (V : Type) : Type := Map String (PendingNotifications V)

namespace SyncHub

/-- An operation on one agent's projection. -/
inductive Op (V : Type)
  | seedNotifications (agent : String) (ids : List String)
  | applyNotification (agent : String) (change : NotificationChange V)
  | forgetAgent (agent : String)

/-- The pending list of every agent the hub has heard of. -/
def pendingAll (hub : SyncHub V) : Map String (List V) :=
  hub.map fun _ p => p.render

/-- The list a fresh tree shows for an agent. -/
def pending (hub : SyncHub V) (agent : String) : List V :=
  (hub.pendingAll[agent]?).getD []

/-- Replace one agent's projection and say whether its rendered list changed. -/
def update
    [DecidableEq V]
    (hub : SyncHub V) (agent : String)
    (f : PendingNotifications V → PendingNotifications V) :
    SyncHub V × Bool :=
  let before := hub[agent]?.getD .empty
  (hub.insert agent (f before), decide ((f before).render ≠ before.render))

/-- The hub after an operation and whether it wakes the sessions. -/
def perform [DecidableEq V] (stub : String → V) (hub : SyncHub V) : Op V → SyncHub V × Bool
  | .seedNotifications agent ids => hub.update agent (·.seed stub ids)
  | .applyNotification agent change => hub.update agent (·.apply change)
  | .forgetAgent agent => (hub.erase agent, decide (agent ∈ hub))

@[simp] theorem getElem?_pendingAll (hub : SyncHub V) (agent : String) :
    hub.pendingAll[agent]? = hub[agent]?.map (·.render) := by
  simp [pendingAll]

theorem pending_update_of_unchanged
    [DecidableEq V]
    {hub : SyncHub V} {agent : String}
    {f : PendingNotifications V → PendingNotifications V}
    (h : (hub.update agent f).2 = false)
    (name : String) :
    (hub.update agent f).1.pending name = hub.pending name := by
  have hrender :
      (f (hub[agent]?.getD .empty)).render = (hub[agent]?.getD .empty).render := by
    simpa [update] using h
  by_cases hname : agent = name
  · subst hname
    rw [pending, pending, getElem?_pendingAll, getElem?_pendingAll]
    cases hprev : hub[agent]? with
    | none => simpa [update, hprev] using hrender
    | some p => simpa [update, hprev] using hrender
  · simp [pending, update, Std.ExtTreeMap.getElem?_insert, hname]

/-- An operation that does not wake the sessions leaves every list as it is. -/
theorem pending_perform_of_unchanged
    [DecidableEq V]
    {stub : String → V} {hub : SyncHub V} {op : Op V}
    (h : (hub.perform stub op).2 = false)
    (name : String) :
    (hub.perform stub op).1.pending name = hub.pending name := by
  cases op with
  | seedNotifications agent ids => exact pending_update_of_unchanged h name
  | applyNotification agent change => exact pending_update_of_unchanged h name
  | forgetAgent agent =>
      have hmem : agent ∉ hub := by simpa [perform] using h
      by_cases hname : agent = name
      · subst hname
        simp [pending, perform, Std.ExtTreeMap.getElem?_eq_none hmem]
      · simp [pending, perform, Std.ExtTreeMap.getElem?_erase, hname]

end SyncHub

end Sync
end Vestad
end Vesta
