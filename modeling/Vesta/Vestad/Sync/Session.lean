import Vesta.Lib.Machine
import Vesta.Vestad.Sync.Hub
import Vesta.Vestad.Sync.Roster

/-!
# One `/sync` connection

The parties are the hub, the agent status cache, one session and its client.
A hub operation changes the hub under its lock and wakes the sessions in a
later step, and so does a change of the cache; the session serves its two wakes
in any order; the frames it sends are in flight, in order, until the client
folds them.

The session diffs the hub against the pending lists it recorded as sent, and
the cache against the roster it sent, but the client keeps an agent's pending
list inside the node a roster frame creates and deletes.  `Relayed` says when
these two records stay true of the client, and under it the client's pending
lists are those of a fresh tree whenever nothing is outstanding.
-/

namespace Vesta
namespace Vestad
namespace Sync

open Lib
open Vesta.Core

variable {G D V : Type} [DecidableEq G] [DecidableEq V]

/-- The frames of a session that the client folds. -/
inductive Frame (G D V : Type)
  | snapshot (tree : Tree G D V)
  | delta (delta : Delta G D V)

/-- The client's replica after one frame; deltas before the snapshot are dropped. -/
def applyFrame (replica : Option (Tree G D V)) : Frame G D V → Option (Tree G D V)
  | .snapshot tree => some tree
  | .delta delta => replica.map fun tree => reduceDelta tree delta

/-- One entry of the hub's lists joins the deltas and the record of what was sent. -/
def notificationsDelta
    (last : Map String (List V))
    (lastRoster : Map String AgentInfo)
    (acc : List (Delta G D V) × Map String (List V))
    (entry : String × List V) :
    List (Delta G D V) × Map String (List V) :=
  if entry.1 ∉ lastRoster then
    acc
  else if last[entry.1]? ≠ some entry.2 then
    (acc.1 ++ [.agentNotifications entry.1 entry.2], acc.2.insert entry.1 entry.2)
  else
    (acc.1, acc.2.insert entry.1 entry.2)

/-- Changed pending lists, and the lists to record as sent.  `current` lists the hub's
entries in the order its hash map is walked. -/
def notificationsDeltas
    (last : Map String (List V))
    (current : List (String × List V))
    (lastRoster : Map String AgentInfo) :
    List (Delta G D V) × Map String (List V) :=
  current.foldl (notificationsDelta last lastRoster) ([], ∅)

/-- How far the session has come. -/
inductive Phase (G V : Type)
  | connecting
  | subscribed
  | rosterRead (cursor : RosterCursor G)
  | serving (cursor : RosterCursor G) (lastPending : Map String (List V))

structure SyncState (G D V : Type) where
  hub : SyncHub V
  bumpsOwed : Nat
  cache : CacheReading
  signalsOwed : Nat
  phase : Phase G V
  notificationsChanged : Bool
  rosterChanged : Bool
  wire : List (Frame G D V)
  replica : Option (Tree G D V)

inductive Label (G D V : Type)
  | hub (op : SyncHub.Op V)
  | bump
  | publish (cache : CacheReading)
  | signal
  | subscribe
  | readRoster (gateway : G)
  | readPending (devices : List D)
  | serveNotifications (walk : List (String × List V))
  | serveRoster (keepalive : Bool) (gateway : G)
  | relay (delta : Delta G D V)
  | deliver

/-- The frames that belong to neither of the two wakes. -/
def isRelayed : Delta G D V → Bool
  | .userNotification .. => true
  | .presence _ => true
  | .devices _ => true
  | .state _ | .agent .. | .agentRemoved _ | .agentNotifications .. => false

namespace SyncState

def currentRoster (s : SyncState G D V) : Map String AgentInfo := buildRoster s.cache

/-- Put frames on the wire. -/
def send (s : SyncState G D V) (frames : List (Delta G D V)) : SyncState G D V :=
  { s with wire := s.wire ++ frames.map .delta }

def step (stub : String → V) (s : SyncState G D V) :
    Label G D V → Option (SyncState G D V)
  | .hub op =>
      let performed := s.hub.perform stub op
      some { s with hub := performed.1, bumpsOwed := s.bumpsOwed + performed.2.toNat }
  | .bump =>
      match s.bumpsOwed with
      | 0 => none
      | n + 1 => some { s with bumpsOwed := n, notificationsChanged := true }
  | .publish cache =>
      some { s with cache := cache, signalsOwed := s.signalsOwed + 1 }
  | .signal =>
      match s.signalsOwed with
      | 0 => none
      | n + 1 => some { s with signalsOwed := n, rosterChanged := true }
  | .subscribe =>
      match s.phase with
      | .connecting =>
          some { s with phase := .subscribed, notificationsChanged := false, rosterChanged := false }
      | _ => none
  | .readRoster gateway =>
      match s.phase with
      | .subscribed =>
          some { s with phase := .rosterRead { lastRoster := s.currentRoster, lastGateway := gateway } }
      | _ => none
  | .readPending devices =>
      match s.phase with
      | .rosterRead cursor =>
          let pending := s.hub.pendingAll
          let tree := buildTree cursor.lastGateway cursor.lastRoster pending devices
          some { s with phase := .serving cursor pending, wire := s.wire ++ [.snapshot tree] }
      | _ => none
  | .serveNotifications walk =>
      match s.phase with
      | .serving cursor lastPending =>
          if s.notificationsChanged = true ∧ walk.Perm s.hub.pendingAll.toList then
            let emitted := notificationsDeltas lastPending walk cursor.lastRoster
            some { s.send emitted.1 with
              phase := .serving cursor emitted.2, notificationsChanged := false }
          else
            none
      | _ => none
  | .serveRoster keepalive gateway =>
      match s.phase with
      | .serving cursor lastPending =>
          if keepalive = true ∨ s.rosterChanged = true then
            let emitted := emitRosterAndGateway cursor s.currentRoster gateway
            some { s.send emitted.1 with
              phase := .serving emitted.2 lastPending
              rosterChanged := keepalive && s.rosterChanged }
          else
            none
      | _ => none
  | .relay delta =>
      match s.phase with
      | .serving .. => if isRelayed delta then some (s.send [delta]) else none
      | _ => none
  | .deliver =>
      match s.wire with
      | [] => none
      | frame :: rest => some { s with wire := rest, replica := applyFrame s.replica frame }

attribute [grind =] step

/-- What the client holds once it has folded the frames in flight. -/
def held (s : SyncState G D V) : Option (Tree G D V) :=
  s.wire.foldl applyFrame s.replica

/-- The pending list the client will show for an agent. -/
def shown (s : SyncState G D V) (agent : String) : List V :=
  (s.held.bind (·.pending agent)).getD []

/-- A notifications wake is still to be served. -/
def NotificationsDue (s : SyncState G D V) : Prop :=
  s.notificationsChanged = true ∨ 0 < s.bumpsOwed

/-- A roster wake is still to be served. -/
def RosterDue (s : SyncState G D V) : Prop :=
  s.rosterChanged = true ∨ 0 < s.signalsOwed

/-- Both wakes have been served and no frame is in flight. -/
def Quiet (s : SyncState G D V) : Prop :=
  ¬s.NotificationsDue ∧ ¬s.RosterDue ∧ s.wire = []

/-- Once nothing is outstanding the client shows the pending lists of a fresh tree. -/
def Converged (s : SyncState G D V) : Prop :=
  ∀ cursor lastPending,
    s.phase = .serving cursor lastPending →
    s.Quiet →
    ∃ tree, s.replica = some tree ∧
      ∀ agent,
        tree.pending agent =
          (buildTree tree.gateway s.currentRoster s.hub.pendingAll tree.devices).pending agent

end SyncState

/-- The machine of one connection, from any hub and any cache. -/
def machine (stub : String → V) : Machine (SyncState G D V) (Label G D V) where
  start s := s.phase = .connecting ∧ s.wire = [] ∧ s.replica = none
  step := SyncState.step stub

/-- `Relayed` in a given phase. -/
def RelayedIn (s : SyncState G D V) : Phase G V → Label G D V → Prop
  | .serving cursor lastPending, .serveNotifications _ =>
      ∀ agent ∈ cursor.lastRoster.keys, agent ∈ s.currentRoster →
        (s.hub.pendingAll[agent]? = none → s.shown agent = []) ∧
          ∀ pending ∈ s.hub.pendingAll[agent]?,
            lastPending[agent]? = some pending → s.shown agent = pending
  | .serving cursor _, .serveRoster .. =>
      ∀ agent ∈ s.currentRoster.keys, agent ∉ cursor.lastRoster →
        s.NotificationsDue ∨ s.hub.pending agent = []
  | .serving cursor _, .publish cache =>
      ∀ agent ∈ cursor.lastRoster.keys, agent ∈ buildRoster cache → agent ∉ s.currentRoster →
        s.NotificationsDue ∨ s.shown agent = s.hub.pending agent
  | _, _ => True

/-- The steps that keep the session's records true of the client.  A notifications wake finds
no agent of the roster that the hub has dropped while the client still shows a list for it, and
none whose list is on record as sent but not at the client.  An agent joins the client's roster
only while its list in the hub is empty or still to be served, and joins the published roster
before its removal was sent only while the client shows that list. -/
def Relayed (s : SyncState G D V) (label : Label G D V) : Prop :=
  RelayedIn s s.phase label

instance (s : SyncState G D V) : Decidable s.NotificationsDue :=
  inferInstanceAs (Decidable (_ ∨ _))

instance (s : SyncState G D V) : Decidable s.RosterDue :=
  inferInstanceAs (Decidable (_ ∨ _))

instance decidableRelayedIn (s : SyncState G D V) :
    ∀ (phase : Phase G V) (label : Label G D V), Decidable (RelayedIn s phase label)
  | .serving cursor lastPending, .serveNotifications _ =>
      inferInstanceAs (Decidable (∀ agent ∈ cursor.lastRoster.keys, agent ∈ s.currentRoster →
        (s.hub.pendingAll[agent]? = none → s.shown agent = []) ∧
          ∀ pending ∈ s.hub.pendingAll[agent]?,
            lastPending[agent]? = some pending → s.shown agent = pending))
  | .serving cursor _, .serveRoster .. =>
      inferInstanceAs (Decidable (∀ agent ∈ s.currentRoster.keys, agent ∉ cursor.lastRoster →
        s.NotificationsDue ∨ s.hub.pending agent = []))
  | .serving cursor _, .publish cache =>
      inferInstanceAs (Decidable (∀ agent ∈ cursor.lastRoster.keys,
        agent ∈ buildRoster cache → agent ∉ s.currentRoster →
          s.NotificationsDue ∨ s.shown agent = s.hub.pending agent))
  | .serving .., .hub _ | .serving .., .bump | .serving .., .signal | .serving .., .subscribe
  | .serving .., .readRoster _ | .serving .., .readPending _ | .serving .., .relay _
  | .serving .., .deliver | .connecting, _ | .subscribed, _ | .rosterRead _, _ => isTrue trivial

instance (s : SyncState G D V) (label : Label G D V) : Decidable (Relayed s label) :=
  decidableRelayedIn s s.phase label

end Sync
end Vestad
end Vesta
