import Vesta.Core.Replica.Reducer
import Vesta.Vestad.Docker.Names

/-!
# The roster, its deltas and the replica that folds them

`buildRoster` joins the container list with the caches of the agent status
task and with the build phases of agents that have no container yet.
`rosterDeltas` is the diff a session sends between the roster it sent last and
the current one.

The roster frames are the edits of a map diff in the sense of `Lib.Map`, and the
client applies each to its own roster.  So a replica that shows the roster sent
last shows the current one after the frames, whatever the two rosters are, and
by induction over the published rosters it always shows the last one.
-/

namespace Vesta
namespace Vestad
namespace Sync

open Lib
open Vesta.Core

structure ServiceEntry where
  port : UInt16
  isPublic : Bool
deriving DecidableEq

structure RateLimitedWindow where
  window : Option String
  resetsAt : Option Int64
deriving DecidableEq

/-- One container of the agent list. -/
structure ListEntry where
  name : String
  status : AgentStatus
  booting : Bool
  rateLimited : Option RateLimitedWindow
  startedAt : Option String
deriving DecidableEq

/-- What one reading of the agent status cache gives a roster build. -/
structure CacheReading where
  agents : List ListEntry
  activity : Map String String
  services : Map String (Map String ServiceEntry)
  revs : Map String (Map String UInt64)
  buildPhases : Map String BuildPhase
  operations : Map String AgentOperation

/-- A stand-in row for an agent still being created, before its container exists. -/
def syntheticBuildingInfo (phase : BuildPhase) : AgentInfo where
  status := .settingUp
  activityState := "idle"
  buildPhase := some phase
  operation := none
  booting := false
  rateLimited := none
  startedAt := none
  services := ∅

def agentInfo
    (entry : ListEntry)
    (activity : Map String String)
    (services : Map String (Map String ServiceEntry))
    (revs : Map String (Map String UInt64))
    (buildPhase : Option BuildPhase)
    (operation : Option AgentOperation) :
    AgentInfo :=
  let agentRevs := revs[entry.name]?
  { status := entry.status
    activityState := activity[entry.name]?.getD "idle"
    buildPhase := buildPhase
    operation := operation
    booting := entry.booting
    rateLimited := entry.rateLimited.map fun window =>
      { window := window.window, resetsAt := window.resetsAt }
    startedAt := entry.startedAt
    services := (services[entry.name]?.map fun svc =>
      svc.map fun svcName e =>
        let rev := (agentRevs.bind fun m => m[svcName]?).getD 0
        { port := e.port, rev := rev, isPublic := e.isPublic }).getD ∅ }

/-- One entry joins the roster and takes its build phase out of the phases left. -/
def joinEntry
    (reading : CacheReading)
    (acc : Map String AgentInfo × Map String BuildPhase)
    (entry : ListEntry) :
    Map String AgentInfo × Map String BuildPhase :=
  let normalized := normalizeName entry.name
  let buildPhase := acc.2[normalized]?
  let operation := reading.operations[normalized]?.filter (·.onWire)
  let info :=
    agentInfo entry reading.activity reading.services reading.revs buildPhase operation
  (acc.1.insert entry.name info, acc.2.erase normalized)

def buildRoster (reading : CacheReading) : Map String AgentInfo :=
  let (roster, buildPhases) :=
    reading.agents.foldl (joinEntry reading) (∅, reading.buildPhases)
  buildPhases.toList.foldl
    (fun roster e => roster.insertIfNew e.1 (syntheticBuildingInfo e.2)) roster

section Frames

variable {G D V : Type}

/-- The frame that carries an edit of the roster. -/
def rosterFrame : Map.Edit String AgentInfo → Delta G D V
  | .set name info => .agent name info
  | .drop name => .agentRemoved name

/-- New or changed agents, in key order, and then the agents gone from the roster. -/
def rosterDeltas (last current : Map String AgentInfo) : List (Delta G D V) :=
  (current.toList.filterMap fun e =>
    if last[e.1]? = some e.2 then none else some (.agent e.1 e.2)) ++
  (last.keys.filterMap fun name =>
    if name ∈ current then none else some (.agentRemoved name))

/-- What a session sent last about the roster and the gateway branch. -/
structure RosterCursor (G : Type) where
  lastRoster : Map String AgentInfo
  lastGateway : G

/-- The frames of one roster wake and the cursor after them. -/
def emitRosterAndGateway
    [DecidableEq G]
    (cursor : RosterCursor G)
    (current : Map String AgentInfo) (gateway : G) :
    List (Delta G D V) × RosterCursor G :=
  let gatewayFrames : List (Delta G D V) :=
    if gateway = cursor.lastGateway then [] else [.state gateway]
  (rosterDeltas cursor.lastRoster current ++ gatewayFrames,
    { lastRoster := current, lastGateway := gateway })

/-- The tree of a connect snapshot. -/
def buildTree
    (gateway : G)
    (roster : Map String AgentInfo)
    (pending : Map String (List V))
    (devices : List D) :
    Tree G D V where
  gateway := gateway
  agents := roster.map fun name info =>
    { info := info, pending := pending[name]?.getD [] }
  devices := devices

@[simp] theorem rosterEdit_rosterFrame (e : Map.Edit String AgentInfo) :
    rosterEdit (rosterFrame e : Delta G D V) = some e := by
  cases e with
  | set | drop => rfl

/-- The roster deltas are the map diff, one frame for each edit. -/
theorem rosterDeltas_eq_diff (last current : Map String AgentInfo) :
    (rosterDeltas last current : List (Delta G D V)) =
      (Map.diff last current).map rosterFrame := by
  rw [rosterDeltas, Map.diff, List.map_append, Map.upserts, Map.drops,
    List.map_filterMap, List.map_filterMap]
  congr 1
  · congr 1
    funext e
    split <;> rfl
  · congr 1
    funext name
    split <;> rfl

/-- Folding the frames of edits edits the roster of the replica. -/
theorem roster_foldl_rosterFrame
    (es : List (Map.Edit String AgentInfo)) (tree : Tree G D V) :
    ((es.map rosterFrame).foldl reduceDelta tree).roster =
      es.foldl Map.Edit.apply tree.roster := by
  induction es generalizing tree with
  | nil => rfl
  | cons e es ih =>
      rw [List.map_cons, List.foldl_cons, ih,
        roster_reduceDelta_of_some (rosterEdit_rosterFrame e), List.foldl_cons]

/-- Folding the frames of edits leaves the gateway and the devices alone. -/
theorem frame_foldl_rosterFrame
    (es : List (Map.Edit String AgentInfo)) (tree : Tree G D V) :
    ((es.map rosterFrame).foldl reduceDelta tree).gateway = tree.gateway ∧
      ((es.map rosterFrame).foldl reduceDelta tree).devices = tree.devices := by
  induction es generalizing tree with
  | nil => exact ⟨rfl, rfl⟩
  | cons e es ih =>
      have hframe := reduceDelta_frame (rosterEdit_rosterFrame e) tree
      rw [List.map_cons, List.foldl_cons, (ih _).1, (ih _).2]
      exact hframe

/-- Edits that do not drop an agent keep the list it is shown, the empty one when the client
has no node for it yet. -/
theorem getD_pending_foldl_rosterFrame
    {es : List (Map.Edit String AgentInfo)} {name : String}
    (hes : Map.Edit.drop name ∉ es)
    (tree : Tree G D V) :
    (((es.map rosterFrame).foldl reduceDelta tree).pending name).getD [] =
      (tree.pending name).getD [] := by
  induction es generalizing tree with
  | nil => rfl
  | cons e es ih =>
      rw [List.map_cons, List.foldl_cons, ih (fun h => hes (List.mem_cons_of_mem _ h)),
        pending_reduceDelta_of_some (rosterEdit_rosterFrame e)]
      cases e with
      | set k info =>
          by_cases hk : k = name
          · simp [hk]
          · simp [hk]
      | drop k =>
          have hk : k ≠ name := fun h => hes (h ▸ List.mem_cons_self)
          simp [hk]

theorem roster_foldl_rosterDeltas
    {tree : Tree G D V} {last : Map String AgentInfo}
    (htree : tree.roster = last)
    (current : Map String AgentInfo) :
    ((rosterDeltas last current).foldl reduceDelta tree).roster = current := by
  rw [rosterDeltas_eq_diff, roster_foldl_rosterFrame, htree, Map.foldl_apply_diff]

theorem getD_pending_foldl_rosterDeltas
    {last current : Map String AgentInfo} {name : String}
    (hcur : name ∈ current)
    (tree : Tree G D V) :
    (((rosterDeltas last current).foldl reduceDelta tree).pending name).getD [] =
      (tree.pending name).getD [] := by
  rw [rosterDeltas_eq_diff]
  apply getD_pending_foldl_rosterFrame
  intro hmem
  rcases List.mem_append.1 hmem with hset | hdrop
  · obtain ⟨k, v, -, -, he⟩ := Map.mem_upserts.1 hset
    cases he
  · obtain ⟨k, -, hk, he⟩ := Map.mem_drops.1 hdrop
    cases he
    exact hk hcur

/-- Two trees with a node for an agent that show the same list for it agree on it. -/
theorem pending_eq_of_getD
    {tree tree' : Tree G D V} {name : String}
    (hmem : name ∈ tree.agents) (hmem' : name ∈ tree'.agents)
    (h : (tree.pending name).getD [] = (tree'.pending name).getD []) :
    tree.pending name = tree'.pending name := by
  simp only [Tree.pending, Std.ExtTreeMap.getElem?_eq_some_getElem hmem,
    Std.ExtTreeMap.getElem?_eq_some_getElem hmem', Option.map_some, Option.getD_some] at h ⊢
  rw [h]

theorem frame_foldl_rosterDeltas
    (last current : Map String AgentInfo) (tree : Tree G D V) :
    ((rosterDeltas last current).foldl reduceDelta tree).gateway = tree.gateway ∧
      ((rosterDeltas last current).foldl reduceDelta tree).devices = tree.devices := by
  rw [rosterDeltas_eq_diff]
  exact frame_foldl_rosterFrame _ tree

/-- After a roster wake the client shows the current roster. -/
theorem roster_foldl_emitRosterAndGateway
    [DecidableEq G]
    {cursor : RosterCursor G} {tree : Tree G D V}
    (htree : tree.roster = cursor.lastRoster)
    (current : Map String AgentInfo) (gateway : G) :
    ((emitRosterAndGateway cursor current gateway).1.foldl reduceDelta tree).roster =
      current := by
  have hroster := roster_foldl_rosterDeltas htree current
  by_cases hg : gateway = cursor.lastGateway
  · simpa only [emitRosterAndGateway, hg, if_true, List.append_nil] using hroster
  · simp only [emitRosterAndGateway, hg, if_false, List.foldl_append]
    exact hroster

/-- A roster wake keeps the list shown for every agent of the current roster. -/
theorem getD_pending_foldl_emitRosterAndGateway
    [DecidableEq G]
    (cursor : RosterCursor G)
    {current : Map String AgentInfo} {name : String}
    (hcur : name ∈ current)
    (gateway : G) (tree : Tree G D V) :
    (((emitRosterAndGateway cursor current gateway).1.foldl reduceDelta tree).pending
        name).getD [] =
      (tree.pending name).getD [] := by
  by_cases hg : gateway = cursor.lastGateway
  · simp only [emitRosterAndGateway, hg, if_true, List.append_nil]
    exact getD_pending_foldl_rosterDeltas hcur tree
  · simp only [emitRosterAndGateway, hg, if_false, List.foldl_append]
    exact getD_pending_foldl_rosterDeltas hcur tree

/-- The replica shows what the session sent last about the roster and the gateway. -/
def Shows (tree : Tree G D V) (cursor : RosterCursor G) : Prop :=
  tree.roster = cursor.lastRoster ∧ tree.gateway = cursor.lastGateway

/-- One roster wake keeps the replica in step with the cursor. -/
theorem shows_emitRosterAndGateway
    [DecidableEq G]
    {tree : Tree G D V} {cursor : RosterCursor G}
    (h : Shows tree cursor)
    (current : Map String AgentInfo) (gateway : G) :
    Shows
      ((emitRosterAndGateway cursor current gateway).1.foldl reduceDelta tree)
      (emitRosterAndGateway (D := D) (V := V) cursor current gateway).2 := by
  refine ⟨roster_foldl_emitRosterAndGateway h.1 current gateway, ?_⟩
  have hgateway := (frame_foldl_rosterDeltas cursor.lastRoster current tree).1
  by_cases hg : gateway = cursor.lastGateway
  · simp [emitRosterAndGateway, hg, hgateway, h.2]
  · simp only [emitRosterAndGateway, hg, if_false, List.foldl_append]
    rfl

/-- The replica and the cursor after the roster wakes that a sequence of readings causes. -/
def serveRosters
    [DecidableEq G] :
    Tree G D V × RosterCursor G →
    List (CacheReading × G) →
    Tree G D V × RosterCursor G
  | s, [] => s
  | (tree, cursor), (reading, gateway) :: rest =>
      let emitted := emitRosterAndGateway cursor (buildRoster reading) gateway
      serveRosters (emitted.1.foldl reduceDelta tree, emitted.2) rest

theorem shows_serveRosters
    [DecidableEq G]
    {tree : Tree G D V} {cursor : RosterCursor G}
    (h : Shows tree cursor)
    (published : List (CacheReading × G)) :
    Shows (serveRosters (tree, cursor) published).1
      (serveRosters (tree, cursor) published).2 := by
  induction published generalizing tree cursor with
  | nil => exact h
  | cons p rest ih => exact ih (shows_emitRosterAndGateway h _ _)

theorem lastRoster_serveRosters
    [DecidableEq G]
    (s : Tree G D V × RosterCursor G)
    (published : List (CacheReading × G)) :
    (serveRosters s published).2.lastRoster =
      (published.getLast?.map fun p => buildRoster p.1).getD s.2.lastRoster := by
  induction published generalizing s with
  | nil => rfl
  | cons p rest ih =>
      rw [serveRosters, ih]
      cases rest with
      | nil => rfl
      | cons q rest =>
          rw [List.getLast?_cons_cons, List.getLast?_eq_some_getLast (List.cons_ne_nil q rest)]
          rfl

/-- The deltas between two rosters turn a replica of the first into a replica of the
second and touch nothing else of what both have, and so does every sequence of them. -/
theorem rosterDeltas_converge [DecidableEq G] :
    (∀ (last current : Map String AgentInfo) (tree : Tree G D V),
      tree.roster = last →
      let tree' := (rosterDeltas last current).foldl reduceDelta tree
      tree'.roster = current ∧
        (∀ name, name ∈ tree'.agents ↔ name ∈ current) ∧
        (∀ name, name ∈ last → name ∈ current →
          tree'.pending name = tree.pending name) ∧
        tree'.gateway = tree.gateway ∧
        tree'.devices = tree.devices) ∧
    (∀ (first : CacheReading) (published : List (CacheReading × G))
      (tree : Tree G D V) (gateway : G),
      tree.roster = buildRoster first →
      tree.gateway = gateway →
      let final := (serveRosters (tree, ⟨buildRoster first, gateway⟩) published).1
      final.roster = (published.getLast?.map fun p => buildRoster p.1).getD
        (buildRoster first)) := by
  constructor
  · intro last current tree htree tree'
    have hroster : tree'.roster = current := roster_foldl_rosterDeltas htree current
    refine ⟨hroster, ?_, ?_, frame_foldl_rosterDeltas last current tree⟩
    · intro name
      rw [← mem_roster, hroster]
    · intro name hlast hcur
      apply pending_eq_of_getD
      · rw [← mem_roster, hroster]
        exact hcur
      · rw [← mem_roster, htree]
        exact hlast
      · exact getD_pending_foldl_rosterDeltas hcur tree
  · intro first published tree gateway hroster hgateway final
    have hshows : Shows tree ⟨buildRoster first, gateway⟩ := ⟨hroster, hgateway⟩
    have hfinal : final.roster = _ := (shows_serveRosters hshows published).1
    rw [hfinal, lastRoster_serveRosters]

end Frames

/-- A reading with one alive agent and one still being built. -/
def sampleReading : CacheReading where
  agents := [{ name := "scout", status := .alive, booting := false, rateLimited := none,
               startedAt := none }]
  activity := ∅
  services := ∅
  revs := ∅
  buildPhases := (∅ : Map String BuildPhase).insert "scout" .starting |>.insert "axel" .pulling
  operations := ∅

/-- The tree of a connect snapshot on that reading. -/
def sampleTree : Tree String Nat Nat :=
  buildTree "0.1.0" (buildRoster sampleReading)
    ((∅ : Map String (List Nat)).insert "scout" [7]) []

theorem rosterDeltas_converge_sample :
    let gone : CacheReading := { sampleReading with agents := [] }
    let tree' := (rosterDeltas sampleTree.roster (buildRoster gone)).foldl reduceDelta sampleTree
    tree'.roster = buildRoster gone ∧
      tree'.pending "axel" = sampleTree.pending "axel" ∧
      (serveRosters (sampleTree, ⟨buildRoster sampleReading, "0.1.0"⟩)
        [(gone, "0.1.0"), (sampleReading, "0.1.1")]).1.roster = buildRoster sampleReading := by
  have hroster : sampleTree.roster = buildRoster sampleReading := by decide
  have hpair := rosterDeltas_converge.1 _
    (buildRoster { sampleReading with agents := [] }) sampleTree rfl
  refine ⟨hpair.1, hpair.2.2.1 "axel" ?_ ?_, ?_⟩
  · decide
  · decide
  · exact rosterDeltas_converge.2 sampleReading
      [({ sampleReading with agents := [] }, "0.1.0"), (sampleReading, "0.1.1")]
      sampleTree "0.1.0" hroster rfl

end Sync
end Vestad
end Vesta
