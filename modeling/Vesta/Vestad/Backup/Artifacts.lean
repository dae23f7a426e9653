import Vesta.Lib.Pool

/-!
# The throwaway artifacts of backups and restores

Several gateways, one for each host user, share one Docker daemon.  A backup
commits the agent's container to an image, creates a plain container from the
image, exports that into restic and removes both; a restore imports a snapshot
into an image and creates the agent's container from it.  The container and the
images are named after the agent alone, and all their steps interleave.

Operations that hold an agent's lock exclude each other on that agent of that
user.  The boot sweep holds no lock, and neither do the attempts that a restore
leaves running when it times out.

A request carries, besides what the code sends, the filesystem that its task
has captured or asked for, to say later what should have come of it.
-/

namespace Vesta
namespace Vestad
namespace Artifacts

open Lib
open Prog

structure Agent where
  user : String
  name : String
deriving DecidableEq

/-- A filesystem: whose it is, and which of its states. -/
structure Fs where
  owner : Agent
  version : Nat
deriving DecidableEq

def containerName (a : Agent) : String := "vesta-" ++ a.user ++ "-" ++ a.name

/-- The container that a backup exports. -/
def tempName (name : String) : String := "vesta-backup-tmp-" ++ name

/-- The image that a backup commits. -/
def tempImage (name : String) : String := tempName name ++ ":latest"

/-- The image that a restore imports. -/
def restoreImage (name : String) : String := "vesta-restore:" ++ name

/-- The tasks of the gateways, and the agents' own processes. -/
inductive Actor
  | backup (agent : Agent)
  | restore (agent : Agent)
  | retry (agent : Agent)
  | destroy (agent : Agent)
  | sweep (user : String)
  | process (agent : Agent)
deriving DecidableEq

def Actor.agent : Actor → Option Agent
  | .backup a => some a
  | .restore a => some a
  | .retry a => some a
  | .destroy a => some a
  | .process a => some a
  | .sweep _ => none

/-- The agent whose lock a task holds. -/
def Actor.locks : Actor → Option Agent
  | .backup a => some a
  | .restore a => some a
  | .destroy a => some a
  | .retry _ => none
  | .process _ => none
  | .sweep _ => none

/-- Who removes the artifacts of a backup. -/
inductive Cleaner
  | backup (agent : Agent)
  | destroy (agent : Agent)
  | sweep (user name : String)
deriving DecidableEq

def Cleaner.name : Cleaner → String
  | .backup a => a.name
  | .destroy a => a.name
  | .sweep _ name => name

def Cleaner.actor : Cleaner → Actor
  | .backup a => .backup a
  | .destroy a => .destroy a
  | .sweep user _ => .sweep user

/-- Who imports a snapshot: a restore, or its attempts after it has timed out. -/
inductive Importer
  | restore (agent : Agent)
  | retry (agent : Agent)
deriving DecidableEq

def Importer.agent : Importer → Agent
  | .restore a => a
  | .retry a => a

def Importer.actor : Importer → Actor
  | .restore a => .restore a
  | .retry a => .retry a

inductive Call
  | containerStatus (agent : Agent)
  | checkDiskSpace (agent : Agent)
  | removeTempContainer (cleaner : Cleaner)
  | removeTempImage (cleaner : Cleaner)
  | commitContainer (agent : Agent)
  | createPlain (agent : Agent) (captured : Fs)
  | snapshot (agent : Agent) (captured : Fs)
  | findBackup (agent : Agent) (id : Nat)
  | removeContainer (agent : Agent)
  | removeRestoreImage (importer : Importer)
  | dumpImport (importer : Importer) (id left : Nat)
  | createContainer (agent : Agent) (requested : Fs)
  | resume (agent : Agent) (id left : Nat)
  | destroyContainer (agent : Agent)
  | removeRepo (agent : Agent)
  | listAgentNames (user : String)
  | write (agent : Agent) (version : Nat)

def Call.actor : Call → Actor
  | .containerStatus a => .backup a
  | .checkDiskSpace a => .backup a
  | .removeTempContainer cleaner => cleaner.actor
  | .removeTempImage cleaner => cleaner.actor
  | .commitContainer a => .backup a
  | .createPlain a _ => .backup a
  | .snapshot a _ => .backup a
  | .findBackup a _ => .restore a
  | .removeContainer a => .restore a
  | .removeRestoreImage importer => importer.actor
  | .dumpImport importer _ _ => importer.actor
  | .createContainer a _ => .restore a
  | .resume a _ _ => .retry a
  | .destroyContainer a => .destroy a
  | .removeRepo a => .destroy a
  | .listAgentNames user => .sweep user
  | .write a _ => .process a

/-- How an import ends.  A restore that times out leaves its other attempts running. -/
inductive Import
  | done (fs : Fs)
  | failed
  | timedOut

abbrev Answer : Call → Type
  | .commitContainer _ => Option Fs
  | .dumpImport .. => Import
  | .listAgentNames _ => List String
  | _ => Bool

abbrev Op : Type → Type := Prog Answer String

abbrev ask (c : Call) : Op (Answer c) := request c

def orFail (message : String) (worked : Bool) : Op Unit :=
  if worked then pure () else fail message

/-- Best-effort removal of the throwaway commit container and image. -/
def removeTempArtifacts (cleaner : Cleaner) : Op Unit := do
  let _ ← ask (.removeTempContainer cleaner)
  let _ ← ask (.removeTempImage cleaner)
  pure ()

/-- Export what the temporary image holds into restic. -/
def snapshotCommitted (a : Agent) (captured : Fs) : Op Bool := do
  let created ← ask (.createPlain a captured)
  if created then ask (.snapshot a captured) else pure false

def createBackup (a : Agent) : Op Unit := do
  ask (.containerStatus a) >>= orFail "agent is not alive"
  ask (.checkDiskSpace a) >>= orFail "not enough disk space"
  removeTempArtifacts (.backup a)
  match (← ask (.commitContainer a) : Option Fs) with
  | none => fail "docker commit failed"
  | some captured =>
      let result ← snapshotCommitted a captured
      removeTempArtifacts (.backup a)
      orFail "backup failed" result

/-- Remove the image of an earlier restore and pipe the snapshot into `docker import`, with this
many attempts left. -/
def importPipeline (importer : Importer) (id : Nat) : Nat → Op (Option Fs)
  | 0 => pure none
  | left + 1 => do
      let _ ← ask (.removeRestoreImage importer)
      match (← ask (.dumpImport importer id left) : Import) with
      | .done fs => pure (some fs)
      | .failed => importPipeline importer id left
      | .timedOut => pure none

def importPipelineMaxAttempts : Nat := 3

/-- Replace the agent's container by one built from a snapshot. -/
def restoreBackup (a : Agent) (id : Nat) : Op Unit := do
  ask (.findBackup a id) >>= orFail "backup not found"
  ask (.removeContainer a) >>= orFail "container still exists"
  match ← importPipeline (.restore a) id importPipelineMaxAttempts with
  | none => fail "restore failed"
  | some requested => ask (.createContainer a requested) >>= orFail "docker create failed"

/-- The attempts that a restore has left running. -/
def retryImport (a : Agent) (id left : Nat) : Op Unit := do
  let _ ← ask (.resume a id left)
  let _ ← importPipeline (.retry a) id left
  pure ()

def destroyAgent (a : Agent) : Op Unit := do
  ask (.destroyContainer a) >>= orFail "docker rm failed"
  removeTempArtifacts (.destroy a)
  let _ ← ask (.removeRepo a)
  pure ()

/-- The boot sweep: the same clearing for every agent of this user. -/
def sweepBackupTempArtifacts (user : String) : Op Unit := do
  let names ← ask (.listAgentNames user)
  forEach (fun name => removeTempArtifacts (.sweep user name)) names

inductive Operation
  | createBackup (agent : Agent)
  | restoreBackup (agent : Agent) (id : Nat)
  | retryImport (agent : Agent) (id left : Nat)
  | destroyAgent (agent : Agent)
  | sweepBackupTempArtifacts (user : String)
  | write (agent : Agent) (version : Nat)

def Operation.prog : Operation → Op Unit
  | .createBackup a => Artifacts.createBackup a
  | .restoreBackup a id => Artifacts.restoreBackup a id
  | .retryImport a id left => Artifacts.retryImport a id left
  | .destroyAgent a => Artifacts.destroyAgent a
  | .sweepBackupTempArtifacts user => Artifacts.sweepBackupTempArtifacts user
  | .write a version => do
      let _ ← ask (.write a version)
      pure ()

def Operation.actor : Operation → Actor
  | .createBackup a => .backup a
  | .restoreBackup a _ => .restore a
  | .retryImport a _ _ => .retry a
  | .destroyAgent a => .destroy a
  | .sweepBackupTempArtifacts user => .sweep user
  | .write a _ => .process a

/-! ## The shared Docker daemon -/

/-- A container, with the agent its labels name. -/
structure Container where
  fs : Fs
  label : Option Agent
deriving DecidableEq

/-- A snapshot in an agent's repository. -/
structure Snapshot where
  agent : Agent
  id : Nat
  fs : Fs
deriving DecidableEq

/-- A snapshot that a backup reports, with what the backup had captured. -/
structure Report where
  agent : Agent
  captured : Fs
  stored : Fs
deriving DecidableEq

/-- A container that a restore has created, with what was asked for. -/
structure Restored where
  requested : Fs
  built : Fs
deriving DecidableEq

structure World where
  containers : Map String Container
  images : Map String Fs
  repo : List Snapshot
  next : Nat
  detached : List (Agent × Nat × Nat)
  reports : List Report
  restores : List Restored

structure Tick where
  outcome : Outcome
  timedOut : Bool

def Tick.acts (t : Tick) : Bool := t.outcome.acts

def Tick.reports (t : Tick) : Bool := t.outcome.reports

def World.find (w : World) (a : Agent) (id : Nat) : Option Fs :=
  (w.repo.find? fun s => s.agent = a ∧ s.id = id).map (·.fs)

/-- The attempts of a timed-out restore wait to go on. -/
def ready (w : World) : Call → Bool
  | .resume a id left => (a, id, left) ∈ w.detached
  | _ => true

def World.removeContainer (w : World) (name : String) : World :=
  { w with containers := w.containers.erase name }

def World.removeImage (w : World) (image : String) : World :=
  { w with images := w.images.erase image }

def exec : Answers Answer World Tick
  | w, .containerStatus a, t => (t.reports && (w.containers[containerName a]?).isSome, w)
  | w, .checkDiskSpace _, t => (t.reports, w)
  | w, .removeTempContainer cleaner, t =>
      (t.reports, if t.acts then w.removeContainer (tempName cleaner.name) else w)
  | w, .removeTempImage cleaner, t =>
      (t.reports, if t.acts then w.removeImage (tempImage cleaner.name) else w)
  | w, .commitContainer a, t =>
      match w.containers[containerName a]?.filter fun _ => t.acts with
      | none => (none, w)
      | some c =>
          (if t.reports then some c.fs else none,
            { w with images := w.images.insert (tempImage a.name) c.fs })
  | w, .createPlain a _, t =>
      match w.images[tempImage a.name]?.filter fun _ => t.acts ∧ tempName a.name ∉ w.containers with
      | none => (false, w)
      | some fs =>
          (t.reports,
            { w with containers := w.containers.insert (tempName a.name) { fs := fs, label := none } })
  | w, .snapshot a captured, t =>
      match w.containers[tempName a.name]?.filter fun _ => t.acts with
      | none => (false, w)
      | some c =>
          (t.reports,
            { w with
              repo := { agent := a, id := w.next, fs := c.fs } :: w.repo
              next := w.next + 1
              reports :=
                if t.reports then
                  { agent := a, captured := captured, stored := c.fs } :: w.reports
                else
                  w.reports })
  | w, .findBackup a id, t => (t.reports && (w.find a id).isSome, w)
  | w, .removeContainer a, t =>
      (t.reports, if t.acts then w.removeContainer (containerName a) else w)
  | w, .removeRestoreImage importer, t =>
      (t.reports, if t.acts then w.removeImage (restoreImage importer.agent.name) else w)
  | w, .dumpImport importer id left, t =>
      match w.find importer.agent id with
      | none => (.failed, w)
      | some fs =>
          let timedOut := decide (t.timedOut = true ∧ importer = .restore importer.agent)
          (if timedOut then .timedOut else if t.reports then .done fs else .failed,
            { w with
              images :=
                if t.acts then w.images.insert (restoreImage importer.agent.name) fs else w.images
              detached :=
                if timedOut then (importer.agent, id, left) :: w.detached else w.detached })
  | w, .createContainer a requested, t =>
      match w.images[restoreImage a.name]?.filter
        fun _ => t.acts ∧ containerName a ∉ w.containers with
      | none => (false, w)
      | some fs =>
          (t.reports,
            { w with
              containers := w.containers.insert (containerName a) { fs := fs, label := some a }
              restores := { requested := requested, built := fs } :: w.restores })
  | w, .resume a id left, _ => (true, { w with detached := w.detached.erase (a, id, left) })
  | w, .destroyContainer a, t =>
      (t.reports, if t.acts then w.removeContainer (containerName a) else w)
  | w, .removeRepo a, t =>
      (t.reports, if t.acts then { w with repo := w.repo.filter (·.agent ≠ a) } else w)
  | w, .listAgentNames user, t =>
      (if t.reports then
          w.containers.toList.filterMap fun e => (e.2.label.filter (·.user = user)).map (·.name)
        else
          [],
        w)
  | w, .write a version, _ =>
      match w.containers[containerName a]? with
      | none => (false, w)
      | some c =>
          (true,
            { w with
              containers :=
                w.containers.insert (containerName a)
                  { c with fs := { c.fs with version := version } } })

attribute [grind =] exec

abbrev State : Type := Pool Answer String Unit World

/-- A host on which the agents' containers stand and nothing else. -/
structure Host (agents : List Agent) (w : World) : Prop where
  containers :
    ∀ (name : String) (c : Container), w.containers[name]? = some c →
      ∃ a ∈ agents, c.label = some a ∧ name = containerName a ∧ c.fs.owner = a
  repo : w.repo = []
  reports : w.reports = []
  restores : w.restores = []

/-- An operation is about one of the agents and waits for the agent's lock. -/
def may (agents : List Agent) (s : State) (op : Operation) : Bool :=
  (∀ a ∈ op.actor.agent, a ∈ agents) ∧
    ∀ e ∈ s.tasks.toList, ∀ c ∈ e.2.next, ∀ a ∈ op.actor.locks, c.actor.locks ≠ some a

def machine (agents : List Agent) : Machine State (PoolLabel Operation Tick) :=
  Pool.machine (Host agents) (may agents) ready exec Operation.prog

/-- What a backup in progress has made is still there. -/
def InPlace (w : World) : Call → Prop
  | .createPlain a captured => w.images[tempImage a.name]? = some captured
  | .snapshot a captured =>
      w.images[tempImage a.name]? = some captured ∧
        w.containers[tempName a.name]? = some { fs := captured, label := none }
  | _ => True

/-- Each reported snapshot is the agent's own filesystem as its backup captured it, each restored
container is built from the requested snapshot, and the artifacts of every backup in progress are
in place. -/
structure Unmixed (s : State) : Prop where
  reported : ∀ r ∈ s.world.reports, r.stored = r.captured ∧ r.stored.owner = r.agent
  restored : ∀ r ∈ s.world.restores, r.built = r.requested
  inPlace :
    ∀ (id : Nat) (p : Op Unit), s.tasks[id]? = some p → ∀ c ∈ p.next, InPlace s.world c

/-- Agents whose container names are distinct and not those of the throwaway containers. -/
structure Distinct (agents : List Agent) : Prop where
  injective : ∀ a ∈ agents, ∀ b ∈ agents, containerName a = containerName b → a = b
  temp : ∀ a ∈ agents, ∀ name, containerName a ≠ tempName name

/-- Two tasks whose artifacts have the same names. -/
def Actor.conflicts : Actor → Actor → Bool
  | .backup a, .backup b => a.name = b.name
  | .backup a, .destroy b => a.name = b.name
  | .destroy a, .backup b => a.name = b.name
  | .restore a, .restore b => a.name = b.name
  | .restore a, .retry b => a.name = b.name
  | .retry a, .restore b => a.name = b.name
  | _, _ => false

/-- The name that a request of a boot sweep clears. -/
def Call.sweeps : Call → Option String
  | .removeTempContainer (.sweep _ name) => some name
  | .removeTempImage (.sweep _ name) => some name
  | _ => none

def Actor.backsUp (name : String) : Actor → Bool
  | .backup a => a.name = name
  | _ => false

/-- No two backups, no backup and destroy, no two restores and no restore and left-over attempts
are in progress on agents of one name, and no sweep clears a name while one is being backed up. -/
def Apart (s : State) : PoolLabel Operation Tick → Prop
  | .spawn _ op =>
      ∀ e ∈ s.tasks.toList, ∀ c ∈ e.2.next, op.actor.conflicts c.actor = false
  | .step id _ =>
      ∀ c ∈ s.tasks[id]?.bind Prog.next, ∀ name ∈ c.sweeps,
        ∀ e ∈ s.tasks.toList, ∀ d ∈ e.2.next, d.actor.backsUp name = false
  | .kill _ => True

instance decidableApart (s : State) : ∀ label, Decidable (Apart s label)
  | .spawn _ op =>
      inferInstanceAs
        (Decidable (∀ e ∈ s.tasks.toList, ∀ c ∈ e.2.next, op.actor.conflicts c.actor = false))
  | .step id _ =>
      inferInstanceAs
        (Decidable
          (∀ c ∈ s.tasks[id]?.bind Prog.next, ∀ name ∈ c.sweeps,
            ∀ e ∈ s.tasks.toList, ∀ d ∈ e.2.next, d.actor.backsUp name = false))
  | .kill _ => isTrue trivial

end Artifacts
end Vestad
end Vesta
