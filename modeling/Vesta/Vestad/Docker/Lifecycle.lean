import Vesta.Lib.Program

/-!
# Creating, rebuilding, restoring and destroying one agent

What the host holds under one agent's name: the container, the rebuild snapshots
of this user's namespace, the env file and the restic repository.  The operations
are programs over the calls they make to Docker, to restic and to the env file,
and each call may fail, or work and report a failure.

Filesystems are numbered as they first appear under the name: what a base image
gives, and every state that an agent writes, has a number of its own.
-/

namespace Vesta
namespace Vestad
namespace Docker

open Lib
open Prog

/-- The contents of a filesystem. -/
abbrev Fs : Type := Nat

/-- What a container is created from: the base image, a rebuild snapshot, or the image of the
agent's restores, asked for to hold a backup. -/
inductive Image
  | base
  | rebuild (ts : Nat)
  | restore (id : Nat)
deriving DecidableEq

inductive ContainerStatus
  | running
  | stopped
  | dead
  | notFound
deriving DecidableEq

inductive Call
  | containerStatus
  | inspectContainer
  | prepareEgress
  | readEnvPort
  | readContainerEnv
  | allocatePort
  | nowEpochSecs
  | stopContainer
  | snapshotContainer (ts : Nat)
  /-- The removal of a container that is to be replaced by one from the image. -/
  | removeContainer (replacement : Image)
  | ensureAgentNetwork
  | ensureSidecar
  | openEnvFile
  | writeEnvFile (port : Nat)
  | ensureConstitutionFile
  | createContainer (image : Image)
  | deleteEnvFile
  | removeImage (image : Image)
  | listManaged
  | envIsFile
  | resolveImage
  | removeContainerForce
  | removeRepo
  | resticList
  | resticSnapshot
  | restoreToImage (id : Nat)
  | startContainer

/-- What an inspection of the container says. -/
structure Inspected where
  status : ContainerStatus
  image : Image

abbrev Answer : Call → Type
  | .containerStatus => ContainerStatus
  | .inspectContainer => Option Inspected
  | .readEnvPort | .readContainerEnv | .allocatePort => Option Nat
  | .nowEpochSecs => Nat
  | .resticList => Option (List Nat)
  | _ => Bool

abbrev Op : Type → Type := Prog Answer String

abbrev ask (c : Call) : Op (Answer c) := request c

def orFail (message : String) (worked : Bool) : Op Unit :=
  if worked then pure () else fail message

/-! ## Steps that the operations share -/

def containerRemoveMaxAttempts : Nat := 5

/-- Force-remove a container and confirm that it is gone, with this many attempts left. -/
def ensureContainerRemoved (replacement : Image) : Nat → Op Unit
  | 0 => do
      if (← ask .containerStatus : ContainerStatus) = .notFound then pure ()
      else fail "container still present after 5 force-remove attempts"
  | left + 1 => do
      if (← ask .containerStatus : ContainerStatus) = .notFound then pure ()
      else
        let _ ← ask (.removeContainer replacement)
        ensureContainerRemoved replacement left

/-- The truncation of the env file, and the write of its contents. -/
def writeAgentEnvFile (port : Nat) : Op Unit := do
  ask .openEnvFile >>= orFail "failed to write agent env file"
  ask (.writeEnvFile port) >>= orFail "failed to write agent env file"

def createContainer (image : Image) (port : Nat) : Op Unit := do
  ask .ensureAgentNetwork >>= orFail "docker network create failed"
  ask .ensureSidecar >>= orFail "egress failed"
  writeAgentEnvFile port
  ask .ensureConstitutionFile >>= orFail "failed to write constitution file"
  if ← ask (.createContainer image) then pure ()
  else
    let _ ← ask .deleteEnvFile
    fail "docker create failed"

def guardAlive (status : ContainerStatus) : Op Unit :=
  match status with
  | .notFound => fail "agent not found"
  | .dead => fail "agent is in a broken state"
  | .running | .stopped => pure ()

/-- Stop a container that runs, whether or not the stop works. -/
def stopIfRunning (status : ContainerStatus) : Op Unit := do
  if status = .running then
    let _ ← ask .stopContainer
    pure ()
  else pure ()

def removeSnapshots (tss : List Nat) : Op Unit :=
  forEach (fun ts => do let _ ← ask (.removeImage (.rebuild ts)); pure ()) tss

/-! ## Rebuilding -/

/-- The env file's port, else the container's, else a fresh one. -/
def resolveExistingPort (port : Option Nat) : Op Nat := do
  let baked ← ask .readContainerEnv
  match port.or baked with
  | some p => pure p
  | none =>
      match (← ask .allocatePort : Option Nat) with
      | some p => pure p
      | none => fail "no free port"

def snapshotIsRedundant (oldContainer : ContainerStatus) : Bool := oldContainer ≠ .notFound

/-- Drop the snapshot of a rebuild that failed, while the old container still stands. -/
def discardUnusedSnapshot (ts : Nat) : Op Unit := do
  if snapshotIsRedundant (← ask .containerStatus) then
    let _ ← ask (.removeImage (.rebuild ts))
    pure ()
  else pure ()

/-- Whether an image is one that a rebuild removes once it is replaced. -/
def isSnapshotImage : Image → Bool
  | .rebuild _ => true
  | .base | .restore _ => false

def isRemovableSnapshot (prev keep : Image) : Bool := prev ≠ keep && isSnapshotImage prev

/-- Drop the snapshot that the replaced container was created from. -/
def removeReplacedSnapshot (prev keep : Image) : Op Unit := do
  if isRemovableSnapshot prev keep then
    let _ ← ask (.removeImage prev)
    pure ()
  else pure ()

/-- Remove the old container and create the new one from the snapshot. -/
def replaceContainer (ts port : Nat) : Op Unit := do
  ensureContainerRemoved (.rebuild ts) containerRemoveMaxAttempts
  createContainer (.rebuild ts) port

/-- What follows the snapshot of a rebuild. -/
def settleRebuild (prev : Image) (ts port : Nat) : Op Unit := do
  match ← attempt (replaceContainer ts port) with
  | .error e =>
      discardUnusedSnapshot ts
      fail e
  | .ok () => removeReplacedSnapshot prev (.rebuild ts)

def rebuildAgent : Op Unit := do
  ask .prepareEgress >>= orFail "egress failed"
  match (← ask .inspectContainer : Option Inspected) with
  | none => fail "inspect failed"
  | some info =>
      let envPort ← ask .readEnvPort
      guardAlive info.status
      let port ← resolveExistingPort envPort
      let ts ← ask .nowEpochSecs
      stopIfRunning info.status
      ask (.snapshotContainer ts) >>= orFail "docker snapshot failed"
      settleRebuild info.image ts port

/-- Create the container of an interrupted rebuild from the newest snapshot, and drop the others
where that works. -/
def resumeFromSnapshot (superseded : List Nat) (newest port : Nat) : Op Unit := do
  match ← attempt (createContainer (.rebuild newest) port) with
  | .ok () => removeSnapshots superseded
  | .error _ => pure ()

/-- Finish the rebuild of one agent, whose snapshots the boot pass has found, oldest first. -/
def resumeInterruptedRebuild (tss : List Nat) : Op Unit := do
  if (← ask .containerStatus : ContainerStatus) ≠ .notFound then pure ()
  else
    match tss.getLast? with
    | none => pure ()
    | some newest =>
        if ← ask .envIsFile then
          match (← ask .readEnvPort : Option Nat) with
          | none => pure ()
          | some port => resumeFromSnapshot tss.dropLast.reverse newest port
        else removeSnapshots tss

/-! ## The other operations -/

def createAgent : Op Unit := do
  if (← ask .containerStatus : ContainerStatus) ≠ .notFound then fail "agent already exists"
  else
    ask .resolveImage >>= orFail "image pull failed"
    match (← ask .allocatePort : Option Nat) with
    | none => fail "no free port"
    | some port => createContainer .base port

def destroyAgent : Op Unit := do
  let status ← ask .containerStatus
  guardAlive status
  stopIfRunning status
  ask .removeContainerForce >>= orFail "docker rm failed"
  let _ ← ask .deleteEnvFile
  let _ ← ask .removeRepo
  pure ()

def startAgent : Op Unit := do
  let status ← ask .containerStatus
  guardAlive status
  if status = .running then pure ()
  else ask .startContainer >>= orFail "failed to start"

def stopAgent : Op Unit := do
  let status ← ask .containerStatus
  guardAlive status
  if status = .stopped then pure ()
  else ask .stopContainer >>= orFail "failed to stop"

/-- The env file of an agent that has a container, written again where it is missing. -/
def ensureEnvFile : Op Unit := do
  if ← ask .listManaged then
    if ← ask .envIsFile then pure ()
    else
      let baked ← ask .readContainerEnv
      let allocated ← if baked.isSome then pure none else ask .allocatePort
      match (baked.or allocated : Option Nat) with
      | some port => writeAgentEnvFile port
      | none => pure ()
  else pure ()

def createBackup : Op Unit := do
  ask .containerStatus >>= guardAlive
  ask .resticSnapshot >>= orFail "backup failed"

/-- Start the agent again that a restore has stopped, and give up. -/
def abortRestore (status : ContainerStatus) (message : String) : Op Unit := do
  if status = .running then
    let _ ← ask .startContainer
    fail message
  else fail message

/-- Replace what stands by a container built from the backup. -/
def installBackup (id : Nat) : Op Unit := do
  match (← ask .readEnvPort : Option Nat) with
  | none => fail "agent has no port in env file"
  | some port =>
      ask (.restoreToImage id) >>= orFail "restore failed"
      createContainer (.restore id) port
      ask .startContainer >>= orFail "failed to start restored agent"

/-- Take the safety backup of the container that stands and remove it, then go on. -/
def replaceByBackup (status : ContainerStatus) (id : Nat) : Op Unit := do
  stopIfRunning status
  if ← ask .resticSnapshot then
    match ← attempt (ensureContainerRemoved (.restore id) containerRemoveMaxAttempts) with
    | .error e => abortRestore status e
    | .ok () => installBackup id
  else abortRestore status "pre-restore safety backup failed"

/-- An agent's backups list while its env file is there. -/
def listBackups : Op (List Nat) := do
  if ← ask .envIsFile then
    match (← ask .resticList : Option (List Nat)) with
    | some ids => pure ids
    | none => fail "restic failed"
  else fail "agent not found"

def restoreBackup (id : Nat) : Op Unit := do
  let ids ← listBackups
  if id ∈ ids then
    ask .prepareEgress >>= orFail "egress failed"
    let status ← ask .containerStatus
    if status = .notFound then installBackup id else replaceByBackup status id
  else fail "backup not found"

/-! ## What the host holds under one name -/

structure Container where
  fs : Fs
  running : Bool
  image : Image
deriving DecidableEq

/-- The containers, images and files of one agent name.  The env file may lack its port, and
`latest` is the filesystem that the agent should have, while there is an agent: what it has last
written, or what its creation gave it. -/
structure Slot where
  container : Option Container
  snapshots : List (Nat × Fs)
  env : Option (Option Nat)
  repo : List (Nat × Fs)
  restoreImage : Option Fs
  latest : Option Fs
  /-- The next number of a filesystem or backup. -/
  fresh : Nat
deriving DecidableEq

/-- Nothing under the name. -/
def Slot.empty : Slot where
  container := none
  snapshots := []
  env := none
  repo := []
  restoreImage := none
  latest := none
  fresh := 0

/-- One name of the host, with the clock. -/
structure View extends Slot where
  now : Nat

structure Tick where
  outcome : Outcome
  elapsed : Nat
  /-- Whether the agent writes before the next call. -/
  writes : Bool
  /-- Whether Docker says that the container is dead. -/
  dead : Bool
  /-- The port that a container has or that is allocated. -/
  port : Option Nat

namespace View

def status (v : View) (t : Tick) : ContainerStatus :=
  match v.container with
  | none => .notFound
  | some c => if t.dead then .dead else if c.running then .running else .stopped

def snapshotAt (v : View) (ts : Nat) : Option Fs :=
  (v.snapshots.find? (·.1 = ts)).map (·.2)

/-- The port in the env file. -/
def port (v : View) : Option Nat := v.env.join

def imageFs (v : View) : Image → Option Fs
  | .base => some v.fresh
  | .rebuild ts => v.snapshotAt ts
  | .restore _ => v.restoreImage

def backupFs (v : View) (id : Nat) : Option Fs :=
  (v.repo.find? (·.1 = id)).map (·.2)

/-- The filesystem that an agent should have once a container is created for it: a new one when it
is born, that of the chosen backup when it is restored, and the one it has had otherwise. -/
def latestFrom (v : View) (fs : Fs) : Image → Option Fs
  | .base => some (v.latest.getD fs)
  | .rebuild _ => v.latest
  | .restore id => v.backupFs id

/-- A container is created. -/
def create (v : View) (fs : Fs) (image : Image) : View :=
  { v with
    container := some { fs := fs, running := false, image := image }
    latest := v.latestFrom fs image
    fresh := v.fresh + 1 }

def setRunning (v : View) (running : Bool) : View :=
  { v with container := v.container.map fun c => { c with running := running } }

def removeImage (v : View) (image : Image) : View :=
  { v with snapshots := v.snapshots.filter fun s => .rebuild s.1 ≠ image }

/-- A running agent writes. -/
def write (v : View) : View :=
  match v.container with
  | none => v
  | some c =>
      if c.running then
        { v with
          container := some { c with fs := v.fresh }
          latest := v.latest.map fun _ => v.fresh
          fresh := v.fresh + 1 }
      else v

def later (v : View) (secs : Nat) : View := { v with now := v.now + secs }

/-- What goes on after a call. -/
def pass (v : View) (t : Tick) : View :=
  if t.writes then (v.later t.elapsed).write else v.later t.elapsed

end View

/-- The answer to a call, and what is held right after it. -/
def View.act : View → (c : Call) → Tick → Answer c × View
  | v, .containerStatus, t => (if t.outcome.reports then v.status t else .notFound, v)
  | v, .inspectContainer, t =>
      (if t.outcome.reports then v.container.map fun c => ⟨v.status t, c.image⟩ else none, v)
  | v, .readEnvPort, t => (if t.outcome.reports then v.port else none, v)
  | v, .readContainerEnv, t => (if t.outcome.reports then t.port else none, v)
  | v, .allocatePort, t => (if t.outcome.reports then t.port else none, v)
  | v, .nowEpochSecs, _ => (v.now, v)
  | v, .stopContainer, t => (t.outcome.reports, if t.outcome.acts then v.setRunning false else v)
  | v, .snapshotContainer ts, t =>
      match v.container.filter fun _ => t.outcome.acts with
      | none => (false, v)
      | some c =>
          (t.outcome.reports, { v with snapshots := (ts, c.fs) :: (v.removeImage (.rebuild ts)).snapshots })
  | v, .removeContainer _, t =>
      (t.outcome.reports, if t.outcome.acts then { v with container := none } else v)
  | v, .openEnvFile, t =>
      (t.outcome.reports, if t.outcome.reports then { v with env := some none } else v)
  | v, .writeEnvFile port, t =>
      (t.outcome.reports, if t.outcome.reports then { v with env := some (some port) } else v)
  | v, .createContainer image, t =>
      match (v.imageFs image).filter fun _ => t.outcome.acts ∧ v.container = none with
      | none => (false, v)
      | some fs => (t.outcome.reports, v.create fs image)
  | v, .deleteEnvFile, t => (t.outcome.reports, if t.outcome.acts then { v with env := none } else v)
  | v, .removeImage image, t =>
      (t.outcome.reports, if t.outcome.acts then v.removeImage image else v)
  | v, .listManaged, t => (t.outcome.reports && v.container.isSome, v)
  | v, .envIsFile, _ => (v.env.isSome, v)
  | v, .removeContainerForce, t =>
      (t.outcome.reports,
        if t.outcome.acts then { v with container := none, latest := none } else v)
  | v, .removeRepo, t => (t.outcome.reports, if t.outcome.acts then { v with repo := [] } else v)
  | v, .resticList, t => (if t.outcome.reports then some (v.repo.map (·.1)) else none, v)
  | v, .resticSnapshot, t =>
      match v.container.filter fun _ => t.outcome.acts with
      | none => (false, v)
      | some c =>
          (t.outcome.reports,
            { v with repo := (v.fresh, c.fs) :: v.repo, fresh := v.fresh + 1 })
  | v, .restoreToImage id, t =>
      match (v.backupFs id).filter fun _ => t.outcome.acts with
      | none => (false, v)
      | some fs => (t.outcome.reports, { v with restoreImage := some fs })
  | v, .startContainer, t => (t.outcome.reports, if t.outcome.acts then v.setRunning true else v)
  | v, .prepareEgress, t => (t.outcome.reports, v)
  | v, .ensureAgentNetwork, t => (t.outcome.reports, v)
  | v, .ensureSidecar, t => (t.outcome.reports, v)
  | v, .ensureConstitutionFile, t => (t.outcome.reports, v)
  | v, .resolveImage, t => (t.outcome.reports, v)

attribute [grind =] View.act

def exec : Answers Answer View Tick := fun v c t => ((v.act c t).1, (v.act c t).2.pass t)

end Docker
end Vestad
end Vesta
