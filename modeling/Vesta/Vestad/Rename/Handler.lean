import Mathlib.Data.List.Infix
import Vesta.Vestad.Docker.Lifecycle
import Vesta.Vestad.Docker.Names
import Vesta.Vestad.Settings.Store

/-!
# Renaming an agent

Everything an agent owns is keyed by its name: the container, the env file, the
constitution, the proxy, the backup repository and its entries in the settings.
A rename takes a snapshot of the container, removes it, carries the files over,
creates a container of the new name from the snapshot, and then moves the
repository and the entries.

The handler is a program over its calls.  Each of them may fail, or work and
report a failure, and the program may be cut before any of them: the request is
cancelled or the process stops.
-/

namespace Vesta
namespace Vestad
namespace Rename

open Lib
open Prog
open Docker (Fs ContainerStatus Tick)
open SettingsStore (AgentSettings HostMount)

/-- What a container is created from. -/
inductive Image
  | base
  | rebuild (name : String) (ts : Nat)
  | rename (old new : String) (ts : Nat)
deriving DecidableEq

/-- What an inspection of a container says. -/
structure Inspected where
  status : ContainerStatus
  image : Image

inductive Call
  | readMounts (name : String)
  | prepareEgress (name : String)
  | containerStatus (name : String)
  | inspectContainer (name : String)
  | readEnvPort (name : String)
  | readContainerEnv (name : String)
  | allocatePort
  | handoffShutdownReason (name : String)
  | stopContainer (name : String)
  | nowEpochSecs
  | snapshotContainer (name : String) (image : Image)
  /-- The status that the removal of a container waits for. -/
  | removalStatus (name : String)
  | removeContainer (name : String)
  | removeSidecar (name : String)
  | renameProxy (old new : String)
  | readConstitution (name : String)
  | writeConstitution (name text : String)
  | deleteEnvFile (name : String)
  | deleteConstitutionFile (name : String)
  | removeAgentNetwork (name : String)
  | ensureAgentNetwork (name : String)
  | loadProxy (name : String)
  | ensureSidecar (name : String)
  | openEnvFile (name : String)
  | writeEnvFile (name : String) (port : Nat)
  | ensureConstitutionFile (name : String)
  | createContainer (name : String) (image : Image) (mounts : List HostMount)
  | handoffBootReason (name : String)
  | removeImage (image : Image)
  | renameRepo (old new : String)
  | moveSettings (old new : String)
  | saveSettings
  | dropNotification (name : String)
  | startContainer (name : String)

abbrev Answer : Call → Type
  | .readMounts _ => List HostMount
  | .containerStatus _ | .removalStatus _ => ContainerStatus
  | .inspectContainer _ => Option Inspected
  | .readEnvPort _ | .readContainerEnv _ | .allocatePort => Option Nat
  | .nowEpochSecs => Nat
  | .readConstitution _ => Option String
  | .loadProxy _ => Option (Option String)
  | _ => Bool

abbrev Op : Type → Type := Prog Answer String

abbrev ask (c : Call) : Op (Answer c) := request c

def orFail (message : String) (worked : Bool) : Op Unit :=
  if worked then pure () else fail message

/-- A call whose failure is only logged. -/
def bestEffort (c : Call) : Op Unit := do
  let _ ← ask c
  pure ()

/-! ## The shared helpers -/

def guardAlive (status : ContainerStatus) (name : String) : Op Unit :=
  match status with
  | .notFound => fail s!"agent '{name}' not found"
  | .dead => fail s!"agent '{name}' is in a broken state"
  | .running | .stopped => pure ()

def resolveExistingPort (name : String) (port : Option Nat) : Op Nat := do
  let baked ← ask (.readContainerEnv name)
  match port.or baked with
  | some p => pure p
  | none =>
      match (← ask .allocatePort : Option Nat) with
      | some p => pure p
      | none => fail "no free port"

/-- Force-remove a container and confirm that it is gone, with this many attempts left. -/
def ensureContainerRemoved (name : String) : Nat → Op Unit
  | 0 => do
      if (← ask (.removalStatus name) : ContainerStatus) = .notFound then pure ()
      else fail "container still present after 5 force-remove attempts"
  | left + 1 => do
      if (← ask (.removalStatus name) : ContainerStatus) = .notFound then pure ()
      else
        let _ ← ask (.removeContainer name)
        ensureContainerRemoved name left

/-- The network that a new container joins: its own, or that of its egress sidecar. -/
def joinNetwork (name : String) : Op Unit := do
  ask (.ensureAgentNetwork name) >>= orFail "docker network create failed"
  match (← ask (.loadProxy name) : Option (Option String)) with
  | none => fail "egress failed"
  | some (some _) => ask (.ensureSidecar name) >>= orFail "egress failed"
  | some none => bestEffort (.removeSidecar name)

/-- The truncation of the env file, and the write of its contents. -/
def writeAgentEnvFile (name : String) (port : Nat) : Op Unit := do
  ask (.openEnvFile name) >>= orFail "failed to write agent env file"
  ask (.writeEnvFile name port) >>= orFail "failed to write agent env file"

/-- Docker's creation, which takes the env file back where it fails. -/
def dockerCreate (name : String) (image : Image) (mounts : List HostMount) : Op Unit := do
  if ← ask (.createContainer name image mounts) then pure ()
  else
    let _ ← ask (.deleteEnvFile name)
    fail "docker create failed"

def createContainer
    (name : String)
    (image : Image)
    (port : Nat)
    (mounts : List HostMount) :
    Op Unit := do
  joinNetwork name
  writeAgentEnvFile name port
  ask (.ensureConstitutionFile name) >>= orFail "failed to create constitution file"
  dockerCreate name image mounts

/-- Whether an image is one that a rename removes once it is replaced. -/
def isSnapshotImage : Image → Bool
  | .base => false
  | .rebuild _ _ => true
  | .rename _ _ _ => true

def isRemovableSnapshot (prev keep : Image) : Bool := prev ≠ keep && isSnapshotImage prev

def removeReplacedSnapshot (prev keep : Image) : Op Unit :=
  if isRemovableSnapshot prev keep then bestEffort (.removeImage prev) else pure ()

/-- Start an agent whose boot reason is already handed over. -/
def startAgent (name : String) : Op Unit := do
  let status ← ask (.containerStatus name)
  guardAlive status name
  if status = .running then pure ()
  else ask (.startContainer name) >>= orFail s!"failed to start '{name}'"

/-! ## The rename -/

def containerRemoveMaxAttempts : Nat := 5

/-- A constitution that cannot be read counts as empty, and a failed write is not noticed. -/
def carryConstitution (old new : String) : Op Unit := do
  let oldConstitution := ((← ask (.readConstitution old) : Option String)).getD ""
  if oldConstitution = "" then pure () else bestEffort (.writeConstitution new oldConstitution)

/-- Carry the proxy and the constitution over, and drop what else is kept under the old name. -/
def carryFiles (old new : String) : Op Unit := do
  bestEffort (.removeSidecar old)
  ask (.renameProxy old new) >>= orFail "failed to move the proxy"
  carryConstitution old new
  bestEffort (.deleteEnvFile old)
  bestEffort (.deleteConstitutionFile old)
  bestEffort (.removeAgentNetwork old)

/-- What follows the snapshot. -/
def replaceContainer
    (old new : String)
    (prev image : Image)
    (port : Nat)
    (mounts : List HostMount) :
    Op Unit := do
  ensureContainerRemoved old containerRemoveMaxAttempts
  carryFiles old new
  createContainer new image port mounts
  bestEffort (.handoffBootReason new)
  removeReplacedSnapshot prev image

/-- Stop a container that runs, whether or not that works. -/
def quiesce (name : String) (status : ContainerStatus) : Op Unit :=
  if status = .running then do
    bestEffort (.handoffShutdownReason name)
    bestEffort (.stopContainer name)
  else pure ()

/-- What follows the inspection of the old container. -/
def moveContainer
    (old new : String)
    (mounts : List HostMount)
    (info : Inspected) :
    Op Unit := do
  let envPort ← ask (.readEnvPort old)
  if info.status = .dead then fail s!"agent '{old}' is in a broken state"
  else
    let port ← resolveExistingPort old envPort
    quiesce old info.status
    let ts ← ask .nowEpochSecs
    ask (.snapshotContainer old (.rename old new ts)) >>= orFail "docker snapshot failed"
    replaceContainer old new info.image (.rename old new ts) port mounts

/-- The checks on the two containers, and what follows them. -/
def checkContainers (old new : String) (mounts : List HostMount) : Op Unit := do
  if (← ask (.containerStatus old) : ContainerStatus) = .notFound then
    fail s!"agent '{old}' not found"
  else if (← ask (.containerStatus new) : ContainerStatus) ≠ .notFound then
    fail s!"agent '{new}' already exists"
  else
    match (← ask (.inspectContainer old) : Option Inspected) with
    | none => fail "docker inspect failed"
    | some info => moveContainer old new mounts info

def liftExcept : Except String Unit → Op Unit
  | .ok () => pure ()
  | .error e => fail e

def renameAgent (old new : String) (mounts : List HostMount) : Op Unit := do
  liftExcept (validateName old)
  liftExcept (validateName new)
  if old = new then fail "new name must differ from old name"
  else if new ≠ "vesta" ∧ "vesta".toList <:+: new.toList then
    fail "agent name must not contain 'vesta'"
  else
    ask (.prepareEgress old) >>= orFail "egress failed"
    checkContainers old new mounts

/-- The handler, once it holds the locks of both names. -/
def renameLocked (old new : String) : Op Unit := do
  let mounts ← ask (.readMounts old)
  renameAgent old new mounts
  ask (.renameRepo old new) >>= orFail "failed to move backup repo"
  bestEffort (.moveSettings old new)
  bestEffort .saveSettings
  bestEffort (.dropNotification new)
  startAgent new

/-- The handler, once it has normalized the new name. -/
def renameTo (old new : String) : Op Unit :=
  if new = "" then fail "invalid new agent name"
  else if new = old then fail "new name must differ from old name"
  else renameLocked old new

/-- The handler of a rename to the name that a request spells. -/
def renameAgentHandler (old requested : String) : Op Unit :=
  renameTo old (normalizeName requested)

/-! ## The host -/

structure Container where
  fs : Fs
  running : Bool
  image : Image
  mounts : List HostMount
deriving DecidableEq

structure AgentBackupOverride where
  enabled : Option Bool
  retention : Option RetentionPolicy
deriving DecidableEq

/-- The entries of the settings under one name. -/
structure Entries where
  agent : Option AgentSettings
  services : Option (List (String × Nat))
  backup : Option AgentBackupOverride
deriving DecidableEq

def Entries.none : Entries where
  agent := Option.none
  services := Option.none
  backup := Option.none

/-- The container and the files of one name.  The env file may lack its port. -/
structure Slot where
  container : Option Container
  env : Option (Option Nat)
  constitution : Option String
  proxy : Option String
  repo : Option (List Nat)
deriving DecidableEq

/-- The host while one agent is renamed.  `latest` is the filesystem of that agent as it was last
written, and `fresh` the next number of a filesystem. -/
structure Host where
  slots : String → Slot
  images : List (Image × Fs)
  /-- The settings in memory, and those in the file. -/
  memory : String → Entries
  stored : String → Entries
  latest : Fs
  fresh : Fs
  now : Nat

namespace Host

def put (w : Host) (name : String) (slot : Slot) : Host :=
  { w with slots := Function.update w.slots name slot }

def imageFs (w : Host) (image : Image) : Option Fs :=
  (w.images.find? (·.1 = image)).map (·.2)

def status (w : Host) (name : String) (t : Tick) : ContainerStatus :=
  match (w.slots name).container with
  | none => .notFound
  | some c => if t.dead then .dead else if c.running then .running else .stopped

def setRunning (w : Host) (name : String) (running : Bool) : Host :=
  w.put name
    { w.slots name with
      container := (w.slots name).container.map fun c => { c with running := running } }

/-- The renamed agent writes, while it runs under its old name. -/
def write (w : Host) (name : String) : Host :=
  match (w.slots name).container with
  | none => w
  | some c =>
      if c.running then
        { w.put name { w.slots name with container := some { c with fs := w.fresh } } with
          latest := w.fresh
          fresh := w.fresh + 1 }
      else w

end Host

/-- An entry is moved only where there is one. -/
def moveEntries (settings : String → Entries) (old new : String) : String → Entries :=
  Function.update
    (Function.update settings new
      { agent := (settings old).agent.or (settings new).agent
        services := (settings old).services.or (settings new).services
        backup := (settings old).backup.or (settings new).backup })
    old .none

/-- A file of the old name is renamed over that of the new name. -/
def Host.carryProxy (w : Host) (old new : String) (proxy : String) : Host :=
  (w.put new { w.slots new with proxy := some proxy }).put old
    { (w.put new { w.slots new with proxy := some proxy }).slots old with proxy := none }

def Host.carryRepo (w : Host) (old new : String) (repo : List Nat) : Host :=
  (w.put new { w.slots new with repo := some repo }).put old
    { (w.put new { w.slots new with repo := some repo }).slots old with repo := none }

/-- The answer to a call, and the host right after it. -/
def Host.act : Host → (c : Call) → Tick → Answer c × Host
  | w, .readMounts name, _ => (((w.memory name).agent.map (·.mounts)).getD [], w)
  | w, .containerStatus name, t => (if t.outcome.reports then w.status name t else .notFound, w)
  | w, .removalStatus name, t => (if t.outcome.reports then w.status name t else .notFound, w)
  | w, .inspectContainer name, t =>
      (if t.outcome.reports then
          (w.slots name).container.map fun c => ⟨w.status name t, c.image⟩
        else none, w)
  | w, .readEnvPort name, t => (if t.outcome.reports then (w.slots name).env.join else none, w)
  | w, .readContainerEnv _, t => (if t.outcome.reports then t.port else none, w)
  | w, .allocatePort, t => (if t.outcome.reports then t.port else none, w)
  | w, .nowEpochSecs, _ => (w.now, w)
  | w, .stopContainer name, t =>
      (t.outcome.reports, if t.outcome.acts then w.setRunning name false else w)
  | w, .startContainer name, t =>
      (t.outcome.reports && (w.slots name).container.isSome,
        if t.outcome.acts then w.setRunning name true else w)
  | w, .snapshotContainer name image, t =>
      match (w.slots name).container.filter fun _ => t.outcome.acts with
      | none => (false, w)
      | some c =>
          (t.outcome.reports,
            { w with images := (image, c.fs) :: w.images.filter (·.1 ≠ image) })
  | w, .removeContainer name, t =>
      (t.outcome.reports,
        if t.outcome.acts then w.put name { w.slots name with container := none } else w)
  | w, .renameProxy old new, t =>
      match (w.slots old).proxy with
      | none => (true, w)
      | some proxy => (t.outcome.reports, if t.outcome.acts then w.carryProxy old new proxy else w)
  | w, .readConstitution name, t =>
      (if t.outcome.reports then some ((w.slots name).constitution.getD "") else none, w)
  | w, .writeConstitution name text, t =>
      (t.outcome.reports,
        if t.outcome.acts then w.put name { w.slots name with constitution := some text } else w)
  | w, .deleteEnvFile name, t =>
      (t.outcome.reports,
        if t.outcome.acts then w.put name { w.slots name with env := none } else w)
  | w, .deleteConstitutionFile name, t =>
      (t.outcome.reports,
        if t.outcome.acts then w.put name { w.slots name with constitution := none } else w)
  | w, .loadProxy name, t => (if t.outcome.reports then some (w.slots name).proxy else none, w)
  | w, .openEnvFile name, t =>
      (t.outcome.reports,
        if t.outcome.acts then w.put name { w.slots name with env := some none } else w)
  | w, .writeEnvFile name port, t =>
      (t.outcome.reports,
        if t.outcome.acts then w.put name { w.slots name with env := some (some port) } else w)
  | w, .ensureConstitutionFile name, t =>
      (t.outcome.reports,
        if t.outcome.acts then
          w.put name
            { w.slots name with constitution := some ((w.slots name).constitution.getD "") }
        else w)
  | w, .createContainer name image mounts, t =>
      match (w.imageFs image).filter
          fun _ => t.outcome.acts ∧ (w.slots name).container = none with
      | none => (false, w)
      | some fs =>
          (t.outcome.reports,
            w.put name
              { w.slots name with
                container :=
                  some { fs := fs, running := false, image := image, mounts := mounts } })
  | w, .removeImage image, t =>
      (t.outcome.reports,
        if t.outcome.acts then { w with images := w.images.filter (·.1 ≠ image) } else w)
  | w, .renameRepo old new, t =>
      match (w.slots old).repo, (w.slots new).repo with
      | none, _ => (true, w)
      | some _, some _ => (false, w)
      | some repo, none =>
          (t.outcome.reports, if t.outcome.acts then w.carryRepo old new repo else w)
  | w, .moveSettings old new, _ => (true, { w with memory := moveEntries w.memory old new })
  | w, .saveSettings, t =>
      (t.outcome.reports, if t.outcome.acts then { w with stored := w.memory } else w)
  | w, .prepareEgress _, t => (t.outcome.reports, w)
  | w, .handoffShutdownReason _, t => (t.outcome.reports, w)
  | w, .removeSidecar _, t => (t.outcome.reports, w)
  | w, .removeAgentNetwork _, t => (t.outcome.reports, w)
  | w, .ensureAgentNetwork _, t => (t.outcome.reports, w)
  | w, .ensureSidecar _, t => (t.outcome.reports, w)
  | w, .handoffBootReason _, t => (t.outcome.reports, w)
  | w, .dropNotification _, t => (t.outcome.reports, w)

attribute [grind =] Host.act

/-- What goes on after a call. -/
def Host.pass (w : Host) (name : String) (t : Tick) : Host :=
  { (if t.writes then w.write name else w) with now := w.now + t.elapsed }

/-- The host during the rename of the agent of a name. -/
def exec (old : String) : Answers Answer Host Tick :=
  fun w c t => ((w.act c t).1, (w.act c t).2.pass old t)

/-! ## The next boot -/

/-- The newest rebuild snapshot of a name. -/
def Host.newestRebuild (w : Host) (name : String) : Option (Image × Fs) :=
  w.images.find? fun found =>
    match found.1 with
    | .rebuild of _ => of = name
    | _ => false

/-- `resume_interrupted_rebuilds` for one name, when every call works. -/
def Host.resumeRebuild (w : Host) (name : String) : Host :=
  match (w.slots name).container, w.newestRebuild name, (w.slots name).env.join with
  | none, some found, some _ =>
      w.put name
        { w.slots name with
          container :=
            some
              { fs := found.2
                running := false
                image := found.1
                mounts := ((w.stored name).agent.map (·.mounts)).getD [] }
          constitution := some ((w.slots name).constitution.getD "") }
  | _, _, _ => w

/-- The process starts again: the settings are read from the file, and the boot reconcile resumes
the rebuilds that were interrupted. -/
def Host.boot (w : Host) (old new : String) : Host :=
  ({ w with memory := w.stored }.resumeRebuild old).resumeRebuild new

end Rename
end Vestad
end Vesta
