import Vesta.Lib.Pool
import Vesta.Vestad.Types

/-!
# The settings store

The daemon keeps its settings in memory behind a write lock and every handler
that changes them saves the file before it releases the lock.  A save writes a
temporary file and renames it over `settings.json`.

Loading is not only reading: it converges the defaults that old releases froze
into the file and writes what it has read back, through the same temporary file
and without the lock.  The boot reconcile loads the settings for every answer it
acts on, and the LAN setting is loaded and saved from another process.

Files are modelled by their inodes.  Opening the temporary file truncates the
inode it names, a descriptor goes on writing to the inode it was opened on, and
a rename moves a name.  A text written over a longer one leaves a rest behind
that does not parse.
-/

namespace Vesta
namespace Vestad
namespace SettingsStore

open Lib
open Prog

structure HostMount where
  hostPath : String
  containerPath : String
  writable : Bool
deriving DecidableEq

inductive UserDesired
  | running
  | stopped
deriving DecidableEq

structure AgentSettings where
  userDesired : UserDesired
  mounts : List HostMount
deriving DecidableEq

structure BackupGlobalSettings where
  enabled : Bool
  everyNDays : Nat
  retention : RetentionPolicy
deriving DecidableEq

/-- The parts of `settings.json` that are read or changed below. -/
structure Settings where
  backup : BackupGlobalSettings
  agents : Map String AgentSettings
  exposeLan : Bool
deriving DecidableEq

def defaultEveryNDays : Nat := 1

def defaultRetention : RetentionPolicy where
  periodic := 1
  preUpdateVersions := 5

def BackupGlobalSettings.default : BackupGlobalSettings where
  enabled := true
  everyNDays := defaultEveryNDays
  retention := defaultRetention

def Settings.default : Settings where
  backup := .default
  agents := ∅
  exposeLan := false

/-- Rewrite the backup defaults that older releases froze into the file. -/
def convergeFrozenBackupDefaults (settings : Settings) : Settings :=
  let backup := settings.backup
  let stored :=
    (backup.everyNDays, backup.retention.periodic, backup.retention.preUpdateVersions)
  if stored ≠ (3, 2, 2) then settings
  else
    { settings with
      backup := { backup with everyNDays := defaultEveryNDays, retention := defaultRetention } }

/-- Change one agent's settings, starting from the defaults when it has none. -/
def Settings.modifyAgent
    (settings : Settings) (name : String) (f : AgentSettings → AgentSettings) : Settings :=
  let entry := settings.agents[name]?.getD { userDesired := .running, mounts := [] }
  { settings with agents := settings.agents.insert name (f entry) }

def startAgent (name : String) (settings : Settings) : Settings :=
  settings.modifyAgent name fun entry => { entry with userDesired := .running }

def stopAgent (name : String) (settings : Settings) : Settings :=
  settings.modifyAgent name fun entry => { entry with userDesired := .stopped }

def setMounts (name : String) (mounts : List HostMount) (settings : Settings) : Settings :=
  settings.modifyAgent name fun entry => { entry with mounts := mounts }

/-- What a load is for. -/
inductive Question
  | wantsRunning (name : String)
  | mountsFor (name : String)
  | exposeLan
deriving DecidableEq

inductive Decision
  | running (wanted : Bool)
  | mounts (mounts : List HostMount)
  | exposed (expose : Bool)
deriving DecidableEq

/-- What settings answer. -/
def Question.answer (settings : Settings) : Question → Decision
  | .wantsRunning name =>
      .running (settings.agents[name]?.all fun s => decide (s.userDesired = .running))
  | .mountsFor name => .mounts ((settings.agents[name]?.map (·.mounts)).getD [])
  | .exposeLan => .exposed settings.exposeLan

/-- Whether the boot reconcile acts on the answer. -/
def Question.acts : Question → Bool
  | .wantsRunning _ => true
  | .mountsFor _ => true
  | .exposeLan => false

/-- Who writes the file: a handler's save, the write-back of a load, or the LAN setting. -/
inductive Writer
  | save
  | load (question : Question)
  | lan
deriving DecidableEq

/-- The requests of the store.  Those of one write carry the value that is written. -/
inductive Call
  | lock
  | change (f : Settings → Settings)
  | unlock
  | readStored (question : Question)
  | openTmp (writer : Writer) (value : Settings)
  | writeTmp (writer : Writer) (fd : Nat) (value : Settings)
  | renameTmp (writer : Writer) (value : Settings)
  | act (question : Question) (settings : Settings)

/-- `none` when there is no file, an error when it does not parse. -/
abbrev Stored : Type := Except Unit (Option Settings)

abbrev Answer : Call → Type
  | .change _ => Settings
  | .readStored _ => Stored
  | .openTmp .. => Nat
  | _ => Unit

abbrev Op : Type → Type := Prog Answer Unit

abbrev ask (c : Call) : Op (Answer c) := request c

/-- Write the temporary file, then rename it over `settings.json`. -/
def writeJsonAtomic (writer : Writer) (value : Settings) : Op Unit := do
  let fd ← ask (.openTmp writer value)
  ask (.writeTmp writer fd value)
  ask (.renameTmp writer value)

/-- What a load makes of the stored settings. -/
def loaded : Stored → Settings
  | .ok stored => convergeFrozenBackupDefaults (stored.getD .default)
  | .error _ => .default

def loadSettings (question : Question) : Op Settings := do
  let stored ← ask (.readStored question)
  match (stored : Stored) with
  | .ok _ =>
      let settings := loaded stored
      writeJsonAtomic (.load question) settings
      pure settings
  | .error _ => pure (loaded stored)

/-- A handler: change the settings under the write lock and save them. -/
def changeSettings (f : Settings → Settings) : Op Unit := do
  ask .lock
  let settings ← ask (.change f)
  writeJsonAtomic .save settings
  ask .unlock

/-- The boot reconcile loads the settings and acts on what they answer. -/
def reconcile (question : Question) : Op Unit := do
  let settings ← loadSettings question
  ask (.act question settings)

def exposeLanSetting : Op Unit := do
  let _ ← loadSettings .exposeLan
  pure ()

def setExposeLan (expose : Bool) : Op Unit := do
  let settings ← loadSettings .exposeLan
  if settings.exposeLan = expose then
    pure ()
  else
    writeJsonAtomic .lan { settings with exposeLan := expose }

inductive Operation
  | changeSettings (f : Settings → Settings)
  | wantsRunning (name : String)
  | mountsFor (name : String)
  | exposeLanSetting
  | setExposeLan (expose : Bool)

def Operation.prog : Operation → Op Unit
  | .changeSettings f => SettingsStore.changeSettings f
  | .wantsRunning name => reconcile (.wantsRunning name)
  | .mountsFor name => reconcile (.mountsFor name)
  | .exposeLanSetting => SettingsStore.exposeLanSetting
  | .setExposeLan expose => SettingsStore.setExposeLan expose

/-! ## The file system and the daemon's memory -/

/-- What a file holds. -/
inductive Content
  | empty
  | json (settings : Settings)
  | garbled
deriving DecidableEq

/-- A decision of the reconcile, and what the user's settings said when it was acted on. -/
structure Act where
  decided : Decision
  latest : Decision
deriving DecidableEq

structure World where
  memory : Settings
  locked : Bool
  inodes : Map Nat Content
  next : Nat
  tmp : Option Nat
  target : Option Nat
  acts : List Act

structure Tick where
  /-- Whether a text covers what another writer has written to the same inode. -/
  covers : Bool

def World.stored (w : World) : Stored :=
  match w.target with
  | none => .ok none
  | some i =>
      match w.inodes[i]? with
      | some (.json settings) => .ok (some settings)
      | _ => .error ()

/-- A held lock blocks; nothing else does. -/
def ready (w : World) : Call → Bool
  | .lock => !w.locked
  | _ => true

def exec : Answers Answer World Tick
  | w, .lock, _ => ((), { w with locked := true })
  | w, .change f, _ => (f w.memory, { w with memory := f w.memory })
  | w, .unlock, _ => ((), { w with locked := false })
  | w, .readStored _, _ => (w.stored, w)
  | w, .openTmp _ _, _ =>
      match w.tmp with
      | some i => (i, { w with inodes := w.inodes.insert i .empty })
      | none =>
          (w.next,
            { w with
              tmp := some w.next
              inodes := w.inodes.insert w.next .empty
              next := w.next + 1 })
  | w, .writeTmp _ fd value, t =>
      let content :=
        if w.inodes[fd]? = some .empty ∨ t.covers = true then .json value else .garbled
      ((), { w with inodes := w.inodes.insert fd content })
  | w, .renameTmp _ _, _ =>
      match w.tmp with
      | some i => ((), { w with tmp := none, target := some i })
      | none => ((), w)
  | w, .act question settings, _ =>
      let done : Act :=
        { decided := question.answer settings, latest := question.answer w.memory }
      ((), { w with acts := done :: w.acts })

attribute [grind =] exec

abbrev State : Type := Pool Answer Unit Unit World

/-- A daemon that has just loaded its settings, with whatever temporary file a crash left. -/
structure Booted (w : World) : Prop where
  stored : w.stored = .ok (some w.memory)
  unlocked : w.locked = false
  target : ∀ i, w.target = some i → i < w.next
  tmp : ∀ i, w.tmp = some i → i < w.next ∧ w.target ≠ some i
  acts : w.acts = []

def machine : Machine State (PoolLabel Operation Tick) :=
  Pool.machine Booted (fun _ _ => true) ready exec Operation.prog

/-- `settings.json` parses at all times and holds the settings in memory whenever no handler
holds the lock, and the reconcile has acted on the user's latest settings. -/
structure Kept (s : State) : Prop where
  whole : ∃ settings, s.world.stored = .ok (some settings)
  saved : s.world.locked = false → s.world.stored = .ok (some s.world.memory)
  acted : ∀ done ∈ s.world.acts, done.decided = done.latest

/-- A task between opening the temporary file and renaming it. -/
def usesTmp : Op Unit → Bool
  | .call (.writeTmp ..) _ => true
  | .call (.renameTmp ..) _ => true
  | _ => false

/-- The settings a reconcile step has read and is still to act on. -/
def inFlight : Op Unit → Option (Question × Settings)
  | .call (.openTmp (.load question) value) _ => some (question, value)
  | .call (.writeTmp (.load question) _ value) _ => some (question, value)
  | .call (.renameTmp (.load question) value) _ => some (question, value)
  | .call (.act question settings) _ => some (question, settings)
  | _ => none

/-- What is asked of the next request of a task. -/
def OrderlyCall (s : State) : Call → Prop
  | .openTmp _ _ => ∀ e ∈ s.tasks.toList, usesTmp e.2 = false
  | .renameTmp (.load _) value => s.world.stored = .ok (some value)
  | .renameTmp .lan value => s.world.stored = .ok (some value)
  | .readStored question =>
      question.acts = true →
        question.answer (loaded s.world.stored) = question.answer s.world.memory
  | .change f =>
      ∀ e ∈ s.tasks.toList, ∀ read ∈ inFlight e.2,
        read.1.acts = true → read.1.answer read.2 = read.1.answer (f s.world.memory)
  | _ => True

/-- One task at a time uses the temporary file.  A load writes back, and the LAN setting saves,
only what `settings.json` still holds.  The reconcile reads no answer that a save under way is
changing, and no handler changes an answer the reconcile has read and is still to act on. -/
def Orderly (s : State) : PoolLabel Operation Tick → Prop
  | .step id _ => ∀ c ∈ s.tasks[id]?.bind Prog.next, OrderlyCall s c
  | .spawn .. => True
  | .kill _ => True

instance decidableOrderlyCall (s : State) : ∀ c, Decidable (OrderlyCall s c)
  | .openTmp _ _ => inferInstanceAs (Decidable (∀ e ∈ s.tasks.toList, usesTmp e.2 = false))
  | .renameTmp (.load _) value => inferInstanceAs (Decidable (s.world.stored = .ok (some value)))
  | .renameTmp .lan value => inferInstanceAs (Decidable (s.world.stored = .ok (some value)))
  | .readStored question =>
      inferInstanceAs
        (Decidable
          (question.acts = true →
            question.answer (loaded s.world.stored) = question.answer s.world.memory))
  | .change f =>
      inferInstanceAs
        (Decidable
          (∀ e ∈ s.tasks.toList, ∀ read ∈ inFlight e.2,
            read.1.acts = true → read.1.answer read.2 = read.1.answer (f s.world.memory)))
  | .lock | .unlock | .writeTmp .. | .renameTmp .save _ | .act .. => isTrue trivial

instance decidableOrderly (s : State) : ∀ label, Decidable (Orderly s label)
  | .step id _ => inferInstanceAs (Decidable (∀ c ∈ s.tasks[id]?.bind Prog.next, OrderlyCall s c))
  | .spawn .. | .kill _ => isTrue trivial

end SettingsStore
end Vestad
end Vesta
