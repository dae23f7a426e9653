import Vesta.Lib.Serde

/-!
# The schema of the settings file

The records of `settings.json` with their serde codecs: a field that is missing has its
default, a key that is unknown is skipped, and a service may stand there as a bare port.
-/

namespace Vesta
namespace Vestad
namespace SettingsFile

open Lib

structure ServiceEntry where
  port : Fin (2 ^ 16)
  isPublic : Bool
deriving DecidableEq

inductive UserDesired
  | running
  | stopped
deriving DecidableEq

structure HostMount where
  hostPath : String
  containerPath : String
  writable : Bool
deriving DecidableEq

structure AgentSettings where
  userDesired : UserDesired
  mounts : List HostMount
deriving DecidableEq

structure RetentionPolicy where
  periodic : Fin (2 ^ 64)
  preUpdateVersions : Fin (2 ^ 64)
deriving DecidableEq

structure AgentBackupOverride where
  enabled : Option Bool
  retention : Option RetentionPolicy
deriving DecidableEq

structure BackupGlobalSettings where
  enabled : Bool
  everyNDays : Fin (2 ^ 8)
  retention : RetentionPolicy
  agents : Map String AgentBackupOverride
  repoDir : Option String
deriving DecidableEq

structure Settings where
  services : Map String (Map String ServiceEntry)
  backup : BackupGlobalSettings
  agents : Map String AgentSettings
  channel : String
  autoUpdate : Bool
  exposeLan : Bool
  pushNotifications : Map String Bool
  dockerSocket : Option String
deriving DecidableEq

/-! ## Defaults -/

def defaultRetention : RetentionPolicy where
  periodic := 1
  preUpdateVersions := 5

/-- `DEFAULT_EVERY_N_DAYS` -/
def defaultEveryNDays : Fin (2 ^ 8) := 1

def BackupGlobalSettings.default : BackupGlobalSettings where
  enabled := true
  everyNDays := defaultEveryNDays
  retention := defaultRetention
  agents := ∅
  repoDir := none

def defaultChannel : String := "stable"

def Settings.default : Settings where
  services := ∅
  backup := .default
  agents := ∅
  channel := defaultChannel
  autoUpdate := true
  exposeLan := false
  pushNotifications := ∅
  dockerSocket := none

/-- Rewrite the backup defaults that older releases froze into the file. -/
def convergeFrozenBackupDefaults (backup : BackupGlobalSettings) : BackupGlobalSettings :=
  let stored :=
    (backup.everyNDays.val, backup.retention.periodic.val, backup.retention.preUpdateVersions.val)
  if stored ≠ (3, 2, 2) then backup
  else { backup with everyNDays := defaultEveryNDays, retention := defaultRetention }

theorem convergeFrozenBackupDefaults_of_ne
    {backup : BackupGlobalSettings}
    (h : (backup.everyNDays.val, backup.retention.periodic.val,
      backup.retention.preUpdateVersions.val) ≠ (3, 2, 2)) :
    convergeFrozenBackupDefaults backup = backup :=
  if_pos h

theorem convergeFrozenBackupDefaults_idem (backup : BackupGlobalSettings) :
    convergeFrozenBackupDefaults (convergeFrozenBackupDefaults backup) =
      convergeFrozenBackupDefaults backup := by
  by_cases hstored :
      (backup.everyNDays.val, backup.retention.periodic.val,
        backup.retention.preUpdateVersions.val) = (3, 2, 2)
  · have hconverged : convergeFrozenBackupDefaults backup =
        { backup with everyNDays := defaultEveryNDays, retention := defaultRetention } :=
      if_neg (not_not.2 hstored)
    have hnew : (defaultEveryNDays.val, defaultRetention.periodic.val,
        defaultRetention.preUpdateVersions.val) ≠ (3, 2, 2) := by decide
    rw [hconverged]
    exact convergeFrozenBackupDefaults_of_ne hnew
  · rw [convergeFrozenBackupDefaults_of_ne hstored,
      convergeFrozenBackupDefaults_of_ne hstored]

/-! ## Codecs -/

def usize : Codec (Fin (2 ^ 64)) := .unsigned 64

/-- A bare port is a service of older releases. -/
def ServiceEntry.codec : Codec ServiceEntry where
  encode service :=
    .obj [("port", (Codec.unsigned 16).encode service.port),
      ("public", Codec.bool.encode service.isPublic)]
  decode value :=
    match (Codec.unsigned 16).decode value with
    | some port => some { port, isPublic := false }
    | none =>
        if value.isRecord 2 then do
          let port ← (Codec.unsigned 16).field value 0 "port" none
          let isPublic ← Codec.bool.field value 1 "public" (some false)
          return { port, isPublic }
        else none
  decode_encode service := by
    have hport := (Codec.unsigned 16).decode_encode service.port
    have hrecord (entries : List (String × Value)) :
        (Codec.unsigned 16).decode (.obj entries) = none := rfl
    simp [hrecord, Value.isRecord, Codec.field, Value.fieldValues, hport,
      Codec.bool.decode_encode]

/-- A unit variant is its name, or an object of its name and `null`. -/
def UserDesired.codec : Codec UserDesired where
  encode
    | .running => .str "running"
    | .stopped => .str "stopped"
  decode
    | .str "running" => some .running
    | .str "stopped" => some .stopped
    | .obj [("running", .null)] => some .running
    | .obj [("stopped", .null)] => some .stopped
    | _ => none
  decode_encode
    | .running => rfl
    | .stopped => rfl

def HostMount.codec : Codec HostMount where
  encode mount :=
    .obj [("host_path", Codec.str.encode mount.hostPath),
      ("container_path", Codec.str.encode mount.containerPath),
      ("writable", Codec.bool.encode mount.writable)]
  decode value :=
    if value.isRecord 3 then do
      let hostPath ← Codec.str.field value 0 "host_path" none
      let containerPath ← Codec.str.field value 1 "container_path" none
      let writable ← Codec.bool.field value 2 "writable" (some false)
      return { hostPath, containerPath, writable }
    else none
  decode_encode mount := by
    simp [Value.isRecord, Codec.field, Value.fieldValues, Codec.decode_encode]

def AgentSettings.codec : Codec AgentSettings where
  encode agent :=
    .obj [("user_desired", UserDesired.codec.encode agent.userDesired),
      ("mounts", HostMount.codec.list.encode agent.mounts)]
  decode value :=
    if value.isRecord 2 then do
      let userDesired ← UserDesired.codec.field value 0 "user_desired" (some .running)
      let mounts ← HostMount.codec.list.field value 1 "mounts" (some [])
      return { userDesired, mounts }
    else none
  decode_encode agent := by
    simp [Value.isRecord, Codec.field, Value.fieldValues, Codec.decode_encode]

def RetentionPolicy.codec : Codec RetentionPolicy where
  encode retention :=
    .obj [("periodic", usize.encode retention.periodic),
      ("pre_update_versions", usize.encode retention.preUpdateVersions)]
  decode value :=
    if value.isRecord 2 then do
      let periodic ← usize.field value 0 "periodic" (some defaultRetention.periodic)
      let preUpdateVersions ←
        usize.field value 1 "pre_update_versions" (some defaultRetention.preUpdateVersions)
      return { periodic, preUpdateVersions }
    else none
  decode_encode retention := by
    simp [Value.isRecord, Codec.field, Value.fieldValues, Codec.decode_encode]

def optionBool : Codec (Option Bool) := Codec.bool.option fun _ h => by cases h

def optionStr : Codec (Option String) := Codec.str.option fun _ h => by cases h

def optionRetention : Codec (Option RetentionPolicy) :=
  RetentionPolicy.codec.option fun _ h => by cases h

/-- The field of an override, which is left out when there is nothing to override. -/
def overrideField {α : Type} (key : String) (codec : Codec α) :
    Option α → List (String × Value)
  | none => []
  | some a => [(key, codec.encode a)]

def AgentBackupOverride.codec : Codec AgentBackupOverride where
  encode agentOverride :=
    .obj (overrideField "enabled" Codec.bool agentOverride.enabled ++
      overrideField "retention" RetentionPolicy.codec agentOverride.retention)
  decode value :=
    if value.isRecord 2 then do
      let enabled ← optionBool.field value 0 "enabled" (some none)
      let retention ← optionRetention.field value 1 "retention" (some none)
      return { enabled, retention }
    else none
  decode_encode agentOverride := by
    obtain ⟨enabled, retention⟩ := agentOverride
    have henabled (b : Bool) : optionBool.decode (Codec.bool.encode b) = some (some b) :=
      optionBool.decode_encode (some b)
    have hretention (r : RetentionPolicy) :
        optionRetention.decode (RetentionPolicy.codec.encode r) = some (some r) :=
      optionRetention.decode_encode (some r)
    cases enabled <;> cases retention <;>
      simp [overrideField, Value.isRecord, Codec.field, Value.fieldValues, henabled, hretention]

def BackupGlobalSettings.codec : Codec BackupGlobalSettings where
  encode backup :=
    .obj [("enabled", Codec.bool.encode backup.enabled),
      ("every_n_days", (Codec.unsigned 8).encode backup.everyNDays),
      ("retention", RetentionPolicy.codec.encode backup.retention),
      ("agents", AgentBackupOverride.codec.map.encode backup.agents),
      ("repo_dir", optionStr.encode backup.repoDir)]
  decode value :=
    if value.isRecord 5 then do
      let enabled ← Codec.bool.field value 0 "enabled" (some true)
      let everyNDays ←
        (Codec.unsigned 8).field value 1 "every_n_days" (some defaultEveryNDays)
      let retention ← RetentionPolicy.codec.field value 2 "retention" (some defaultRetention)
      let agents ← AgentBackupOverride.codec.map.field value 3 "agents" (some ∅)
      let repoDir ← optionStr.field value 4 "repo_dir" (some none)
      return { enabled, everyNDays, retention, agents, repoDir }
    else none
  decode_encode backup := by
    simp [Value.isRecord, Codec.field, Value.fieldValues, Codec.decode_encode]

def Settings.codec : Codec Settings where
  encode settings :=
    .obj [("services", ServiceEntry.codec.map.map.encode settings.services),
      ("backup", BackupGlobalSettings.codec.encode settings.backup),
      ("agents", AgentSettings.codec.map.encode settings.agents),
      ("channel", Codec.str.encode settings.channel),
      ("auto_update", Codec.bool.encode settings.autoUpdate),
      ("expose_lan", Codec.bool.encode settings.exposeLan),
      ("push_notifications", Codec.bool.map.encode settings.pushNotifications),
      ("docker_socket", optionStr.encode settings.dockerSocket)]
  decode value :=
    if value.isRecord 8 then do
      let services ← ServiceEntry.codec.map.map.field value 0 "services" (some ∅)
      let backup ← BackupGlobalSettings.codec.field value 1 "backup" (some .default)
      let agents ← AgentSettings.codec.map.field value 2 "agents" (some ∅)
      let channel ← Codec.str.field value 3 "channel" (some defaultChannel)
      let autoUpdate ← Codec.bool.field value 4 "auto_update" (some true)
      let exposeLan ← Codec.bool.field value 5 "expose_lan" (some false)
      let pushNotifications ← Codec.bool.map.field value 6 "push_notifications" (some ∅)
      let dockerSocket ← optionStr.field value 7 "docker_socket" (some none)
      return {
        services := services
        backup := backup
        agents := agents
        channel := channel
        autoUpdate := autoUpdate
        exposeLan := exposeLan
        pushNotifications := pushNotifications
        dockerSocket := dockerSocket }
    else none
  decode_encode settings := by
    simp [Value.isRecord, Codec.field, Value.fieldValues, Codec.decode_encode]

end SettingsFile
end Vestad
end Vesta
