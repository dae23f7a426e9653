import Vesta.Lib.Text
import Vesta.Vestad.Settings.Schema

/-!
# Loading the settings file

A load reads the file, parses it, converges the frozen defaults and writes the settings
back.  A file that does not parse is left as it is, but one that cannot be read, or is no
UTF-8, counts as missing, and the defaults are written over it.  Setting the LAN exposure
loads the settings and saves them with the new value, also when they are the defaults of a
file that did not parse.

Whether the bytes are read and whether a file is replaced are given for each operation.
The JSON library is a parameter that parses texts to trees and prints trees.
-/

namespace Vesta
namespace Vestad
namespace SettingsFile

open Lib

abbrev Bytes := List UInt8

/-- What `serde_json` does with texts, and what it says of a tree with no settings in it. -/
structure JsonText where
  parse : Text → Except String Value
  pretty : Value → Text
  mismatch : Value → String

section Loading

variable (json : JsonText)
variable (path : String)

def fromStr (data : Text) : Except String Settings :=
  match json.parse data with
  | .error err => .error err
  | .ok value =>
      match Settings.codec.decode value with
      | some settings => .ok settings
      | none => .error (json.mismatch value)

def toStringPretty (settings : Settings) : Text := json.pretty (Settings.codec.encode settings)

/-- `read_to_string`, where `readable` says whether the bytes of the file can be read. -/
def readToString (readable : Bool) (file : Option Bytes) : Option Text :=
  file.bind fun bytes => if readable then fromUtf8 bytes else none

/-- `stored_settings_at` -/
def storedSettings (readable : Bool) (file : Option Bytes) : Except String (Option Settings) :=
  match readToString readable file with
  | none => .ok none
  | some data =>
      match fromStr json data with
      | .ok settings => .ok (some settings)
      | .error err =>
          .error (path ++ " does not parse (" ++ err ++
            "); fix the JSON, or move the file away to start from defaults")

/-- The boot check, which writes nothing. -/
def checkStoredSettings (readable : Bool) (file : Option Bytes) :
    Except String Unit × Option Bytes :=
  ((storedSettings json path readable file).map fun _ => (), file)

/-- `save_json_atomic`, where `written` says whether the file is replaced. -/
def saveSettings (written : Bool) (settings : Settings) (file : Option Bytes) : Option Bytes :=
  if written then some (utf8 (toStringPretty json settings)) else file

/-- The settings with their backup defaults converged. -/
def converged (settings : Settings) : Settings :=
  { settings with backup := convergeFrozenBackupDefaults settings.backup }

/-- `load_settings_at`: the settings, and the file after it. -/
def loadSettings (readable written : Bool) (file : Option Bytes) : Settings × Option Bytes :=
  match storedSettings json path readable file with
  | .ok stored =>
      let settings := converged (stored.getD .default)
      (settings, saveSettings json written settings file)
  | .error _ => (.default, file)

/-- Whether the stored value changed, and the file after it; `written` is of the write-back of
the load and `saved` of the save. -/
def setExposeLan (readable written saved : Bool) (expose : Bool) (file : Option Bytes) :
    Bool × Option Bytes :=
  let loaded := loadSettings json path readable written file
  if loaded.1.exposeLan = expose then (false, loaded.2)
  else (true, saveSettings json saved { loaded.1 with exposeLan := expose } loaded.2)

/-! ## Files that do not parse -/

/-- The file is read and holds settings. -/
def Parsed (readable : Bool) (bytes : Bytes) (settings : Settings) : Prop :=
  ∃ data, readToString readable (some bytes) = some data ∧ fromStr json data = .ok settings

/-- What is written in place of a file that cannot be read. -/
def defaultBytes : Bytes := utf8 (toStringPretty json .default)

/-- What the exposure is saved in when the settings are the defaults. -/
def exposedBytes : Bytes := utf8 (toStringPretty json { Settings.default with exposeLan := true })

/-- The file is read as a text, or is not replaced, or holds what it is replaced by. -/
def LoadSpares (readable written : Bool) (bytes : Bytes) : Prop :=
  (readToString readable (some bytes)).isSome = true ∨ written = false ∨
    bytes = defaultBytes json

/-- No exposure is saved, or the file holds what is saved. -/
def LanSpares (readable written saved expose : Bool) (bytes : Bytes) : Prop :=
  if expose = true ∧ saved = true then bytes = exposedBytes json
  else LoadSpares json readable written bytes

section Unparsed

variable {json} {path}
variable {readable written : Bool}
variable {bytes : Bytes}

theorem converged_default : converged .default = .default := by
  rw [converged, convergeFrozenBackupDefaults_of_ne (by decide)]

/-- A file that is not parsed gives the defaults, which are written over what is not read. -/
theorem loadSettings_of_not_parsed
    (h : ∀ settings, ¬ Parsed json readable bytes settings) :
    loadSettings json path readable written (some bytes) =
      (.default, if (readToString readable (some bytes)).isSome then some bytes
        else saveSettings json written .default (some bytes)) := by
  cases hread : readToString readable (some bytes) with
  | none =>
      rw [loadSettings, storedSettings, hread]
      simp only [Option.getD_none, converged_default, Option.isSome_none, Bool.false_eq_true,
        if_false]
  | some data =>
      cases hparse : fromStr json data with
      | ok settings => exact absurd ⟨data, hread, hparse⟩ (h settings)
      | error err =>
          rw [loadSettings, storedSettings, hread]
          simp only [hparse, Option.isSome_some, if_true]

theorem loadSettings_spares_iff
    (h : ∀ settings, ¬ Parsed json readable bytes settings) :
    (loadSettings json path readable written (some bytes)).2 = some bytes ↔
      LoadSpares json readable written bytes := by
  rw [loadSettings_of_not_parsed h, LoadSpares]
  cases hread : (readToString readable (some bytes)).isSome with
  | true => simp
  | false =>
      cases written with
      | false => simp [saveSettings]
      | true => simp [saveSettings, defaultBytes, eq_comm]

theorem setExposeLan_spares_iff
    {saved expose : Bool}
    (h : ∀ settings, ¬ Parsed json readable bytes settings) :
    (setExposeLan json path readable written saved expose (some bytes)).2 = some bytes ↔
      LanSpares json readable written saved expose bytes := by
  have hload := @loadSettings_of_not_parsed json path readable written bytes h
  have hspares := @loadSettings_spares_iff json path readable written bytes h
  have hdefault : Settings.default.exposeLan = false := rfl
  rw [setExposeLan, LanSpares]
  cases expose with
  | false =>
      have hsettings : (loadSettings json path readable written (some bytes)).1.exposeLan =
          false := by rw [hload, hdefault]
      rw [if_pos hsettings, if_neg (by simp)]
      exact hspares
  | true =>
      have hsettings : ¬ (loadSettings json path readable written (some bytes)).1.exposeLan =
          true := by rw [hload, hdefault]; simp
      rw [if_neg hsettings]
      cases saved with
      | false =>
          rw [if_neg (by simp)]
          exact hspares
      | true =>
          rw [if_pos ⟨rfl, rfl⟩, hload]
          simp [saveSettings, exposedBytes, eq_comm]

end Unparsed

/-! ## Files that parse -/

/-- The library reads back what it prints of these settings. -/
def ReadsBack (settings : Settings) : Prop :=
  json.parse (toStringPretty json settings) = .ok (Settings.codec.encode settings)

section Parses

variable {json} {path}
variable {readable written : Bool}
variable {bytes : Bytes}
variable {settings : Settings}

theorem ReadsBack.fromStr_toStringPretty
    (h : ReadsBack json settings) :
    fromStr json (toStringPretty json settings) = .ok settings := by
  rw [fromStr, h]
  simp only [Settings.codec.decode_encode]

theorem ReadsBack.parsed
    (h : ReadsBack json settings) :
    Parsed json true (utf8 (toStringPretty json settings)) settings :=
  ⟨_, by simp [readToString, fromUtf8_utf8], h.fromStr_toStringPretty⟩

theorem loadSettings_of_parsed
    (h : Parsed json readable bytes settings) :
    loadSettings json path readable written (some bytes) =
      (converged settings, saveSettings json written (converged settings) (some bytes)) := by
  obtain ⟨data, hread, hparse⟩ := h
  rw [loadSettings, storedSettings, hread]
  simp only [hparse, Option.getD_some]

theorem converged_idem : converged (converged settings) = converged settings := by
  rw [converged, converged, convergeFrozenBackupDefaults_idem]

/-- What is written back parses to the returned settings. -/
theorem loadSettings_writes_back
    (h : Parsed json readable bytes settings)
    (hreads : ReadsBack json (converged settings)) :
    ∃ after, (loadSettings json path readable true (some bytes)).2 = some after ∧
      Parsed json true after (loadSettings json path readable true (some bytes)).1 := by
  rw [loadSettings_of_parsed h]
  exact ⟨_, rfl, hreads.parsed⟩

/-- Loading again gives the same settings. -/
theorem loadSettings_idem
    {written' : Bool}
    (h : Parsed json readable bytes settings)
    (hreads : ReadsBack json (converged settings)) :
    (loadSettings json path readable written'
        (loadSettings json path readable written (some bytes)).2).1 =
      (loadSettings json path readable written (some bytes)).1 := by
  have hreadable : readable = true := by
    obtain ⟨data, hread, -⟩ := h
    cases readable with
    | true => rfl
    | false => cases hread
  subst hreadable
  rw [loadSettings_of_parsed h]
  cases written with
  | false => rw [saveSettings, if_neg Bool.false_ne_true, loadSettings_of_parsed h]
  | true =>
      rw [saveSettings, if_pos rfl, loadSettings_of_parsed hreads.parsed]
      exact converged_idem

end Parses

variable {path} in
/-- A file with no settings in it is left as it is by the boot check, by a load if and only if
it is read as a text or not replaced, and by setting the exposure if and only if besides none
is saved.  A file with settings in it is written back so that loading it gives them again. -/
theorem settings_kept :
    (∀ readable bytes, (checkStoredSettings json path readable (some bytes)).2 = some bytes) ∧
      (∀ readable written bytes, (∀ settings, ¬ Parsed json readable bytes settings) →
        ((loadSettings json path readable written (some bytes)).2 = some bytes ↔
          LoadSpares json readable written bytes)) ∧
      (∀ readable written saved expose bytes,
        (∀ settings, ¬ Parsed json readable bytes settings) →
          ((setExposeLan json path readable written saved expose (some bytes)).2 = some bytes ↔
            LanSpares json readable written saved expose bytes)) ∧
      ∀ readable bytes settings, Parsed json readable bytes settings →
        ReadsBack json (converged settings) →
          (∃ after, (loadSettings json path readable true (some bytes)).2 = some after ∧
            Parsed json true after (loadSettings json path readable true (some bytes)).1) ∧
          ∀ written written',
            (loadSettings json path readable written'
                (loadSettings json path readable written (some bytes)).2).1 =
              (loadSettings json path readable written (some bytes)).1 := by
  refine ⟨fun _ _ => rfl, ?_, ?_, ?_⟩
  · intro readable written bytes h
    exact loadSettings_spares_iff h
  · intro readable written saved expose bytes h
    exact setExposeLan_spares_iff h
  · intro readable bytes settings h hreads
    refine ⟨loadSettings_writes_back h hreads, fun written written' => ?_⟩
    exact loadSettings_idem h hreads

end Loading

/-! ## A file that is no UTF-8 -/

/-- The defaults as they are printed, behind the brace. -/
def sampleLines : Text := "  \"services\": \x7b\x7d,
  \"backup\": \x7b
    \"enabled\": true,
    \"every_n_days\": 1,
    \"retention\": \x7b
      \"periodic\": 1,
      \"pre_update_versions\": 5
    \x7d,
    \"agents\": \x7b\x7d,
    \"repo_dir\": null
  \x7d,
  \"agents\": \x7b\x7d,
  \"channel\": \"stable\",
  \"auto_update\": true,
  \"expose_lan\": false,
  \"push_notifications\": \x7b\x7d,
  \"docker_socket\": null
\x7d".toList

/-- `'\x7b'` -/
def brace : Char := Char.ofNat 0x7B

def sampleDefaults : Text := brace :: '\n' :: sampleLines

def emptyObject : Text := [brace, Char.ofNat 0x7D]

/-- The library on an empty object and on the defaults. -/
def sampleJson : JsonText where
  parse text :=
    if text = emptyObject then .ok (.obj [])
    else if text = sampleDefaults then .ok (Settings.codec.encode .default)
    else .error "EOF while parsing an object at line 1 column 1"
  pretty _ := sampleDefaults
  mismatch _ := ""

theorem sampleDefaults_ne_emptyObject : sampleDefaults ≠ emptyObject := by
  intro h
  have hsecond : '\n' = Char.ofNat 0x7D := (List.cons.inj (List.cons.inj h).2).1
  exact absurd hsecond (by decide)

/-- What is printed is no single byte. -/
theorem utf8_sampleDefaults_ne (b : UInt8) : utf8 sampleDefaults ≠ [b] := by
  have hbytes (rest : Text) : utf8 (brace :: '\n' :: rest) = 0x7B :: 0x0A :: utf8 rest := rfl
  rw [sampleDefaults, hbytes]
  simp

/-- A byte that is no UTF-8 is replaced by the defaults, and saving the exposure replaces a
file that does not parse. -/
theorem unread_settings_replaced :
    readToString true (some [0xFF]) = none ∧
      (loadSettings sampleJson "settings.json" true true (some [0xFF])).2 ≠ some [0xFF] ∧
      fromStr sampleJson [brace] = .error "EOF while parsing an object at line 1 column 1" ∧
      (setExposeLan sampleJson "settings.json" true true true true (some (utf8 [brace]))).2 ≠
        some (utf8 [brace]) := by
  have hutf8 : fromUtf8 [0xFF] = none := by decide +kernel
  have hread : readToString true (some [0xFF]) = none := hutf8
  have hone : readToString true (some (utf8 [brace])) = some [brace] := by
    simp only [readToString, Option.bind_some, if_true, fromUtf8_utf8]
  have hempty : [brace] ≠ emptyObject := by simp [emptyObject]
  have hdefaults : [brace] ≠ sampleDefaults := by simp [sampleDefaults]
  have hparse : fromStr sampleJson [brace] =
      .error "EOF while parsing an object at line 1 column 1" := by
    rw [fromStr, sampleJson]
    simp only
    rw [if_neg hempty, if_neg hdefaults]
  have hbyte : utf8 [brace] = [0x7B] := rfl
  refine ⟨hread, ?_, hparse, ?_⟩
  · rw [loadSettings, storedSettings, hread]
    intro h
    exact utf8_sampleDefaults_ne 0xFF (Option.some.inj h)
  · have hexposed : (setExposeLan sampleJson "settings.json" true true true true
        (some (utf8 [brace]))).2 = some (utf8 sampleDefaults) := by
      rw [setExposeLan, loadSettings, storedSettings, hone]
      simp only [hparse]
      rfl
    rw [hexposed, hbyte]
    intro h
    exact utf8_sampleDefaults_ne 0x7B (Option.some.inj h)

/-- An empty object gives the defaults, is written back as them and loaded as them again. -/
theorem settings_kept_empty :
    ∃ after, (loadSettings sampleJson "settings.json" true true
        (some (utf8 emptyObject))).2 = some after ∧
      Parsed sampleJson true after (loadSettings sampleJson "settings.json" true true
        (some (utf8 emptyObject))).1 := by
  have hempty : Parsed sampleJson true (utf8 emptyObject) .default := by
    refine ⟨emptyObject, by simp only [readToString, Option.bind_some, if_true,
      fromUtf8_utf8], ?_⟩
    rw [fromStr, sampleJson]
    simp only
    rw [if_pos trivial]
    rfl
  have hreads : ReadsBack sampleJson (converged .default) := by
    rw [ReadsBack, converged_default, toStringPretty, sampleJson]
    simp only
    rw [if_neg sampleDefaults_ne_emptyObject, if_pos trivial]
  exact ((@settings_kept sampleJson "settings.json").2.2.2 true _ .default hempty hreads).1

end SettingsFile
end Vestad
end Vesta
