import Vesta.Lib.Text

/-!
# Loading the agent's configuration

The configuration is put together from the config store and the environment, the store
first, and validated.  Loading drops the variable of each field that is rejected and builds
again, as long as there is one to drop; then it falls back to the defaults with a Claude
provider and the agent's token.

What the settings library does with a value is an input: how it reads a variable, merges two
values of a field and validates one.  It reports a value that it rejects and raises for a
variable of a list or of a record that is not JSON.  Names of variables are matched in lower
case, and a field has the last one that matches.
-/

namespace Vesta
namespace Agent
namespace LoadConfig

open Lib

inductive Field
  | provider
  | agentPersonality
  | notificationRules
  | blockDashes
  | activeSkills
  | presenceNotifications
  | ephemeral
  | logLevel
  | monitorTickInterval
  | proactiveCheckInterval
  | notifSnoozeIdleGraceSeconds
  | queryTimeout
  | responseTimeout
  | nightlyMemoryHour
  | interruptTimeout
  | wsPort
  | agentToken
  | agentDir
  | agentName
  | timezone
  | seedContext
deriving DecidableEq

def Field.name : Field → Text
  | .provider => "provider".toList
  | .agentPersonality => "agent_personality".toList
  | .notificationRules => "notification_rules".toList
  | .blockDashes => "block_dashes".toList
  | .activeSkills => "active_skills".toList
  | .presenceNotifications => "presence_notifications".toList
  | .ephemeral => "ephemeral".toList
  | .logLevel => "log_level".toList
  | .monitorTickInterval => "monitor_tick_interval".toList
  | .proactiveCheckInterval => "proactive_check_interval".toList
  | .notifSnoozeIdleGraceSeconds => "notif_snooze_idle_grace_seconds".toList
  | .queryTimeout => "query_timeout".toList
  | .responseTimeout => "response_timeout".toList
  | .nightlyMemoryHour => "nightly_memory_hour".toList
  | .interruptTimeout => "interrupt_timeout".toList
  | .wsPort => "ws_port".toList
  | .agentToken => "agent_token".toList
  | .agentDir => "agent_dir".toList
  | .agentName => "agent_name".toList
  | .timezone => "timezone".toList
  | .seedContext => "seed_context".toList

def fields : List Field :=
  [.provider, .agentPersonality, .notificationRules, .blockDashes, .activeSkills,
    .presenceNotifications, .ephemeral, .logLevel, .monitorTickInterval,
    .proactiveCheckInterval, .notifSnoozeIdleGraceSeconds, .queryTimeout, .responseTimeout,
    .nightlyMemoryHour, .interruptTimeout, .wsPort, .agentToken, .agentDir, .agentName,
    .timezone, .seedContext]

/-- The name of a field, or the alias of the timezone. -/
inductive Key
  | of (field : Field)
  | tz
deriving DecidableEq

def Key.field : Key → Field
  | .of field => field
  | .tz => .timezone

/-- The key in the store, and in the location of an error. -/
def Key.name : Key → Text
  | .of field => field.name
  | .tz => "TZ".toList

/-- `str(loc[0]).upper()` -/
def Key.envName (key : Key) : Text := key.name.map Char.toUpper

/-- The names a field is looked for by, the first that is given counting. -/
def Field.keys : Field → List Key
  | .timezone => [.of .timezone, .tz]
  | field => [.of field]

/-- How a variable is read: as it is, or as JSON, which a union may also not be. -/
inductive Complexity
  | scalar
  | complex
  | lenient
deriving DecidableEq

def Field.complexity : Field → Complexity
  | .provider => .lenient
  | .notificationRules => .complex
  | .activeSkills => .complex
  | .presenceNotifications => .complex
  | _ => .scalar

/-- How the validator of the agent's directory sees a value. -/
inductive PathValue
  /-- `None` or the empty string. -/
  | unset
  | path (path : List UInt8)
  | other

/-- What the settings library and the values of the fields come to: `V` are values before
validation, `W` after it, and `O` the Claude OAuth blobs. -/
structure Settings (V W O : Type) where
  ofVariable : List UInt8 → V
  /-- A variable of JSON; `none` when it is not. -/
  parse : List UInt8 → Option V
  /-- The value of a field that is given twice, the first source before the second. -/
  merge : V → V → V
  validate : Field → V → Option W
  default : Field → W
  pathValue : V → PathValue
  /-- `Path(path).expanduser().resolve()`; `none` where the home is unknown. -/
  expanduser : List UInt8 → Option (List UInt8)
  defaultAgentDir : List UInt8
  directory : List UInt8 → W
  secret : List UInt8 → W
  /-- No token is none that was given. -/
  secret_ne : ∀ token, secret token ≠ default .agentToken
  /-- `ClaudeConfig(oauth=…)` -/
  claudeConfig : Option O → W
  /-- A Claude provider without its OAuth blob. -/
  wantsOauth : W → Bool
  withOauth : W → Option O → W
  /-- The blob of a credentials file, where its value validates. -/
  claudeOAuth : V → Option O

/-- What `json.loads` makes of the text of a file. -/
inductive Loaded (V : Type)
  | object (given : Text → Option V)
  /-- Another value, and what the settings source takes from it; `none` where it raises. -/
  | other (taken : Option (Text → Option V))
  /-- `JSONDecodeError` -/
  | notJson
  /-- Another exception. -/
  | raises

abbrev Env := List (Text × List UInt8)

/-- The files by their contents; one that is not there has none. -/
structure Files where
  /-- The config store under an agent directory. -/
  store : List UInt8 → Option (List UInt8)
  credentials : Option (List UInt8)

def kelvin : Char := Char.ofNat 0x212A

/-- `str.lower`, of the characters that it makes ASCII. -/
def lowerChar (c : Char) : Char := if c = kelvin then 'k' else c.toLower

def lower (name : Text) : Text := name.map lowerChar

/-- The variable that a key has. -/
def variableOf (env : Env) (key : Key) : Option (Text × List UInt8) :=
  (env.filter fun entry => lower entry.1 = lower key.name).getLast?

inductive Checked (W : Type)
  | raises
  | rejected (key : Key)
  | accepted (value : W)

inductive Built (W : Type)
  | raised
  | rejected (keys : List Key)
  | built (config : Field → W)

inductive Issue
  | dropped (name : Text) (value : List UInt8)
  | allDefaults
deriving DecidableEq

inductive Result (W : Type)
  | raised
  | returned (config : Field → W) (env : Env) (issues : List Issue)

section Loading

variable {V W O : Type}
variable (settings : Settings V W O)
variable (loads : Text → Loaded V)
variable (files : Files)

/-- `_resolve_agent_dir`; `none` where it raises. -/
def resolveAgentDir (env : Env) : Option (List UInt8) :=
  match env.lookup "AGENT_DIR".toList with
  | none => some settings.defaultAgentDir
  | some path => if path.isEmpty then some settings.defaultAgentDir else settings.expanduser path

/-- What the store gives: `none` where reading it raises, and nothing where it is left out. -/
def readStore (env : Env) : Option (Text → Option V) :=
  (resolveAgentDir settings env).bind fun dir =>
    match files.store dir with
    | none => some fun _ => none
    | some content =>
        match (fromUtf8 content).map loads with
        | none => none
        | some .raises => none
        | some .notJson => some fun _ => none
        | some (.other taken) => taken
        | some (.object given) => some given

def readVariable (field : Field) (raw : List UInt8) : Option V :=
  match field.complexity with
  | .scalar => some (settings.ofVariable raw)
  | .complex => settings.parse raw
  | .lenient => some ((settings.parse raw).getD (settings.ofVariable raw))

/-- The value of a key: `none` where its variable cannot be read. -/
def value (store : Text → Option V) (env : Env) (key : Key) : Option (Option V) :=
  match variableOf env key with
  | none => some (store key.name)
  | some entry =>
      (readVariable settings key.field entry.2).map fun given =>
        some (match store key.name with
          | none => given
          | some stored => settings.merge stored given)

def validateField (key : Key) (given : V) : Checked W :=
  if key.field = .agentDir then
    match settings.pathValue given with
    | .unset => .accepted (settings.directory settings.defaultAgentDir)
    | .path path =>
        match settings.expanduser path with
        | none => .raises
        | some dir => .accepted (settings.directory dir)
    | .other => .raises
  else
    match settings.validate key.field given with
    | none => .rejected key
    | some validated => .accepted validated

/-- The first key that is given, with its value. -/
def firstGiven : List Key → List (Option V) → Option (Key × V)
  | key :: _, some given :: _ => some (key, given)
  | _ :: keys, none :: values => firstGiven keys values
  | _, _ => none

/-- A field on its own. -/
def check (store : Text → Option V) (env : Env) (field : Field) : Checked W :=
  match field.keys.mapM (value settings store env) with
  | none => .raises
  | some values =>
      match firstGiven field.keys values with
      | none => .accepted (settings.default field)
      | some (key, given) => validateField settings key given

def Checked.key? : Checked W → Option Key
  | .rejected key => some key
  | _ => none

def Checked.isRaised : Checked W → Bool
  | .raises => true
  | _ => false

def Checked.getD (default : W) : Checked W → W
  | .accepted validated => validated
  | _ => default

/-- The keys of the fields that are rejected. -/
def rejectedKeys (store : Text → Option V) (env : Env) : List Key :=
  fields.filterMap fun field => (check settings store env field).key?

/-- `VestaConfig()` -/
def vestaConfig (env : Env) : Built W :=
  match readStore settings loads files env with
  | none => .raised
  | some store =>
      if fields.any fun field => (check settings store env field).isRaised then .raised
      else
        let keys := rejectedKeys settings store env
        if keys.isEmpty then
          .built fun field => (check settings store env field).getD (settings.default field)
        else .rejected keys

/-- `read_claude_oauth`; `none` where it raises. -/
def readClaudeOauth : Option (Option O) :=
  match files.credentials with
  | none => some none
  | some content =>
      match (fromUtf8 content).map loads with
      | none => none
      | some .raises => none
      | some .notJson => some none
      | some (.other _) => some none
      | some (.object given) => some ((given "claudeAiOauth".toList).bind settings.claudeOAuth)

def hydrateClaudeOauth (config : Field → W) : Option (Field → W) :=
  if settings.wantsOauth (config .provider) then
    (readClaudeOauth settings loads files).map fun oauth field =>
      if field = .provider then settings.withOauth (config .provider) oauth else config field
  else some config

/-- The agent's token in the environment, when it is not empty. -/
def agentToken (env : Env) : Option (List UInt8) :=
  (env.lookup (Key.of .agentToken).envName).filter fun token => !token.isEmpty

/-- The configuration that is put together by hand. -/
def fallback (env : Env) (oauth : Option O) (field : Field) : W :=
  match field with
  | .provider => settings.claudeConfig oauth
  | .agentToken =>
      match agentToken env with
      | none => settings.default .agentToken
      | some token => settings.secret token
  | field => settings.default field

/-- The variables that are dropped for rejected keys. -/
def droppedFor (keys : List Key) (env : Env) : Env :=
  keys.filterMap fun key => (env.lookup key.envName).map fun raw => (key.envName, raw)

def without (keys : List Key) (env : Env) : Env :=
  env.filter fun entry => !keys.any fun key => key.envName = entry.1

/-- The end of the loop, in the environment of its last round. -/
def finish (env : Env) (issues : List Issue) : Result W :=
  match vestaConfig settings loads files env with
  | .raised => .raised
  | .built config =>
      match hydrateClaudeOauth settings loads files config with
      | none => .raised
      | some config => .returned config env issues
  | .rejected _ =>
      match readClaudeOauth settings loads files with
      | none => .raised
      | some oauth => .returned (fallback settings env oauth) env (issues ++ [.allDefaults])

/-- The rounds of the loop, so many at most. -/
def loadLoop : Nat → Env → List Issue → Option (Result W)
  | 0, _, _ => none
  | fuel + 1, env, issues =>
      match vestaConfig settings loads files env with
      | .rejected keys =>
          if (droppedFor keys env).isEmpty then some (finish settings loads files env issues)
          else
            loadLoop fuel (without keys env)
              (issues ++ (droppedFor keys env).map fun entry => .dropped entry.1 entry.2)
      | _ => some (finish settings loads files env issues)

def loadConfig (env : Env) : Option (Result W) :=
  loadLoop settings loads files (env.length + 1) env []

end Loading

end LoadConfig
end Agent
end Vesta
