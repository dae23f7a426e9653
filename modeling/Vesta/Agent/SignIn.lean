import Vesta.Agent.Provider
import Vesta.Lib.Rollback
import Vesta.Lib.Text

/-!
# Sign-ins as transactions over files

A sign-in writes the new provider's credentials, puts the provider in the config store and
removes the tokens of the others; a sign-out removes all of them.  Both save the files they
change first, as text and permission bits, and write them back when a change fails.

Reading a file as text turns each kind of line end into a line feed.  What JSON reads and
prints, and which credentials validate, are inputs.  A change that fails may have taken
effect: the rename is there before the directory is synced.
-/

namespace Vesta
namespace Agent
namespace SignIn

open Lib
open Lib.Rollback
open Provider (Config Fields Store Stored Value signInPatch updateConfigStore validateProvider)

/-- A file: its bytes and its permission bits. -/
structure File where
  content : List UInt8
  mode : Nat
deriving DecidableEq

inductive Path
  | configStore
  | credentials
  | codexProxyAuth
  | claudeJson
deriving DecidableEq

abbrev Files := Disk Path File

/-- Universal newlines: what reading makes of the line ends. -/
def newlines : Text → Text
  | [] => []
  | '\r' :: '\n' :: rest => '\n' :: newlines rest
  | '\r' :: rest => '\n' :: newlines rest
  | c :: rest => c :: newlines rest

/-- `path.read_text()` -/
def readText (file : File) : Option Text := (fromUtf8 file.content).map newlines

/-- A file that is written through a temporary one. -/
def written (text : Text) : File := ⟨utf8 text, 0o600⟩

/-- What a snapshot keeps of a file. -/
def save (file : File) : Option (Text × Nat) := (readText file).map fun text => (text, file.mode)

def load (saved : Text × Nat) : File := { written saved.1 with mode := saved.2 }

/-- What `json.loads` makes of a text. -/
inductive Loaded
  | object (store : Store)
  /-- A value that is not an object, or not JSON. -/
  | other
  /-- Another exception than that of text that is not JSON. -/
  | raises

structure Json where
  loads : Text → Loaded
  dumps : Store → Text

def emptyStore : Store := ⟨.absent, ∅⟩

/-- The store of its file; `none` where reading raises. -/
def readConfigStore (json : Json) : Option File → Option Store
  | none => some emptyStore
  | some file =>
      match (readText file).map json.loads with
      | some (.object store) => some store
      | some .other => some emptyStore
      | some .raises => none
      | none => none

def atomicWriteText (path : Path) (text : Text) : Change Path File where
  path := path
  apply _ := some (some (written text))

def unlink (path : Path) : Change Path File where
  path := path
  apply _ := some none

/-- `update_config_store({"provider": provider})` -/
def persistProvider (json : Json) (provider : Option Fields) : Change Path File where
  path := .configStore
  apply file := (readConfigStore json file).map fun store =>
    some (written (json.dumps (updateConfigStore store [.provider provider])))

inductive ProviderKind
  | claude
  | openrouter
  | zai
  | kimi
  | openai
deriving DecidableEq

def ProviderKind.name : ProviderKind → String
  | .claude => "claude"
  | .openrouter => "openrouter"
  | .zai => "zai"
  | .kimi => "kimi"
  | .openai => "openai"

def clearInactiveCredentials (kind : ProviderKind) : List (Change Path File) :=
  (if kind = .claude then [] else [unlink .credentials]) ++
    if kind = .openai then [] else [unlink .codexProxyAuth]

/-- The status of a call that returns. -/
structure ProviderStatus where
  authenticated : Bool
  kind : Option ProviderKind
  model : Option String
deriving DecidableEq

inductive Result
  | raised (files : Files)
  | returned (files : Files) (status : ProviderStatus)

/-- What a call does once it is accepted: the files it saves, its changes in their order, and
the status it returns. -/
structure Plan where
  paths : List Path
  changes : List (Change Path File)
  status : ProviderStatus

def Plan.run (plan : Plan) (faults : Nat → Fault) (files : Files) : Result :=
  match transaction save load plan.paths plan.changes faults files with
  | .raised left => .raised left
  | .done next => .returned next plan.status

section Calls

variable (json : Json) (config : Config)

/-- `_validated_sign_in`, from the store that the lock finds. -/
def validatedSignIn
    (kind : ProviderKind)
    (model : Option String)
    (maxContextTokens : Option Int)
    (key : Option String)
    (files : Files) :
    Option Fields :=
  (readConfigStore json (files .configStore)).bind fun store =>
    validateProvider config store.provider (signInPatch kind.name model maxContextTokens key)

def applySignIn
    (kind : ProviderKind)
    (provider : Fields)
    (credentialWrites : List (Path × Text)) :
    Plan where
  paths := [.configStore, .credentials, .codexProxyAuth, .claudeJson]
  changes := (credentialWrites.map fun write => atomicWriteText write.1 write.2) ++
    persistProvider json (some provider) :: clearInactiveCredentials kind
  status :=
    { authenticated := true
      kind := some kind
      model :=
        match provider["model"]? with
        | some (.text model) => some model
        | _ => none }

def commitSignIn
    (kind : ProviderKind)
    (model : Option String)
    (maxContextTokens : Option Int)
    (key : Option String)
    (credentialWrites : List (Path × Text))
    (files : Files) :
    Option Plan :=
  (validatedSignIn json config kind model maxContextTokens key files).map fun provider =>
    applySignIn json kind provider credentialWrites

def onboarded : Text := "\x7b\"hasCompletedOnboarding\":true\x7d".toList

/-- How credentials of a request validate. -/
structure Credentials where
  /-- Claude credentials with a token that can be used. -/
  claude : Text → Bool
  /-- The stored form of the credentials of a ChatGPT account. -/
  openai : Text → Option Text

inductive KeyProviderKind
  | openrouter
  | zai
  | kimi
deriving DecidableEq

def KeyProviderKind.kind : KeyProviderKind → ProviderKind
  | .openrouter => .openrouter
  | .zai => .zai
  | .kimi => .kimi

inductive Call
  | setClaude (credentialsJson : Text) (model : Option String) (maxContextTokens : Option Int)
  | setKeyProvider
      (kind : KeyProviderKind) (key model : String) (maxContextTokens : Option Int)
  | setOpenai (credentialsJson : Text) (model : String) (maxContextTokens : Option Int)
  | clearProvider

variable (credentials : Credentials)

/-- What a call comes to before it changes anything; `none` where it is refused. -/
def Call.plan (files : Files) : Call → Option Plan
  | .setClaude credentialsJson model maxContextTokens =>
      if credentials.claude credentialsJson then
        commitSignIn json config .claude model maxContextTokens none
          [(.credentials, credentialsJson), (.claudeJson, onboarded)] files
      else none
  | .setKeyProvider kind key model maxContextTokens =>
      commitSignIn json config kind.kind (some model) maxContextTokens (some key) [] files
  | .setOpenai credentialsJson model maxContextTokens =>
      (credentials.openai credentialsJson).bind fun stored =>
        commitSignIn json config .openai (some model) maxContextTokens none
          [(.codexProxyAuth, stored)] files
  | .clearProvider =>
      some
        { paths := [.configStore, .credentials, .codexProxyAuth]
          changes := [unlink .credentials, unlink .codexProxyAuth, persistProvider json none]
          status := ⟨false, none, none⟩ }

def Call.run (call : Call) (faults : Nat → Fault) (files : Files) : Result :=
  match call.plan json config credentials files with
  | none => .raised files
  | some plan => plan.run faults files

end Calls

/-! ## What is asked of a call -/

/-- The reusable credentials on disk. -/
structure Reusable where
  claude : Option (List UInt8)
  openai : Option (List UInt8)
  key : Option Provider.Value
deriving DecidableEq

def Reusable.onDisk (json : Json) (files : Files) : Reusable where
  claude := (files .credentials).map File.content
  openai := (files .codexProxyAuth).map File.content
  key := (readConfigStore json (files .configStore)).bind fun store => store.provider.get "key"

/-- The credentials of the provider that a call sets. -/
def Call.reusable (credentials : Credentials) : Call → Reusable
  | .setClaude credentialsJson _ _ => ⟨some (utf8 credentialsJson), none, none⟩
  | .setKeyProvider _ key _ _ => ⟨none, none, some (.text key)⟩
  | .setOpenai credentialsJson _ _ =>
      ⟨none, (credentials.openai credentialsJson).map utf8, none⟩
  | .clearProvider => ⟨none, none, none⟩

/-- A call that raises leaves the files, and one that returns leaves exactly the credentials
of its provider. -/
def AllOrNothing
    (json : Json)
    (config : Config)
    (credentials : Credentials)
    (call : Call)
    (faults : Nat → Fault)
    (files : Files) :
    Prop :=
  match call.run json config credentials faults files with
  | .raised left => left = files
  | .returned next _ => Reusable.onDisk json next = call.reusable credentials

/-- A file without carriage returns. -/
def Plain (file : File) : Prop := ∀ text ∈ fromUtf8 file.content, '\r' ∉ text

/-- Whether the store has a key that a call keeps, though its provider takes none: it is
stored with a provider of the same kind. -/
def Call.keepsKey (call : Call) (stored : Stored) : Prop :=
  match call with
  | .setClaude _ _ _ => stored.get "kind" = some (.text "claude") ∧ (stored.get "key").isSome = true
  | .setOpenai _ _ _ => stored.get "kind" = some (.text "openai") ∧ (stored.get "key").isSome = true
  | _ => False

/-- Once a call is accepted and its files are saved: the files are plain if a change fails, and
no other provider's key is kept if none does. -/
def Restorable
    (json : Json)
    (config : Config)
    (credentials : Credentials)
    (call : Call)
    (faults : Nat → Fault)
    (files : Files) :
    Prop :=
  ∀ plan ∈ call.plan json config credentials files, Saves save plan.paths files →
    (¬Passes plan.changes faults files →
      ∀ path ∈ plan.paths, ∀ file ∈ files path, Plain file) ∧
    (Passes plan.changes faults files →
      ∀ store ∈ readConfigStore json (files .configStore), ¬call.keepsKey store.provider)

/-- The provider that a call writes, where it is accepted. -/
def Call.provider (json : Json) (config : Config) (files : Files) :
    Call → Option (Option Fields)
  | .setClaude _ model maxContextTokens =>
      (validatedSignIn json config .claude model maxContextTokens none files).map some
  | .setKeyProvider kind key model maxContextTokens =>
      (validatedSignIn json config kind.kind (some model) maxContextTokens (some key) files).map
        some
  | .setOpenai _ model maxContextTokens =>
      (validatedSignIn json config .openai (some model) maxContextTokens none files).map some
  | .clearProvider => some none

/-- A store is read back from its printing, which has no line end but the line feed. -/
structure Json.Reads (json : Json) (store : Store) : Prop where
  plain : '\r' ∉ json.dumps store
  back : json.loads (json.dumps store) = .object store

/-! ## Reading text -/

theorem return_notMem_newlines (text : Text) : '\r' ∉ newlines text := by
  fun_induction newlines text with
  | case1 => exact List.not_mem_nil
  | case2 rest ih => simpa using ih
  | case3 rest _ ih => simpa using ih
  | case4 c rest _ hne ih =>
      exact fun hmem => (List.mem_cons.1 hmem).elim (fun heq => hne heq.symm) ih

theorem newlines_eq_iff (text : Text) : newlines text = text ↔ '\r' ∉ text := by
  constructor
  · intro h
    rw [← h]
    exact return_notMem_newlines text
  · intro h
    fun_induction newlines text with
    | case1 => rfl
    | case2 rest _ => exact absurd List.mem_cons_self h
    | case3 rest _ _ => exact absurd List.mem_cons_self h
    | case4 c rest _ _ ih => rw [ih fun hmem => h (List.mem_cons_of_mem _ hmem)]

/-- What is saved of a file that is text makes the file again exactly if it is plain. -/
theorem load_save_iff
    {file : File}
    (h : (save file).isSome = true) :
    (save file).map load = some file ↔ Plain file := by
  have htext : (fromUtf8 file.content).isSome = true := by
    simpa [save, readText] using h
  obtain ⟨text, htext⟩ := Option.isSome_iff_exists.1 htext
  have hbytes := utf8_of_fromUtf8 htext
  have hsave : (save file).map load = some ⟨utf8 (newlines text), file.mode⟩ := by
    simp [save, readText, htext, load, written]
  have hplain : Plain file ↔ '\r' ∉ text := by simp [Plain, htext]
  rw [hsave, hplain, ← newlines_eq_iff, Option.some.injEq]
  constructor
  · intro heq
    have hcontent : utf8 (newlines text) = file.content := congrArg File.content heq
    rw [← hbytes] at hcontent
    have htexts := congrArg fromUtf8 hcontent
    rwa [fromUtf8_utf8, fromUtf8_utf8, Option.some.injEq] at htexts
  · intro heq
    rw [heq, hbytes]

theorem readConfigStore_written
    {json : Json} {store : Store}
    (h : json.Reads store) :
    readConfigStore json (some (written (json.dumps store))) = some store := by
  have htext : readText (written (json.dumps store)) = some (json.dumps store) := by
    rw [readText, written, fromUtf8_utf8, Option.map_some, (newlines_eq_iff _).2 h.plain]
  simp only [readConfigStore, htext, Option.map_some, h.back]

/-! ## The key that a sign-in keeps -/

section Key

variable {config : Config} {stored : Stored} {merged : Fields}
variable {kind : String} {model : Option String} {maxContextTokens : Option Int}

theorem eq_mergeProvider
    {patch : Provider.Entries}
    (h : validateProvider config stored patch = some merged) :
    merged = Provider.mergeProvider config stored patch := by
  unfold validateProvider at h
  dsimp only at h
  split at h
  · exact (Option.some.inj h).symm
  · cases h

theorem lookup_kind_signInPatch (key : Option String) :
    (signInPatch kind model maxContextTokens key).lookup "kind" = some (.text kind) := rfl

theorem lookup_key_signInPatch :
    (signInPatch kind model maxContextTokens none).lookup "key" = none := by
  cases model <;> cases maxContextTokens <;> rfl

/-- The key of a request is the provider's. -/
theorem key_of_some
    {key : String}
    (h : validateProvider config stored (signInPatch kind model maxContextTokens (some key)) =
      some merged) :
    merged["key"]? = some (.text key) := by
  have hset : ∀ fields, (Provider.updateFields fields
      (signInPatch kind model maxContextTokens (some key)))["key"]? = some (.text key) := by
    intro fields
    simp [signInPatch, Provider.updateFields, List.foldl_append]
  rw [eq_mergeProvider h, Provider.mergeProvider]
  split
  · exact hset _
  · rw [Std.ExtTreeMap.getElem?_erase, if_neg (by decide)]
    exact hset _

/-- Without a key in the request, the stored one stays if the kind is the stored one. -/
theorem key_of_none
    (h : validateProvider config stored (signInPatch kind model maxContextTokens none) =
      some merged) :
    merged["key"]? = none ↔
      ¬(stored.get "kind" = some (.text kind) ∧ (stored.get "key").isSome = true) := by
  have hlookup : (signInPatch kind model maxContextTokens none).lookup "key" = none :=
    lookup_key_signInPatch
  have hcurrent : (Provider.current config stored)["key"]? = stored.get "key" :=
    Provider.getElem?_current (.inl (by decide))
  rw [eq_mergeProvider h, Provider.mergeProvider]
  split
  · rename_i hswitches
    rw [Provider.getElem?_updateFields hlookup]
    refine iff_of_true (by simp) fun hkeeps => ?_
    have hkind : (Provider.current config stored)["kind"]? = stored.get "kind" :=
      Provider.getElem?_current (.inr (by rw [hkeeps.1]; rfl))
    simp [Provider.switches, lookup_kind_signInPatch, hkind, hkeeps.1] at hswitches
  · rename_i hswitches
    have hsame : (Provider.current config stored)["kind"]? = some (.text kind) := by
      simpa [Provider.switches, lookup_kind_signInPatch] using hswitches
    rw [Std.ExtTreeMap.getElem?_erase, if_neg (by decide),
      Provider.getElem?_updateFields hlookup, hcurrent, ← Option.not_isSome_iff_eq_none]
    constructor
    · exact fun hnone hkeeps => hnone hkeeps.2
    · intro hkeeps hsome
      have hkind : (Provider.current config stored)["kind"]? = stored.get "kind" := by
        cases stored with
        | object fields => rfl
        | absent => cases hsome
        | other value => cases hsome
      exact hkeeps ⟨hkind ▸ hsame, hsome⟩

end Key

/-! ## Calls that return -/

section Returns

variable {json : Json} {config : Config} {credentials : Credentials}
variable {faults : Nat → Fault} {files next : Files} {store : Store}

theorem key_onDisk
    {provider : Option Fields}
    (hread : readConfigStore json (files .configStore) = some store)
    (hreads : json.Reads (updateConfigStore store [.provider provider]))
    (hnext : (persistProvider json provider).apply (files .configStore) =
      some (next .configStore)) :
    (Reusable.onDisk json next).key = provider.bind fun fields => fields["key"]? := by
  have hfile : next .configStore =
      some (written (json.dumps (updateConfigStore store [.provider provider]))) := by
    simpa [persistProvider, hread] using hnext.symm
  simp only [Reusable.onDisk, hfile, readConfigStore_written hreads, Option.bind_some]
  cases provider <;> rfl

theorem commitSignIn_eq
    {kind : ProviderKind} {model : Option String} {maxContextTokens : Option Int}
    {key : Option String} {credentialWrites : List (Path × Text)}
    {plan : Plan} {provider : Option Fields}
    (hplan : commitSignIn json config kind model maxContextTokens key credentialWrites files =
      some plan)
    (hprovider : (validatedSignIn json config kind model maxContextTokens key files).map some =
      some provider)
    (hread : readConfigStore json (files .configStore) = some store) :
    ∃ fields, provider = some fields ∧ plan = applySignIn json kind fields credentialWrites ∧
      validateProvider config store.provider
        (signInPatch kind.name model maxContextTokens key) = some fields := by
  obtain ⟨fields, hvalid, rfl⟩ := Option.map_eq_some_iff.1 hplan
  rw [hvalid] at hprovider
  cases hprovider
  refine ⟨fields, rfl, rfl, ?_⟩
  rwa [validatedSignIn, hread, Option.bind_some] at hvalid

theorem reusable_eq_iff (a b : Reusable) :
    a = b ↔ a.claude = b.claude ∧ a.openai = b.openai ∧ a.key = b.key := by
  cases a
  cases b
  simp

theorem clearInactiveCredentials_key (kind : KeyProviderKind) :
    clearInactiveCredentials kind.kind = [unlink .credentials, unlink .codexProxyAuth] := by
  cases kind <;> rfl

/-- A call changes each of its files once, and saves the files it changes. -/
theorem plan_paths
    {call : Call} {plan : Plan}
    (hplan : call.plan json config credentials files = some plan) :
    (plan.changes.map Change.path).Nodup ∧ ∀ change ∈ plan.changes, change.path ∈ plan.paths := by
  suffices hpaths : (plan.changes.map Change.path).Nodup ∧
      ∀ path ∈ plan.changes.map Change.path, path ∈ plan.paths from
    ⟨hpaths.1, fun change hchange => hpaths.2 _ (List.mem_map_of_mem hchange)⟩
  cases call with
  | setClaude credentialsJson model maxContextTokens =>
      rw [Call.plan] at hplan
      split at hplan
      · obtain ⟨fields, -, rfl⟩ := Option.map_eq_some_iff.1 hplan
        have hpaths : (applySignIn json .claude fields
            [(.credentials, credentialsJson), (.claudeJson, onboarded)]).changes.map Change.path =
              [.credentials, .claudeJson, .configStore, .codexProxyAuth] := rfl
        rw [hpaths]
        exact ⟨by decide, by simp [applySignIn]⟩
      · cases hplan
  | setKeyProvider kind key model maxContextTokens =>
      obtain ⟨fields, -, rfl⟩ := Option.map_eq_some_iff.1 hplan
      have hpaths : (applySignIn json kind.kind fields []).changes.map Change.path =
          [.configStore, .credentials, .codexProxyAuth] := by
        simp [applySignIn, clearInactiveCredentials_key, persistProvider, unlink]
      rw [hpaths]
      exact ⟨by decide, by simp [applySignIn]⟩
  | setOpenai credentialsJson model maxContextTokens =>
      obtain ⟨stored, -, hplan⟩ := Option.bind_eq_some_iff.1 hplan
      obtain ⟨fields, -, rfl⟩ := Option.map_eq_some_iff.1 hplan
      have hpaths : (applySignIn json .openai fields
          [(.codexProxyAuth, stored)]).changes.map Change.path =
            [.codexProxyAuth, .configStore, .credentials] := rfl
      rw [hpaths]
      exact ⟨by decide, by simp [applySignIn]⟩
  | clearProvider =>
      cases hplan
      have hpaths : [unlink .credentials, unlink .codexProxyAuth,
          persistProvider json none].map Change.path =
            [.credentials, .codexProxyAuth, .configStore] := rfl
      rw [hpaths]
      exact ⟨by decide, by simp⟩

/-- A call that returns leaves its provider's credentials, and a key that it keeps. -/
theorem onDisk_iff
    {call : Call} {plan : Plan} {provider : Option Fields}
    (hplan : call.plan json config credentials files = some plan)
    (hprovider : call.provider json config files = some provider)
    (hread : readConfigStore json (files .configStore) = some store)
    (hreads : json.Reads (updateConfigStore store [.provider provider]))
    (hrun : runAll plan.changes faults files = .ok next) :
    Reusable.onDisk json next = call.reusable credentials ↔ ¬call.keepsKey store.provider := by
  have hkey : (persistProvider json provider).apply (files .configStore) =
      some (next .configStore) →
        (Reusable.onDisk json next).key = provider.bind fun fields => fields["key"]? :=
    key_onDisk hread hreads
  obtain ⟨hchanged, -⟩ := runAll_ok_apply (plan_paths hplan).1 hrun
  rw [reusable_eq_iff]
  cases call with
  | setClaude credentialsJson model maxContextTokens =>
      rw [Call.plan] at hplan
      split at hplan
      · obtain ⟨fields, rfl, rfl, hvalid⟩ := commitSignIn_eq hplan hprovider hread
        have hclear : clearInactiveCredentials .claude = [unlink .codexProxyAuth] := rfl
        simp only [applySignIn, hclear, List.map_cons, List.map_nil, List.cons_append,
          List.nil_append, List.forall_mem_cons] at hchanged
        obtain ⟨hcredentials, -, hstore, hproxy, -⟩ := hchanged
        have hcredentials : some (written credentialsJson) = next .credentials :=
          Option.some.inj hcredentials
        have hproxy : none = next .codexProxyAuth := Option.some.inj hproxy
        rw [hkey hstore]
        simp only [Reusable.onDisk, Call.reusable, ← hcredentials, ← hproxy, Option.map_some,
          Option.map_none, Option.bind_some, Call.keepsKey]
        simpa [written, ProviderKind.name] using key_of_none hvalid
      · cases hplan
  | setKeyProvider kind key model maxContextTokens =>
      obtain ⟨fields, rfl, rfl, hvalid⟩ := commitSignIn_eq hplan hprovider hread
      simp only [applySignIn, clearInactiveCredentials_key, List.map_nil, List.nil_append,
        List.forall_mem_cons] at hchanged
      obtain ⟨hstore, hcredentials, hproxy, -⟩ := hchanged
      have hcredentials : none = next .credentials := Option.some.inj hcredentials
      have hproxy : none = next .codexProxyAuth := Option.some.inj hproxy
      rw [hkey hstore]
      simp [Reusable.onDisk, Call.reusable, ← hcredentials, ← hproxy, Call.keepsKey,
        key_of_some hvalid]
  | setOpenai credentialsJson model maxContextTokens =>
      obtain ⟨stored, hstored, hplan⟩ := Option.bind_eq_some_iff.1 hplan
      obtain ⟨fields, rfl, rfl, hvalid⟩ := commitSignIn_eq hplan hprovider hread
      have hclear : clearInactiveCredentials .openai = [unlink .credentials] := rfl
      simp only [applySignIn, hclear, List.map_cons, List.map_nil, List.cons_append,
        List.nil_append, List.forall_mem_cons] at hchanged
      obtain ⟨hproxy, hstore, hcredentials, -⟩ := hchanged
      have hcredentials : none = next .credentials := Option.some.inj hcredentials
      have hproxy : some (written stored) = next .codexProxyAuth := Option.some.inj hproxy
      rw [hkey hstore]
      simp only [Reusable.onDisk, Call.reusable, ← hcredentials, ← hproxy, Option.map_some,
        Option.map_none, Option.bind_some, Call.keepsKey, hstored]
      simpa [written, ProviderKind.name] using key_of_none hvalid
  | clearProvider =>
      cases hplan
      cases hprovider
      simp only [List.forall_mem_cons] at hchanged
      obtain ⟨hcredentials, hproxy, hstore, -⟩ := hchanged
      have hcredentials : none = next .credentials := Option.some.inj hcredentials
      have hproxy : none = next .codexProxyAuth := Option.some.inj hproxy
      rw [hkey hstore]
      simp [Reusable.onDisk, Call.reusable, ← hcredentials, ← hproxy, Call.keepsKey]

/-- A call that is accepted writes its provider in the store. -/
theorem plan_provider
    {call : Call} {plan : Plan}
    (hplan : call.plan json config credentials files = some plan) :
    ∃ provider, call.provider json config files = some provider ∧
      persistProvider json provider ∈ plan.changes := by
  have hsignIn : ∀ (kind : ProviderKind) model maxContextTokens key credentialWrites,
      commitSignIn json config kind model maxContextTokens key credentialWrites files =
        some plan →
      ∃ provider,
        (validatedSignIn json config kind model maxContextTokens key files).map some =
            some provider ∧
          persistProvider json provider ∈ plan.changes := by
    intro kind model maxContextTokens key credentialWrites hcommit
    obtain ⟨fields, hvalid, rfl⟩ := Option.map_eq_some_iff.1 hcommit
    exact ⟨some fields, by rw [hvalid]; rfl, List.mem_append_right _ List.mem_cons_self⟩
  cases call with
  | setClaude credentialsJson model maxContextTokens =>
      rw [Call.plan] at hplan
      split at hplan
      · exact hsignIn _ _ _ _ _ hplan
      · cases hplan
  | setKeyProvider kind key model maxContextTokens => exact hsignIn _ _ _ _ _ hplan
  | setOpenai credentialsJson model maxContextTokens =>
      obtain ⟨stored, -, hplan⟩ := Option.bind_eq_some_iff.1 hplan
      exact hsignIn _ _ _ _ _ hplan
  | clearProvider =>
      cases hplan
      exact ⟨none, rfl, by simp⟩

end Returns

/-- A call that raises leaves every file as it was, and one that returns leaves exactly its
provider's credentials, if and only if the files it saves are plain where a change fails, and
it keeps no other provider's key where none does. -/
theorem allOrNothing_iff
    {json : Json} {config : Config} {credentials : Credentials}
    {call : Call} {faults : Nat → Fault} {files : Files}
    (hjson : ∀ store ∈ readConfigStore json (files .configStore),
      ∀ provider ∈ call.provider json config files,
        json.Reads (updateConfigStore store [.provider provider])) :
    AllOrNothing json config credentials call faults files ↔
      Restorable json config credentials call faults files := by
  unfold AllOrNothing Restorable Call.run
  cases hplan : call.plan json config credentials files with
  | none => simp
  | some plan =>
      obtain ⟨hnodup, hcovers⟩ := plan_paths hplan
      simp only [Option.mem_def, Option.some.injEq, forall_eq', Plan.run]
      cases htransaction : transaction save load plan.paths plan.changes faults files with
      | raised left =>
          have hfails : Saves save plan.paths files → ¬Passes plan.changes faults files := by
            intro hsaves hpasses
            obtain ⟨next, hrun⟩ := (runAll_ok_iff hnodup faults files).2 hpasses
            have hdone : transaction save load plan.paths plan.changes faults files =
                .done next := (transaction_done_iff next).2 ⟨hsaves, hrun⟩
            rw [htransaction] at hdone
            cases hdone
          refine (transaction_raised hcovers htransaction).trans ?_
          constructor
          · intro hloads hsaves
            refine ⟨fun _ path hpath file hfile => ?_,
              fun hpasses => absurd hpasses (hfails hsaves)⟩
            exact (load_save_iff (hsaves path hpath file hfile)).1
              (hloads hsaves path hpath file hfile)
          · intro hplain hsaves path hpath file hfile
            exact (load_save_iff (hsaves path hpath file hfile)).2
              ((hplain hsaves).1 (hfails hsaves) path hpath file hfile)
      | done next =>
          obtain ⟨hsaves, hrun⟩ := (transaction_done_iff next).1 htransaction
          have hpasses := (runAll_ok_iff hnodup faults files).1 ⟨next, hrun⟩
          obtain ⟨provider, hprovider, hmem⟩ := plan_provider hplan
          have hpersists := hpasses.2 _ hmem
          have hstore : (readConfigStore json (files .configStore)).isSome = true := by
            simpa [persistProvider] using hpersists
          obtain ⟨store, hread⟩ := Option.isSome_iff_exists.1 hstore
          have hreads := hjson store hread provider hprovider
          refine (onDisk_iff hplan hprovider hread hreads hrun).trans ?_
          simp [hsaves, hpasses, hread]

/-! ## A sign-in that fails -/

section Concrete

/-- A config that takes a provider with a key. -/
def keyed : Config where
  kind := none
  validates fields := (fields["key"]?).isSome
  inCatalog _ := true
  contextDefault _ _ := none
  canonical entries _ := some entries

def bracesText : Text := "\x7b\x7d".toList

def signedIn : Store :=
  ⟨.object (Provider.updateFields ∅ (signInPatch "zai" (some "glm") none (some "secret"))), ∅⟩

/-- The store before the sign-in is the empty object, and the one after it is a text that
reads back. -/
def twoTexts : Json where
  loads text := if text = bracesText then .object emptyStore else .object signedIn
  dumps _ :=
    "\x7b\"provider\": \x7b\"kind\": \"zai\", \"model\": \"glm\", ".toList ++
      "\"key\": \"secret\"\x7d\x7d".toList

def anyCredentials : Credentials where
  claude _ := true
  openai text := some text

def signIn : Call := .setKeyProvider .zai "secret" "glm" none

/-- A store, and Claude credentials whose lines end as on Windows. -/
def windowsFiles : Files
  | .configStore => some ⟨utf8 bracesText, 0o600⟩
  | .credentials => some ⟨utf8 "\x7b\r\n\x7d".toList, 0o600⟩
  | _ => none

/-- The write of the store fails. -/
def fullDisk (i : Nat) : Fault := if i = 0 then .before else .none

/-- The Claude credentials that a call leaves when it raises. -/
def raisedCredentials : Result → Option File
  | .raised left => left .credentials
  | .returned _ _ => none

/-- The failed sign-in leaves the Claude credentials with other line ends. -/
theorem credentials_rewritten :
    windowsFiles .credentials = some ⟨utf8 "\x7b\r\n\x7d".toList, 0o600⟩ ∧
      raisedCredentials (signIn.run twoTexts keyed anyCredentials fullDisk windowsFiles) =
        some ⟨utf8 "\x7b\n\x7d".toList, 0o600⟩ ∧
      ¬AllOrNothing twoTexts keyed anyCredentials signIn fullDisk windowsFiles := by
  have hraised :
      raisedCredentials (signIn.run twoTexts keyed anyCredentials fullDisk windowsFiles) =
        some ⟨utf8 "\x7b\n\x7d".toList, 0o600⟩ := by decide +kernel
  refine ⟨rfl, hraised, fun h => ?_⟩
  unfold AllOrNothing at h
  cases hrun : signIn.run twoTexts keyed anyCredentials fullDisk windowsFiles with
  | returned next status =>
      rw [hrun] at hraised
      cases hraised
  | raised left =>
      rw [hrun] at h hraised
      simp only [raisedCredentials] at hraised
      rw [h] at hraised
      revert hraised
      decide

theorem windowsFiles_store :
    readConfigStore twoTexts (windowsFiles .configStore) = some emptyStore := by
  have htext : readText ⟨utf8 bracesText, 0o600⟩ = some bracesText := by
    rw [readText, fromUtf8_utf8]
    rfl
  simp only [windowsFiles, readConfigStore, htext, Option.map_some, twoTexts, if_true]

/-- Without a fault, the key is all that remains. -/
theorem signIn_whole :
    AllOrNothing twoTexts keyed anyCredentials signIn (fun _ => .none) windowsFiles := by
  refine (allOrNothing_iff ?_).2 ?_
  · intro store hstore provider hprovider
    rw [windowsFiles_store] at hstore
    cases hstore
    rw [signIn, Call.provider, Option.mem_def] at hprovider
    obtain ⟨fields, hvalid, rfl⟩ := Option.map_eq_some_iff.1 hprovider
    rw [validatedSignIn, windowsFiles_store, Option.bind_some] at hvalid
    cases eq_mergeProvider hvalid
    exact ⟨by decide, rfl⟩
  · intro plan hplan _
    refine ⟨fun hfails => ?_, fun _ store _ => id⟩
    rw [signIn, Call.plan, Option.mem_def] at hplan
    obtain ⟨fields, -, rfl⟩ := Option.map_eq_some_iff.1 hplan
    refine absurd ⟨fun _ _ => rfl, ?_⟩ hfails
    intro change hchange
    have hchanges : (applySignIn twoTexts .zai fields []).changes =
        [persistProvider twoTexts (some fields), unlink .credentials, unlink .codexProxyAuth] := rfl
    rw [show KeyProviderKind.zai.kind = .zai from rfl, hchanges] at hchange
    simp only [List.mem_cons, List.not_mem_nil, or_false] at hchange
    rcases hchange with rfl | rfl | rfl
    · simp [persistProvider, windowsFiles_store]
    · rfl
    · rfl

end Concrete

end SignIn
end Agent
end Vesta
