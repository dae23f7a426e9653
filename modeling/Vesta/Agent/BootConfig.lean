import Mathlib.Data.List.Nodup
import Vesta.Agent.LoadConfig

/-!
# When the agent boots

Each round of loading takes the variables of rejected fields out of the environment, so
there is a last round, and the fields that were never rejected are in it what they were in
the first.  What can go wrong is said of the first environment and of what is left of it: a
file or a variable that cannot be read, a token that is given otherwise or dropped for the
store's, and a variable that is not spelled in capitals.
-/

namespace Vesta
namespace Agent
namespace LoadConfig

open Lib

/-! ## What is asked of loading -/

section Spec

variable {V W O : Type}
variable (settings : Settings V W O)
variable (loads : Text → Loaded V)
variable (files : Files)

/-- A store that is absent, or an object whose fields are all accepted. -/
def StoreValid (env : Env) : Prop :=
  ∃ dir, resolveAgentDir settings env = some dir ∧
    (files.store dir = none ∨
      ∃ content text given, files.store dir = some content ∧ fromUtf8 content = some text ∧
        loads text = .object given ∧
          ∀ field, ∃ validated, check settings given [] field = .accepted validated)

/-- A field whose value is rejected. -/
def FieldRejected (store : Text → Option V) (env : Env) (field : Field) : Prop :=
  ∃ key, check settings store env field = .rejected key

/-- A variable that gives a rejected field its value. -/
def VariableRejected
    (store : Text → Option V)
    (env : Env)
    (entry : Text × List UInt8) :
    Prop :=
  ∃ field key, check settings store env field = .rejected key ∧ variableOf env key = some entry

/-- No field is rejected. -/
def Accepts (store : Text → Option V) (env : Env) : Prop :=
  ∀ field, ∃ validated, check settings store env field = .accepted validated

/-- The value that a field is given, a Claude provider with its blob. -/
def intended (store : Text → Option V) (env : Env) (field : Field) : W :=
  match check settings store env field with
  | .accepted validated =>
      if field = .provider ∧ settings.wantsOauth validated = true then
        settings.withOauth validated ((readClaudeOauth settings loads files).getD none)
      else validated
  | _ => settings.default field

/-- Loading returns a configuration with the environment's token; and where the store is
valid, it takes out only variables that are rejected, and every field that is not rejected
has the value it is given. -/
def Boots (env : Env) : Prop :=
  ∃ config after issues,
    loadConfig settings loads files env = some (.returned config after issues) ∧
      (∀ token ∈ agentToken env, config .agentToken = settings.secret token) ∧
      (StoreValid settings loads files env →
        ∀ store ∈ readStore settings loads files env,
          (∀ entry ∈ env, entry ∉ after → VariableRejected settings store env entry) ∧
            ∀ field, ¬FieldRejected settings store env field →
              config field = intended settings loads files store env field)

/-- The environment without the variables in capitals of the fields that are rejected, as
long as there are any. -/
def settle (store : Text → Option V) : Nat → Env → Env
  | 0, env => env
  | fuel + 1, env =>
      if fields.any fun field => (check settings store env field).isRaised then env
      else if (droppedFor (rejectedKeys settings store env) env).isEmpty then env
      else settle store fuel (without (rejectedKeys settings store env) env)

def settled (store : Text → Option V) (env : Env) : Env :=
  settle settings store (env.length + 1) env

/-- What the files and the variables of an environment have to be, with what its store
gives. -/
structure Sound (store : Text → Option V) (env : Env) : Prop where
  /-- Every list and record that is left is JSON, and a directory's home is known. -/
  readable : ∀ field, (check settings store (settled settings store env) field).isRaised = false
  /-- The credentials can be read, or need not be. -/
  credentials : (readClaudeOauth settings loads files).isSome = true ∨
    Accepts settings store (settled settings store env) ∧
      ∀ validated, check settings store (settled settings store env) .provider =
        .accepted validated → settings.wantsOauth validated = false
  /-- The token is the one that is given, or is left for the defaults. -/
  token : ∀ token ∈ agentToken env,
    Accepts settings store (settled settings store env) ∧
        check settings store (settled settings store env) .agentToken =
          .accepted (settings.secret token) ∨
      ¬Accepts settings store (settled settings store env) ∧
        agentToken (settled settings store env) = some token
  /-- No variable is dropped in the place of another one. -/
  dropped : StoreValid settings loads files env →
    ∀ entry ∈ env, entry ∉ settled settings store env →
      VariableRejected settings store env entry
  /-- Nothing that is left is rejected, or nothing else is configured. -/
  kept : StoreValid settings loads files env →
    Accepts settings store (settled settings store env) ∨
      ∀ oauth ∈ readClaudeOauth settings loads files,
        ∀ field, ¬FieldRejected settings store env field →
          fallback settings (settled settings store env) oauth field =
            intended settings loads files store env field

end Spec

/-! ## Names -/

def keys : List Key := .tz :: fields.map .of

theorem mem_fields (field : Field) : field ∈ fields := by
  cases field <;> decide

theorem mem_keys (key : Key) : key ∈ keys := by
  cases key with
  | tz => exact List.mem_cons_self
  | of field => exact List.mem_cons_of_mem _ (List.mem_map_of_mem (mem_fields field))

theorem lower_name_injective
    {a b : Key}
    (h : lower a.name = lower b.name) :
    a = b := by
  have hnodup : (keys.map fun key => lower key.name).Nodup := by decide +kernel
  exact List.inj_on_of_nodup_map hnodup (mem_keys a) (mem_keys b) h

theorem lower_envName (key : Key) : lower key.envName = lower key.name := by
  have hall : ∀ key ∈ keys, lower key.envName = lower key.name := by decide +kernel
  exact hall key (mem_keys key)

theorem envName_agentDir
    {key : Key}
    (h : key.field ≠ .agentDir) :
    key.envName ≠ "AGENT_DIR".toList := by
  have hall : ∀ key ∈ keys, key.field = .agentDir ∨ key.envName ≠ "AGENT_DIR".toList := by
    decide +kernel
  exact (hall key (mem_keys key)).resolve_left h

theorem field_of_mem_keys
    {field : Field} {key : Key}
    (h : key ∈ field.keys) :
    key.field = field := by
  cases field <;> simp only [Field.keys, List.mem_cons, List.not_mem_nil, or_false] at h
  case timezone => rcases h with rfl | rfl <;> rfl
  all_goals
    cases h
    rfl

/-! ## A field on its own -/

section Checks

variable {V W O : Type}
variable {settings : Settings V W O}
variable {store : Text → Option V}
variable {env : Env}

theorem mem_of_firstGiven
    {keys : List Key} {values : List (Option V)} {key : Key} {given : V}
    (h : firstGiven keys values = some (key, given)) :
    key ∈ keys := by
  fun_induction firstGiven keys values with
  | case1 first _ _ _ =>
      cases h
      exact List.mem_cons_self
  | case2 _ _ _ ih => exact List.mem_cons_of_mem _ (ih h)
  | case3 => cases h

/-- A rejected key is one of the field's, and no key of the agent's directory. -/
theorem field_of_rejected
    {field : Field} {key : Key}
    (h : check settings store env field = .rejected key) :
    key.field = field ∧ field ≠ .agentDir := by
  unfold check at h
  split at h
  · cases h
  · split at h
    · cases h
    · rename_i other given hfirst
      have hfield := field_of_mem_keys (mem_of_firstGiven hfirst)
      unfold validateField at h
      split at h
      · split at h
        · cases h
        · split at h <;> cases h
        · cases h
      · rename_i hdir
        split at h
        · cases h
          exact ⟨hfield, hfield ▸ hdir⟩
        · cases h

theorem mem_rejectedKeys
    {key : Key} :
    key ∈ rejectedKeys settings store env ↔
      ∃ field, check settings store env field = .rejected key := by
  simp only [rejectedKeys, List.mem_filterMap]
  constructor
  · rintro ⟨field, -, hkey⟩
    refine ⟨field, ?_⟩
    cases hcheck : check settings store env field with
    | raises => simp [hcheck, Checked.key?] at hkey
    | accepted validated => simp [hcheck, Checked.key?] at hkey
    | rejected other =>
        rw [hcheck] at hkey
        cases hkey
        rfl
  · rintro ⟨field, hcheck⟩
    exact ⟨field, mem_fields field, by rw [hcheck]; rfl⟩

theorem accepts_iff
    (hreadable : ∀ field, (check settings store env field).isRaised = false) :
    Accepts settings store env ↔ rejectedKeys settings store env = [] := by
  rw [List.eq_nil_iff_forall_not_mem]
  constructor
  · intro h key hkey
    obtain ⟨field, hcheck⟩ := mem_rejectedKeys.1 hkey
    obtain ⟨validated, haccepted⟩ := h field
    rw [hcheck] at haccepted
    cases haccepted
  · intro h field
    cases hcheck : check settings store env field with
    | raises =>
        have hraised := hreadable field
        rw [hcheck] at hraised
        cases hraised
    | rejected key => exact absurd (mem_rejectedKeys.2 ⟨field, hcheck⟩) (h key)
    | accepted validated => exact ⟨validated, rfl⟩

theorem variableOf_without
    {dropped : List Key} {key : Key}
    (h : ∀ other ∈ dropped, other ≠ key) :
    variableOf (without dropped env) key = variableOf env key := by
  unfold variableOf without
  rw [List.filter_filter]
  congr 1
  refine List.filter_congr fun entry _ => ?_
  by_cases hname : lower entry.1 = lower key.name
  · have hkept : ∀ other ∈ dropped, other.envName ≠ entry.1 := by
      intro other hother heq
      refine h other hother (lower_name_injective ?_)
      rw [← lower_envName, heq, hname]
    simpa [hname] using hkept
  · simp [hname]

theorem mapM_congr
    {α β : Type} {f g : α → Option β} {l : List α}
    (h : ∀ a ∈ l, f a = g a) :
    l.mapM f = l.mapM g := by
  induction l with
  | nil => rfl
  | cons a l ih =>
      obtain ⟨ha, hl⟩ := List.forall_mem_cons.1 h
      rw [List.mapM_cons, List.mapM_cons, ha, ih hl]

/-- Dropping the variables of other fields leaves a field. -/
theorem check_without
    {dropped : List Key} {field : Field}
    (h : ∀ key ∈ dropped, key.field ≠ field) :
    check settings store (without dropped env) field = check settings store env field := by
  have hvalue : ∀ key ∈ field.keys,
      value settings store (without dropped env) key = value settings store env key := by
    intro key hkey
    have hvariable : variableOf (without dropped env) key = variableOf env key :=
      variableOf_without fun other hother heq =>
        h other hother (heq ▸ field_of_mem_keys hkey)
    simp only [value, hvariable]
  have hvalues : field.keys.mapM (value settings store (without dropped env)) =
      field.keys.mapM (value settings store env) := mapM_congr hvalue
  simp only [check, hvalues]

theorem lookup_without
    {dropped : List Key} {name : Text}
    (h : ∀ key ∈ dropped, key.envName ≠ name) :
    (without dropped env).lookup name = env.lookup name := by
  induction env with
  | nil => rfl
  | cons entry env ih =>
      obtain ⟨first, raw⟩ := entry
      unfold without at ih ⊢
      rw [List.filter_cons]
      by_cases hname : name = first
      · subst hname
        have hkept : dropped.all (fun key => !decide (key.envName = name)) = true := by
          simpa using h
        simp [List.any_eq_not_all_not, hkept]
      · have hother : (name == first) = false := beq_eq_false_iff_ne.2 hname
        split
        · simp [List.lookup_cons, ih]
        · simp [List.lookup_cons, hother, ih]

end Checks

/-! ## Rounds -/

section Rounds

variable {V W O : Type}
variable {settings : Settings V W O}
variable {loads : Text → Loaded V}
variable {files : Files}
variable {store : Text → Option V}

theorem readStore_without
    {env : Env} {dropped : List Key}
    (h : ∀ key ∈ dropped, key.field ≠ .agentDir) :
    readStore settings loads files (without dropped env) =
      readStore settings loads files env := by
  have hlookup : (without dropped env).lookup "AGENT_DIR".toList =
      env.lookup "AGENT_DIR".toList :=
    lookup_without fun key hkey => envName_agentDir (h key hkey)
  simp only [readStore, resolveAgentDir, hlookup]

theorem length_without_lt
    {env : Env} {dropped : List Key}
    (h : (droppedFor dropped env).isEmpty = false) :
    (without dropped env).length < env.length := by
  have hne : droppedFor dropped env ≠ [] := by
    intro hnil
    rw [hnil] at h
    cases h
  obtain ⟨entry, hentry⟩ := List.exists_mem_of_ne_nil _ hne
  obtain ⟨key, hkey, hraw⟩ := List.mem_filterMap.1 hentry
  obtain ⟨raw, hlookup, rfl⟩ := Option.map_eq_some_iff.1 hraw
  have hmem : (key.envName, raw) ∈ env := by
    obtain ⟨before, after, heq, -⟩ := List.lookup_eq_some_iff.1 hlookup
    simp [heq]
  refine List.length_filter_lt_length_iff_exists.2 ⟨_, hmem, ?_⟩
  simp only [Bool.not_eq_true', Bool.not_eq_false, List.any_eq_true, decide_eq_true_eq]
  exact ⟨key, hkey, rfl⟩

theorem rejectedKeys_field
    {env : Env} :
    ∀ key ∈ rejectedKeys settings store env, key.field ≠ .agentDir := by
  intro key hkey
  obtain ⟨field, hcheck⟩ := mem_rejectedKeys.1 hkey
  obtain ⟨hfield, hdir⟩ := field_of_rejected hcheck
  rwa [hfield]

/-- A field that is not rejected is the same in every round. -/
theorem check_settle
    {env : Env} {field : Field}
    (h : ¬FieldRejected settings store env field)
    (fuel : Nat) :
    check settings store (settle settings store fuel env) field =
      check settings store env field := by
  induction fuel generalizing env with
  | zero => rfl
  | succ fuel ih =>
      have hothers : ∀ key ∈ rejectedKeys settings store env, key.field ≠ field := by
        intro key hkey heq
        obtain ⟨other, hcheck⟩ := mem_rejectedKeys.1 hkey
        have hother := (field_of_rejected hcheck).1
        rw [heq] at hother
        exact h ⟨key, hother ▸ hcheck⟩
      have hsame : check settings store (without (rejectedKeys settings store env) env) field =
          check settings store env field := check_without hothers
      unfold settle
      split
      · rfl
      · split
        · rfl
        · rw [ih, hsame]
          rintro ⟨key, hkey⟩
          exact h ⟨key, hsame ▸ hkey⟩

theorem readStore_settle
    (fuel : Nat)
    (env : Env) :
    readStore settings loads files (settle settings store fuel env) =
      readStore settings loads files env := by
  induction fuel generalizing env with
  | zero => rfl
  | succ fuel ih =>
      unfold settle
      split
      · rfl
      · split
        · rfl
        · rw [ih, readStore_without rejectedKeys_field]

/-- The token that is left is the environment's. -/
theorem agentToken_settle
    {fuel : Nat} {env : Env} {token : List UInt8}
    (h : agentToken (settle settings store fuel env) = some token) :
    agentToken env = some token := by
  induction fuel generalizing env with
  | zero => exact h
  | succ fuel ih =>
      unfold settle at h
      split at h
      · exact h
      · split at h
        · exact h
        · have hnext := ih h
          by_cases hkept : ∀ key ∈ rejectedKeys settings store env,
              key.envName ≠ (Key.of .agentToken).envName
          · rwa [agentToken, lookup_without hkept] at hnext
          · -- A token that is dropped is not found again.
            exfalso
            have hgone : (without (rejectedKeys settings store env) env).lookup
                (Key.of .agentToken).envName = none := by
              rw [List.lookup_eq_none_iff]
              intro entry hentry
              have hentry := (List.mem_filter.1 hentry).2
              rw [bne_iff_ne]
              intro heq
              apply hkept
              intro key hkey hname
              simp only [Bool.not_eq_true', List.any_eq_false, decide_eq_true_eq] at hentry
              exact hentry key hkey (hname.trans heq)
            rw [agentToken, hgone] at hnext
            cases hnext

/-- Loading ends with the settled environment. -/
theorem loadLoop_eq
    {fuel : Nat} {env : Env}
    (hfuel : env.length < fuel)
    (hstore : readStore settings loads files env = some store)
    (issues : List Issue) :
    ∃ more, loadLoop settings loads files fuel env issues =
      some (finish settings loads files (settle settings store fuel env) more) := by
  induction fuel generalizing env issues with
  | zero => omega
  | succ fuel ih =>
      unfold settle
      by_cases hraised :
          fields.any (fun field => (check settings store env field).isRaised) = true
      · refine ⟨issues, ?_⟩
        have hbuilt : vestaConfig settings loads files env = .raised := by
          simp only [vestaConfig, hstore, if_pos hraised]
        simp only [loadLoop, hbuilt, if_pos hraised]
      · cases hkeys : (rejectedKeys settings store env).isEmpty with
        | true =>
            have hempty : (droppedFor (rejectedKeys settings store env) env).isEmpty = true := by
              rw [List.isEmpty_iff.1 hkeys]
              rfl
            refine ⟨issues, ?_⟩
            simp only [loadLoop, vestaConfig, hstore, if_neg hraised, hkeys, hempty, if_true]
        | false =>
            have hbuilt : vestaConfig settings loads files env =
                .rejected (rejectedKeys settings store env) := by
              simp only [vestaConfig, hstore, if_neg hraised, hkeys, Bool.false_eq_true, if_false]
            simp only [loadLoop, hbuilt, if_neg hraised]
            cases hdropped : (droppedFor (rejectedKeys settings store env) env).isEmpty with
            | true => exact ⟨issues, by simp only [if_true]⟩
            | false =>
                have hless := length_without_lt hdropped
                simp only [Bool.false_eq_true, if_false]
                exact ih (by omega) ((readStore_without rejectedKeys_field).trans hstore) _

end Rounds

/-! ## When the agent boots -/

section Boot

variable {V W O : Type}
variable {settings : Settings V W O}
variable {loads : Text → Loaded V}
variable {files : Files}
variable {store : Text → Option V}
variable {env : Env}

theorem vestaConfig_of_readable
    (hstore : readStore settings loads files env = some store)
    (hreadable : ∀ field, (check settings store env field).isRaised = false) :
    vestaConfig settings loads files env =
      if (rejectedKeys settings store env).isEmpty then
        .built fun field => (check settings store env field).getD (settings.default field)
      else .rejected (rejectedKeys settings store env) := by
  have hany : ¬fields.any (fun field => (check settings store env field).isRaised) = true := by
    simp [hreadable]
  simp only [vestaConfig, hstore, if_neg hany]

theorem readable_of_finish
    {issues : List Issue} {config : Field → W} {after : Env} {more : List Issue}
    (hstore : readStore settings loads files env = some store)
    (h : finish settings loads files env issues = .returned config after more) :
    ∀ field, (check settings store env field).isRaised = false := by
  intro field
  by_contra hraised
  have hany : fields.any (fun field => (check settings store env field).isRaised) = true :=
    List.any_eq_true.2 ⟨field, mem_fields field, by simpa using hraised⟩
  simp only [finish, vestaConfig, hstore, if_pos hany] at h
  cases h

/-- The blob is put into a Claude provider and nowhere else. -/
theorem hydrate_apply
    {config hydrated : Field → W}
    (h : hydrateClaudeOauth settings loads files config = some hydrated)
    (field : Field) :
    hydrated field =
      if field = .provider ∧ settings.wantsOauth (config field) = true then
        settings.withOauth (config field) ((readClaudeOauth settings loads files).getD none)
      else config field := by
  unfold hydrateClaudeOauth at h
  split at h
  · rename_i hwants
    obtain ⟨oauth, hoauth, rfl⟩ := Option.map_eq_some_iff.1 h
    dsimp only
    by_cases hfield : field = .provider
    · subst hfield
      simp [hwants, hoauth]
    · simp [hfield]
  · rename_i hwants
    cases h
    rw [if_neg]
    rintro ⟨rfl, hwanted⟩
    exact hwants hwanted

theorem hydrate_isSome_iff (config : Field → W) :
    (hydrateClaudeOauth settings loads files config).isSome = true ↔
      (readClaudeOauth settings loads files).isSome = true ∨
        settings.wantsOauth (config .provider) = false := by
  unfold hydrateClaudeOauth
  split
  · rename_i hwants
    simp [hwants]
  · rename_i hwants
    simp [Bool.eq_false_iff.2 hwants]

/-- A round in which nothing is rejected ends with the values that are given. -/
theorem finish_of_accepts
    (hstore : readStore settings loads files env = some store)
    (haccepts : Accepts settings store env)
    (issues : List Issue) :
    (∃ config, finish settings loads files env issues = .returned config env issues ∧
        (∀ field, config field = intended settings loads files store env field) ∧
        ((readClaudeOauth settings loads files).isSome = true ∨
          ∀ validated, check settings store env .provider = .accepted validated →
            settings.wantsOauth validated = false)) ∨
      (finish settings loads files env issues = .raised ∧
        ¬((readClaudeOauth settings loads files).isSome = true ∨
          ∀ validated, check settings store env .provider = .accepted validated →
            settings.wantsOauth validated = false)) := by
  have hreadable : ∀ field, (check settings store env field).isRaised = false := by
    intro field
    obtain ⟨validated, hcheck⟩ := haccepts field
    rw [hcheck]
    rfl
  have hnone := (accepts_iff hreadable).1 haccepts
  obtain ⟨provider, hprovider⟩ := haccepts .provider
  have hbuilt := vestaConfig_of_readable hstore hreadable
  rw [hnone, List.isEmpty_nil, if_pos rfl] at hbuilt
  have hneeds : (hydrateClaudeOauth settings loads files fun field =>
        (check settings store env field).getD (settings.default field)).isSome = true ↔ _ :=
    hydrate_isSome_iff _
  have hgiven : (check settings store env .provider).getD (settings.default .provider) =
      provider := by rw [hprovider]; rfl
  rw [hgiven] at hneeds
  have hneeds' : (∀ validated, check settings store env .provider = .accepted validated →
      settings.wantsOauth validated = false) ↔ settings.wantsOauth provider = false := by
    simp [hprovider]
  rw [hneeds', ← hneeds]
  cases hhydrated : hydrateClaudeOauth settings loads files fun field =>
      (check settings store env field).getD (settings.default field) with
  | none =>
      refine .inr ⟨?_, by simp⟩
      simp only [finish, hbuilt, hhydrated]
  | some config =>
      refine .inl ⟨config, ?_, fun field => ?_, rfl⟩
      · simp only [finish, hbuilt, hhydrated]
      · obtain ⟨validated, hcheck⟩ := haccepts field
        have hvalue : (check settings store env field).getD (settings.default field) =
            validated := by rw [hcheck]; rfl
        rw [hydrate_apply hhydrated field, hvalue, intended, hcheck]

/-- A round in which something is rejected ends with the defaults, where there is nothing to
drop. -/
theorem finish_of_rejects
    (hstore : readStore settings loads files env = some store)
    (hreadable : ∀ field, (check settings store env field).isRaised = false)
    (hrejects : ¬Accepts settings store env)
    (issues : List Issue) :
    finish settings loads files env issues =
      (readClaudeOauth settings loads files).elim .raised fun oauth =>
        .returned (fallback settings env oauth) env (issues ++ [.allDefaults]) := by
  have hsome : (rejectedKeys settings store env).isEmpty = false := by
    rw [Bool.eq_false_iff, Ne, List.isEmpty_iff, ← accepts_iff hreadable]
    exact hrejects
  have hbuilt := vestaConfig_of_readable hstore hreadable
  rw [hsome, if_neg Bool.false_ne_true] at hbuilt
  cases hoauth : readClaudeOauth settings loads files with
  | none => simp only [finish, hbuilt, hoauth, Option.elim_none]
  | some oauth => simp only [finish, hbuilt, hoauth, Option.elim_some]

theorem intended_congr
    {other : Env} {field : Field}
    (h : check settings store other field = check settings store env field) :
    intended settings loads files store other field =
      intended settings loads files store env field := by
  simp only [intended, h]

theorem intended_agentToken
    {token : List UInt8}
    (haccepts : Accepts settings store env) :
    intended settings loads files store env .agentToken = settings.secret token ↔
      check settings store env .agentToken = .accepted (settings.secret token) := by
  obtain ⟨validated, hcheck⟩ := haccepts .agentToken
  simp [intended, hcheck]

theorem fallback_agentToken
    {oauth : Option O} {token : List UInt8}
    (h : ∀ other, agentToken env = some other → other = token) :
    fallback settings env oauth .agentToken = settings.secret token ↔
      agentToken env = some token := by
  cases htoken : agentToken env with
  | none => simpa [fallback, htoken] using (settings.secret_ne token).symm
  | some other =>
      cases h other htoken
      simp [fallback, htoken]

end Boot

/-! ## A store that is not text -/

section Concrete

/-- Values as they are given, `none` for a default; the provider is never a Claude one. -/
def plainSettings : Settings (List UInt8) (Option (List UInt8)) Unit where
  ofVariable := id
  parse := some
  merge stored _ := stored
  validate _ given := some (some given)
  default _ := none
  pathValue := .path
  expanduser := some
  defaultAgentDir := utf8 "/root/agent".toList
  directory := some
  secret := some
  secret_ne _ := nofun
  claudeConfig _ := none
  wantsOauth _ := false
  withOauth provider _ := provider
  claudeOAuth _ := none

/-- Nothing that is read is JSON. -/
def noJson : Text → Loaded (List UInt8) := fun _ => .notJson

/-- A config store of one byte that begins no character, and no credentials. -/
def notUtf8 : Files where
  store _ := some [255]
  credentials := none

end Concrete

end LoadConfig
end Agent
end Vesta
