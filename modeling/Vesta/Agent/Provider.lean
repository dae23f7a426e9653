import Mathlib.Logic.Function.Basic
import Vesta.Lib.Machine
import Vesta.Lib.Map

/-!
# Changes of an agent's provider

The config store holds the provider as one object beside the other config fields.  A
sign-in and a sign-out read and write it under the config lock.  A patch of the provider
merges onto the provider it reads on the event loop, and a worker thread replaces the whole
object later; a change of other fields merges key by key when it is written.

What the loaded config decides is fixed while the agent runs: the kind of its provider, and
which providers and fields it validates.
-/

namespace Vesta
namespace Agent
namespace Provider

open Lib

/-- A JSON value; lists, objects and the rest by their text. -/
inductive Value
  | null
  | text (text : String)
  | int (n : Int)
  | json (text : String)
deriving DecidableEq

/-- The fields of an object as a request carries them. -/
abbrev Entries := List (String × Value)

abbrev Fields := Map String Value

/-- `dict.update`. -/
def updateFields (fields : Fields) (entries : Entries) : Fields :=
  entries.foldl (fun fields entry => fields.insert entry.1 entry.2) fields

/-- The provider of the store. -/
inductive Stored
  | absent
  /-- A value that is not an object. -/
  | other (value : Value)
  | object (fields : Fields)

structure Store where
  provider : Stored
  prefs : Fields

/-- What the loaded config fixes. -/
structure Config where
  /-- The kind of the provider the agent booted with. -/
  kind : Option String
  /-- Whether the config validates with this provider. -/
  validates : Fields → Bool
  /-- Whether the provider is a selection of the catalog. -/
  inCatalog : Fields → Bool
  /-- The catalog's context window of a kind's model, where it has one. -/
  contextDefault : String → String → Option Int
  /-- The other fields as they are stored, when they validate; rules without an id are given
  the drawn ones. -/
  canonical : Entries → List String → Option Entries

/-- A request that changes the config store. -/
inductive Request
  | signIn
      (kind : String) (model : Option String) (maxContextTokens : Option Int)
      (key : Option String)
  | patch (prefs : Entries)
  | signOut
  | config (data : Entries) (ids : List String)
deriving DecidableEq

/-- One top-level update; the value `none` or `null` clears its key. -/
inductive Update
  | provider (value : Option Fields)
  | pref (key : String) (value : Value)

def Store.update (store : Store) : Update → Store
  | .provider none => { store with provider := .absent }
  | .provider (some fields) => { store with provider := .object fields }
  | .pref key value =>
      { store with
        prefs :=
          if value = .null then store.prefs.erase key else store.prefs.insert key value }

/-- Merge top-level updates into the store, under the lock. -/
def updateConfigStore (store : Store) (updates : List Update) : Store :=
  updates.foldl Store.update store

section Requests

variable (config : Config)

/-- What a patch is merged onto where the store has no provider: the kind of the loaded one. -/
def bootProvider : Fields :=
  match config.kind with
  | some kind => updateFields ∅ [("kind", .text kind)]
  | none => ∅

/-- The provider that a patch is merged onto. -/
def current : Stored → Fields
  | .object fields => fields
  | .absent => bootProvider config
  | .other _ => bootProvider config

/-- Whether the patch names another kind than the current provider's. -/
def switches (stored : Stored) (patch : Entries) : Bool :=
  match patch.lookup "kind" with
  | none => false
  | some kind => (current config stored)["kind"]? ≠ some kind

/-- Merge a partial provider onto the current stored provider; a kind switch replaces it. -/
def mergeProvider (stored : Stored) (patch : Entries) : Fields :=
  if switches config stored patch then
    updateFields ∅ patch
  else
    (updateFields (current config stored) patch).erase "oauth"

/-- Whether a partial provider must be a selection of the catalog. -/
def validatesCatalog (patch : Entries) : Bool :=
  (patch.lookup "model").isSome || (patch.lookup "max_context_tokens").isSome ||
    match patch.lookup "kind" with
    | some (.text kind) => config.kind ≠ some kind
    | _ => false

/-- The provider's part of `validate_config_updates`. -/
def validateProvider (stored : Stored) (patch : Entries) : Option Fields :=
  let merged := mergeProvider config stored patch
  if config.validates merged && (!validatesCatalog config patch || config.inCatalog merged) then
    some merged
  else
    none

/-- The partial provider of a sign-in. -/
def signInPatch
    (kind : String)
    (model : Option String)
    (maxContextTokens : Option Int)
    (key : Option String) :
    Entries :=
  [("kind", Value.text kind)] ++ (model.map fun model => ("model", Value.text model)).toList ++
    (maxContextTokens.map fun n => ("max_context_tokens", Value.int n)).toList ++
      (key.map fun key => ("key", Value.text key)).toList

/-- The partial provider of a patch: a new model resets the context window, except under a
kind that keeps the user's cap. -/
def patchBody (prefs : Entries) : Entries :=
  match prefs.lookup "model", config.kind with
  | some (.text model), some kind =>
      if (prefs.lookup "max_context_tokens").isNone && kind ≠ "claude" && kind ≠ "openrouter" then
        prefs ++
          [("max_context_tokens", ((config.contextDefault kind model).map Value.int).getD .null)]
      else
        prefs
  | _, _ => prefs

/-- The updates a request writes, from the provider it finds in the store; `none` when it is
refused. -/
def Request.updates (stored : Stored) : Request → Option (List Update)
  | .signIn kind model maxContextTokens key =>
      (validateProvider config stored (signInPatch kind model maxContextTokens key)).map
        fun merged => [.provider (some merged)]
  | .patch prefs =>
      if prefs = [] then
        none
      else
        (validateProvider config stored (patchBody config prefs)).map
          fun merged => [.provider (some merged)]
  | .signOut => some [.provider none]
  | .config data ids =>
      if (data.lookup "provider").isSome then
        none
      else
        match config.canonical data ids with
        | none => none
        | some updates =>
            if updates = [] then
              none
            else
              some (updates.map fun entry => .pref entry.1 entry.2)

/-- A request on its own: read, validate and write at one time. -/
def Request.run (request : Request) (store : Store) : Option Store :=
  (request.updates config store.provider).map (updateConfigStore store)

/-- Requests one after another, each accepted. -/
def serial (store : Store) (requests : List Request) : Option Store :=
  requests.foldlM (fun store request => request.run config store) store

end Requests

/-! ## Requests that overlap -/

structure State where
  store : Store
  /-- The requests that have been validated and are still to be written. -/
  pending : Nat → Option (Request × List Update)
  /-- The accepted requests in the order of their writes. -/
  accepted : List Request

inductive Act
  /-- A sign-in or a sign-out, which holds the lock; `written` when its files could be. -/
  | locked (request : Request) (written : Bool)
  /-- A patch or a change of other fields is read and validated on the event loop. -/
  | read (id : Nat) (request : Request)
  /-- A worker thread writes what was validated. -/
  | write (id : Nat) (written : Bool)

/-- Whether a request holds the lock from its read to its write. -/
def Request.locks : Request → Bool
  | .signIn _ _ _ _ => true
  | .signOut => true
  | .patch _ => false
  | .config _ _ => false

section Machine

variable (config : Config)

def step (s : State) : Act → Option State
  | .locked request written =>
      if !request.locks then
        none
      else
        match request.updates config s.store.provider with
        | none => some s
        | some updates =>
            if written then
              some
                { s with
                  store := updateConfigStore s.store updates
                  accepted := s.accepted ++ [request] }
            else
              some s
  | .read id request =>
      if request.locks || (s.pending id).isSome then
        none
      else
        match request.updates config s.store.provider with
        | none => some s
        | some updates =>
            some { s with pending := Function.update s.pending id (some (request, updates)) }
  | .write id written =>
      match s.pending id with
      | none => none
      | some (request, updates) =>
          let s := { s with pending := Function.update s.pending id none }
          if written then
            some
              { s with
                store := updateConfigStore s.store updates
                accepted := s.accepted ++ [request] }
          else
            some s

/-- An agent with this store and no request under way. -/
def machine (store : Store) : Machine State Act where
  start s := s = { store, pending := fun _ => none, accepted := [] }
  step := step config

/-- A patch is written onto the provider it would be merged onto now: the patch merged with the
provider in the store is what it is about to write. -/
def Current (s : State) : Act → Prop
  | .write id true =>
      ∀ prefs updates, s.pending id = some (.patch prefs, updates) →
        (Request.patch prefs).updates config s.store.provider = some updates
  | _ => True

end Machine

/-! ## The fields a request sets -/

/-- One field of the store: of the provider, or another. -/
inductive Field
  | provider (key : String)
  | pref (key : String)

def Stored.get (stored : Stored) (key : String) : Option Value :=
  match stored with
  | .object fields => fields[key]?
  | _ => none

def Store.get (store : Store) : Field → Option Value
  | .provider key => store.provider.get key
  | .pref key => store.prefs[key]?

section Touches

variable (config : Config)

/-- The partial provider a request merges. -/
def Request.providerPatch : Request → Option Entries
  | .signIn kind model maxContextTokens key => some (signInPatch kind model maxContextTokens key)
  | .patch prefs => some (patchBody config prefs)
  | .signOut => none
  | .config _ _ => none

/-- Whether a request sets or clears a field: a sign-out and a switch of kind every field of
the provider, a merge the fields of its partial provider, and the kind where the store had no
provider. -/
def Request.touches (stored : Stored) (request : Request) : Field → Bool
  | .provider key =>
      request = .signOut ||
        (request.providerPatch config).any fun changes =>
          switches config stored changes || (changes.lookup key).isSome || key = "oauth" ||
            (key = "kind" && (stored.get "kind").isNone)
  | .pref key =>
      match request with
      | .config data ids => (config.canonical data ids).any fun updates =>
          (updates.lookup key).isSome
      | _ => false

/-- No request of the list sets or clears the field when it is run. -/
def Untouched (field : Field) : Store → List Request → Prop
  | _, [] => True
  | store, request :: requests =>
      request.touches config store.provider field = false ∧
        ∀ next, request.run config store = some next → Untouched field next requests

end Touches

section Frame

variable {config : Config}

theorem getElem?_updateFields
    {entries : Entries} {key : String}
    (h : entries.lookup key = none)
    (fields : Fields) :
    (updateFields fields entries)[key]? = fields[key]? := by
  induction entries generalizing fields with
  | nil => rfl
  | cons entry entries ih =>
      rw [List.lookup_cons] at h
      split at h
      · cases h
      · rename_i hne
        have hrest := ih h (fields.insert entry.1 entry.2)
        rw [updateFields, List.foldl_cons]
        refine hrest.trans ?_
        rw [Std.ExtTreeMap.getElem?_insert, if_neg]
        rw [Std.LawfulEqOrd.compare_eq_iff_eq]
        intro heq
        rw [heq] at hne
        simp at hne

theorem getElem?_bootProvider
    {key : String}
    (hkey : key ≠ "kind") :
    (bootProvider config)[key]? = none := by
  rw [bootProvider]
  split
  · rw [getElem?_updateFields]
    · simp
    · rw [List.lookup_cons, beq_eq_false_iff_ne.2 hkey]
      rfl
  · simp

/-- What a patch is merged onto has the fields of the stored provider and at most a kind
more. -/
theorem getElem?_current
    {stored : Stored} {key : String}
    (hkey : key ≠ "kind" ∨ (stored.get "kind").isSome = true) :
    (current config stored)[key]? = stored.get key := by
  cases stored with
  | object fields => rfl
  | absent =>
      rcases hkey with hkey | hsome
      · exact getElem?_bootProvider hkey
      · cases hsome
  | other value =>
      rcases hkey with hkey | hsome
      · exact getElem?_bootProvider hkey
      · cases hsome

/-- A merge keeps the fields it does not touch. -/
theorem getElem?_mergeProvider
    {stored : Stored} {patch : Entries} {key : String}
    (hswitches : switches config stored patch = false)
    (hpatch : patch.lookup key = none)
    (hoauth : key ≠ "oauth")
    (hkey : key ≠ "kind" ∨ (stored.get "kind").isSome = true) :
    (mergeProvider config stored patch)[key]? = stored.get key := by
  rw [mergeProvider, hswitches, if_neg (by simp), Std.ExtTreeMap.getElem?_erase, if_neg,
    getElem?_updateFields hpatch, getElem?_current hkey]
  rw [Std.LawfulEqOrd.compare_eq_iff_eq]
  exact fun h => hoauth h.symm

/-- The provider that a request with a partial provider writes is the merged one. -/
theorem updates_of_providerPatch
    {request : Request} {stored : Stored} {patch : Entries} {updates : List Update}
    (hpatch : request.providerPatch config = some patch)
    (h : request.updates config stored = some updates) :
    updates = [.provider (some (mergeProvider config stored patch))] := by
  have hmerged : ∀ {changes : Entries} {merged : Fields},
      validateProvider config stored changes = some merged →
        merged = mergeProvider config stored changes := by
    intro changes merged hvalid
    rw [validateProvider] at hvalid
    split at hvalid
    · exact (Option.some.inj hvalid).symm
    · cases hvalid
  cases request with
  | signIn kind model maxContextTokens key =>
      cases hpatch
      obtain ⟨merged, hvalid, rfl⟩ := Option.map_eq_some_iff.1 h
      rw [hmerged hvalid]
  | patch prefs =>
      cases hpatch
      rw [Request.updates] at h
      split at h
      · cases h
      · obtain ⟨merged, hvalid, rfl⟩ := Option.map_eq_some_iff.1 h
        rw [hmerged hvalid]
  | signOut => cases hpatch
  | config data ids => cases hpatch

/-- Updates of other fields leave the provider, and the fields they do not name. -/
theorem updateConfigStore_prefs
    (entries : Entries)
    (store : Store) :
    (updateConfigStore store (entries.map fun entry => .pref entry.1 entry.2)).provider =
        store.provider ∧
      ∀ key, entries.lookup key = none →
        (updateConfigStore store (entries.map fun entry => .pref entry.1 entry.2)).prefs[key]? =
          store.prefs[key]? := by
  induction entries generalizing store with
  | nil => exact ⟨rfl, fun _ _ => rfl⟩
  | cons entry entries ih =>
      obtain ⟨hprovider, hprefs⟩ := ih (store.update (.pref entry.1 entry.2))
      refine ⟨hprovider, fun key hkey => ?_⟩
      rw [List.lookup_cons] at hkey
      split at hkey
      · cases hkey
      · rename_i hne
        have hcompare : ¬compare entry.1 key = .eq := by
          rw [Std.LawfulEqOrd.compare_eq_iff_eq]
          intro heq
          rw [heq] at hne
          simp at hne
        refine (hprefs key hkey).trans ?_
        dsimp only [Store.update]
        split
        · rw [Std.ExtTreeMap.getElem?_erase, if_neg hcompare]
        · rw [Std.ExtTreeMap.getElem?_insert, if_neg hcompare]

/-- A change of other fields writes what it was validated to, whatever the store holds. -/
theorem updates_config
    {data : Entries} {ids : List String} {stored : Stored} {updates : List Update}
    (h : (Request.config data ids).updates config stored = some updates) :
    ∃ entries, config.canonical data ids = some entries ∧
      updates = entries.map fun entry => .pref entry.1 entry.2 := by
  rw [Request.updates] at h
  split at h
  · cases h
  · split at h
    · cases h
    · rename_i entries hcanonical
      split at h
      · cases h
      · exact ⟨entries, hcanonical, (Option.some.inj h).symm⟩

/-- A request that is run keeps the fields it does not touch. -/
theorem get_run
    {request : Request} {store next : Store} {field : Field}
    (hrun : request.run config store = some next)
    (htouches : request.touches config store.provider field = false) :
    next.get field = store.get field := by
  obtain ⟨updates, hupdates, rfl⟩ := Option.map_eq_some_iff.1 hrun
  cases hpatch : request.providerPatch config with
  | some patch =>
      rw [updates_of_providerPatch hpatch hupdates]
      cases field with
      | pref key => rfl
      | provider key =>
          simp only [Request.touches, hpatch, Option.any_some, Bool.or_eq_false_iff,
            decide_eq_false_iff_not, Bool.and_eq_false_iff] at htouches
          obtain ⟨-, ⟨⟨hswitches, hlookup⟩, hoauth⟩, hkind⟩ := htouches
          refine getElem?_mergeProvider hswitches ?_ hoauth ?_
          · rwa [Option.isSome_eq_false_iff, Option.isNone_iff_eq_none] at hlookup
          · refine hkind.imp id fun hnone => ?_
            rwa [Option.isNone_eq_false_iff] at hnone
  | none =>
      cases request with
      | signIn kind model maxContextTokens key => cases hpatch
      | patch prefs => cases hpatch
      | signOut =>
          cases hupdates
          cases field with
          | pref key => rfl
          | provider key => simp [Request.touches] at htouches
      | config data ids =>
          obtain ⟨entries, hcanonical, rfl⟩ := updates_config hupdates
          obtain ⟨hprovider, hprefs⟩ := updateConfigStore_prefs entries store
          cases field with
          | provider key => exact congrArg (fun stored => stored.get key) hprovider
          | pref key =>
              refine hprefs key ?_
              simp only [Request.touches, hcanonical, Option.any_some] at htouches
              rwa [Option.isSome_eq_false_iff, Option.isNone_iff_eq_none] at htouches

end Frame

/-! ## Requests one after another -/

section Serial

variable {config : Config}

theorem serial_cons
    {store t : Store} {request : Request} {requests : List Request} :
    serial config store (request :: requests) = some t ↔
      ∃ next, request.run config store = some next ∧ serial config next requests = some t := by
  rw [serial, List.foldlM_cons, Option.bind_eq_bind, Option.bind_eq_some_iff]
  rfl

theorem serial_append
    {store t : Store} {before after : List Request} :
    serial config store (before ++ after) = some t ↔
      ∃ mid, serial config store before = some mid ∧ serial config mid after = some t := by
  rw [serial, List.foldlM_append, Option.bind_eq_bind, Option.bind_eq_some_iff]
  rfl

theorem serial_concat
    {store mid : Store} {requests : List Request} {request : Request}
    (h : serial config store requests = some mid) :
    serial config store (requests ++ [request]) = request.run config mid := by
  rw [serial, List.foldlM_append]
  rw [serial] at h
  rw [h]
  simp

/-- Requests that do not touch a field keep it. -/
theorem get_serial
    {field : Field} {requests : List Request} {store t : Store}
    (h : serial config store requests = some t)
    (huntouched : Untouched config field store requests) :
    t.get field = store.get field := by
  induction requests generalizing store with
  | nil =>
      cases h
      rfl
  | cons request requests ih =>
      obtain ⟨next, hrun, hrest⟩ := serial_cons.1 h
      exact (ih hrest (huntouched.2 next hrun)).trans (get_run hrun huntouched.1)

/-- A change of other fields keeps the provider. -/
theorem provider_run_config
    {data : Entries} {ids : List String} {store next : Store}
    (hrun : (Request.config data ids).run config store = some next) :
    next.provider = store.provider := by
  obtain ⟨updates, hupdates, rfl⟩ := Option.map_eq_some_iff.1 hrun
  obtain ⟨entries, -, rfl⟩ := updates_config hupdates
  exact (updateConfigStore_prefs _ store).1

/-- Whether a request is a sign-in, a patch or a sign-out. -/
def Request.changesProvider : Request → Bool
  | .config _ _ => false
  | _ => true

theorem provider_serial
    {requests : List Request} {store t : Store}
    (h : serial config store requests = some t)
    (hothers : ∀ request ∈ requests, request.changesProvider = false) :
    t.provider = store.provider := by
  induction requests generalizing store with
  | nil =>
      cases h
      rfl
  | cons request requests ih =>
      obtain ⟨next, hrun, hrest⟩ := serial_cons.1 h
      obtain ⟨hhead, htail⟩ := List.forall_mem_cons.1 hothers
      rw [ih hrest htail]
      cases request with
      | config data ids => exact provider_run_config hrun
      | signIn kind model maxContextTokens key => cases hhead
      | patch prefs => cases hhead
      | signOut => cases hhead

variable (config) in
/-- What serializability means for the store: it is what the accepted requests leave when they
are run one after another in the order of their writes; what one of them left in a field stays
until another that touches the field; and a sign-out or a switch of kind that no change of the
provider follows decides the provider. -/
structure Serialized (store : Store) (s : State) : Prop where
  serial : serial config store s.accepted = some s.store
  kept : ∀ before request after, s.accepted = before ++ request :: after →
    ∃ mid next, Provider.serial config store before = some mid ∧
      request.run config mid = some next ∧
        ∀ field, Untouched config field next after → s.store.get field = next.get field
  signedOut : ∀ before after, s.accepted = before ++ .signOut :: after →
    (∀ other ∈ after, other.changesProvider = false) → s.store.provider = .absent
  switched : ∀ before kind model maxContextTokens key after,
    s.accepted = before ++ .signIn kind model maxContextTokens key :: after →
      (∀ other ∈ after, other.changesProvider = false) →
        ∀ mid, Provider.serial config store before = some mid →
          switches config mid.provider (signInPatch kind model maxContextTokens key) = true →
            s.store.provider =
              .object (updateFields ∅ (signInPatch kind model maxContextTokens key))

/-- The first part says it all. -/
theorem serialized_iff
    (store : Store) (s : State) :
    Serialized config store s ↔ serial config store s.accepted = some s.store := by
  constructor
  · exact Serialized.serial
  · intro h
    have hsplit : ∀ {before request after}, s.accepted = before ++ request :: after →
        ∃ mid next, serial config store before = some mid ∧ request.run config mid = some next ∧
          serial config next after = some s.store := by
      intro before request after haccepted
      rw [haccepted] at h
      obtain ⟨mid, hmid, hrest⟩ := serial_append.1 h
      obtain ⟨next, hrun, hafter⟩ := serial_cons.1 hrest
      exact ⟨mid, next, hmid, hrun, hafter⟩
    exact
      { serial := h
        kept := fun before request after haccepted => by
          obtain ⟨mid, next, hmid, hrun, hafter⟩ := hsplit haccepted
          exact ⟨mid, next, hmid, hrun, fun field => get_serial hafter⟩
        signedOut := fun before after haccepted hothers => by
          obtain ⟨mid, next, -, hrun, hafter⟩ := hsplit haccepted
          rw [provider_serial hafter hothers]
          cases hrun
          rfl
        switched := fun before kind model maxContextTokens key after haccepted hothers mid hmid
            hswitches => by
          obtain ⟨mid', next, hmid', hrun, hafter⟩ := hsplit haccepted
          rw [hmid, Option.some.injEq] at hmid'
          subst hmid'
          rw [provider_serial hafter hothers]
          obtain ⟨updates, hupdates, rfl⟩ := Option.map_eq_some_iff.1 hrun
          rw [updates_of_providerPatch rfl hupdates, mergeProvider, hswitches, if_pos rfl]
          rfl }

end Serial

/-! ## Overlapping requests -/

section Overlap

variable {config : Config}

variable (config) in
/-- What waits to be written: the provider that a patch was merged to, or a change of other
fields that would be validated to the same updates whatever the store holds. -/
def Waiting (s : State) : Prop :=
  ∀ id request updates, s.pending id = some (request, updates) →
    match request with
    | .patch _ => ∃ merged, updates = [.provider (some merged)]
    | .config _ _ => ∀ stored, request.updates config stored = some updates
    | .signIn _ _ _ _ => False
    | .signOut => False

theorem updates_config_any
    {data : Entries} {ids : List String} {stored : Stored} {updates : List Update}
    (h : (Request.config data ids).updates config stored = some updates)
    (other : Stored) :
    (Request.config data ids).updates config other = some updates :=
  h

theorem Waiting.step
    {s t : State} {act : Act}
    (h : Waiting config s)
    (hstep : step config s act = some t) :
    Waiting config t := by
  cases act with
  | locked request written =>
      simp only [Provider.step] at hstep
      split at hstep
      · cases hstep
      · split at hstep
        · cases hstep
          exact h
        · split at hstep
          · cases hstep
            exact h
          · cases hstep
            exact h
  | read id request =>
      simp only [Provider.step] at hstep
      split at hstep
      · cases hstep
      · rename_i hguard
        split at hstep
        · cases hstep
          exact h
        · rename_i updates hupdates
          cases hstep
          intro other request' updates' hpending
          dsimp only at hpending
          rw [Function.update_apply] at hpending
          split at hpending
          · cases hpending
            rw [Bool.or_eq_true, not_or] at hguard
            cases request with
            | signIn kind model maxContextTokens key => exact hguard.1 rfl
            | signOut => exact hguard.1 rfl
            | patch prefs => exact ⟨_, updates_of_providerPatch rfl hupdates⟩
            | config data ids => exact updates_config_any hupdates
          · exact h other request' updates' hpending
  | write id written =>
      simp only [Provider.step] at hstep
      split at hstep
      · cases hstep
      · have hrest : ∀ other request updates,
            Function.update s.pending id none other = some (request, updates) →
              s.pending other = some (request, updates) := by
          intro other request updates hpending
          rw [Function.update_apply] at hpending
          split at hpending
          · cases hpending
          · exact hpending
        split at hstep
        · cases hstep
          exact fun other request updates hpending =>
            h other request updates (hrest other request updates hpending)
        · cases hstep
          exact fun other request updates hpending =>
            h other request updates (hrest other request updates hpending)

/-- A step keeps the store serialized exactly when it writes no patch onto a provider that the
patch was not merged onto. -/
theorem serialized_step_iff
    {store : Store} {s t : State} {act : Act}
    (hwaiting : Waiting config s)
    (h : serial config store s.accepted = some s.store)
    (hstep : step config s act = some t) :
    serial config store t.accepted = some t.store ↔ Current config s act := by
  cases act with
  | locked request written =>
      refine iff_of_true ?_ trivial
      simp only [Provider.step] at hstep
      split at hstep
      · cases hstep
      · split at hstep
        · cases hstep
          exact h
        · rename_i updates hupdates
          split at hstep
          · cases hstep
            rw [serial_concat h, Request.run, hupdates]
            rfl
          · cases hstep
            exact h
  | read id request =>
      refine iff_of_true ?_ trivial
      simp only [Provider.step] at hstep
      split at hstep
      · cases hstep
      · split at hstep
        · cases hstep
          exact h
        · cases hstep
          exact h
  | write id written =>
      simp only [Provider.step] at hstep
      split at hstep
      · cases hstep
      · rename_i request updates hpending
        have hwaits := hwaiting id request updates hpending
        cases written with
        | false =>
            refine iff_of_true ?_ trivial
            cases hstep
            exact h
        | true =>
            cases hstep
            rw [serial_concat h, Request.run]
            cases request with
            | signIn kind model maxContextTokens key => exact False.elim hwaits
            | signOut => exact False.elim hwaits
            | config data ids =>
                refine iff_of_true ?_ ?_
                · rw [hwaits s.store.provider]
                  rfl
                · intro prefs updates' hother
                  rw [hpending] at hother
                  cases hother
            | patch prefs =>
                obtain ⟨merged, rfl⟩ := hwaits
                constructor
                · intro hsome prefs' updates' hother
                  rw [hpending] at hother
                  cases hother
                  obtain ⟨now, hnow, hstore⟩ := Option.map_eq_some_iff.1 hsome
                  obtain rfl := updates_of_providerPatch rfl hnow
                  have hprovider := congrArg Store.provider hstore
                  rw [hnow]
                  simp only [updateConfigStore, List.foldl_cons, List.foldl_nil, Store.update,
                    Stored.object.injEq] at hprovider
                  rw [hprovider]
                · intro hcurrent
                  rw [hcurrent prefs _ hpending]
                  rfl

/-- In every run of overlapping requests, the store is always what the accepted ones leave one
after another if and only if every patch is written onto a provider that it would be merged
with to what it writes. -/
theorem provider_changes_serialized_iff
    (config : Config)
    (store : Store)
    (acts : List Act) :
    (machine config store).Admits
        (fun s act => ∀ t ∈ (machine config store).step s act, Serialized config store t)
        { store, pending := fun _ => none, accepted := [] } acts ↔
      (machine config store).Admits (Current config)
        { store, pending := fun _ => none, accepted := [] } acts := by
  refine (machine config store).admits_iff_within (J := Waiting config) ?_ ?_ ?_ acts ?_ ?_
  · exact fun s act t hwaiting hstep => hwaiting.step hstep
  · intro s act t hwaiting h hstep
    rw [serialized_iff] at h ⊢
    exact serialized_step_iff hwaiting h hstep
  · intro s act _ _ hstuck
    cases act with
    | locked request written => trivial
    | read id request => trivial
    | write id written =>
        cases written with
        | false => trivial
        | true =>
            intro prefs updates hpending
            simp [machine, step, hpending] at hstuck
  · intro id request updates hpending
    cases hpending
  · rw [serialized_iff]
    rfl

end Overlap

/-! ## A patch across a sign-out -/

section Concrete

/-- A config whose only providers are those with a key. -/
def keyedConfig : Config where
  kind := some "zai"
  validates fields := (fields["key"]?).isSome
  inCatalog _ := true
  contextDefault _ _ := none
  canonical entries _ := some entries

def signedIn : Store where
  provider := .object
    (updateFields ∅ [("kind", .text "zai"), ("model", .text "glm"), ("key", .text "secret")])
  prefs := ∅

/-- A patch is read, the agent is signed out, and the patch is written. -/
def patchAcrossSignOut : List Act :=
  [.read 0 (.patch [("model", .text "glm-air")]), .locked .signOut true, .write 0 true]

/-- The key that was signed out is back in the store, as after no order of the two requests. -/
theorem signed_out_key_returns :
    ∃ s, (machine keyedConfig signedIn).Reaches Machine.always s ∧
      s.accepted = [.signOut, .patch [("model", .text "glm-air")]] ∧
      s.store.get (.provider "key") = some (.text "secret") ∧
      ∀ order, order.Perm s.accepted → ∀ t, serial keyedConfig signedIn order = some t →
        t.get (.provider "key") ≠ some (.text "secret") := by
  have hstart : (machine keyedConfig signedIn).Reaches Machine.always
      { store := signedIn, pending := fun _ => none, accepted := [] } := .start rfl
  have haccepted : ((machine keyedConfig signedIn).runTo
      { store := signedIn, pending := fun _ => none, accepted := [] }
      patchAcrossSignOut).accepted = [.signOut, .patch [("model", .text "glm-air")]] := by
    decide +kernel
  refine ⟨_, hstart.runTo patchAcrossSignOut (Machine.admits_always _ _ _) (by decide +kernel),
    haccepted, by decide +kernel, ?_⟩
  intro order horder t ht
  rw [haccepted] at horder
  obtain ⟨x, y, rfl⟩ := List.length_eq_two.1 horder.length_eq
  have hx := horder.mem_iff.1 (List.mem_cons_self (a := x) (l := [y]))
  have hy := horder.mem_iff.1 (List.mem_cons_of_mem x (List.mem_cons_self (a := y) (l := [])))
  have hnodup : [x, y].Nodup := horder.nodup_iff.2 (by decide)
  have hpatched : (serial keyedConfig signedIn
      [.signOut, .patch [("model", .text "glm-air")]]).map (fun t => t.get (.provider "key")) =
        none := by
    decide +kernel
  have hsignedOut : (serial keyedConfig signedIn
      [.patch [("model", .text "glm-air")], .signOut]).map (fun t => t.get (.provider "key")) =
        some none := by
    decide +kernel
  simp only [List.mem_cons, List.not_mem_nil, or_false] at hx hy
  rcases hx with rfl | rfl
  · rcases hy with rfl | rfl
    · simp at hnodup
    · rw [ht] at hpatched
      cases hpatched
  · rcases hy with rfl | rfl
    · rw [ht, Option.map_some, Option.some.injEq] at hsignedOut
      rw [hsignedOut]
      simp
    · simp at hnodup

end Concrete

end Provider
end Agent
end Vesta
