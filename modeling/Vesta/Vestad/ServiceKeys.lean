import Mathlib.Data.List.Basic
import Vesta.Lib.Machine
import Vesta.Lib.Map
import Vesta.Lib.Text
import Vesta.Vestad.Sync.Roster
import Vesta.Vestad.AgentProxy.Credentials

/-!
# The service-key store and the proxy's authorization

A service key opens one private service of one agent.  The store keeps the digest of
each secret, in memory and in a file that a write replaces as a whole.  A failed write
is logged and a file that cannot be read counts as an empty store.

The machine runs the operations of the store in any order and at any times.  Beside the
store and its file it keeps the operations made so far, and whether a mint or a revoke
has changed the store since the file was last written.

The digest function is a parameter, as is the decoder of access tokens.
-/

namespace Vesta
namespace Vestad
namespace ServiceKeys

open Lib
open AgentProxy
open Sync

/-- The hexadecimal digits of bytes. -/
def hexEncode (bytes : List UInt8) : Text :=
  bytes.flatMap fun b => [Nat.digitChar (b.toNat / 16), Nat.digitChar (b.toNat % 16)]

theorem digitChar_injective :
    ∀ m < 16, ∀ n < 16, Nat.digitChar m = Nat.digitChar n → m = n := by
  decide

theorem hexEncode_injective : Function.Injective hexEncode := by
  intro xs
  induction xs with
  | nil =>
      intro ys h
      cases ys with
      | nil => rfl
      | cons y ys => simp [hexEncode] at h
  | cons x xs ih =>
      intro ys h
      cases ys with
      | nil => simp [hexEncode] at h
      | cons y ys =>
          simp only [hexEncode, List.flatMap_cons, List.cons_append, List.nil_append,
            List.cons.injEq] at h
          obtain ⟨hhigh, hlow, hrest⟩ := h
          have hx := x.toNat_lt
          have hy := y.toNat_lt
          have h1 := digitChar_injective _ (by omega) _ (by omega) hhigh
          have h2 := digitChar_injective _ (by omega) _ (by omega) hlow
          have hxy : x = y := UInt8.toNat_inj.1 (by omega)
          rw [hxy, ih hrest]

/-- The random bytes a mint draws. -/
structure Random where
  secret : Vector UInt8 32
  id : Vector UInt8 8

/-- The secret as the mint response carries it. -/
def Random.secretText (random : Random) : Text := hexEncode random.secret.toList

def Random.idText (random : Random) : Text := hexEncode random.id.toList

structure ServiceKey where
  id : Text
  hash : Text
  label : Option String
  expiresAt : Option Nat
  createdAt : Nat

/-- A key without an expiry never ages out. -/
def isLiveAt (expiresAt : Option Nat) (now : Nat) : Bool :=
  match expiresAt with
  | none => true
  | some expiresAt => decide (now < expiresAt)

theorem isLiveAt_mono
    {expiresAt : Option Nat} {now later : Nat}
    (hle : now ≤ later)
    (h : isLiveAt expiresAt later = true) :
    isLiveAt expiresAt now = true := by
  cases expiresAt with
  | none => rfl
  | some expiresAt =>
      have hlater : later < expiresAt := of_decide_eq_true h
      exact decide_eq_true (by omega)

def ServiceKey.isLiveAt (key : ServiceKey) (now : Nat) : Bool :=
  ServiceKeys.isLiveAt key.expiresAt now

theorem ServiceKey.isLiveAt_mono
    {key : ServiceKey} {now later : Nat}
    (hle : now ≤ later)
    (h : key.isLiveAt later = true) :
    key.isLiveAt now = true :=
  ServiceKeys.isLiveAt_mono hle h

/-- The subset a client may see. -/
structure ServiceKeyInfo where
  id : Text
  label : Option String
  expiresAt : Option Nat
  createdAt : Nat

def ServiceKey.info (key : ServiceKey) : ServiceKeyInfo where
  id := key.id
  label := key.label
  expiresAt := key.expiresAt
  createdAt := key.createdAt

/-- Agent name to service name to that service's keys. -/
structure ServiceKeyStore where
  byAgent : Map String (Map String (List ServiceKey)) := ∅

section Store

variable (sha256 : List UInt8 → List UInt8)

def hashSecret (secret : Text) : Text := hexEncode (sha256 (utf8 secret))

/-- The key that a mint stores. -/
def mintedKey
    (label : Option String) (expiresAt : Option Nat) (now : Nat) (random : Random) :
    ServiceKey where
  id := random.idText
  hash := hashSecret sha256 random.secretText
  label := label
  expiresAt := expiresAt
  createdAt := now

/-- Mint a key; the secret is in the response only. -/
def mint
    (store : ServiceKeyStore)
    (agent service : String)
    (label : Option String) (expiresAt : Option Nat) (now : Nat) (random : Random) :
    ServiceKeyStore × ServiceKeyInfo × Text :=
  let key := mintedKey sha256 label expiresAt now random
  let services := store.byAgent[agent]?.getD ∅
  let keys := services[service]?.getD []
  (⟨store.byAgent.insert agent (services.insert service (keys ++ [key]))⟩,
    key.info, random.secretText)

/-- Drop the key with this id, and tell whether there was one. -/
def revoke (store : ServiceKeyStore) (agent service : String) (id : Text) :
    ServiceKeyStore × Bool :=
  match store.byAgent[agent]? with
  | none => (store, false)
  | some services =>
      match services[service]? with
      | none => (store, false)
      | some keys =>
          let kept := keys.filter fun key => decide (key.id ≠ id)
          (⟨store.byAgent.insert agent (services.insert service kept)⟩,
            decide (keys.length ≠ kept.length))

/-- Whether the presented secret is a live key of exactly this agent and service. -/
def accepts
    (store : ServiceKeyStore) (agent service : String) (presented : Text) (now : Nat) : Bool :=
  match store.byAgent[agent]?.bind (·[service]?) with
  | none => false
  | some keys =>
      let presentedHash := hashSecret sha256 presented
      keys.any fun key => key.isLiveAt now && key.hash == presentedHash

/-- The live keys of a service's list. -/
def liveKeys (now : Nat) (keys : List ServiceKey) : List ServiceKey :=
  keys.filter fun key => key.isLiveAt now

/-- The services of an agent that keep a live key, with their live keys. -/
def liveServices (now : Nat) (services : Map String (List ServiceKey)) :
    Map String (List ServiceKey) :=
  Map.retain (fun _ keys => !keys.isEmpty) (services.map fun _ keys => liveKeys now keys)

/-- How many keys of an agent are expired. -/
def expiredCount (now : Nat) (services : Map String (List ServiceKey)) : Nat :=
  services.valueList.foldl
    (fun removed keys => removed + (keys.length - (liveKeys now keys).length)) 0

/-- Drop every expired key and tell how many went. -/
def pruneExpired (store : ServiceKeyStore) (now : Nat) : ServiceKeyStore × Nat :=
  (⟨Map.retain (fun _ services => !services.isEmpty)
      (store.byAgent.map fun _ services => liveServices now services)⟩,
    store.byAgent.valueList.foldl
      (fun removed services => removed + expiredCount now services) 0)

/-- The authorization decision of the agent proxy. -/
def authorizes
    (decode : Text → Text → Text → Option Claims)
    (presented : List Text) (apiKey : Text)
    (agent serviceName : String) (service : Option ServiceEntry)
    (keys : ServiceKeyStore) (now : Nat) : Bool :=
  if service.any (·.isPublic) then
    true
  else if presented.any fun token => verifyToken decode token apiKey then
    true
  else if service.isNone then
    false
  else
    presented.any fun token => accepts sha256 keys agent serviceName token now

end Store

/-! ## The keys of one service -/

/-- The keys stored for an agent's service. -/
def ServiceKeyStore.keys (store : ServiceKeyStore) (agent service : String) :
    List ServiceKey :=
  (store.byAgent[agent]?.bind (·[service]?)).getD []

section Keys

variable {sha256 : List UInt8 → List UInt8}
variable {store : ServiceKeyStore}
variable {agent service : String}

@[simp] theorem keys_empty : ServiceKeyStore.keys {} agent service = [] := by
  simp [ServiceKeyStore.keys]

theorem accepts_iff
    {presented : Text} {now : Nat} :
    accepts sha256 store agent service presented now = true ↔
      ∃ key ∈ store.keys agent service,
        key.isLiveAt now = true ∧ key.hash = hashSecret sha256 presented := by
  rw [accepts, ServiceKeyStore.keys]
  cases store.byAgent[agent]?.bind (·[service]?) with
  | none => simp
  | some keys => simp

theorem keys_mint
    (label : Option String) (expiresAt : Option Nat) (now : Nat) (random : Random)
    (agent' service' : String) :
    (mint sha256 store agent service label expiresAt now random).1.keys agent' service' =
      store.keys agent' service' ++
        if agent = agent' ∧ service = service' then
          [mintedKey sha256 label expiresAt now random]
        else
          [] := by
  rw [mint, ServiceKeyStore.keys, ServiceKeyStore.keys]
  by_cases hagent : agent = agent'
  · subst hagent
    by_cases hservice : service = service'
    · subst hservice
      cases store.byAgent[agent]? <;> simp
    · cases store.byAgent[agent]? <;>
        simp [hservice, Std.ExtTreeMap.getElem?_insert]
  · simp [hagent, Std.ExtTreeMap.getElem?_insert]

theorem keys_revoke
    (id : Text)
    (agent' service' : String) :
    (revoke store agent service id).1.keys agent' service' =
      (store.keys agent' service').filter fun key =>
        !decide (agent = agent' ∧ service = service' ∧ key.id = id) := by
  rw [ServiceKeyStore.keys, ServiceKeyStore.keys]
  by_cases hagent : agent = agent'
  · subst hagent
    cases hservices : store.byAgent[agent]? with
    | none => simp [revoke, hservices]
    | some services =>
        by_cases hservice : service = service'
        · subst hservice
          cases hkeys : services[service]? with
          | none => simp [revoke, hservices, hkeys]
          | some keys => simp [revoke, hservices, hkeys]
        · cases hkeys : services[service]? with
          | none => simp [revoke, hservices, hkeys, hservice]
          | some keys =>
              simp [revoke, hservices, hkeys, hservice, Std.ExtTreeMap.getElem?_insert]
  · have hother : (revoke store agent service id).1.byAgent[agent']? = store.byAgent[agent']? := by
      rw [revoke]
      split
      · rfl
      · split
        · rfl
        · simp [hagent, Std.ExtTreeMap.getElem?_insert]
    simp [hother, hagent]

theorem getD_liveServices
    (now : Nat) (services : Map String (List ServiceKey)) (service : String) :
    (liveServices now services)[service]?.getD [] = liveKeys now (services[service]?.getD []) := by
  rw [liveServices, Map.getElem?_retain, Std.ExtTreeMap.getElem?_map]
  cases services[service]? with
  | none => rfl
  | some keys =>
      simp only [Option.map_some, Option.getD_some]
      cases hlive : liveKeys now keys <;> rfl

theorem keys_pruneExpired (now : Nat) :
    (pruneExpired store now).1.keys agent service =
      liveKeys now (store.keys agent service) := by
  rw [ServiceKeyStore.keys, ServiceKeyStore.keys, pruneExpired, Map.getElem?_retain,
    Std.ExtTreeMap.getElem?_map]
  cases store.byAgent[agent]? with
  | none => rfl
  | some services =>
      have hlive := getD_liveServices now services service
      simp only [Option.map_some, Option.bind_some]
      rw [← hlive]
      by_cases hempty : (liveServices now services).isEmpty = true
      · rw [Option.filter_some_neg (by simp [hempty]), Std.ExtTreeMap.isEmpty_iff.1 hempty]
        simp
      · rw [Option.filter_some_pos (by simp [hempty]), Option.bind_some]

/-- A revoke that drops no key found none with the id. -/
theorem id_ne_of_revoke
    {id : Text}
    (h : (revoke store agent service id).2 = false)
    {key : ServiceKey}
    (hmem : key ∈ store.keys agent service) :
    key.id ≠ id := by
  rw [ServiceKeyStore.keys] at hmem
  cases hservices : store.byAgent[agent]? with
  | none => simp [hservices] at hmem
  | some services =>
      cases hkeys : services[service]? with
      | none => simp [hservices, hkeys] at hmem
      | some keys =>
          have hmem' : key ∈ keys := by simpa [hservices, hkeys] using hmem
          have hlength : keys.length = (keys.filter fun key => decide (key.id ≠ id)).length := by
            simpa [revoke, hservices, hkeys] using h
          have hall := List.length_filter_eq_length_iff.1 hlength.symm
          simpa using hall key hmem'

end Keys

/-! ## Runs of the store -/

/-- The operations on the store, with what the clock, the generator and the disk answer. -/
inductive Operation
  | mint
      (agent service : String)
      (label : Option String) (expiresAt : Option Nat) (now : Nat) (random : Random)
  | revoke (agent service : String) (id : Text)
  | prune (now : Nat)
  | persist (written : Bool)
  | reload (readable : Bool) (now : Nat) (written : Bool)

structure World where
  store : ServiceKeyStore := {}
  disk : Option ServiceKeyStore := none
  unsaved : Bool := false
  history : List Operation := []

/-- What a load parses: a missing file and one that cannot be read are an empty store. -/
def readStore (readable : Bool) (disk : Option ServiceKeyStore) : ServiceKeyStore :=
  if readable then disk.getD {} else {}

section Runs

variable (sha256 : List UInt8 → List UInt8)

def World.apply (w : World) : Operation → World
  | .mint agent service label expiresAt now random =>
      { w with
        store := (mint sha256 w.store agent service label expiresAt now random).1
        unsaved := true }
  | .revoke agent service id =>
      { w with
        store := (revoke w.store agent service id).1
        unsaved := w.unsaved || (revoke w.store agent service id).2 }
  | .prune now => { w with store := (pruneExpired w.store now).1 }
  | .persist written => if written then { w with disk := some w.store, unsaved := false } else w
  | .reload readable now written =>
      let loaded := pruneExpired (readStore readable w.disk) now
      { w with
        store := loaded.1
        disk := if 0 < loaded.2 ∧ written = true then some loaded.1 else w.disk }

def step (w : World) (op : Operation) : Option World :=
  some { w.apply sha256 op with history := w.history ++ [op] }

def machine : Machine World Operation where
  start w := w = {}
  step := step sha256

/-- The file is read back only when it can be read and holds every mint and revoke. -/
def Saved (w : World) : Operation → Prop
  | .reload readable _ _ => readable = true ∧ w.unsaved = false
  | _ => True

instance decidableSaved (w : World) : DecidablePred (Saved w)
  | .mint .. => isTrue trivial
  | .revoke .. => isTrue trivial
  | .prune _ => isTrue trivial
  | .persist _ => isTrue trivial
  | .reload readable _ _ => inferInstanceAs (Decidable (readable = true ∧ w.unsaved = false))

/-- When an operation dropped the keys expired at its time. -/
def pruneTimes (history : List Operation) : List Nat :=
  history.filterMap fun
    | .prune now => some now
    | .reload _ now _ => some now
    | _ => none

/-- A token was minted for this agent and service, its key was not revoked since, and it
is not expired at `now`. -/
def Authorized (history : List Operation) (agent service : String) (token : Text) (now : Nat) :
    Prop :=
  ∃ before after label expiresAt mintedAt random,
    history = before ++ .mint agent service label expiresAt mintedAt random :: after ∧
    random.secretText = token ∧
    .revoke agent service random.idText ∉ after ∧
    ∀ expiry ∈ expiresAt, now < expiry

/-- The secrets minted in a history. -/
def secrets (history : List Operation) : List Text :=
  history.filterMap fun
    | .mint _ _ _ _ _ random => some random.secretText
    | _ => none

/-- No two of the texts have one digest. -/
def CollisionFree (texts : List Text) : Prop :=
  ∀ a ∈ texts, ∀ b ∈ texts, sha256 (utf8 a) = sha256 (utf8 b) → a = b

/-- A key that a mint of the history stored and no later operation revoked. -/
def Standing (history : List Operation) (agent service : String) (key : ServiceKey) : Prop :=
  ∃ before after label expiresAt now random,
    history = before ++ .mint agent service label expiresAt now random :: after ∧
    key = mintedKey sha256 label expiresAt now random ∧
    .revoke agent service key.id ∉ after

/-- A store holds exactly the standing keys among those that live past every prune. -/
def Holds (store : ServiceKeyStore) (history : List Operation) : Prop :=
  ∀ now, (∀ pruned ∈ pruneTimes history, pruned ≤ now) →
    ∀ agent service key, key.isLiveAt now = true →
      (key ∈ store.keys agent service ↔ Standing sha256 history agent service key)

structure Sound (w : World) : Prop where
  store : Holds sha256 w.store w.history
  disk : w.unsaved = false → Holds sha256 (w.disk.getD {}) w.history

variable {sha256}

theorem standing_append
    {history : List Operation} {op : Operation}
    {agent service : String} {key : ServiceKey} :
    Standing sha256 (history ++ [op]) agent service key ↔
      (Standing sha256 history agent service key ∧ op ≠ .revoke agent service key.id) ∨
      ∃ label expiresAt now random,
        op = .mint agent service label expiresAt now random ∧
        key = mintedKey sha256 label expiresAt now random := by
  constructor
  · rintro ⟨before, after, label, expiresAt, now, random, heq, hkey, hkept⟩
    rcases List.eq_nil_or_concat after with rfl | ⟨rest, last, rfl⟩
    · obtain ⟨-, hop⟩ := List.append_inj' heq rfl
      cases hop
      exact .inr ⟨label, expiresAt, now, random, rfl, hkey⟩
    · rw [List.concat_eq_append, ← List.cons_append, ← List.append_assoc] at heq
      obtain ⟨rfl, hop⟩ := List.append_inj' heq rfl
      cases hop
      simp only [List.concat_eq_append, List.mem_append, List.mem_singleton, not_or] at hkept
      exact .inl ⟨⟨before, rest, label, expiresAt, now, random, rfl, hkey, hkept.1⟩,
        fun h => hkept.2 h.symm⟩
  · rintro (⟨⟨before, after, label, expiresAt, now, random, rfl, hkey, hkept⟩, hop⟩ |
      ⟨label, expiresAt, now, random, rfl, hkey⟩)
    · refine ⟨before, after ++ [op], label, expiresAt, now, random, by simp, hkey, ?_⟩
      simp only [List.mem_append, List.mem_singleton, not_or]
      exact ⟨hkept, fun h => hop h.symm⟩
    · exact ⟨history, [], label, expiresAt, now, random, rfl, hkey, List.not_mem_nil⟩

/-- An operation that neither mints nor revokes. -/
def Keeps : Operation → Prop
  | .mint .. => False
  | .revoke .. => False
  | _ => True

theorem standing_append_of_keeps
    {history : List Operation} {op : Operation}
    (hop : Keeps op)
    {agent service : String} {key : ServiceKey} :
    Standing sha256 (history ++ [op]) agent service key ↔
      Standing sha256 history agent service key := by
  rw [standing_append]
  constructor
  · rintro (⟨h, -⟩ | ⟨label, expiresAt, now, random, rfl, -⟩)
    · exact h
    · exact absurd hop id
  · refine fun h => .inl ⟨h, ?_⟩
    rintro rfl
    exact hop

theorem mem_pruneTimes_append
    {history : List Operation} {op : Operation} {now : Nat}
    (h : ∀ pruned ∈ pruneTimes (history ++ [op]), pruned ≤ now) :
    ∀ pruned ∈ pruneTimes history, pruned ≤ now := by
  intro pruned hmem
  exact h pruned (by rw [pruneTimes, List.filterMap_append]; exact List.mem_append_left _ hmem)

theorem Holds.mint
    {store : ServiceKeyStore} {history : List Operation}
    (h : Holds sha256 store history)
    (agent service : String)
    (label : Option String) (expiresAt : Option Nat) (now : Nat) (random : Random) :
    Holds sha256 (ServiceKeys.mint sha256 store agent service label expiresAt now random).1
      (history ++ [.mint agent service label expiresAt now random]) := by
  intro time htime agent' service' key hlive
  rw [keys_mint, List.mem_append, standing_append,
    h time (mem_pruneTimes_append htime) agent' service' key hlive]
  constructor
  · rintro (hstanding | hnew)
    · exact .inl ⟨hstanding, nofun⟩
    · split at hnew
      · rename_i heq
        obtain ⟨rfl, rfl⟩ := heq
        exact .inr ⟨label, expiresAt, now, random, rfl, List.mem_singleton.1 hnew⟩
      · exact absurd hnew List.not_mem_nil
  · rintro (⟨hstanding, -⟩ | ⟨label', expiresAt', now', random', hop, rfl⟩)
    · exact .inl hstanding
    · cases hop
      exact .inr (by simp)

theorem Holds.revoke
    {store : ServiceKeyStore} {history : List Operation}
    (h : Holds sha256 store history)
    (agent service : String) (id : Text) :
    Holds sha256 (ServiceKeys.revoke store agent service id).1
      (history ++ [.revoke agent service id]) := by
  intro time htime agent' service' key hlive
  rw [keys_revoke, List.mem_filter, standing_append,
    h time (mem_pruneTimes_append htime) agent' service' key hlive]
  constructor
  · rintro ⟨hstanding, hid⟩
    refine .inl ⟨hstanding, fun hop => ?_⟩
    cases hop
    simp at hid
  · rintro (⟨hstanding, hop⟩ | ⟨_, _, _, _, hop, -⟩)
    · refine ⟨hstanding, ?_⟩
      simp only [Bool.not_eq_true', decide_eq_false_iff_not]
      rintro ⟨rfl, rfl, rfl⟩
      exact hop rfl
    · exact nomatch hop

/-- A revoke that finds no key leaves every store that holds the standing keys so. -/
theorem Holds.revoke_none
    {store other : ServiceKeyStore} {history : List Operation}
    (h : Holds sha256 store history)
    (hother : Holds sha256 other history)
    {agent service : String} {id : Text}
    (hnone : (ServiceKeys.revoke store agent service id).2 = false) :
    Holds sha256 other (history ++ [.revoke agent service id]) := by
  intro time htime agent' service' key hlive
  have hbefore := mem_pruneTimes_append htime
  rw [standing_append, hother time hbefore agent' service' key hlive]
  constructor
  · intro hstanding
    refine .inl ⟨hstanding, fun hop => ?_⟩
    cases hop
    have hmem := (h time hbefore agent service key hlive).2 hstanding
    exact id_ne_of_revoke hnone hmem rfl
  · rintro (⟨hstanding, -⟩ | ⟨_, _, _, _, hop, -⟩)
    · exact hstanding
    · exact nomatch hop

theorem Holds.append
    {store : ServiceKeyStore} {history : List Operation} {op : Operation}
    (h : Holds sha256 store history)
    (hop : Keeps op) :
    Holds sha256 store (history ++ [op]) := by
  intro time htime agent service key hlive
  rw [standing_append_of_keeps hop, h time (mem_pruneTimes_append htime) agent service key hlive]

/-- Dropping the keys expired at `now` is not seen at or after `now`. -/
theorem Holds.prune
    {store : ServiceKeyStore} {history : List Operation} {op : Operation}
    (h : Holds sha256 store history)
    (hop : Keeps op)
    {now : Nat}
    (hnow : now ∈ pruneTimes [op]) :
    Holds sha256 (pruneExpired store now).1 (history ++ [op]) := by
  intro time htime agent service key hlive
  have hle : now ≤ time := by
    refine htime now ?_
    rw [pruneTimes, List.filterMap_append]
    exact List.mem_append_right _ hnow
  rw [keys_pruneExpired, liveKeys, List.mem_filter, and_iff_left (ServiceKey.isLiveAt_mono hle hlive)]
  exact h.append hop time htime agent service key hlive

theorem sound_step
    {w next : World} {op : Operation}
    (h : Sound sha256 w)
    (hsaved : Saved w op)
    (hstep : step sha256 w op = some next) :
    Sound sha256 next := by
  cases hstep
  cases op with
  | mint agent service label expiresAt now random =>
      exact ⟨h.store.mint agent service label expiresAt now random, nofun⟩
  | revoke agent service id =>
      refine ⟨h.store.revoke agent service id, fun hunsaved => ?_⟩
      obtain ⟨hbefore, hnone⟩ := Bool.or_eq_false_iff.1 hunsaved
      exact h.store.revoke_none (h.disk hbefore) hnone
  | prune now =>
      exact ⟨h.store.prune (by trivial) (by simp [pruneTimes]),
        fun hunsaved => (h.disk hunsaved).append trivial⟩
  | persist written =>
      cases written with
      | true => exact ⟨h.store.append trivial, fun _ => h.store.append trivial⟩
      | false =>
          exact ⟨h.store.append trivial, fun hunsaved => (h.disk hunsaved).append trivial⟩
  | reload readable now written =>
      obtain ⟨rfl, hunsaved⟩ := hsaved
      have hloaded :
          Holds sha256 (pruneExpired (w.disk.getD {}) now).1
            (w.history ++ [.reload true now written]) :=
        (h.disk hunsaved).prune (by trivial) (by simp [pruneTimes])
      refine ⟨hloaded, fun _ => ?_⟩
      simp only [World.apply, readStore, if_true]
      split
      · exact hloaded
      · exact (h.disk hunsaved).append trivial

theorem sound_of_reaches
    {w : World}
    (h : (machine sha256).Reaches Saved w) :
    Sound sha256 w := by
  refine h.invariant ?_ fun _ _ _ => sound_step
  rintro w rfl
  have hempty : Holds sha256 {} [] := by
    intro time _ agent service key _
    simp [Standing]
  exact ⟨hempty, fun _ => hempty⟩

/-! ## The handlers -/

/-- What the daemon is asked, with the disk answering each time. -/
inductive Request
  | mintServiceKey
      (agent service : String)
      (label : Option String) (expiresAt : Option Nat) (now : Nat) (random : Random)
  | revokeServiceKey (agent service : String) (id : Text)
  | restart (now : Nat)

/-- The operations of a request: a mint prunes and saves, a revoke saves when it dropped
a key, and a restart loads. -/
def Request.operations (w : World) : Request → List Operation
  | .mintServiceKey agent service label expiresAt now random =>
      [.mint agent service label expiresAt now random, .prune now, .persist true]
  | .revokeServiceKey agent service id =>
      .revoke agent service id ::
        if (ServiceKeys.revoke w.store agent service id).2 then [.persist true] else []
  | .restart now => [.reload true now true]

/-- Every request leaves the store saved for the next one. -/
theorem served
    {w : World}
    (h : (machine sha256).Reaches Saved w ∧ w.unsaved = false)
    (request : Request) :
    (machine sha256).Reaches Saved ((machine sha256).runTo w (request.operations w)) ∧
      ((machine sha256).runTo w (request.operations w)).unsaved = false := by
  obtain ⟨hreach, hsaved⟩ := h
  cases request with
  | mintServiceKey agent service label expiresAt now random =>
      have hadmits :
          (machine sha256).Admits Saved w
            [.mint agent service label expiresAt now random, .prune now, .persist true] :=
        ⟨trivial, fun _ _ => ⟨trivial, fun _ _ => ⟨trivial, fun _ _ => trivial⟩⟩⟩
      exact ⟨hreach.runTo _ hadmits rfl, rfl⟩
  | revokeServiceKey agent service id =>
      rw [Request.operations]
      cases hfound : (ServiceKeys.revoke w.store agent service id).2 with
      | true =>
          have hadmits :
              (machine sha256).Admits Saved w [.revoke agent service id, .persist true] :=
            ⟨trivial, fun _ _ => ⟨trivial, fun _ _ => trivial⟩⟩
          exact ⟨hreach.runTo _ hadmits rfl, rfl⟩
      | false =>
          have hadmits : (machine sha256).Admits Saved w [.revoke agent service id] :=
            ⟨trivial, fun _ _ => trivial⟩
          exact ⟨hreach.runTo _ hadmits rfl, Bool.or_eq_false_iff.2 ⟨hsaved, hfound⟩⟩
  | restart now =>
      have hadmits : (machine sha256).Admits Saved w [.reload true now true] :=
        ⟨⟨rfl, hsaved⟩, fun _ _ => trivial⟩
      exact ⟨hreach.runTo _ hadmits rfl, hsaved⟩

/-- The state after a list of requests. -/
def serve (sha256 : List UInt8 → List UInt8) (w : World) (requests : List Request) : World :=
  requests.foldl (fun w request => (machine sha256).runTo w (request.operations w)) w

/-- A daemon whose reads and writes succeed loads only files that hold every mint and revoke. -/
theorem reaches_serve
    (requests : List Request)
    {w : World}
    (h : (machine sha256).Reaches Saved w ∧ w.unsaved = false) :
    (machine sha256).Reaches Saved (serve sha256 w requests) := by
  induction requests generalizing w with
  | nil => exact h.1
  | cons request requests ih => exact ih (served h request)

/-! ## Who is authorized -/

theorem isLiveAt_iff
    {expiresAt : Option Nat} {now : Nat} :
    isLiveAt expiresAt now = true ↔ ∀ expiry ∈ expiresAt, now < expiry := by
  cases expiresAt with
  | none => simp [isLiveAt]
  | some expiry => simp [isLiveAt]

/-- Of texts without a collision, those with one stored digest are equal. -/
theorem CollisionFree.eq_of_hashSecret
    {texts : List Text}
    (h : CollisionFree sha256 texts)
    {a b : Text}
    (ha : a ∈ texts)
    (hb : b ∈ texts)
    (hhash : hashSecret sha256 a = hashSecret sha256 b) :
    a = b :=
  h a ha b hb (hexEncode_injective hhash)

/-- A store that holds the standing keys accepts the tokens that are authorized. -/
theorem Holds.accepts_iff
    {store : ServiceKeyStore} {history : List Operation}
    (h : Holds sha256 store history)
    {agent service : String} {token : Text} {now : Nat}
    (hfree : CollisionFree sha256 (token :: secrets history))
    (hnow : ∀ pruned ∈ pruneTimes history, pruned ≤ now) :
    accepts sha256 store agent service token now = true ↔
      Authorized history agent service token now := by
  rw [ServiceKeys.accepts_iff]
  constructor
  · rintro ⟨key, hmem, hlive, hhash⟩
    obtain ⟨before, after, label, expiresAt, mintedAt, random, heq, rfl, hkept⟩ :=
      (h now hnow agent service key hlive).1 hmem
    have hsecret : random.secretText ∈ secrets history := by
      rw [heq]
      simp [secrets]
    refine ⟨before, after, label, expiresAt, mintedAt, random, heq, ?_, hkept, ?_⟩
    · exact hfree.eq_of_hashSecret (List.mem_cons_of_mem _ hsecret) List.mem_cons_self hhash
    · exact isLiveAt_iff.1 hlive
  · rintro ⟨before, after, label, expiresAt, mintedAt, random, heq, rfl, hkept, hlive⟩
    have hlive' : (mintedKey sha256 label expiresAt mintedAt random).isLiveAt now = true :=
      isLiveAt_iff.2 hlive
    exact ⟨_, (h now hnow agent service _ hlive').2
      ⟨before, after, label, expiresAt, mintedAt, random, heq, rfl, hkept⟩, hlive', rfl⟩

/-- Dropping expired keys changes no answer at or after the time of the prune. -/
theorem accepts_pruneExpired
    (store : ServiceKeyStore) (agent service : String) (token : Text)
    {pruned now : Nat}
    (hle : pruned ≤ now) :
    accepts sha256 (pruneExpired store pruned).1 agent service token now =
      accepts sha256 store agent service token now := by
  rw [Bool.eq_iff_iff, ServiceKeys.accepts_iff, ServiceKeys.accepts_iff]
  simp only [keys_pruneExpired, liveKeys, List.mem_filter]
  constructor
  · rintro ⟨key, ⟨hmem, -⟩, hlive, hhash⟩
    exact ⟨key, hmem, hlive, hhash⟩
  · rintro ⟨key, hmem, hlive, hhash⟩
    exact ⟨key, ⟨hmem, ServiceKey.isLiveAt_mono hle hlive⟩, hlive, hhash⟩

/-- The three ways in: a public service, a gateway credential, a key of this service. -/
theorem authorizes_eq_true_iff
    {decode : Text → Text → Text → Option Claims}
    {presented : List Text} {apiKey : Text}
    {agent serviceName : String} {service : Option ServiceEntry}
    {keys : ServiceKeyStore} {now : Nat} :
    authorizes sha256 decode presented apiKey agent serviceName service keys now = true ↔
      (∃ entry ∈ service, entry.isPublic = true) ∨
      (∃ token ∈ presented, verifyToken decode token apiKey = true) ∨
      (service.isSome = true ∧
        ∃ token ∈ presented, accepts sha256 keys agent serviceName token now = true) := by
  have hpublic : service.any (·.isPublic) = true ↔ ∃ entry ∈ service, entry.isPublic = true := by
    rw [Option.any_eq_true]
    rfl
  have hgateway :
      (presented.any fun token => verifyToken decode token apiKey) = true ↔
        ∃ token ∈ presented, verifyToken decode token apiKey = true :=
    List.any_eq_true
  rw [authorizes]
  split
  · rename_i h
    exact iff_of_true rfl (.inl (hpublic.1 h))
  · rename_i h
    rw [or_iff_right (mt hpublic.2 h)]
    split
    · rename_i h'
      exact iff_of_true rfl (.inl (hgateway.1 h'))
    · rename_i h'
      rw [or_iff_right (mt hgateway.2 h')]
      cases service with
      | none => simp
      | some entry => simp [List.any_eq_true]

/-- In every run whose loads read back a file that holds every mint and revoke, a private
service opens to the unrevoked, unexpired keys minted for it, and neither a prune nor such
a load changes an answer at or after its time. -/
theorem service_key_authorization
    {w : World}
    (hreach : (machine sha256).Reaches Saved w)
    (decode : Text → Text → Text → Option Claims)
    {presented : List Text} (apiKey : Text)
    (agent serviceName : String) (service : Option ServiceEntry)
    {now : Nat}
    (hfree : CollisionFree sha256 (presented ++ secrets w.history))
    (hnow : ∀ pruned ∈ pruneTimes w.history, pruned ≤ now) :
    (authorizes sha256 decode presented apiKey agent serviceName service w.store now = true ↔
      (∃ entry ∈ service, entry.isPublic = true) ∨
      (∃ token ∈ presented, verifyToken decode token apiKey = true) ∨
      (service.isSome = true ∧
        ∃ token ∈ presented, Authorized w.history agent serviceName token now)) ∧
    (∀ token pruned later, pruned ≤ later →
      accepts sha256 (pruneExpired w.store pruned).1 agent serviceName token later =
        accepts sha256 w.store agent serviceName token later) ∧
    ∀ token ∈ presented, ∀ loaded ≤ now, ∀ written next,
      Saved w (.reload true loaded written) →
      step sha256 w (.reload true loaded written) = some next →
        accepts sha256 next.store agent serviceName token now =
          accepts sha256 w.store agent serviceName token now := by
  have hsound := sound_of_reaches hreach
  have hfree' : ∀ token ∈ presented, CollisionFree sha256 (token :: secrets w.history) := by
    intro token htoken
    have hsub : ∀ a ∈ token :: secrets w.history, a ∈ presented ++ secrets w.history := by
      intro a ha
      rcases List.mem_cons.1 ha with rfl | ha
      · exact List.mem_append_left _ htoken
      · exact List.mem_append_right _ ha
    exact fun a ha b hb => hfree a (hsub a ha) b (hsub b hb)
  refine ⟨?_, fun token pruned later hle => accepts_pruneExpired _ _ _ _ hle, ?_⟩
  · rw [authorizes_eq_true_iff]
    have haccepts :
        (∃ token ∈ presented, accepts sha256 w.store agent serviceName token now = true) ↔
          ∃ token ∈ presented, Authorized w.history agent serviceName token now :=
      exists_congr fun token => and_congr_right fun htoken =>
        hsound.store.accepts_iff (hfree' token htoken) hnow
    rw [haccepts]
  · rintro token htoken loaded hle written next ⟨-, hunsaved⟩ hstep
    cases hstep
    have hdisk := hsound.disk hunsaved
    calc
      accepts sha256 (pruneExpired (w.disk.getD {}) loaded).1 agent serviceName token now
          = accepts sha256 (w.disk.getD {}) agent serviceName token now :=
        accepts_pruneExpired _ _ _ _ hle
      _ = accepts sha256 w.store agent serviceName token now := by
        rw [Bool.eq_iff_iff, hdisk.accepts_iff (hfree' token htoken) hnow,
          hsound.store.accepts_iff (hfree' token htoken) hnow]

end Runs

/-- Thirty-two zero bytes. -/
def zeroRandom : Random where
  secret := Vector.replicate 32 0
  id := Vector.replicate 8 0

/-- SHA-256 on the text of the zero secret. -/
def zeroDigest (bytes : List UInt8) : List UInt8 :=
  if bytes = utf8 zeroRandom.secretText then
    [96, 224, 91, 209, 177, 149, 175, 47, 148, 17, 47, 167, 25, 122, 92, 136,
      40, 144, 88, 132, 12, 231, 198, 223, 150, 147, 117, 107, 198, 37, 15, 85]
  else
    []

/-- A key is minted and saved, and the daemon restarts. -/
def restartRun : List Operation :=
  [.mint "alpha" "dashboard" none (some 600) 0 zeroRandom, .prune 0, .persist true,
    .reload true 1 true]

theorem reaches_restartRun :
    (machine zeroDigest).Reaches Saved ((machine zeroDigest).runTo {} restartRun) :=
  (Machine.Reaches.start rfl).runTo restartRun (by decide +kernel) (by decide +kernel)

/-- After the restart the key opens its service until it expires. -/
theorem service_key_authorization_restart :
    authorizes zeroDigest noTokens [zeroRandom.secretText] "key".toList "alpha" "dashboard"
      (some ⟨8080, false⟩) ((machine zeroDigest).runTo {} restartRun).store 599 = true := by
  refine (service_key_authorization reaches_restartRun noTokens _ _ _ _ ?_ ?_).1.2 ?_
  · have hone : ∀ a ∈ [zeroRandom.secretText] ++ secrets restartRun, a = zeroRandom.secretText :=
      by simp [secrets, restartRun]
    exact fun a ha b hb _ => (hone a ha).trans (hone b hb).symm
  · decide +kernel
  · exact .inr (.inr ⟨rfl, _, List.mem_singleton_self _, [], _, none, some 600, 0, zeroRandom, rfl,
      rfl, by simp, by decide⟩)

/-- A key is minted and saved, then revoked; the write fails and the daemon restarts. -/
def lostRevokeRun : List Operation :=
  [.mint "alpha" "dashboard" none (some 600) 0 zeroRandom, .prune 0, .persist true,
    .revoke "alpha" "dashboard" zeroRandom.idText, .persist false, .reload true 1 true]

/-- The revoked key opens the service again. -/
theorem revoked_key_authorized :
    ∃ w, (machine zeroDigest).Reaches Machine.always w ∧
      authorizes zeroDigest noTokens [zeroRandom.secretText] "key".toList "alpha" "dashboard"
        (some ⟨8080, false⟩) w.store 5 = true ∧
      ¬Authorized w.history "alpha" "dashboard" zeroRandom.secretText 5 := by
  refine ⟨(machine zeroDigest).runTo {} lostRevokeRun,
    (Machine.Reaches.start rfl).runTo lostRevokeRun (Machine.admits_always _ _ _)
      (by decide +kernel), by decide +kernel, ?_⟩
  rintro ⟨before, after, label, expiresAt, mintedAt, random, heq, -, hkept, -⟩
  have heq' : lostRevokeRun =
      before ++ .mint "alpha" "dashboard" label expiresAt mintedAt random :: after := heq
  rw [lostRevokeRun] at heq'
  rcases before with _ | ⟨op, before⟩
  · cases heq'
    simp at hkept
  · have hmem : Operation.mint "alpha" "dashboard" label expiresAt mintedAt random ∈
        lostRevokeRun.tail := by
      rw [lostRevokeRun, heq']
      simp
    simp [lostRevokeRun] at hmem

end ServiceKeys
end Vestad
end Vesta
