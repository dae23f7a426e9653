import Mathlib.Data.List.Count
import Vesta.Lib.Machine
import Vesta.Lib.Map
import Vesta.Vestad.Types

/-!
# The device registry and its live connections

The registry keeps a record per installation id and, beside the records, how many
`/sync` connections are live for each id.  The roster it publishes is a projection
of both.  A connection owns a guard, which is attached to at most one device.

Every public operation runs under the state lock, so it is one step here.  A guard
that switches devices detaches and attaches under the lock twice, and other
operations may run in between.

Positions carry floating-point coordinates and are only compared, so their type and
its comparison are parameters, as is the rendering of a time.  Counts are natural
numbers: a process never holds 2^32 sockets.
-/

namespace Vesta
namespace Vestad
namespace DeviceRegistry

open Lib

abbrev InstallationId := String

/-- A mobile push subscription. -/
structure PushSubscription where
  token : String
  platform : MobilePlatform
  gateway : Option String
  eventTypes : List String
  previews : Bool
  registeredAt : Nat
deriving DecidableEq

/-- What a report says about the position: a value replaces it, `retract` clears it. -/
inductive PositionReport (Pos : Type)
  | at_ (position : Pos)
  | retract

structure DeviceContext (Pos : Type) where
  timezone : Option String
  position : Option (PositionReport Pos)

structure DeviceRecord (Pos : Type) where
  kind : ClientKind := .unknown
  descriptor : Option String := none
  lastSeen : Nat := 0
  push : Option PushSubscription := none
  timezone : Option String := none
  position : Option Pos := none
  positionAt : Option Nat := none
deriving DecidableEq

/-- A record with nothing worth keeping. -/
def DeviceRecord.isEmpty {Pos : Type} (record : DeviceRecord Pos) : Bool :=
  record.descriptor.isNone && record.push.isNone && record.timezone.isNone &&
    record.position.isNone

/-- The wire projection of a device. -/
structure DeviceInfo (Pos : Type) where
  id : String
  kind : ClientKind
  descriptor : Option String
  present : Bool
  lastSeen : String
  pushEnabled : Bool
  timezone : Option String
  position : Option Pos
  positionAt : Option String
deriving DecidableEq

structure RegistryState (Pos : Type) where
  devices : Map InstallationId (DeviceRecord Pos)
  liveCounts : Map InstallationId Nat

/-- The registry: its state and the roster last published. -/
structure Registry (Pos : Type) where
  state : RegistryState Pos
  published : List (DeviceInfo Pos)

section Operations

variable {Pos : Type}
variable (epochToRfc3339 : Nat → Option String)

/-- The roster, in the order of the ids. -/
def project (state : RegistryState Pos) : List (DeviceInfo Pos) :=
  state.devices.toList.map fun (id, record) =>
    { id
      kind := record.kind
      descriptor := record.descriptor
      present := 0 < state.liveCounts[id]?.getD 0
      lastSeen := (epochToRfc3339 record.lastSeen).getD ""
      pushEnabled := record.push.isSome
      timezone := record.timezone
      position := record.position
      positionAt := record.positionAt.bind epochToRfc3339 }

/-- The registry with a new state, which it publishes. -/
def republish (state : RegistryState Pos) : Registry Pos where
  state
  published := project epochToRfc3339 state

/-- The registry as loaded from the store. -/
def load (devices : Map InstallationId (DeviceRecord Pos)) : Registry Pos :=
  republish epochToRfc3339 { devices, liveCounts := ∅ }

/-- A connection reports a device; the flag says whether the id was never seen before. -/
def markConnected
    (registry : Registry Pos)
    (id : InstallationId)
    (kind : ClientKind)
    (descriptor : Option String)
    (now : Nat) :
    Registry Pos × Bool :=
  let state := registry.state
  let liveCounts := state.liveCounts.insert id (state.liveCounts[id]?.getD 0 + 1)
  let firstSighting := !state.devices.contains id
  let record := state.devices[id]?.getD {}
  let record :=
    { record with kind, descriptor := descriptor.or record.descriptor, lastSeen := now }
  let devices := state.devices.insert id record
  (republish epochToRfc3339 { devices, liveCounts }, firstSighting)

/-- The record after a reported zone, and whether that changed it. -/
def DeviceRecord.reportTimezone
    (record : DeviceRecord Pos)
    (timezone : Option String) :
    DeviceRecord Pos × Bool :=
  if timezone.isSome && record.timezone != timezone then
    ({ record with timezone }, true)
  else
    (record, false)

/-- The record after a reported position, and whether that changed it. -/
def DeviceRecord.reportPosition
    [BEq Pos]
    (record : DeviceRecord Pos)
    (report : Option (PositionReport Pos))
    (now : Nat) :
    DeviceRecord Pos × Bool :=
  match report with
  | none => (record, false)
  | some report =>
      let position : Option Pos :=
        match report with
        | .at_ position => some position
        | .retract => none
      if record.position != position then
        ({ record with position, positionAt := position.map fun _ => now }, true)
      else
        (record, false)

/-- What a device reports about itself; the roster is published on a change only. -/
def reportContext
    [BEq Pos]
    (registry : Registry Pos)
    (id : InstallationId)
    (context : DeviceContext Pos)
    (now : Nat) :
    Registry Pos × Option String :=
  let state := registry.state
  match state.devices[id]? with
  | none => (registry, none)
  | some record =>
      let label := record.descriptor.getD record.kind.displayName
      let (record, zoned) := record.reportTimezone context.timezone
      let (record, moved) := record.reportPosition context.position now
      let state := { state with devices := state.devices.insert id record }
      if zoned || moved then
        (republish epochToRfc3339 state, some label)
      else
        ({ registry with state }, some label)

/-- The records with the device's time stamped, when there is one. -/
def stampSeen
    (devices : Map InstallationId (DeviceRecord Pos))
    (id : InstallationId)
    (now : Nat) :
    Map InstallationId (DeviceRecord Pos) :=
  match devices[id]? with
  | some record => devices.insert id { record with lastSeen := now }
  | none => devices

/-- The counts with one connection of the device less, and how many remain. -/
def decrement
    (liveCounts : Map InstallationId Nat)
    (id : InstallationId) :
    Map InstallationId Nat × Nat :=
  match liveCounts[id]? with
  | some count => (liveCounts.insert id (count - 1), count - 1)
  | none => (liveCounts, 0)

/-- A connection of a device closes; the last one stamps when the device was seen. -/
def markDisconnected
    (registry : Registry Pos)
    (id : InstallationId)
    (now : Nat) :
    Registry Pos :=
  let state := registry.state
  let left := decrement state.liveCounts id
  if left.2 = 0 then
    republish epochToRfc3339
      { devices := stampSeen state.devices id now, liveCounts := left.1.erase id }
  else
    republish epochToRfc3339 { state with liveCounts := left.1 }

/-- Register or replace a device's push subscription. -/
def upsertPush
    (registry : Registry Pos)
    (id : InstallationId)
    (push : PushSubscription) :
    Registry Pos :=
  let state := registry.state
  let record := state.devices[id]?.getD {}
  let record :=
    if record.descriptor.isNone && record.push.isNone then
      { record with kind := .mobile }
    else
      record
  let record :=
    if record.lastSeen = 0 then { record with lastSeen := push.registeredAt } else record
  let devices := state.devices.insert id { record with push := some push }
  republish epochToRfc3339 { state with devices }

/-- Clear the push facet of a device, and the record with it when nothing else is left. -/
def dropPush (state : RegistryState Pos) (id : InstallationId) : RegistryState Pos :=
  match state.devices[id]? with
  | none => state
  | some record =>
      let record := { record with push := none }
      if record.isEmpty && !state.liveCounts.contains id then
        { state with devices := state.devices.erase id }
      else
        { state with devices := state.devices.insert id record }

/-- The devices whose push token the predicate accepts. -/
def owners (state : RegistryState Pos) (accepts : String → Bool) : List InstallationId :=
  state.devices.toList.filterMap fun (id, record) =>
    if record.push.any fun push => accepts push.token then some id else none

/-- Clear the push facet of `owner`, the holder of the token that the scan found first. -/
def clearPushByToken (registry : Registry Pos) (owner : Option InstallationId) : Registry Pos :=
  republish epochToRfc3339 (owner.elim registry.state (dropPush registry.state))

/-- Clear the push facet of every device that holds one of the tokens. -/
def prunePushTokens (registry : Registry Pos) (tokens : List String) : Registry Pos :=
  let ids := owners registry.state fun token => tokens.contains token
  republish epochToRfc3339 (ids.foldl dropPush registry.state)

/-- The push subscriptions subscribed to a type of event. -/
def pushTargets (state : RegistryState Pos) (eventType : String) : List PushSubscription :=
  (state.devices.toList.filterMap fun (_, record) => record.push).filter fun push =>
    push.eventTypes.contains eventType

end Operations

/-!
## Runs of the connections
-/

/-- The registry with the guard of every connection: the device it is attached to. -/
structure World (Pos : Type) where
  registry : Registry Pos
  guards : List (Option InstallationId)

inductive Label (Pos : Type)
  | openSession
  | attach
      (conn : Nat) (id : InstallationId) (kind : ClientKind) (descriptor : Option String)
      (now : Nat)
  | dropGuard (conn : Nat) (now : Nat)
  | reportContext (id : InstallationId) (context : DeviceContext Pos) (now : Nat)
  | upsertPush (id : InstallationId) (push : PushSubscription)
  | clearPushByToken (token : String) (owner : Option InstallationId)
  | prunePushTokens (tokens : List String)

section Runs

variable {Pos : Type}
variable (epochToRfc3339 : Nat → Option String)

/-- The owners that a scan of the records, in whatever order, can find first. -/
def foundFirst (state : RegistryState Pos) (token : String) : List (Option InstallationId) :=
  match owners state (fun held => held = token) with
  | [] => [none]
  | ids => ids.map some

/-- `DeviceGuard::drop` and the first half of a switch: the guard lets go of its device. -/
def detach
    (w : World Pos)
    (conn : Nat)
    (id : InstallationId)
    (now : Nat) :
    World Pos where
  registry := markDisconnected epochToRfc3339 w.registry id now
  guards := w.guards.set conn none

/-- One operation under the lock.  An `attach` of a guard that holds another device is
the first half of the switch, and the same label again the second. -/
def step [BEq Pos] (w : World Pos) : Label Pos → Option (World Pos)
  | .openSession => some { w with guards := w.guards ++ [none] }
  | .attach conn id kind descriptor now =>
      match w.guards[conn]? with
      | none => none
      | some none =>
          some
            { registry := (markConnected epochToRfc3339 w.registry id kind descriptor now).1
              guards := w.guards.set conn (some id) }
      | some (some previous) =>
          if previous = id then some w else some (detach epochToRfc3339 w conn previous now)
  | .dropGuard conn now =>
      match w.guards[conn]? with
      | none => none
      | some none => some w
      | some (some id) => some (detach epochToRfc3339 w conn id now)
  | .reportContext id context now =>
      some { w with registry := (reportContext epochToRfc3339 w.registry id context now).1 }
  | .upsertPush id push =>
      some { w with registry := upsertPush epochToRfc3339 w.registry id push }
  | .clearPushByToken token owner =>
      if owner ∉ foundFirst w.registry.state token then
        none
      else
        some { w with registry := clearPushByToken epochToRfc3339 w.registry owner }
  | .prunePushTokens tokens =>
      some { w with registry := prunePushTokens epochToRfc3339 w.registry tokens }

attribute [grind =] step

/-- The registry starts from the devices of the store, with no connection. -/
def machine [BEq Pos] : Machine (World Pos) (Label Pos) where
  start w := ∃ devices, w = { registry := load epochToRfc3339 devices, guards := [] }
  step := step epochToRfc3339

/-- How many guards are attached to a device. -/
def attached (guards : List (Option InstallationId)) (id : InstallationId) : Nat :=
  guards.count (some id)

/-- What the operations that no guard runs keep: the counts, and the records of live devices. -/
structure Keeps (old new : RegistryState Pos) : Prop where
  liveCounts : new.liveCounts = old.liveCounts
  devices :
    ∀ id : InstallationId, id ∈ old.devices → id ∈ old.liveCounts → id ∈ new.devices

theorem keeps_refl (state : RegistryState Pos) : Keeps state state where
  liveCounts := rfl
  devices _ h _ := h

theorem Keeps.trans
    {first second third : RegistryState Pos}
    (h : Keeps first second)
    (h' : Keeps second third) :
    Keeps first third where
  liveCounts := h'.liveCounts.trans h.liveCounts
  devices id hid hlive :=
    h'.devices id (h.devices id hid hlive) (by rw [h.liveCounts]; exact hlive)

theorem keeps_insert
    (state : RegistryState Pos) (id : InstallationId) (record : DeviceRecord Pos) :
    Keeps state { state with devices := state.devices.insert id record } where
  liveCounts := rfl
  devices _ h _ := Std.ExtTreeMap.mem_insert.2 (Or.inr h)

/-- A record is dropped only when its device is not live. -/
theorem keeps_dropPush
    (state : RegistryState Pos) (id : InstallationId) :
    Keeps state (dropPush state id) := by
  rw [dropPush]
  split
  · exact keeps_refl state
  · rename_i record _
    by_cases hdrop :
        ({ record with push := none : DeviceRecord Pos }.isEmpty &&
          !state.liveCounts.contains id) = true
    · have hdead : id ∉ state.liveCounts := by
        simp only [Bool.and_eq_true, Bool.not_eq_true'] at hdrop
        rw [← Std.ExtTreeMap.contains_iff_mem, hdrop.2]
        simp
      rw [if_pos hdrop]
      refine ⟨rfl, fun other hother hlive => Std.ExtTreeMap.mem_erase.2 ⟨?_, hother⟩⟩
      intro heq
      exact hdead (Std.LawfulEqCmp.eq_of_compare heq ▸ hlive)
    · rw [if_neg hdrop]
      exact keeps_insert _ _ _

theorem keeps_dropPushAll
    (ids : List InstallationId) (state : RegistryState Pos) :
    Keeps state (ids.foldl dropPush state) := by
  induction ids generalizing state with
  | nil => exact keeps_refl state
  | cons id ids ih => exact (keeps_dropPush state id).trans (ih _)

theorem reportTimezone_unchanged
    {record : DeviceRecord Pos} {timezone : Option String}
    (h : (record.reportTimezone timezone).2 = false) :
    (record.reportTimezone timezone).1 = record := by
  rw [DeviceRecord.reportTimezone] at h ⊢
  split at h
  · cases h
  · rename_i hsame
    rw [if_neg hsame]

theorem reportPosition_unchanged
    [BEq Pos]
    {record : DeviceRecord Pos} {report : Option (PositionReport Pos)} {now : Nat}
    (h : (record.reportPosition report now).2 = false) :
    (record.reportPosition report now).1 = record := by
  cases report with
  | none => rfl
  | some report =>
      obtain ⟨position, hposition⟩ :
          ∃ position : Option Pos, record.reportPosition (some report) now =
            if record.position != position then
              ({ record with position, positionAt := position.map fun _ => now }, true)
            else
              (record, false) :=
        ⟨_, rfl⟩
      rw [hposition] at h ⊢
      by_cases hsame : (record.position != position) = true
      · rw [if_pos hsame] at h
        cases h
      · rw [if_neg hsame]

/-- A report leaves the registry as it was, or publishes the device's new record. -/
theorem reportContext_cases
    [BEq Pos]
    (registry : Registry Pos) (id : InstallationId) (context : DeviceContext Pos) (now : Nat) :
    (reportContext epochToRfc3339 registry id context now).1 = registry ∨
      ∃ record, (reportContext epochToRfc3339 registry id context now).1 =
        republish epochToRfc3339
          { registry.state with devices := registry.state.devices.insert id record } := by
  rw [reportContext]
  cases hrecord : registry.state.devices[id]? with
  | none => exact Or.inl rfl
  | some record =>
      obtain ⟨zoned, hzoned⟩ : ∃ r, record.reportTimezone context.timezone = r := ⟨_, rfl⟩
      obtain ⟨moved, hmoved⟩ : ∃ r, zoned.1.reportPosition context.position now = r := ⟨_, rfl⟩
      simp only [hzoned, hmoved]
      by_cases hchanged : (zoned.2 || moved.2) = true
      · rw [if_pos hchanged]
        exact Or.inr ⟨moved.1, rfl⟩
      · rw [if_neg hchanged]
        rw [Bool.not_eq_true, Bool.or_eq_false_iff, ← hzoned, ← hmoved] at hchanged
        have hsame : moved.1 = record := by
          rw [← hmoved, reportPosition_unchanged hchanged.2, ← hzoned,
            reportTimezone_unchanged hchanged.1]
        have hdevices : registry.state.devices.insert id moved.1 = registry.state.devices :=
          Map.insert_eq_self (by rw [hrecord, hsame])
        rw [hdevices]
        exact Or.inl rfl

/-- The invariant of the registry and the guards. -/
structure Holds (w : World Pos) : Prop where
  counted :
    ∀ id : InstallationId,
      w.registry.state.liveCounts[id]? =
        if attached w.guards id = 0 then none else some (attached w.guards id)
  registered :
    ∀ id : InstallationId, id ∈ w.registry.state.liveCounts → id ∈ w.registry.state.devices
  published : w.registry.published = project epochToRfc3339 w.registry.state

variable {epochToRfc3339}

theorem Holds.live_iff
    {w : World Pos}
    (h : Holds epochToRfc3339 w)
    {id : InstallationId} :
    id ∈ w.registry.state.liveCounts ↔ some id ∈ w.guards := by
  rw [Std.ExtTreeMap.mem_iff_isSome_getElem?, h.counted id, ← List.count_pos_iff]
  change _ ↔ 0 < attached w.guards id
  split <;> simp <;> omega

theorem Holds.registered_of_attached
    {w : World Pos}
    (h : Holds epochToRfc3339 w)
    {id : InstallationId}
    (hid : some id ∈ w.guards) :
    id ∈ w.registry.state.devices :=
  h.registered id (h.live_iff.2 hid)

/-- An operation that keeps the live records and publishes keeps the invariant. -/
theorem Holds.republish
    {w : World Pos}
    (h : Holds epochToRfc3339 w)
    {state : RegistryState Pos}
    (hkeeps : Keeps w.registry.state state) :
    Holds epochToRfc3339 { w with registry := republish epochToRfc3339 state } where
  counted := by
    change ∀ id : InstallationId, state.liveCounts[id]? = _
    rw [hkeeps.liveCounts]
    exact h.counted
  registered id hid := by
    change id ∈ state.liveCounts at hid
    rw [hkeeps.liveCounts] at hid
    exact hkeeps.devices id (h.registered id hid) hid
  published := rfl

theorem attached_attach
    {guards : List (Option InstallationId)} {conn : Nat}
    (hconn : guards[conn]? = some none)
    (id other : InstallationId) :
    attached (guards.set conn (some id)) other =
      attached guards other + if id = other then 1 else 0 := by
  obtain ⟨hlt, hget⟩ := List.getElem?_eq_some_iff.1 hconn
  rw [attached, List.count_set hlt, hget]
  simp [attached]

theorem attached_detach
    {guards : List (Option InstallationId)} {conn : Nat} {id : InstallationId}
    (hconn : guards[conn]? = some (some id))
    (other : InstallationId) :
    attached (guards.set conn none) other =
      attached guards other - if id = other then 1 else 0 := by
  obtain ⟨hlt, hget⟩ := List.getElem?_eq_some_iff.1 hconn
  rw [attached, List.count_set hlt, hget]
  simp [attached]

/-- A guard attaches to a device. -/
theorem Holds.attach
    {w : World Pos}
    (h : Holds epochToRfc3339 w)
    {conn : Nat}
    (hconn : w.guards[conn]? = some none)
    (id : InstallationId) (kind : ClientKind) (descriptor : Option String) (now : Nat) :
    Holds epochToRfc3339
      { registry := (markConnected epochToRfc3339 w.registry id kind descriptor now).1
        guards := w.guards.set conn (some id) } where
  counted other := by
    have hcount := h.counted other
    have hself := h.counted id
    change (w.registry.state.liveCounts.insert id
      (w.registry.state.liveCounts[id]?.getD 0 + 1))[other]? = _
    rw [Std.ExtTreeMap.getElem?_insert]
    simp only [attached_attach hconn]
    by_cases heq : id = other
    · subst heq
      rw [if_pos Std.ReflCmp.compare_self, hself]
      split <;> simp [*]
    · rw [if_neg (fun hcmp => heq (Std.LawfulEqCmp.eq_of_compare hcmp)), hcount]
      simp [heq]
  registered other hother := by
    rcases Std.ExtTreeMap.mem_insert.1 hother with heq | hold
    · exact Std.ExtTreeMap.mem_insert.2 (Or.inl heq)
    · exact Std.ExtTreeMap.mem_insert.2 (Or.inr (h.registered other hold))
  published := rfl

/-- What the end of a connection does to the counts. -/
theorem getElem?_markDisconnected
    (registry : Registry Pos) (id other : InstallationId) (now : Nat) :
    (markDisconnected epochToRfc3339 registry id now).state.liveCounts[other]? =
      if id = other then (registry.state.liveCounts[id]?.map (· - 1)).filter (· ≠ 0)
      else registry.state.liveCounts[other]? := by
  rw [markDisconnected, decrement]
  cases hcount : registry.state.liveCounts[id]? with
  | none =>
      simp only [if_pos, DeviceRegistry.republish, Std.ExtTreeMap.getElem?_erase]
      by_cases heq : id = other
      · subst heq
        simp
      · simp [heq]
  | some count =>
      by_cases hzero : count - 1 = 0
      · simp only [hzero, if_pos, DeviceRegistry.republish, Std.ExtTreeMap.getElem?_erase,
          Std.ExtTreeMap.getElem?_insert]
        by_cases heq : id = other
        · subst heq
          simp [hzero, Option.filter]
        · simp [heq]
      · simp only [hzero, if_false, DeviceRegistry.republish, Std.ExtTreeMap.getElem?_insert]
        by_cases heq : id = other
        · subst heq
          simp [hzero, Option.filter]
        · simp [heq]

theorem mem_stampSeen
    {devices : Map InstallationId (DeviceRecord Pos)} {other : InstallationId}
    (hother : other ∈ devices)
    (id : InstallationId) (now : Nat) :
    other ∈ stampSeen devices id now := by
  rw [stampSeen]
  split
  · exact Std.ExtTreeMap.mem_insert.2 (Or.inr hother)
  · exact hother

variable (epochToRfc3339) in
/-- The end of a connection removes no record and publishes. -/
theorem markDisconnected_keeps
    (registry : Registry Pos) (id : InstallationId) (now : Nat) :
    (∀ other : InstallationId, other ∈ registry.state.devices →
      other ∈ (markDisconnected epochToRfc3339 registry id now).state.devices) ∧
    ∃ state, markDisconnected epochToRfc3339 registry id now =
      DeviceRegistry.republish epochToRfc3339 state := by
  rw [markDisconnected]
  by_cases hzero : (decrement registry.state.liveCounts id).2 = 0
  · rw [if_pos hzero]
    exact ⟨fun other hother => mem_stampSeen hother id now, _, rfl⟩
  · rw [if_neg hzero]
    exact ⟨fun _ hother => hother, _, rfl⟩

/-- A guard lets go of its device. -/
theorem Holds.detach
    {w : World Pos}
    (h : Holds epochToRfc3339 w)
    {conn : Nat} {id : InstallationId}
    (hconn : w.guards[conn]? = some (some id))
    (now : Nat) :
    Holds epochToRfc3339 (detach epochToRfc3339 w conn id now) := by
  obtain ⟨hdevices, state, hstate⟩ := markDisconnected_keeps epochToRfc3339 w.registry id now
  have hcounts :
      ∀ other : InstallationId,
        (markDisconnected epochToRfc3339 w.registry id now).state.liveCounts[other]? =
          if attached (w.guards.set conn none) other = 0 then none
          else some (attached (w.guards.set conn none) other) := by
    intro other
    rw [getElem?_markDisconnected, attached_detach hconn other, h.counted other, h.counted id]
    by_cases heq : id = other
    · subst heq
      by_cases hone : attached w.guards id - 1 = 0
      · by_cases hnone : attached w.guards id = 0 <;> simp [hone, hnone, Option.filter]
      · have hsome : attached w.guards id ≠ 0 := by omega
        simp [hone, hsome, Option.filter]
    · simp [heq]
  refine ⟨hcounts, fun other hother => ?_, ?_⟩
  · have hleft : attached (w.guards.set conn none) other ≠ 0 := by
      intro hzero
      rw [Std.ExtTreeMap.mem_iff_isSome_getElem?] at hother
      change ((markDisconnected epochToRfc3339 w.registry id now).state.liveCounts[other]?).isSome
        at hother
      rw [hcounts other, if_pos hzero] at hother
      cases hother
    have hlive : other ∈ w.registry.state.liveCounts := by
      rw [h.live_iff, ← List.count_pos_iff]
      refine Nat.pos_of_ne_zero fun hzero => hleft ?_
      rw [attached_detach hconn other, attached, hzero, Nat.zero_sub]
    exact hdevices other (h.registered other hlive)
  · change (markDisconnected epochToRfc3339 w.registry id now).published =
      project epochToRfc3339 (markDisconnected epochToRfc3339 w.registry id now).state
    rw [hstate]
    rfl

theorem holds_load (devices : Map InstallationId (DeviceRecord Pos)) :
    Holds epochToRfc3339 { registry := load epochToRfc3339 devices, guards := [] } where
  counted id := by simp [load, DeviceRegistry.republish, attached]
  registered id hid := absurd hid Std.ExtTreeMap.not_mem_empty
  published := rfl

/-- Every operation keeps the invariant, and the record of every device that is live before it. -/
theorem Holds.step
    [BEq Pos]
    {w t : World Pos} {a : Label Pos}
    (h : Holds epochToRfc3339 w)
    (hstep : DeviceRegistry.step epochToRfc3339 w a = some t) :
    Holds epochToRfc3339 t ∧
      ∀ id : InstallationId, some id ∈ w.guards → id ∈ t.registry.state.devices := by
  have hkeeps :
      ∀ {state : RegistryState Pos}, Keeps w.registry.state state →
        Holds epochToRfc3339
            { w with registry := DeviceRegistry.republish epochToRfc3339 state } ∧
          ∀ id : InstallationId, some id ∈ w.guards → id ∈ state.devices := by
    intro state hstate
    exact ⟨h.republish hstate, fun id hid =>
      hstate.devices id (h.registered_of_attached hid) (h.live_iff.2 hid)⟩
  cases a with
  | openSession =>
      cases hstep
      refine ⟨{ h with counted := fun id => ?_ }, fun id hid => h.registered_of_attached hid⟩
      have hcount : attached (w.guards ++ [none]) id = attached w.guards id := by
        simp [attached, List.count_append]
      rw [hcount]
      exact h.counted id
  | attach conn id kind descriptor now =>
      simp only [DeviceRegistry.step] at hstep
      split at hstep
      · cases hstep
      · rename_i hconn
        cases hstep
        exact ⟨h.attach hconn id kind descriptor now, fun other hother =>
          Std.ExtTreeMap.mem_insert.2 (Or.inr (h.registered_of_attached hother))⟩
      · rename_i previous hconn
        split at hstep
        · cases hstep
          exact ⟨h, fun other hother => h.registered_of_attached hother⟩
        · cases hstep
          exact ⟨h.detach hconn now, fun other hother =>
            (markDisconnected_keeps epochToRfc3339 w.registry previous now).1 other
              (h.registered_of_attached hother)⟩
  | dropGuard conn now =>
      simp only [DeviceRegistry.step] at hstep
      split at hstep
      · cases hstep
      · cases hstep
        exact ⟨h, fun other hother => h.registered_of_attached hother⟩
      · rename_i id hconn
        cases hstep
        exact ⟨h.detach hconn now, fun other hother =>
          (markDisconnected_keeps epochToRfc3339 w.registry id now).1 other
            (h.registered_of_attached hother)⟩
  | reportContext id context now =>
      cases hstep
      rcases reportContext_cases epochToRfc3339 w.registry id context now with
        hsame | ⟨record, hrecord⟩
      · rw [hsame]
        exact ⟨h, fun other hother => h.registered_of_attached hother⟩
      · rw [hrecord]
        exact hkeeps (keeps_insert _ _ _)
  | upsertPush id push =>
      cases hstep
      exact hkeeps (keeps_insert _ _ _)
  | clearPushByToken token owner =>
      simp only [DeviceRegistry.step] at hstep
      split at hstep
      · cases hstep
      · cases hstep
        cases owner with
        | none => exact hkeeps (keeps_refl _)
        | some id => exact hkeeps (keeps_dropPush _ id)
  | prunePushTokens tokens =>
      cases hstep
      exact hkeeps (keeps_dropPushAll _ _)

theorem Holds.of_reaches
    [BEq Pos]
    {w : World Pos}
    (h : (machine epochToRfc3339).Reaches Machine.always w) :
    Holds epochToRfc3339 w := by
  refine h.invariant ?_ (fun _ _ _ hs _ hstep => (hs.step hstep).1)
  rintro s ⟨devices, rfl⟩
  exact holds_load devices

/-- In every state the connections and the other callers reach: the count of a device is
the number of guards attached to it, and absent when there is none; a counted device is
registered, and no operation removes one that a guard is attached to; the published
roster is the projection of the state; and it lists each registered device once, present
exactly when a guard is attached. -/
theorem device_liveness
    [BEq Pos]
    {w : World Pos}
    (h : (machine epochToRfc3339).Reaches Machine.always w) :
    (∀ id : InstallationId, w.registry.state.liveCounts[id]? =
      if attached w.guards id = 0 then none else some (attached w.guards id)) ∧
    (∀ id : InstallationId,
      id ∈ w.registry.state.liveCounts → id ∈ w.registry.state.devices) ∧
    (∀ a t, DeviceRegistry.step epochToRfc3339 w a = some t →
      ∀ id : InstallationId, some id ∈ w.guards → id ∈ t.registry.state.devices) ∧
    w.registry.published = project epochToRfc3339 w.registry.state ∧
    w.registry.published.map (·.id) = w.registry.state.devices.keys ∧
    ∀ info ∈ w.registry.published, info.present = true ↔ 0 < attached w.guards info.id := by
  have hw : Holds epochToRfc3339 w := Holds.of_reaches h
  refine ⟨hw.counted, hw.registered, fun _ _ hstep => (hw.step hstep).2, hw.published, ?_, ?_⟩
  · rw [hw.published, project, List.map_map]
    exact Std.ExtTreeMap.map_fst_toList_eq_keys
  · intro info hinfo
    rw [hw.published, project, List.mem_map] at hinfo
    obtain ⟨⟨id, record⟩, -, rfl⟩ := hinfo
    rw [decide_eq_true_eq, hw.counted id]
    split
    · rename_i hzero
      simp [hzero]
    · rfl

/-- The rendering of the epoch itself. -/
def epochStart (now : Nat) : Option String :=
  if now = 0 then some "1970-01-01T00:00:00Z" else none

/-- A phone registers push and connects twice; one connection turns out to be a laptop's. -/
def switched : List (Label Nat) :=
  [.openSession, .openSession,
    .upsertPush "phone"
      { token := "t"
        platform := .ios
        gateway := none
        eventTypes := ["chat"]
        previews := false
        registeredAt := 0 },
    .attach 0 "phone" .mobile none 0, .attach 1 "phone" .mobile none 0,
    .attach 1 "laptop" .desktop none 0, .prunePushTokens ["t"],
    .attach 1 "laptop" .desktop none 0, .dropGuard 0 0]

def fresh : World Nat := { registry := load epochStart ∅, guards := [] }

theorem device_liveness_switched :
    ((machine epochStart).runTo fresh switched).registry.state.liveCounts["laptop"]? = some 1 ∧
      ((machine epochStart).runTo fresh switched).registry.state.liveCounts["phone"]? = none ∧
      "laptop" ∈ ((machine epochStart).runTo fresh switched).registry.state.devices := by
  have hstart : (machine epochStart).start fresh := ⟨∅, rfl⟩
  have hreach :
      (machine epochStart).Reaches Machine.always ((machine epochStart).runTo fresh switched) :=
    (Machine.Reaches.start hstart).runTo switched (Machine.admits_always _ _ _) (by decide)
  obtain ⟨hcounted, hregistered, -, -, -, -⟩ := device_liveness hreach
  have hlaptop := hcounted "laptop"
  have hphone := hcounted "phone"
  have hattached :
      attached ((machine epochStart).runTo fresh switched).guards "laptop" = 1 ∧
        attached ((machine epochStart).runTo fresh switched).guards "phone" = 0 := by
    decide
  rw [hattached.1] at hlaptop
  rw [hattached.2] at hphone
  refine ⟨hlaptop, hphone, hregistered "laptop" ?_⟩
  rw [Std.ExtTreeMap.mem_iff_isSome_getElem?, hlaptop]
  rfl

end Runs

end DeviceRegistry
end Vestad
end Vesta
