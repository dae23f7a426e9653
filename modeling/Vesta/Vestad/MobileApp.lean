import Mathlib.Data.List.Destutter
import Mathlib.Data.List.Sort
import Vesta.Vestad.Docker.Names
import Vesta.Vestad.PushTokens

/-!
# Registering a phone for push

A registration is checked, entered into the device registry and made durable.  When the
registry cannot be written the registration is taken out again, which is done by clearing
its token; so what was there before is restored only if the entry left no other trace.

Parsing of URLs is a library, so it is a parameter.
-/

namespace Vesta
namespace Vestad
namespace MobileApp

open DeviceRegistry

def maxInstallationIdLength : Nat := 128

def maxPushTokenLength : Nat := 512

def maxEventTypes : Nat := 32

def maxEventTypeLength : Nat := 64

def maxGatewayLength : Nat := 2048

def pushableEventTypes : List String := ["chat", "status"]

/-- `RegisterMobileDevice` -/
structure RegisterMobileDevice where
  installationId : String
  token : String
  platform : MobilePlatform
  gateway : Option String
  eventTypes : List String
  previews : Bool

/-- A response with an error: its status and its message. -/
structure ErrResponse where
  status : Nat
  message : String
deriving DecidableEq

/-- The parts of a parsed URL that are looked at. -/
structure ParsedUrl where
  scheme : String
  origin : String

def trim (text : String) : String := String.ofList (trimMatches isWhitespace text.toList)

def isAsciiAlphanumeric (c : Char) : Bool :=
  isAsciiLowercase c || ('A' ≤ c && c ≤ 'Z') || isAsciiDigit c

def validExpoToken (token : String) : Bool :=
  decide (token.utf8ByteSize ≤ maxPushTokenLength) &&
    (("ExponentPushToken[".toList.isPrefixOf token.toList && [']'].isSuffixOf token.toList) ||
      ("ExpoPushToken[".toList.isPrefixOf token.toList && [']'].isSuffixOf token.toList))

def validInstallationId (installationId : String) : Bool :=
  installationId != "" && decide (installationId.utf8ByteSize ≤ maxInstallationIdLength) &&
    installationId.toList.all fun c => isAsciiAlphanumeric c || c == '-' || c == '_'

def validEventType (eventType : String) : Bool :=
  eventType != "" && decide (eventType.utf8ByteSize ≤ maxEventTypeLength) &&
    eventType.toList.all fun c =>
      isAsciiLowercase c || isAsciiDigit c || c == '_' || c == '-'

def pushableEventType (eventType : String) : Bool := pushableEventTypes.contains eventType

section Register

variable (parseUrl : String → Option ParsedUrl)

/-- The gateway of a request: none, or an origin of the scheme `https`. -/
def normalizeGatewayIdentity : Option String → Except Unit (Option String)
  | none => .ok none
  | some value =>
      let gateway := String.ofList
        (trimEndMatches (· == '/') (trimMatches isWhitespace value.toList))
      if gateway = "" then
        .ok none
      else
        match parseUrl gateway with
        | none => .error ()
        | some url =>
            if maxGatewayLength < gateway.utf8ByteSize || url.scheme != "https" ||
                url.origin != gateway then
              .error ()
            else
              .ok (some gateway)

def badRequest (message : String) : ErrResponse where
  status := 400
  message

def notPersisted : ErrResponse where
  status := 500
  message := "could not persist mobile device registration"

/-- The id and the subscription of a request, when it passes all checks. -/
def subscription
    (input : RegisterMobileDevice)
    (now : Nat) :
    Except ErrResponse (InstallationId × PushSubscription) :=
  let installationId := trim input.installationId
  if !validInstallationId installationId then
    .error (badRequest "invalid mobile installation ID")
  else
    let token := trim input.token
    if !validExpoToken token then
      .error (badRequest "invalid Expo push token")
    else
      match normalizeGatewayIdentity parseUrl input.gateway with
      | .error () => .error (badRequest "invalid mobile gateway identity")
      | .ok gateway =>
          if maxEventTypes < input.eventTypes.length ||
              input.eventTypes.any fun eventType =>
                !validEventType eventType || !pushableEventType eventType then
            .error (badRequest "invalid mobile event subscriptions")
          else
            let eventTypes := (input.eventTypes.insertionSort (· ≤ ·)).destutter (· ≠ ·)
            .ok (installationId,
              { token
                platform := input.platform
                gateway
                eventTypes
                previews := input.previews
                registeredAt := now })

variable {Pos : Type}

/-- Which holder of a token a scan of the records finds first, by the order of the hash map. -/
structure Scan (Pos : Type) where
  first : RegistryState Pos → String → Option InstallationId
  found : ∀ state token, first state token ∈ foundFirst state token

variable (epochToRfc3339 : Nat → Option String)

/-- The answer to a request and the registry after it; the flag says whether it was written. -/
def registerDevice
    (scan : Scan Pos)
    (registry : Registry Pos)
    (input : RegisterMobileDevice)
    (now : Nat)
    (flushed : Bool) :
    Except ErrResponse Unit × Registry Pos :=
  match subscription parseUrl input now with
  | .error error => (.error error, registry)
  | .ok (installationId, push) =>
      let registered := upsertPush epochToRfc3339 registry installationId push
      if flushed then
        (.ok (), registered)
      else
        (.error notPersisted,
          clearPushByToken epochToRfc3339 registered (scan.first registered.state push.token))

end Register

/-! ## Taking a registration back -/

section Rollback

variable {Pos : Type}
variable {state : RegistryState Pos} {id : InstallationId} {push : PushSubscription}

/-- The record of a device that registers push. -/
def subscribed (record : DeviceRecord Pos) (push : PushSubscription) : DeviceRecord Pos :=
  { record with
    kind := if record.descriptor.isNone && record.push.isNone then .mobile else record.kind
    lastSeen := if record.lastSeen = 0 then push.registeredAt else record.lastSeen
    push := some push }

/-- The records after a registration. -/
def registeredState
    (state : RegistryState Pos)
    (id : InstallationId)
    (push : PushSubscription) :
    RegistryState Pos :=
  { state with
    devices := state.devices.insert id (subscribed (state.devices[id]?.getD {}) push) }

theorem state_upsertPush
    (epochToRfc3339 : Nat → Option String)
    (registry : Registry Pos) (id : InstallationId) (push : PushSubscription) :
    (upsertPush epochToRfc3339 registry id push).state =
      registeredState registry.state id push := by
  rw [upsertPush, registeredState, subscribed]
  dsimp only [republish]
  split <;> split <;> rfl

/-- A registration leaves no trace on a record but the subscription: the record had none, and
its kind and time stay as they are. -/
structure Untraced (record : DeviceRecord Pos) (push : PushSubscription) : Prop where
  unsubscribed : record.push = none
  kind : record.descriptor = none → record.kind = .mobile
  lastSeen : record.lastSeen = 0 → push.registeredAt = 0

theorem subscribed_dropped_iff
    {record : DeviceRecord Pos} :
    { subscribed record push with push := none } = record ↔ Untraced record push := by
  obtain ⟨kind, descriptor, lastSeen, held, timezone, position, positionAt⟩ := record
  simp only [subscribed, DeviceRecord.mk.injEq, true_and, and_true]
  constructor
  · rintro ⟨hkind, hseen, rfl⟩
    refine ⟨rfl, ?_, ?_⟩
    · rintro rfl
      exact hkind.symm
    · intro hzero
      exact (if_pos hzero).symm.trans (hseen.trans hzero)
  · rintro ⟨hpush, hkind, hseen⟩
    simp only at hpush hkind hseen
    subst hpush
    refine ⟨?_, ?_, rfl⟩
    · cases descriptor with
      | none => exact (hkind rfl).symm
      | some _ => rfl
    · split
      · rename_i hzero
        rw [hseen hzero, hzero]
      · rfl

/-- The state before a registration that can be taken back: no device holds its token, and
its own device is either unknown and not live, or has a record on which it leaves no trace
and which is not dropped with the subscription. -/
structure Restorable
    (state : RegistryState Pos)
    (id : InstallationId)
    (push : PushSubscription) : Prop where
  unheld : ∀ other, ¬ HoldsToken state push.token other
  unknown : state.devices[id]? = none → id ∉ state.liveCounts
  known : ∀ record : DeviceRecord Pos, state.devices[id]? = some record →
    Untraced record push ∧ (record.isEmpty = false ∨ id ∈ state.liveCounts)

theorem holdsToken_registered :
    HoldsToken (registeredState state id push) push.token id :=
  ⟨subscribed (state.devices[id]?.getD {}) push, push, by simp [registeredState], rfl, rfl⟩

theorem holdsToken_registered_of_ne
    {token : String} {other : InstallationId}
    (hne : id ≠ other) :
    HoldsToken (registeredState state id push) token other ↔ HoldsToken state token other := by
  have hsame : (registeredState state id push).devices[other]? = state.devices[other]? := by
    simp [registeredState, Std.ExtTreeMap.getElem?_insert, hne]
  rw [HoldsToken, HoldsToken, hsame]

/-- Dropping the push of the registered device restores the state exactly if its record is. -/
theorem dropPush_registered_iff :
    dropPush (registeredState state id push) id = state ↔
      (some { subscribed (state.devices[id]?.getD {}) push with push := none }).filter
          (fun record => !record.isEmpty || state.liveCounts.contains id) =
        state.devices[id]? := by
  have hself := getElem?_dropPush_self (registeredState state id push) id
  have hrecord : (registeredState state id push).devices[id]? =
      some (subscribed (state.devices[id]?.getD {}) push) := by
    simp [registeredState]
  rw [hrecord, Option.map_some] at hself
  constructor
  · intro h
    rw [h] at hself
    exact hself.symm
  · intro h
    have hdevices : (dropPush (registeredState state id push) id).devices = state.devices := by
      apply Std.ExtTreeMap.ext_getElem?
      intro other
      by_cases heq : id = other
      · subst heq
        exact hself.trans h
      · rw [getElem?_dropPush_of_ne _ heq]
        simp [registeredState, Std.ExtTreeMap.getElem?_insert, heq]
    have hlive := liveCounts_dropPush (registeredState state id push) id
    generalize dropPush (registeredState state id push) id = dropped at hdevices hlive ⊢
    cases dropped
    cases state
    simp only at hdevices hlive
    rw [hdevices, hlive]
    rfl

theorem known_restored_iff
    {record : DeviceRecord Pos}
    (hrecord : state.devices[id]? = some record) :
    dropPush (registeredState state id push) id = state ↔
      Untraced record push ∧ (record.isEmpty = false ∨ id ∈ state.liveCounts) := by
  rw [dropPush_registered_iff, hrecord, Option.getD_some, Option.filter_eq_some_iff,
    Option.some.injEq, subscribed_dropped_iff]
  refine and_congr_right fun _ => ?_
  rw [Bool.or_eq_true, Bool.not_eq_true', Std.ExtTreeMap.contains_iff_mem]

theorem unknown_restored_iff
    (hrecord : state.devices[id]? = none) :
    dropPush (registeredState state id push) id = state ↔ id ∉ state.liveCounts := by
  rw [dropPush_registered_iff, hrecord, Option.filter_eq_none_iff,
    ← Std.ExtTreeMap.contains_iff_mem]
  simp [subscribed, DeviceRecord.isEmpty]

/-- Whatever holder the scan finds, dropping its push restores the state. -/
theorem restorable_iff :
    Restorable state id push ↔
      ∀ other, HoldsToken (registeredState state id push) push.token other →
        dropPush (registeredState state id push) other = state := by
  constructor
  · intro h other hother
    have heq : id = other := by
      by_contra hne
      exact h.unheld other ((holdsToken_registered_of_ne hne).1 hother)
    subst heq
    cases hrecord : state.devices[id]? with
    | none => exact (unknown_restored_iff hrecord).2 (h.unknown hrecord)
    | some record => exact (known_restored_iff hrecord).2 (h.known record hrecord)
  · intro h
    have hself := h id holdsToken_registered
    refine ⟨fun other hother => ?_, fun hrecord => (unknown_restored_iff hrecord).1 hself,
      fun record hrecord => (known_restored_iff hrecord).1 hself⟩
    -- a holder is not the device itself, so the scan can find it and take its push
    rw [← hself] at hother
    obtain ⟨hne, hregistered⟩ := holdsToken_dropPush.1 hother
    have hcleared := h other hregistered
    rw [holdsToken_registered_of_ne hne, ← hcleared] at hregistered
    exact (holdsToken_dropPush.1 hregistered).1 rfl

/-- A scan that finds a given device wherever it can. -/
def Scan.finding (id : InstallationId) : Scan Pos where
  first state token :=
    ((foundFirst state token).find? fun holder => holder.isEqSome id).getD
      ((foundFirst state token).headD none)
  found state token := by
    cases hfind : (foundFirst state token).find? fun holder => holder.isEqSome id with
    | some holder => exact List.mem_of_find?_eq_some hfind
    | none =>
        rw [Option.getD_none]
        cases hfound : foundFirst state token with
        | nil =>
            rw [foundFirst] at hfound
            split at hfound
            · cases hfound
            · rename_i howners
              exact absurd (List.map_eq_nil_iff.1 hfound) howners
        | cons first rest => exact List.mem_cons_self

theorem Scan.finding_first
    {state : RegistryState Pos} {token : String} {id : InstallationId}
    (h : some id ∈ foundFirst state token) :
    (Scan.finding id).first state token = some id := by
  cases hfind : (foundFirst state token).find? fun holder => holder.isEqSome id with
  | none => simpa using List.find?_eq_none.1 hfind (some id) h
  | some holder =>
      have hholder : holder = some id := by simpa using List.find?_some hfind
      change Option.getD _ _ = some id
      rw [hfind, hholder]
      rfl

end Rollback

/-- A registration that could not be made durable leaves every device as it was, whichever
holder of the token the scan finds, if and only if the state was one to take it back to. -/
theorem registerDevice_restores_iff
    {Pos : Type}
    (parseUrl : String → Option ParsedUrl)
    (epochToRfc3339 : Nat → Option String)
    (registry : Registry Pos)
    (input : RegisterMobileDevice)
    (now : Nat)
    (id : InstallationId)
    (push : PushSubscription)
    (hvalid : subscription parseUrl input now = .ok (id, push)) :
    (∀ scan,
        (registerDevice parseUrl epochToRfc3339 scan registry input now false).1 =
            .error notPersisted ∧
          (registerDevice parseUrl epochToRfc3339 scan registry input now false).2.state =
            registry.state) ↔
      Restorable registry.state id push := by
  have hresult (scan : Scan Pos) :
      registerDevice parseUrl epochToRfc3339 scan registry input now false =
        (.error notPersisted, clearPushByToken epochToRfc3339
          (upsertPush epochToRfc3339 registry id push)
          (scan.first (registeredState registry.state id push) push.token)) := by
    rw [registerDevice, hvalid]
    dsimp only
    rw [state_upsertPush]
    rfl
  have hstate (owner : InstallationId) :
      (clearPushByToken epochToRfc3339 (upsertPush epochToRfc3339 registry id push)
        (some owner)).state = dropPush (registeredState registry.state id push) owner := by
    rw [← state_upsertPush epochToRfc3339]
    rfl
  rw [restorable_iff]
  constructor
  · intro h other hother
    have hfinds : some other ∈ foundFirst (registeredState registry.state id push) push.token :=
      mem_foundFirst.2 (.inr ⟨other, rfl, hother⟩)
    have hrestored := (h (Scan.finding other)).2
    rw [hresult, Scan.finding_first hfinds, hstate] at hrestored
    exact hrestored
  · intro h scan
    rw [hresult]
    refine ⟨rfl, ?_⟩
    rcases mem_foundFirst.1 (scan.found (registeredState registry.state id push) push.token) with
      ⟨-, hnone⟩ | ⟨owner, howner, hholds⟩
    · exact absurd holdsToken_registered (hnone id)
    · dsimp only
      rw [howner, hstate]
      exact h owner hholds

/-! ### A token that is replaced -/

/-- The request of a phone whose token was rotated. -/
def rotated : RegisterMobileDevice where
  installationId := "phone"
  token := "ExpoPushToken[new]"
  platform := .ios
  gateway := none
  eventTypes := ["chat"]
  previews := false

/-- The phone is known and registered its token before. -/
def beforeRotation : Registry Nat :=
  upsertPush epochStart (load epochStart ∅) "phone" (chatPush "ExpoPushToken[old]")

/-- The rotation is not written, and the phone is left without any subscription. -/
theorem registerDevice_loses_subscription :
    let result := registerDevice (fun _ => none) epochStart (Scan.finding "phone")
      beforeRotation rotated 5 false
    result.1 = .error notPersisted ∧
      ((beforeRotation.state.devices["phone"]?).bind (·.push)).isSome = true ∧
      result.2.state.devices["phone"]? = none := by
  refine ⟨?_, ?_, ?_⟩ <;> decide +kernel

/-- The first registration of a phone is taken back. -/
theorem registerDevice_restores_first :
    (registerDevice (fun _ => none) epochStart (Scan.finding "phone") (load epochStart ∅)
      rotated 5 false).2.state = (load epochStart ∅ : Registry Nat).state := by
  refine ((registerDevice_restores_iff (fun _ => none) epochStart (load epochStart ∅) rotated 5
    "phone" { chatPush "ExpoPushToken[new]" with registeredAt := 5 } (by decide +kernel)).2
    ⟨?_, ?_, ?_⟩ (Scan.finding "phone")).2
  · rintro other ⟨record, push, hrecord, -, -⟩
    simp [load, republish] at hrecord
  · simp [load, republish]
  · intro record hrecord
    simp [load, republish] at hrecord

end MobileApp
end Vestad
end Vesta
