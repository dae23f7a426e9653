import Vesta.Vestad.DeviceRegistry

/-!
# The push tokens of the device registry

A push token is a value of a device's record, and nothing keeps two devices from holding
the same one: an app that is installed again registers its old token under a new id.
Removing a token clears the holder that a scan of the records finds first, in the order
of a hash map, which can be any of them.
-/

namespace Vesta
namespace Vestad
namespace DeviceRegistry

variable {Pos : Type}

/-- A device is subscribed to push with a token. -/
def HoldsToken (state : RegistryState Pos) (token : String) (id : InstallationId) : Prop :=
  ∃ record push, state.devices[id]? = some record ∧ record.push = some push ∧
    push.token = token

theorem mem_owners
    {state : RegistryState Pos} {accepts : String → Bool} {id : InstallationId} :
    id ∈ owners state accepts ↔
      ∃ record push, state.devices[id]? = some record ∧ record.push = some push ∧
        accepts push.token = true := by
  rw [owners, List.mem_filterMap]
  constructor
  · rintro ⟨⟨other, record⟩, hmem, hsome⟩
    rw [Std.ExtTreeMap.mem_toList_iff_getElem?_eq_some] at hmem
    cases hpush : record.push with
    | none => simp [hpush] at hsome
    | some push =>
        simp only [hpush, Option.any_some, Option.ite_none_right_eq_some,
          Option.some.injEq] at hsome
        obtain ⟨haccepts, rfl⟩ := hsome
        exact ⟨record, push, hmem, hpush, haccepts⟩
  · rintro ⟨record, push, hmem, hpush, haccepts⟩
    refine ⟨(id, record), Std.ExtTreeMap.mem_toList_iff_getElem?_eq_some.2 hmem, ?_⟩
    simp [hpush, haccepts]

theorem mem_owners_token
    {state : RegistryState Pos} {token : String} {id : InstallationId} :
    id ∈ owners state (fun held => held = token) ↔ HoldsToken state token id := by
  simp [mem_owners, HoldsToken]

/-- The scan finds a holder of the token, or nothing when there is none. -/
theorem mem_foundFirst
    {state : RegistryState Pos} {token : String} {owner : Option InstallationId} :
    owner ∈ foundFirst state token ↔
      (owner = none ∧ ∀ id, ¬ HoldsToken state token id) ∨
        ∃ id, owner = some id ∧ HoldsToken state token id := by
  have howners (id : InstallationId) := @mem_owners_token Pos state token id
  rw [foundFirst]
  generalize owners state (fun held => held = token) = ids at howners ⊢
  cases ids with
  | nil =>
      have hnone (id : InstallationId) : ¬ HoldsToken state token id := by
        rw [← howners]
        exact List.not_mem_nil
      simp [hnone]
  | cons first rest =>
      have hsome : HoldsToken state token first := (howners first).1 List.mem_cons_self
      have hholder : ¬ ∀ id, ¬ HoldsToken state token id := fun hnone => hnone first hsome
      rw [List.mem_map]
      constructor
      · rintro ⟨id, hid, rfl⟩
        exact .inr ⟨id, rfl, (howners id).1 hid⟩
      · rintro (⟨-, hnone⟩ | ⟨id, rfl, hid⟩)
        · exact absurd hnone hholder
        · exact ⟨id, (howners id).2 hid, rfl⟩

theorem mem_pushTargets
    {state : RegistryState Pos} {eventType : String} {push : PushSubscription} :
    push ∈ pushTargets state eventType ↔
      (∃ (id : InstallationId) (record : DeviceRecord Pos),
          state.devices[id]? = some record ∧ record.push = some push) ∧
        push.eventTypes.contains eventType = true := by
  rw [pushTargets, List.mem_filter, List.mem_filterMap]
  refine and_congr_left fun _ => ⟨?_, ?_⟩
  · rintro ⟨⟨id, record⟩, hmem, hpush⟩
    exact ⟨id, record, Std.ExtTreeMap.mem_toList_iff_getElem?_eq_some.1 hmem, hpush⟩
  · rintro ⟨id, record, hmem, hpush⟩
    exact ⟨(id, record), Std.ExtTreeMap.mem_toList_iff_getElem?_eq_some.2 hmem, hpush⟩

theorem liveCounts_dropPush (state : RegistryState Pos) (id : InstallationId) :
    (dropPush state id).liveCounts = state.liveCounts :=
  (keeps_dropPush state id).liveCounts

/-- A device whose push is dropped keeps the rest of its record, if there is any or the device
is live. -/
theorem getElem?_dropPush_self (state : RegistryState Pos) (id : InstallationId) :
    (dropPush state id).devices[id]? =
      (state.devices[id]?.map fun record => { record with push := none }).filter fun record =>
        !record.isEmpty || state.liveCounts.contains id := by
  rw [dropPush]
  cases hrecord : state.devices[id]? with
  | none => simp [hrecord]
  | some record =>
      simp only [Option.map_some, Option.filter]
      split
      · rename_i hdrop
        simp only [Bool.and_eq_true, Bool.not_eq_true'] at hdrop
        simp [hdrop.1, hdrop.2]
      · rename_i hkeep
        rw [Bool.not_eq_true, Bool.and_eq_false_iff, Bool.not_eq_false'] at hkeep
        rcases hkeep with hsome | hlive
        · simp [hsome]
        · simp [hlive]

theorem getElem?_dropPush_of_ne
    (state : RegistryState Pos)
    {id other : InstallationId}
    (hne : id ≠ other) :
    (dropPush state id).devices[other]? = state.devices[other]? := by
  rw [dropPush]
  split
  · rfl
  · dsimp only
    split
    · simp [Std.ExtTreeMap.getElem?_erase, hne]
    · simp [Std.ExtTreeMap.getElem?_insert, hne]

/-- Dropping the push of a device takes the token from it and from no other device. -/
theorem holdsToken_dropPush
    {state : RegistryState Pos} {token : String} {id other : InstallationId} :
    HoldsToken (dropPush state id) token other ↔ id ≠ other ∧ HoldsToken state token other := by
  by_cases heq : id = other
  · subst heq
    refine ⟨?_, fun h => absurd rfl h.1⟩
    rintro ⟨record, push, hrecord, hpush, -⟩
    rw [getElem?_dropPush_self, Option.filter_eq_some_iff, Option.map_eq_some_iff] at hrecord
    obtain ⟨⟨old, -, rfl⟩, -⟩ := hrecord
    cases hpush
  · simp only [HoldsToken, getElem?_dropPush_of_ne state heq, ne_eq, heq, not_false_eq_true,
      true_and]

/-! ## Removing a token -/

/-- A token is removed: no device holds it, no push goes to it, and the devices that did not
hold it are as before. -/
structure Removed (old new : RegistryState Pos) (token : String) : Prop where
  devices : ∀ id, ¬ HoldsToken new token id
  targets : ∀ eventType, ∀ push ∈ pushTargets new eventType, push.token ≠ token
  frame : ∀ id, ¬ HoldsToken old token id → new.devices[id]? = old.devices[id]?

/-- With no holder left, a token is removed. -/
theorem Removed.of_devices
    {old new : RegistryState Pos} {token : String}
    (hdevices : ∀ id, ¬ HoldsToken new token id)
    (hframe : ∀ id : InstallationId, ¬ HoldsToken old token id →
      new.devices[id]? = old.devices[id]?) :
    Removed old new token where
  devices := hdevices
  targets eventType push hpush htoken := by
    obtain ⟨⟨id, record, hrecord, hsome⟩, -⟩ := mem_pushTargets.1 hpush
    exact hdevices id ⟨record, push, hrecord, hsome, htoken⟩
  frame := hframe

/-- Clearing a token removes it exactly if at most one device holds it. -/
theorem clearPushByToken_removes_iff
    (epochToRfc3339 : Nat → Option String)
    (registry : Registry Pos)
    (token : String)
    (owner : Option InstallationId)
    (howner : owner ∈ foundFirst registry.state token) :
    Removed registry.state (clearPushByToken epochToRfc3339 registry owner).state token ↔
      ∀ id other, HoldsToken registry.state token id → HoldsToken registry.state token other →
        id = other := by
  rcases mem_foundFirst.1 howner with ⟨rfl, hnone⟩ | ⟨found, rfl, hfound⟩
  · change Removed registry.state registry.state token ↔ _
    exact ⟨fun _ id _ hid => absurd hid (hnone id), fun _ => .of_devices hnone fun _ _ => rfl⟩
  · change Removed registry.state (dropPush registry.state found) token ↔ _
    constructor
    · intro hremoved id other hid hother
      have honly (holder : InstallationId) (h : HoldsToken registry.state token holder) :
          found = holder := by
        by_contra hne
        exact hremoved.devices holder (holdsToken_dropPush.2 ⟨hne, h⟩)
      exact (honly id hid).symm.trans (honly other hother)
    · intro hunique
      refine .of_devices (fun id hid => ?_) fun id hid => ?_
      · obtain ⟨hne, hold⟩ := holdsToken_dropPush.1 hid
        exact hne (hunique found id hfound hold)
      · refine getElem?_dropPush_of_ne _ ?_
        rintro rfl
        exact hid hfound

/-! ### A reinstalled app -/

/-- A subscription to chats. -/
def chatPush (token : String) : PushSubscription where
  token
  platform := .ios
  gateway := none
  eventTypes := ["chat"]
  previews := false
  registeredAt := 0

/-- An app registered its token. -/
def installed : Registry Nat :=
  upsertPush epochStart (load epochStart ∅) "first" (chatPush "t")

/-- The app is installed again and registers the same token under its new id. -/
def reinstalled : Registry Nat := upsertPush epochStart installed "second" (chatPush "t")

/-- Whichever of the two ids the scan finds, the other keeps the token. -/
theorem clearPushByToken_keeps_token :
    foundFirst reinstalled.state "t" = [some "first", some "second"] ∧
      ¬ Removed reinstalled.state
        (clearPushByToken epochStart reinstalled (some "first")).state "t" ∧
      ¬ Removed reinstalled.state
        (clearPushByToken epochStart reinstalled (some "second")).state "t" := by
  have hheld (registry : Registry Nat) (id : InstallationId)
      (h : (registry.state.devices[id]?.bind (·.push)).map (·.token) = some "t") :
      HoldsToken registry.state "t" id := by
    simp only [Option.map_eq_some_iff, Option.bind_eq_some_iff] at h
    obtain ⟨push, ⟨record, hrecord, hpush⟩, htoken⟩ := h
    exact ⟨record, push, hrecord, hpush, htoken⟩
  refine ⟨by decide +kernel, fun h => ?_, fun h => ?_⟩
  · exact h.devices "second" (hheld _ _ (by decide +kernel))
  · exact h.devices "first" (hheld _ _ (by decide +kernel))

/-- Before the second registration the token is removed. -/
theorem clearPushByToken_removes_installed :
    Removed installed.state (clearPushByToken epochStart installed (some "first")).state "t" := by
  refine (clearPushByToken_removes_iff epochStart installed "t" (some "first")
    (by decide +kernel)).2 ?_
  have honly (id : InstallationId) (h : HoldsToken installed.state "t" id) : id = "first" := by
    have hmem := mem_owners_token.2 h
    have howners : owners installed.state (fun held => held = "t") = ["first"] := by
      decide +kernel
    rw [howners] at hmem
    exact List.mem_singleton.1 hmem
  intro id other hid hother
  rw [honly id hid, honly other hother]

end DeviceRegistry
end Vestad
end Vesta
