import Vesta.Lib.Machine
import Vesta.Lib.Text
import Vesta.Vestad.Sync.Roster

/-!
# The service registry and its mirror in the roster

The settings hold the services of each agent by their names.  A registration keeps the
port that the service already has, if that lies above the range from which the kernel
takes source ports, and otherwise takes the first free one.

The roster shows the services of a second registry, that of the status cache.  Registering
and unregistering copy the settings' registry to it; stopping, destroying and renaming an
agent change the settings alone.
-/

namespace Vesta
namespace Vestad
namespace ServiceRegistry

open Lib
open Sync

/-- Agent name to service name to that service. -/
abbrev Registry := Map String (Map String ServiceEntry)

/-! ## Ports -/

def servicePortMin : Nat := 49152

def servicePortMax : Nat := 65535

/-- `str::split_whitespace` -/
def splitWhitespace (text : Text) : List Text :=
  (text.splitOnP isWhitespace).filter (· ≠ [])

/-- `str::parse::<u16>` -/
def parsePort (word : Text) : Option UInt16 :=
  let digits := (stripPrefix ['+'] word).getD word
  if digits ≠ [] ∧ digits.all isAsciiDigit = true then
    let value := digits.foldl (fun value c => value * 10 + (c.toNat - '0'.toNat)) 0
    if value ≤ 65535 then some (UInt16.ofNat value) else none
  else none

example : (splitWhitespace "32768\t60999\n".toList)[1]?.bind parsePort = some 60999 := by
  decide +kernel

/-- Upper bound of the kernel's ephemeral source ports, from the text of
`/proc/sys/net/ipv4/ip_local_port_range`. -/
def ephemeralPortHigh (range : Option Text) : UInt16 :=
  ((range.bind fun s => (splitWhitespace s)[1]?).bind parsePort).getD 60999

/-- The first port from `lo` on that is not used. -/
def scan (used : List UInt16) (lo : Nat) : Option UInt16 :=
  ((List.range' lo (servicePortMax + 1 - lo)).map UInt16.ofNat).find? fun port =>
    !used.contains port

/-- The least port above the ephemeral ones. -/
def safeMin (range : Option Text) : Nat :=
  max (min ((ephemeralPortHigh range).toNat + 1) 65535) servicePortMin

def usedPorts (registry : Registry) (agent : String) : List UInt16 :=
  (registry[agent]?.map fun services => (Map.valueList services).map ServiceEntry.port).getD []

def allocateServicePort
    (range : Option Text)
    (registry : Registry)
    (agent : String) :
    Option UInt16 :=
  let used := usedPorts registry agent
  (scan used (safeMin range)).or (scan used servicePortMin)

/-- A cached port at or below the ephemeral ones is dropped. -/
def portForRegistration
    (range : Option Text)
    (cachedPort : Option UInt16)
    (registry : Registry)
    (agent : String) :
    Option UInt16 :=
  match cachedPort with
  | some port =>
      if ephemeralPortHigh range < port then some port
      else allocateServicePort range registry agent
  | none => allocateServicePort range registry agent

def resolvePublic (requested : Option Bool) (cached : Option ServiceEntry) : Bool :=
  requested.getD (cached.any (·.isPublic))

/-! ## Handlers -/

/-- The registry of the settings and the one of the status cache. -/
structure State where
  services : Registry
  published : Registry

/-- The gateway starts with the services of its settings file, and with an empty cache. -/
def boot (loaded : Registry) : State where
  services := loaded
  published := ∅

structure RegisterServiceBody where
  name : String
  isPublic : Option Bool

structure ErrResponse where
  status : Nat
  message : String
deriving DecidableEq

def reservedServiceNames : List String :=
  ["start", "stop", "restart", "destroy", "auth", "logs", "tree", "file", "backups", "settings",
    "services", "devices", "providers", "personalities", "proxy"]

/-- The name of a service as it is registered. -/
def RegisterServiceBody.serviceName (body : RegisterServiceBody) : String :=
  String.ofList (trimMatches isWhitespace body.name.toList)

/-- The service that is registered under a name of an agent. -/
def cachedEntry (registry : Registry) (agent serviceName : String) : Option ServiceEntry :=
  registry[agent]?.bind fun services => services[serviceName]?

/-- `status_cache.update_services` -/
def State.updateServices (s : State) : State :=
  { s with published := s.services }

/-- What a registration does once its name is checked. -/
def State.register
    (s : State)
    (range : Option Text)
    (agent serviceName : String)
    (requested : Option Bool) :
    State × Except ErrResponse ServiceEntry :=
  let cached := cachedEntry s.services agent serviceName
  match portForRegistration range (cached.map ServiceEntry.port) s.services agent with
  | none =>
      (s, .error ⟨503, "no free ports available in range 49152-65535 — too many services " ++
        "registered, or all ports are in use"⟩)
  | some port =>
      let entry : ServiceEntry := ⟨port, resolvePublic requested cached⟩
      let services := (s.services[agent]?.getD ∅).insert serviceName entry
      ({ s with services := s.services.insert agent services }.updateServices, .ok entry)

def registerServiceHandler
    (range : Option Text)
    (s : State)
    (agent : String)
    (body : RegisterServiceBody)
    (containerExists : Bool) :
    State × Except ErrResponse ServiceEntry :=
  let serviceName := body.serviceName
  if serviceName = "" then (s, .error ⟨400, "name is required"⟩)
  else if serviceName ∈ reservedServiceNames then
    (s, .error ⟨400, "'" ++ serviceName ++
      "' is a reserved name (conflicts with vestad routes: " ++
      String.intercalate ", " reservedServiceNames ++ ") — pick a different service name"⟩)
  else if containerExists = false then
    (s, .error ⟨404, "agent '" ++ agent ++
      "' not found — is the container running? check with: docker ps | grep vesta"⟩)
  else s.register range agent serviceName body.isPublic

def unregisterServiceHandler (s : State) (agent serviceName : String) : State :=
  let services :=
    match s.services[agent]? with
    | none => s.services
    | some agentServices =>
        let left := agentServices.erase serviceName
        if left.isEmpty then s.services.erase agent else s.services.insert agent left
  { s with services := services }.updateServices

/-- Docker stops the container after the settings are saved. -/
def stopAgentHandler (s : State) (agent : String) (rebuilding : Bool) : State :=
  if rebuilding then s else { s with services := s.services.erase agent }

/-- The settings are left alone when Docker does not remove the agent. -/
def destroyAgentHandler (s : State) (agent : String) (rebuilding destroyed : Bool) : State :=
  if rebuilding then s
  else if destroyed then { s with services := s.services.erase agent }
  else s

/-- The entries of one agent go to another. -/
def moveServices (registry : Registry) (agent newName : String) : Registry :=
  match registry[agent]? with
  | none => registry
  | some services => (registry.erase agent).insert newName services

/-- Whether a rename gets as far as the settings: Docker and the backups have taken it. -/
def renameGoesThrough (agent newName : String) (renamed : Bool) : Bool :=
  decide (normalizeName newName ≠ "") && decide (normalizeName newName ≠ agent) && renamed

def renameAgentHandler (s : State) (agent newName : String) (renamed : Bool) : State :=
  if renameGoesThrough agent newName renamed then
    { s with services := moveServices s.services agent (normalizeName newName) }
  else s

/-- A request, with what the kernel and Docker answer to it. -/
inductive Op
  | register (agent : String) (body : RegisterServiceBody) (containerExists : Bool)
      (range : Option Text)
  | unregister (agent serviceName : String)
  | stop (agent : String) (rebuilding : Bool)
  | destroy (agent : String) (rebuilding destroyed : Bool)
  | rename (agent newName : String) (renamed : Bool)

def operate (s : State) : Op → State
  | .register agent body containerExists range =>
      (registerServiceHandler range s agent body containerExists).1
  | .unregister agent serviceName => unregisterServiceHandler s agent serviceName
  | .stop agent rebuilding => stopAgentHandler s agent rebuilding
  | .destroy agent rebuilding destroyed => destroyAgentHandler s agent rebuilding destroyed
  | .rename agent newName renamed => renameAgentHandler s agent newName renamed

def machine (loaded : Registry) : Machine State Op where
  start s := s = boot loaded
  step s op := some (operate s op)

/-! ## What holds of the registry -/

/-- The services of one agent have ports of their own, all in the range, and there is one. -/
structure SoundServices (services : Map String ServiceEntry) : Prop where
  inRange : ∀ (name : String) (entry : ServiceEntry), services[name]? = some entry →
    servicePortMin ≤ entry.port.toNat ∧ entry.port.toNat ≤ servicePortMax
  distinct : ∀ (name other : String) (entry entry' : ServiceEntry),
    services[name]? = some entry → services[other]? = some entry' →
      entry.port = entry'.port → name = other
  nonempty : services ≠ ∅

def Sound (registry : Registry) : Prop :=
  ∀ (agent : String) (services : Map String ServiceEntry),
    registry[agent]? = some services → SoundServices services

/-- The entries that a roster row shows. -/
def shown (info : AgentInfo) : Map String ServiceEntry :=
  info.services.map fun _ service => ⟨service.port, service.isPublic⟩

/-- Every row that the roster can have for a container shows the services in the settings. -/
def InSync (s : State) : Prop :=
  ∀ entry activity revs buildPhase operation,
    shown (agentInfo entry activity s.published revs buildPhase operation) =
      s.services[entry.name]?.getD ∅

/-- An operation that copies nothing to the cache meets no services to remove or move. -/
def Untouched (s : State) : Op → Prop
  | .register _ _ _ _ => True
  | .unregister _ _ => True
  | .stop agent rebuilding => rebuilding = false → s.services[agent]? = none
  | .destroy agent rebuilding destroyed =>
      rebuilding = false → destroyed = true → s.services[agent]? = none
  | .rename agent newName renamed =>
      renameGoesThrough agent newName renamed = true → s.services[agent]? = none

/-! ## Port allocation -/

section Ports

variable {used : List UInt16}
variable {lo : Nat}
variable {port : UInt16}

theorem scan_spec
    (h : scan used lo = some port) :
    port ∉ used ∧ lo ≤ port.toNat := by
  have hmem := List.mem_of_find?_eq_some h
  have hfree := List.find?_some h
  obtain ⟨n, hn, rfl⟩ := List.mem_map.1 hmem
  rw [List.mem_range'_1] at hn
  refine ⟨by simpa using hfree, ?_⟩
  have hmax : servicePortMax = 65535 := rfl
  rw [UInt16.toNat_ofNat', Nat.mod_eq_of_lt (by omega)]
  exact hn.1

variable {range : Option Text}
variable {registry : Registry}
variable {agent : String}

theorem allocateServicePort_spec
    (h : allocateServicePort range registry agent = some port) :
    port ∉ usedPorts registry agent ∧ servicePortMin ≤ port.toNat := by
  rw [allocateServicePort, Option.or_eq_some_iff] at h
  rcases h with h | ⟨-, h⟩
  · have hsafe : servicePortMin ≤ safeMin range := le_max_right _ _
    exact ⟨(scan_spec h).1, hsafe.trans (scan_spec h).2⟩
  · exact scan_spec h

/-- A port is the cached one, when that lies above the ephemeral ones, or a free one. -/
theorem portForRegistration_spec
    {cachedPort : Option UInt16}
    (h : portForRegistration range cachedPort registry agent = some port) :
    cachedPort = some port ∨
      port ∉ usedPorts registry agent ∧ servicePortMin ≤ port.toNat := by
  cases cachedPort with
  | none => exact .inr (allocateServicePort_spec h)
  | some cached =>
      simp only [portForRegistration] at h
      split at h
      · exact .inl h
      · exact .inr (allocateServicePort_spec h)

theorem port_mem_usedPorts
    {services : Map String ServiceEntry} {name : String} {entry : ServiceEntry}
    (hservices : registry[agent]? = some services)
    (hentry : services[name]? = some entry) :
    entry.port ∈ usedPorts registry agent := by
  rw [usedPorts, hservices]
  exact List.mem_map_of_mem (Map.mem_valueList.2 ⟨name, hentry⟩)

end Ports

/-! ## Soundness -/

section Soundness

variable {registry : Registry}
variable {agent name other : String}
variable {services : Map String ServiceEntry}
variable {entry entry' : ServiceEntry}

theorem getElem?_getD_services :
    (registry[agent]?.getD ∅)[name]? = cachedEntry registry agent name := by
  rw [cachedEntry]
  cases registry[agent]? with
  | none => simp
  | some services => rfl

theorem exists_of_cachedEntry
    (h : cachedEntry registry agent name = some entry) :
    ∃ services, registry[agent]? = some services ∧ services[name]? = some entry :=
  Option.bind_eq_some_iff.1 h

theorem sound_empty : Sound ∅ := by
  intro agent services h
  simp at h

theorem Sound.insert
    (h : Sound registry)
    (hservices : SoundServices services) :
    Sound (registry.insert agent services) := by
  intro other found hfound
  rw [Std.ExtTreeMap.getElem?_insert] at hfound
  split at hfound
  · obtain rfl := Option.some.inj hfound
    exact hservices
  · exact h other found hfound

theorem Sound.erase
    (h : Sound registry) :
    Sound (registry.erase agent) := by
  intro other found hfound
  rw [Std.ExtTreeMap.getElem?_erase] at hfound
  split at hfound
  · cases hfound
  · exact h other found hfound

theorem SoundServices.erase
    (h : SoundServices services)
    (hleft : services.erase name ≠ ∅) :
    SoundServices (services.erase name) := by
  have hkept {other : String} {entry : ServiceEntry}
      (hentry : (services.erase name)[other]? = some entry) :
      services[other]? = some entry := by
    rw [Std.ExtTreeMap.getElem?_erase] at hentry
    split at hentry
    · cases hentry
    · exact hentry
  constructor
  · exact fun other entry hentry => h.inRange other entry (hkept hentry)
  · intro other other' entry entry' hentry hentry'
    exact h.distinct other other' entry entry' (hkept hentry) (hkept hentry')
  · exact hleft

theorem Sound.cached_inRange
    (h : Sound registry)
    (hentry : cachedEntry registry agent name = some entry) :
    servicePortMin ≤ entry.port.toNat ∧ entry.port.toNat ≤ servicePortMax := by
  obtain ⟨services, hservices, hname⟩ := exists_of_cachedEntry hentry
  exact (h agent services hservices).inRange name entry hname

theorem Sound.cached_distinct
    (h : Sound registry)
    (hentry : cachedEntry registry agent name = some entry)
    (hentry' : cachedEntry registry agent other = some entry')
    (hport : entry.port = entry'.port) :
    name = other := by
  obtain ⟨services, hservices, hname⟩ := exists_of_cachedEntry hentry
  obtain ⟨services', hservices', hother⟩ := exists_of_cachedEntry hentry'
  obtain rfl := Option.some.inj (hservices.symm.trans hservices')
  exact (h agent services hservices).distinct name other entry entry' hname hother hport

section Register

variable {range : Option Text}
variable {port : UInt16}

theorem Sound.port_inRange
    (h : Sound registry)
    (hport : portForRegistration range ((cachedEntry registry agent name).map ServiceEntry.port)
      registry agent = some port) :
    servicePortMin ≤ port.toNat ∧ port.toNat ≤ servicePortMax := by
  refine ⟨?_, Nat.le_of_lt_succ port.toNat_lt⟩
  rcases portForRegistration_spec hport with hcached | ⟨-, hmin⟩
  · obtain ⟨cached, hentry, rfl⟩ := Option.map_eq_some_iff.1 hcached
    exact (h.cached_inRange hentry).1
  · exact hmin

/-- A service that has the port of a registration is the registered one. -/
theorem Sound.eq_of_port
    (h : Sound registry)
    (hport : portForRegistration range ((cachedEntry registry agent name).map ServiceEntry.port)
      registry agent = some port)
    (hentry : cachedEntry registry agent other = some entry)
    (hsame : entry.port = port) :
    name = other := by
  rcases portForRegistration_spec hport with hcached | ⟨hfree, -⟩
  · obtain ⟨cached, hname, rfl⟩ := Option.map_eq_some_iff.1 hcached
    exact (h.cached_distinct hentry hname hsame).symm
  · obtain ⟨services, hservices, hother⟩ := exists_of_cachedEntry hentry
    exact absurd (hsame ▸ port_mem_usedPorts hservices hother) hfree

theorem Sound.registered
    (h : Sound registry)
    (hport : portForRegistration range ((cachedEntry registry agent name).map ServiceEntry.port)
      registry agent = some port)
    (isPublic : Bool) :
    SoundServices ((registry[agent]?.getD ∅).insert name ⟨port, isPublic⟩) := by
  have hlookup : ∀ other, ((registry[agent]?.getD ∅).insert name ⟨port, isPublic⟩)[other]? =
      if name = other then some ⟨port, isPublic⟩ else cachedEntry registry agent other := by
    intro other
    rw [Std.ExtTreeMap.getElem?_insert, getElem?_getD_services]
    simp
  constructor
  · intro other entry hentry
    rw [hlookup] at hentry
    split at hentry
    · obtain rfl := Option.some.inj hentry
      exact h.port_inRange hport
    · exact h.cached_inRange hentry
  · intro first second entry entry' hentry hentry' hsame
    rw [hlookup] at hentry hentry'
    split at hentry <;> split at hentry'
    · rename_i hfirst hsecond
      exact hfirst.symm.trans hsecond
    · rename_i hfirst _
      obtain rfl := Option.some.inj hentry
      exact hfirst.symm.trans (h.eq_of_port hport hentry' hsame.symm)
    · rename_i _ hsecond
      obtain rfl := Option.some.inj hentry'
      exact (h.eq_of_port hport hentry hsame).symm.trans hsecond
    · exact h.cached_distinct hentry hentry' hsame
  · intro hempty
    have hself := hlookup name
    rw [hempty] at hself
    simp at hself

theorem Sound.register
    {s : State} {requested : Option Bool}
    (h : Sound s.services) :
    Sound (s.register range agent name requested).1.services := by
  rw [State.register]
  cases hport : portForRegistration range
      ((cachedEntry s.services agent name).map ServiceEntry.port) s.services agent with
  | none => exact h
  | some port => exact h.insert (h.registered hport _)

end Register

theorem Sound.moveServices
    {newName : String}
    (h : Sound registry) :
    Sound (moveServices registry agent newName) := by
  rw [ServiceRegistry.moveServices]
  cases hservices : registry[agent]? with
  | none => exact h
  | some services => exact h.erase.insert (h agent services hservices)

theorem sound_unregister
    {s : State}
    (h : Sound s.services) :
    Sound (unregisterServiceHandler s agent name).services := by
  rw [unregisterServiceHandler]
  cases hservices : s.services[agent]? with
  | none => exact h
  | some services =>
      simp only [State.updateServices]
      split
      · exact h.erase
      · rename_i hleft
        refine h.insert ((h agent services hservices).erase fun hempty => hleft ?_)
        simpa using hempty

/-- Every operation keeps the registry sound. -/
theorem sound_operate
    {s : State}
    (h : Sound s.services)
    (op : Op) :
    Sound (operate s op).services := by
  cases op with
  | register agent body containerExists range =>
      rw [operate, registerServiceHandler]
      split
      · exact h
      · split
        · exact h
        · split
          · exact h
          · exact h.register
  | unregister agent serviceName => exact sound_unregister h
  | stop agent rebuilding =>
      rw [operate, stopAgentHandler]
      split
      · exact h
      · exact h.erase
  | destroy agent rebuilding destroyed =>
      rw [operate, destroyAgentHandler]
      split
      · exact h
      · split
        · exact h.erase
        · exact h
  | rename agent newName renamed =>
      rw [operate, renameAgentHandler]
      split
      · exact h.moveServices
      · exact h

end Soundness

/-! ## Registering again -/

theorem register_again
    {s : State} {range : Option Text} {agent : String} {body : RegisterServiceBody}
    {cached : ServiceEntry}
    (hname : body.serviceName ≠ "")
    (hreserved : body.serviceName ∉ reservedServiceNames)
    (hcached : cachedEntry s.services agent body.serviceName = some cached)
    (hport : ephemeralPortHigh range < cached.port) :
    (registerServiceHandler range s agent body true).2 =
        .ok ⟨cached.port, body.isPublic.getD cached.isPublic⟩ ∧
      cachedEntry (registerServiceHandler range s agent body true).1.services agent
          body.serviceName =
        some ⟨cached.port, body.isPublic.getD cached.isPublic⟩ := by
  have hregister : registerServiceHandler range s agent body true =
      s.register range agent body.serviceName body.isPublic := by
    simp [registerServiceHandler, hname, hreserved]
  have hkept : portForRegistration range (some cached.port) s.services agent =
      some cached.port := if_pos hport
  rw [hregister, State.register, hcached]
  simp only [Option.map_some, hkept, State.updateServices, resolvePublic, Option.any_some,
    true_and]
  simp [cachedEntry]

/-! ## The mirror -/

section Mirror

variable {s : State}

theorem shown_agentInfo
    (entry : ListEntry)
    (activity : Map String String)
    (services : Registry)
    (revs : Map String (Map String UInt64))
    (buildPhase : Option BuildPhase)
    (operation : Option AgentOperation) :
    shown (agentInfo entry activity services revs buildPhase operation) =
      services[entry.name]?.getD ∅ := by
  rw [shown, agentInfo]
  cases services[entry.name]? with
  | none => simp
  | some svc =>
      ext name service
      simp

/-- The roster shows the settings when both registries have the same services of each agent. -/
theorem inSync_iff :
    InSync s ↔
      ∀ agent : String, s.published[agent]?.getD ∅ = s.services[agent]?.getD ∅ := by
  constructor
  · intro h agent
    have hrow := h ⟨agent, .stopped, false, none, none⟩ ∅ ∅ none none
    rwa [shown_agentInfo] at hrow
  · intro h entry activity revs buildPhase operation
    rw [shown_agentInfo, h]

theorem inSync_updateServices : InSync s.updateServices :=
  inSync_iff.2 fun _ => rfl

theorem Sound.getD_eq_empty_iff
    {registry : Registry} {agent : String}
    (h : Sound registry) :
    registry[agent]?.getD ∅ = ∅ ↔ registry[agent]? = none := by
  cases hservices : registry[agent]? with
  | none => simp
  | some services => simpa using (h agent services hservices).nonempty

theorem inSync_boot_iff
    {loaded : Registry}
    (h : Sound loaded) :
    InSync (boot loaded) ↔ loaded = ∅ := by
  rw [inSync_iff]
  constructor
  · intro hsync
    refine Std.ExtTreeMap.ext_getElem? fun agent => ?_
    have hagent : ∅ = loaded[agent]?.getD ∅ := by simpa [boot] using hsync agent
    rw [h.getD_eq_empty_iff.1 hagent.symm]
    simp
  · rintro rfl agent
    rfl

/-- Removing services takes a roster out of step exactly when there are some. -/
theorem inSync_erase_iff
    {agent : String}
    (hsound : Sound s.services)
    (hsync : InSync s) :
    InSync { s with services := s.services.erase agent } ↔ s.services[agent]? = none := by
  rw [inSync_iff] at hsync ⊢
  constructor
  · intro h
    have hagent := h agent
    rw [hsync agent] at hagent
    exact hsound.getD_eq_empty_iff.1 (by simpa using hagent)
  · intro hnone other
    rw [hsync other, Std.ExtTreeMap.getElem?_erase]
    split
    · rename_i hsame
      rw [← Std.LawfulEqCmp.eq_of_compare hsame, hnone]
    · rfl

/-- Moving services takes a roster out of step exactly when there are some. -/
theorem inSync_move_iff
    {agent newName : String}
    (hsound : Sound s.services)
    (hsync : InSync s)
    (hne : newName ≠ agent) :
    InSync { s with services := moveServices s.services agent newName } ↔
      s.services[agent]? = none := by
  rw [inSync_iff] at hsync ⊢
  constructor
  · intro h
    by_contra hsome
    obtain ⟨services, hservices⟩ := Option.ne_none_iff_exists'.1 hsome
    have hagent := h agent
    rw [hsync agent] at hagent
    have hmoved : (moveServices s.services agent newName)[agent]? = none := by
      rw [moveServices, hservices]
      simp [hne]
    rw [hmoved] at hagent
    exact hsome (hsound.getD_eq_empty_iff.1 hagent)
  · intro hnone other
    rw [moveServices, hnone]
    exact hsync other

/-- An operation keeps the roster in step exactly when it copies the registry or leaves it. -/
theorem inSync_operate_iff
    (hsound : Sound s.services)
    (hsync : InSync s)
    (op : Op) :
    InSync (operate s op) ↔ Untouched s op := by
  cases op with
  | register agent body containerExists range =>
      refine iff_of_true ?_ trivial
      rw [operate, registerServiceHandler]
      split
      · exact hsync
      · split
        · exact hsync
        · split
          · exact hsync
          · rw [State.register]
            split
            · exact hsync
            · exact inSync_updateServices
  | unregister agent serviceName => exact iff_of_true inSync_updateServices trivial
  | stop agent rebuilding =>
      cases rebuilding with
      | true => simpa [operate, stopAgentHandler, Untouched] using hsync
      | false => simpa [operate, stopAgentHandler, Untouched] using inSync_erase_iff hsound hsync
  | destroy agent rebuilding destroyed =>
      cases rebuilding with
      | true => simpa [operate, destroyAgentHandler, Untouched] using hsync
      | false =>
          cases destroyed with
          | false => simpa [operate, destroyAgentHandler, Untouched] using hsync
          | true =>
              simpa [operate, destroyAgentHandler, Untouched] using inSync_erase_iff hsound hsync
  | rename agent newName renamed =>
      rw [operate, renameAgentHandler, Untouched]
      split
      · rename_i hthrough
        have hne : normalizeName newName ≠ agent := by
          simp only [renameGoesThrough, Bool.and_eq_true, decide_eq_true_eq] at hthrough
          exact hthrough.1.2
        simpa [hthrough] using inSync_move_iff hsound hsync hne
      · rename_i hthrough
        simpa [hthrough] using hsync

end Mirror

/-- `alice` registers a dashboard and is stopped. -/
def stoppedWithService : List Op :=
  [.register "alice" ⟨"dashboard", none⟩ true none, .stop "alice" false]

end ServiceRegistry
end Vestad
end Vesta
