import Mathlib.Data.Char
import Mathlib.Data.List.Lex
import Mathlib.Data.List.Perm.Basic
import Mathlib.Data.List.Sort
import Mathlib.Data.Prod.Lex
import Vesta.Lib.Machine
import Vesta.Vestad.Mounts

/-!
# Creating a container and finding it drifted

`createContainer` describes an agent's container and `needsRebuild` reads one back.  A
boot rebuilds what `needsRebuild` finds diverged; a restart recreates the container when
its grants drifted or it asks for a GPU the host no longer serves.

Docker stands between the two: its inspect reports the container that was created, with
the sources and destinations of its binds cleaned.
-/

namespace Vesta
namespace Vestad
namespace Reconcile

open Lib Mounts

/-! ## What a container is made from -/

def envMountDest : Text := "/run/vestad-env".toList
def coreMountDest : Text := "/root/agent/core".toList
def constitutionMountDest : Text := "/root/agent/constitution.md".toList
def upstreamMountDest : Text := "/run/vesta-upstream".toList

def mountDests : List Text :=
  [envMountDest, coreMountDest, constitutionMountDest, upstreamMountDest]

def gpuCapability : Text := "gpu".toList
def fuseDevice : Text := "/dev/fuse".toList
def sysAdmin : Text := "SYS_ADMIN".toList
def agentNetworkPrefix : Text := "vesta-agent-".toList
def containerNetworkPrefix : Text := "container:".toList

/-- A network mode no container carries. -/
def sidecarMissingNetworkMode : Text := "container:<missing-egress-sidecar>".toList

/-- What one agent's container is made from on this host, apart from its grants. -/
structure AgentEnv where
  agentName : Text
  currentUser : Text
  envPath : Text
  constitutionPath : Text
  upstreamDir : Text
  coreDir : Text
  /-- The tag of the pinned egress image. -/
  imageTag : Text
  agentContainerCmd : List Text

/-- A sidecar as Docker's inspect shows it. -/
structure Sidecar where
  image : Option Text
  id : Option Text

/-- The proxy file, the sidecar and the GPU as vestad finds them. -/
structure Host where
  /-- The answer of `load_proxy`. -/
  proxy : Except Text (Option Text)
  sidecar : Option Sidecar
  /-- Whether `nvidia-smi` succeeds. -/
  nvidiaSmi : Bool
  /-- The runtimes Docker lists, where it answers. -/
  runtimes : Option (List Text)

/-- What the steps of a creation that can fail answer. -/
structure Answers where
  networkReady : Bool
  egressImage : Bool
  /-- The id of a fresh sidecar. -/
  freshSidecar : Option Text
  sidecarStarts : Bool
  sidecarRemoved : Bool
  filesWritten : Bool
  created : Bool

inductive GpuStatus
  | ready
  | noRuntime
  | noGpu
deriving DecidableEq

def gpuAvailable (host : Host) : GpuStatus :=
  if !host.nvidiaSmi then
    .noGpu
  else if host.runtimes.any fun runtimes => runtimes.contains "nvidia".toList then
    .ready
  else
    .noRuntime

def gpuPassthroughReady (host : Host) : Bool := gpuAvailable host = .ready

/-! ## The bodies sent to Docker and reported by it -/

structure DeviceRequest where
  count : Option Int
  capabilities : Option (List (List Text))

structure DeviceMapping where
  pathOnHost : Option Text
  pathInContainer : Option Text
  cgroupPermissions : Option Text

structure HostConfig where
  binds : Option (List Text)
  networkMode : Option Text
  init : Option Bool
  deviceRequests : Option (List DeviceRequest)
  devices : Option (List DeviceMapping)
  capAdd : Option (List Text)

structure ContainerCreateBody where
  cmd : Option (List Text)
  hostConfig : Option HostConfig

structure MountPoint where
  source : Option Text
  destination : Option Text
  rw : Option Bool

structure ContainerInspectResponse where
  cmd : Option (List Text)
  hostConfig : Option HostConfig
  mounts : Option (List MountPoint)

/-! ## The network of a container -/

def agentNetworkName (env : AgentEnv) : Text :=
  agentNetworkPrefix ++ env.currentUser ++ ['-'] ++ env.agentName

def sidecarNetworkMode (sidecarId : Text) : Text := containerNetworkPrefix ++ sidecarId

/-- The id of the sidecar when it exists on the pinned image. -/
def currentSidecarId (env : AgentEnv) (host : Host) : Option Text := do
  let info ← host.sidecar
  let image ← info.image
  if image ≠ env.imageTag then
    none
  else
    info.id

/-- Leave a sidecar on the pinned image running. -/
def ensureSidecar (env : AgentEnv) (answers : Answers) (host : Host) : Option (Text × Host) := do
  if !answers.egressImage then
    none
  else
    match currentSidecarId env host with
    | some id => if answers.sidecarStarts then some (id, host) else none
    | none =>
        let id ← answers.freshSidecar
        if answers.sidecarStarts then
          some (id, { host with sidecar := some { image := some env.imageTag, id := some id } })
        else
          none

def removeSidecar (answers : Answers) (host : Host) : Host :=
  if answers.sidecarRemoved then { host with sidecar := none } else host

/-- Whether an agent's network should be its own or a sidecar's. -/
inductive Egress
  | direct
  | proxied

def networkModeFor (env : AgentEnv) (host : Host) : Egress → Text
  | .direct => agentNetworkName env
  | .proxied =>
      match currentSidecarId env host with
      | some id => sidecarNetworkMode id
      | none => sidecarMissingNetworkMode

/-- An unreadable proxy file counts as a proxy. -/
def proxyConfigured (host : Host) : Bool :=
  match host.proxy with
  | .ok none => false
  | _ => true

def expectedNetworkMode (env : AgentEnv) (host : Host) : Text :=
  networkModeFor env host (if proxyConfigured host then .proxied else .direct)

/-! ## Creating a container -/

/-- `host:container:{ro|rw}`. -/
def bindString (m : HostMount) : Text :=
  m.hostPath ++ ':' :: m.containerPath ++ ':' :: if m.writable then "rw".toList else "ro".toList

/-- A bind that vestad manages. -/
def managedBind (path dest : Text) : Text := path ++ ':' :: dest ++ ':' :: "ro,z".toList

def assembleBinds
    (envMount constitutionMount upstreamMount coreMount : Text)
    (userMounts : List HostMount) :
    List Text :=
  [envMount, constitutionMount, upstreamMount, coreMount] ++ userMounts.map bindString

/-- The network mode a fresh container gets, with the sidecar as it is left. -/
def settleNetwork (env : AgentEnv) (answers : Answers) (host : Host) : Option (Text × Host) :=
  match host.proxy with
  | .error _ => none
  | .ok (some _) =>
      (ensureSidecar env answers host).map fun (id, host) => (sidecarNetworkMode id, host)
  | .ok none => some (agentNetworkName env, removeSidecar answers host)

/-- The device requests of a fresh container. -/
def deviceRequests (host : Host) : Option (List DeviceRequest) :=
  match gpuAvailable host with
  | .ready => some [{ count := some (-1), capabilities := some [[gpuCapability]] }]
  | .noRuntime => none
  | .noGpu => none

/-- The body that describes the container. -/
def createBody
    (env : AgentEnv)
    (host : Host)
    (networkMode : Text)
    (userMounts : List HostMount) :
    ContainerCreateBody where
  cmd := some env.agentContainerCmd
  hostConfig := some
    { binds := some (assembleBinds
        (managedBind env.envPath envMountDest)
        (managedBind env.constitutionPath constitutionMountDest)
        (managedBind env.upstreamDir upstreamMountDest)
        (managedBind env.coreDir coreMountDest)
        userMounts)
      networkMode := some networkMode
      init := some true
      deviceRequests := deviceRequests host
      devices := some
        [{ pathOnHost := some fuseDevice
           pathInContainer := some fuseDevice
           cgroupPermissions := some "rwm".toList }]
      capAdd := some [sysAdmin] }

/-- Create the container: its body, and the host with the sidecar as the creation left it. -/
def createContainer
    (env : AgentEnv)
    (answers : Answers)
    (host : Host)
    (userMounts : List HostMount) :
    Option (ContainerCreateBody × Host) := do
  if !answers.networkReady then
    none
  else
    let (networkMode, host) ← settleNetwork env answers host
    if answers.filesWritten && answers.created then
      some (createBody env host networkMode userMounts, host)
    else
      none

/-! ## Reading a container back -/

/-- A bind's source, destination and whether it is writable. -/
abbrev UserMount := Text × Text × Bool

/-- A mount whose destination is not a reserved one. -/
def userMount (m : MountPoint) : Option UserMount := do
  let dest ← m.destination
  if mountDests.contains dest then
    none
  else
    let source ← m.source
    some (source, dest, m.rw.getD false)

/-- The binds whose destination is not a reserved one. -/
def actualUserMounts (info : ContainerInspectResponse) : List UserMount :=
  (info.mounts.getD []).filterMap userMount

/-- The order of the tuples, field by field. -/
def sortUserMounts (mounts : List UserMount) : List (Text ×ₗ Text ×ₗ Bool) :=
  (mounts.map fun m => toLex (m.1, toLex m.2)).insertionSort (· ≤ ·)

/-- Whether the container's user mounts differ by source, destination or mode. -/
def userMountsDrifted (actual : List UserMount) (desired : List HostMount) : Bool :=
  sortUserMounts actual ≠
    sortUserMounts (desired.map fun m => (m.hostPath, m.containerPath, m.writable))

def containerInitEnabled (info : ContainerInspectResponse) : Bool :=
  (info.hostConfig.bind HostConfig.init) = some true

def requestsGpu (info : ContainerInspectResponse) : Bool :=
  let requests := (info.hostConfig.bind HostConfig.deviceRequests).getD []
  ((requests.filterMap DeviceRequest.capabilities).flatten.flatten).any fun capability =>
    capability = gpuCapability

def hasMount (info : ContainerInspectResponse) (dest : Text) : Bool :=
  (info.mounts.getD []).any fun m => m.destination = some dest

/-- Whether a container diverges from what `createContainer` would produce. -/
def needsRebuild
    (agentContainerCmd : List Text)
    (expectedNetwork : Text)
    (info : ContainerInspectResponse)
    (desiredMounts : List HostMount)
    (gpuReady : Bool) :
    Bool :=
  if !hasMount info envMountDest then
    true
  else if !hasMount info upstreamMountDest then
    true
  else if !hasMount info coreMountDest then
    true
  else if info.cmd ≠ some agentContainerCmd then
    true
  else if !containerInitEnabled info then
    true
  else if (info.hostConfig.bind HostConfig.networkMode).getD [] ≠ expectedNetwork then
    true
  else if !((info.hostConfig.bind HostConfig.devices).getD []).any
      fun d => d.pathOnHost = some fuseDevice then
    true
  else if !((info.hostConfig.bind HostConfig.capAdd).getD []).contains sysAdmin then
    true
  else if userMountsDrifted (actualUserMounts info) desiredMounts then
    true
  else if requestsGpu info ≠ gpuReady then
    true
  else
    false

/-- What may recreate an agent's container. -/
inductive Trigger
  | boot
  | restart

/-- Whether a boot's reconcile or a restart recreates the container. -/
def recreates
    (env : AgentEnv)
    (host : Host)
    (info : ContainerInspectResponse)
    (desiredMounts : List HostMount) :
    Trigger → Bool
  | .boot =>
      needsRebuild env.agentContainerCmd (expectedNetworkMode env host) info desiredMounts
        (gpuPassthroughReady host)
  | .restart =>
      let mountsDrifted := userMountsDrifted (actualUserMounts info) desiredMounts
      let gpuLost := requestsGpu info && !gpuPassthroughReady host
      mountsDrifted || gpuLost

/-! ## What Docker reports -/

/-- A bind as Docker takes it: its source and destination cleaned.  A bind has exactly three
fields, so no path of it has a colon. -/
def parseBind (raw : Text) : Option UserMount :=
  match raw.splitOn ':' with
  | [source, dest, mode] =>
      some (clean source, clean dest, !(mode.splitOn ',').contains "ro".toList)
  | _ => none

def MountPoint.ofBind (bind : UserMount) : MountPoint where
  source := some bind.1
  destination := some bind.2.1
  rw := some bind.2.2

/-- An inspect reports the container that was created.  Docker refuses a bind it cannot
parse and two binds onto one destination, and lists the mounts in an order of its own. -/
structure Reports (body : ContainerCreateBody) (info : ContainerInspectResponse) : Prop where
  cmd : info.cmd = body.cmd
  hostConfig : info.hostConfig = body.hostConfig
  mounts : ∃ binds points,
    ((body.hostConfig.bind HostConfig.binds).getD []).mapM parseBind = some binds ∧
      (binds.map fun bind => bind.2.1).Nodup ∧
      info.mounts = some points ∧ points.Perm (binds.map MountPoint.ofBind)

section Binds

/-- Three parts that make up three pieces are one piece each. -/
theorem singletons_of_append_eq
    {α : Type} {l m n : List α} {a b c : α}
    (hl : l ≠ []) (hm : m ≠ []) (hn : n ≠ [])
    (h : l ++ m ++ n = [a, b, c]) :
    l = [a] ∧ m = [b] ∧ n = [c] := by
  obtain ⟨x, xs, rfl⟩ := List.exists_cons_of_ne_nil hl
  obtain ⟨y, ys, rfl⟩ := List.exists_cons_of_ne_nil hm
  obtain ⟨z, zs, rfl⟩ := List.exists_cons_of_ne_nil hn
  have hlength := congrArg List.length h
  simp only [List.length_append, List.length_cons, List.length_nil] at hlength
  obtain rfl : xs = [] := List.length_eq_zero_iff.1 (by omega)
  obtain rfl : ys = [] := List.length_eq_zero_iff.1 (by omega)
  obtain rfl : zs = [] := List.length_eq_zero_iff.1 (by omega)
  simpa using h

/-- A text that splits into one piece is that piece. -/
theorem eq_of_splitOn_eq_singleton
    {separator : Char} {text piece : Text}
    (h : text.splitOn separator = [piece]) :
    piece = text := by
  have hjoin : [separator].intercalate (text.splitOn separator) = text :=
    List.intercalate_splitOn separator
  rw [h] at hjoin
  simpa using hjoin

/-- The fields of a bind that Docker takes are the parts it was put together from. -/
theorem parseBind_fields
    {source dest mode : Text} {bind : UserMount}
    (h : parseBind (source ++ ':' :: dest ++ ':' :: mode) = some bind) :
    bind = (clean source, clean dest, !(mode.splitOn ',').contains "ro".toList) := by
  rw [parseBind, List.splitOn_append_cons_self, List.splitOn_append_cons_self] at h
  split at h
  · rename_i a b c hparts
    obtain ⟨ha, hb, hc⟩ := singletons_of_append_eq (List.splitOn_ne_nil _ _)
      (List.splitOn_ne_nil _ _) (List.splitOn_ne_nil _ _) hparts
    obtain rfl := eq_of_splitOn_eq_singleton ha
    obtain rfl := eq_of_splitOn_eq_singleton hb
    obtain rfl := eq_of_splitOn_eq_singleton hc
    exact (Option.some.inj h).symm
  · cases h

theorem parseBind_managedBind
    {path dest : Text} {bind : UserMount}
    (h : parseBind (managedBind path dest) = some bind) :
    bind = (clean path, clean dest, false) := by
  have hfields := parseBind_fields (h : parseBind (path ++ ':' :: dest ++ ':' :: _) = some bind)
  rw [hfields, show ("ro,z".toList.splitOn ',').contains "ro".toList = true by decide]
  rfl

/-- The bind of a grant as Docker takes it. -/
def cleanedBind (m : HostMount) : UserMount :=
  (clean m.hostPath, clean m.containerPath, m.writable)

theorem parseBind_bindString
    {m : HostMount} {bind : UserMount}
    (h : parseBind (bindString m) = some bind) :
    bind = cleanedBind m := by
  have hfields := parseBind_fields h
  rw [hfields, cleanedBind]
  cases m.writable with
  | true =>
      rw [if_pos rfl, show ("rw".toList.splitOn ',').contains "ro".toList = false by decide]
      rfl
  | false =>
      rw [if_neg (by decide), show ("ro".toList.splitOn ',').contains "ro".toList = true by decide]
      rfl

/-- The grants' binds as Docker takes them. -/
theorem mapM_parseBind_bindString
    {mounts : List HostMount} {binds : List UserMount}
    (h : (mounts.map bindString).mapM parseBind = some binds) :
    binds = mounts.map cleanedBind := by
  induction mounts generalizing binds with
  | nil =>
      cases h
      rfl
  | cons m mounts ih =>
      simp only [List.map_cons, List.mapM_cons, Option.bind_eq_bind, Option.bind_eq_some_iff,
        Option.pure_def, Option.some.injEq] at h
      obtain ⟨bind, hbind, rest, hrest, rfl⟩ := h
      rw [parseBind_bindString hbind, ih hrest, List.map_cons]

theorem clean_mountDests : ∀ dest ∈ mountDests, clean dest = dest := by decide

end Binds

/-! ## Drift compares the mounts as they are spelled -/

section Drift

theorem sortUserMounts_eq_iff (a b : List UserMount) :
    sortUserMounts a = sortUserMounts b ↔ a.Perm b := by
  have hinjective :
      Function.Injective fun m : UserMount => toLex (m.1, toLex m.2) := by
    intro m n h
    exact h
  rw [← List.map_perm_map_iff hinjective]
  constructor
  · intro h
    have ha := List.perm_insertionSort (· ≤ ·) (a.map fun m => toLex (m.1, toLex m.2))
    have hb := List.perm_insertionSort (· ≤ ·) (b.map fun m => toLex (m.1, toLex m.2))
    rw [sortUserMounts, sortUserMounts] at h
    rw [h] at ha
    exact ha.symm.trans hb
  · intro h
    have hsorted := ((List.perm_insertionSort (· ≤ ·) _).trans h).trans
      (List.perm_insertionSort (· ≤ ·) _).symm
    exact hsorted.eq_of_pairwise' (List.pairwise_insertionSort _ _)
      (List.pairwise_insertionSort _ _)

theorem userMountsDrifted_eq_false_iff (actual : List UserMount) (desired : List HostMount) :
    userMountsDrifted actual desired = false ↔
      actual.Perm (desired.map fun m => (m.hostPath, m.containerPath, m.writable)) := by
  rw [userMountsDrifted, decide_eq_false_iff_not, not_not, sortUserMounts_eq_iff]

theorem clean_clean (path : Text) : clean (clean path) = clean path := by
  rw [clean, segments_clean, ← clean]

/-- Every path of the grants is spelled as it is cleaned. -/
def Clean (mounts : List HostMount) : Prop :=
  ∀ m ∈ mounts, m.hostPath = clean m.hostPath ∧ m.containerPath = clean m.containerPath

/-- Cleaning the paths of some grants rearranges them only when it changes none. -/
theorem cleanedBinds_perm_iff (mounts : List HostMount) :
    (mounts.map cleanedBind).Perm
        (mounts.map fun m => (m.hostPath, m.containerPath, m.writable)) ↔
      Clean mounts := by
  constructor
  · intro h m hm
    have hmem : (m.hostPath, m.containerPath, m.writable) ∈ mounts.map cleanedBind :=
      h.mem_iff.2 (List.mem_map_of_mem hm)
    obtain ⟨other, -, hother⟩ := List.mem_map.1 hmem
    simp only [cleanedBind, Prod.mk.injEq] at hother
    obtain ⟨hhost, hcontainer, -⟩ := hother
    rw [← hhost, ← hcontainer, clean_clean, clean_clean]
    exact ⟨rfl, rfl⟩
  · intro h
    refine List.Perm.of_eq (List.map_congr_left fun m hm => ?_)
    rw [cleanedBind, ← (h m hm).1, ← (h m hm).2]

end Drift

/-! ## A created container as it is read back -/

section Created

variable {env : AgentEnv} {answers : Answers} {host host' : Host} {mounts : List HostMount}
variable {body : ContainerCreateBody} {info : ContainerInspectResponse}

/-- A creation that goes through has settled its network. -/
theorem createContainer_cases
    (h : createContainer env answers host mounts = some (body, host')) :
    ∃ networkMode, settleNetwork env answers host = some (networkMode, host') ∧
      body = createBody env host' networkMode mounts := by
  rw [createContainer] at h
  split at h
  · cases h
  · rw [Option.bind_eq_bind, Option.bind_eq_some_iff] at h
    obtain ⟨⟨networkMode, left⟩, hsettle, h⟩ := h
    dsimp only at h
    split at h
    · cases h
      exact ⟨networkMode, hsettle, rfl⟩
    · cases h

/-- The sidecar that is left is the current one. -/
theorem ensureSidecar_current
    {id : Text}
    (h : ensureSidecar env answers host = some (id, host')) :
    currentSidecarId env host' = some id ∧ host'.proxy = host.proxy := by
  rw [ensureSidecar] at h
  split at h
  · cases h
  · split at h
    · rename_i current hcurrent
      split at h
      · cases h
        exact ⟨hcurrent, rfl⟩
      · cases h
    · rw [Option.bind_eq_bind, Option.bind_eq_some_iff] at h
      obtain ⟨fresh, -, h⟩ := h
      split at h
      · cases h
        exact ⟨by simp [currentSidecarId], rfl⟩
      · cases h

theorem removeSidecar_proxy (answers : Answers) (host : Host) :
    (removeSidecar answers host).proxy = host.proxy := by
  rw [removeSidecar]
  split
  · rfl
  · rfl

theorem removeSidecar_again (answers : Answers) (host : Host) :
    removeSidecar answers (removeSidecar answers host) = removeSidecar answers host := by
  cases h : answers.sidecarRemoved with
  | true => simp [removeSidecar, h]
  | false => simp [removeSidecar, h]

/-- A fresh container's network mode is the one expected of it afterwards. -/
theorem settleNetwork_expected
    {networkMode : Text}
    (h : settleNetwork env answers host = some (networkMode, host')) :
    networkMode = expectedNetworkMode env host' := by
  rw [settleNetwork] at h
  split at h
  · cases h
  · rename_i proxy hproxy
    obtain ⟨⟨id, left⟩, hensure, hpair⟩ := Option.map_eq_some_iff.1 h
    cases hpair
    obtain ⟨hcurrent, hsame⟩ := ensureSidecar_current hensure
    have hconfigured : proxyConfigured host' = true := by
      rw [proxyConfigured, hsame, hproxy]
    simp only [expectedNetworkMode, hconfigured, if_true, networkModeFor, hcurrent]
  · rename_i hproxy
    cases h
    have hconfigured : proxyConfigured (removeSidecar answers host) = false := by
      rw [proxyConfigured, removeSidecar_proxy, hproxy]
    simp only [expectedNetworkMode, hconfigured, Bool.false_eq_true, if_false, networkModeFor]

/-- The sidecar that is left is left as it is. -/
theorem ensureSidecar_again
    {id : Text}
    (h : ensureSidecar env answers host = some (id, host')) :
    ensureSidecar env answers host' = some (id, host') := by
  have hcurrent := (ensureSidecar_current h).1
  rw [ensureSidecar] at h ⊢
  split at h
  · cases h
  · rename_i himage
    have hstarts : answers.sidecarStarts = true := by
      split at h
      · exact Option.ite_none_right_eq_some.1 h |>.1
      · rw [Option.bind_eq_bind, Option.bind_eq_some_iff] at h
        obtain ⟨fresh, -, h⟩ := h
        exact Option.ite_none_right_eq_some.1 h |>.1
    rw [if_neg himage, hcurrent]
    dsimp only
    rw [if_pos hstarts]

/-- The network settles once. -/
theorem settleNetwork_again
    {networkMode : Text}
    (h : settleNetwork env answers host = some (networkMode, host')) :
    settleNetwork env answers host' = some (networkMode, host') := by
  rw [settleNetwork] at h
  split at h
  · cases h
  · rename_i proxy hproxy
    obtain ⟨⟨id, left⟩, hensure, hpair⟩ := Option.map_eq_some_iff.1 h
    cases hpair
    rw [settleNetwork, (ensureSidecar_current hensure).2, hproxy]
    dsimp only
    rw [ensureSidecar_again hensure]
    rfl
  · rename_i hproxy
    cases h
    rw [settleNetwork, removeSidecar_proxy, hproxy]
    dsimp only
    rw [removeSidecar_again]

/-- The binds vestad manages, as Docker takes them. -/
def managedBinds (env : AgentEnv) : List UserMount :=
  [(clean env.envPath, envMountDest, false),
    (clean env.constitutionPath, constitutionMountDest, false),
    (clean env.upstreamDir, upstreamMountDest, false),
    (clean env.coreDir, coreMountDest, false)]

/-- The managed binds are mounted at the reserved paths. -/
theorem mem_dests_managedBinds {env : AgentEnv} {dest : Text} :
    dest ∈ ((managedBinds env).map fun bind => bind.2.1) ↔ dest ∈ mountDests := by
  simp only [managedBinds, mountDests, List.map_cons, List.map_nil, List.mem_cons,
    List.not_mem_nil, or_false]
  constructor
  · rintro (henv | hconstitution | hupstream | hcore)
    · exact .inl henv
    · exact .inr (.inr (.inl hconstitution))
    · exact .inr (.inr (.inr hupstream))
    · exact .inr (.inl hcore)
  · rintro (henv | hcore | hconstitution | hupstream)
    · exact .inl henv
    · exact .inr (.inr (.inr hcore))
    · exact .inr (.inl hconstitution)
    · exact .inr (.inr (.inl hupstream))

/-- The mounts an inspect of a fresh container reports. -/
theorem reported_mounts
    {networkMode : Text}
    (h : Reports (createBody env host networkMode mounts) info) :
    ∃ points, info.mounts = some points ∧
      points.Perm ((managedBinds env ++ mounts.map cleanedBind).map MountPoint.ofBind) ∧
      ∀ m ∈ mounts, clean m.containerPath ∉ mountDests := by
  obtain ⟨binds, points, hparsed, hdistinct, hpoints, hperm⟩ := h.mounts
  simp only [createBody, Option.bind_some, Option.getD_some, assembleBinds, List.cons_append,
    List.nil_append, List.mapM_cons, Option.bind_eq_bind, Option.bind_eq_some_iff,
    Option.pure_def, Option.some.injEq] at hparsed
  obtain ⟨first, hfirst, rest, ⟨second, hsecond, rest, ⟨third, hthird, rest,
    ⟨fourth, hfourth, rest, hgrants, rfl⟩, rfl⟩, rfl⟩, rfl⟩ := hparsed
  rw [parseBind_managedBind hfirst, parseBind_managedBind hsecond, parseBind_managedBind hthird,
    parseBind_managedBind hfourth, mapM_parseBind_bindString hgrants,
    clean_mountDests envMountDest (by decide), clean_mountDests constitutionMountDest (by decide),
    clean_mountDests upstreamMountDest (by decide), clean_mountDests coreMountDest (by decide)]
    at hdistinct hperm
  refine ⟨points, hpoints, hperm, fun m hm hreserved => ?_⟩
  have hsplit : ((managedBinds env ++ mounts.map cleanedBind).map fun bind => bind.2.1).Nodup :=
    hdistinct
  rw [List.map_append, List.nodup_append] at hsplit
  refine hsplit.2.2 (clean m.containerPath) ?_ (clean m.containerPath) ?_ rfl
  · exact mem_dests_managedBinds.2 hreserved
  · rw [List.map_map]
    exact List.mem_map.2 ⟨m, hm, rfl⟩

/-- Every managed mount is there. -/
theorem hasMount_of_reported
    {points : List MountPoint} {binds : List UserMount} {dest : Text}
    (hpoints : info.mounts = some points)
    (hperm : points.Perm (binds.map MountPoint.ofBind))
    (hdest : ∃ bind ∈ binds, bind.2.1 = dest) :
    hasMount info dest = true := by
  obtain ⟨bind, hbind, hdest⟩ := hdest
  rw [hasMount, hpoints, Option.getD_some, List.any_eq_true]
  refine ⟨MountPoint.ofBind bind, hperm.mem_iff.2 (List.mem_map_of_mem hbind), ?_⟩
  rw [MountPoint.ofBind, hdest, decide_eq_true_eq]

theorem userMount_ofBind (bind : UserMount) :
    userMount (MountPoint.ofBind bind) =
      if mountDests.contains bind.2.1 then none else some bind :=
  rfl

/-- The user mounts of a fresh container are its grants with their paths cleaned. -/
theorem actualUserMounts_perm
    {networkMode : Text}
    (h : Reports (createBody env host networkMode mounts) info) :
    (actualUserMounts info).Perm (mounts.map cleanedBind) := by
  obtain ⟨points, hpoints, hperm, hgrants⟩ := reported_mounts h
  rw [actualUserMounts, hpoints, Option.getD_some]
  refine (hperm.filterMap _).trans (List.Perm.of_eq ?_)
  rw [List.filterMap_map, List.filterMap_append]
  have hmanaged : (managedBinds env).filterMap (userMount ∘ MountPoint.ofBind) = [] := by
    rw [List.filterMap_eq_nil_iff]
    intro bind hbind
    rw [Function.comp_apply, userMount_ofBind, if_pos]
    rw [List.contains_iff_mem]
    exact mem_dests_managedBinds.1 (List.mem_map_of_mem hbind)
  have hkept : (mounts.map cleanedBind).filterMap (userMount ∘ MountPoint.ofBind) =
      mounts.map cleanedBind := by
    rw [List.filterMap_map, ← List.filterMap_eq_map]
    refine List.filterMap_congr fun m hm => ?_
    rw [Function.comp_apply, Function.comp_apply, userMount_ofBind, if_neg]
    · rfl
    · rw [List.contains_iff_mem]
      exact hgrants m hm
  rw [hmanaged, hkept, List.nil_append]

/-- A fresh container asks for the GPU when the host serves it. -/
theorem requestsGpu_createBody
    {networkMode : Text}
    (h : Reports (createBody env host networkMode mounts) info) :
    requestsGpu info = gpuPassthroughReady host := by
  rw [requestsGpu, h.hostConfig, gpuPassthroughReady]
  simp only [createBody, Option.bind_some, deviceRequests]
  cases gpuAvailable host with
  | ready => decide
  | noRuntime => rfl
  | noGpu => rfl

/-- Every managed mount of a fresh container is there. -/
theorem hasMount_of_created
    {networkMode : Text}
    (h : Reports (createBody env host networkMode mounts) info) :
    ∀ dest ∈ mountDests, hasMount info dest = true := by
  intro dest hdest
  obtain ⟨points, hpoints, hperm, -⟩ := reported_mounts h
  refine hasMount_of_reported hpoints hperm ?_
  obtain ⟨bind, hbind, hmounted⟩ := List.mem_map.1 (mem_dests_managedBinds.2 hdest)
  exact ⟨bind, List.mem_append_left _ hbind, hmounted⟩

/-- Of all that makes a container need a rebuild, only its grants can differ when it is
fresh and its network is the expected one. -/
theorem needsRebuild_created
    {networkMode : Text}
    (h : Reports (createBody env host networkMode mounts) info) :
    needsRebuild env.agentContainerCmd networkMode info mounts (gpuPassthroughReady host) =
      userMountsDrifted (actualUserMounts info) mounts := by
  have hmount := hasMount_of_created h
  have hinit : containerInitEnabled info = true := by
    rw [containerInitEnabled, h.hostConfig]
    rfl
  have hnetwork : (info.hostConfig.bind HostConfig.networkMode).getD [] = networkMode := by
    rw [h.hostConfig]
    rfl
  have hfuse : ((info.hostConfig.bind HostConfig.devices).getD []).any
      (fun d => d.pathOnHost = some fuseDevice) = true := by
    rw [h.hostConfig]
    simp [createBody]
  have hcap : ((info.hostConfig.bind HostConfig.capAdd).getD []).contains sysAdmin = true := by
    rw [h.hostConfig]
    simp [createBody]
  have hcmd : info.cmd = some env.agentContainerCmd := h.cmd
  have hgpu := requestsGpu_createBody h
  rw [needsRebuild, hmount envMountDest (by decide), hmount upstreamMountDest (by decide),
    hmount coreMountDest (by decide), hcmd, hinit, hnetwork, hfuse, hcap, hgpu]
  simp

/-- Neither a boot nor a restart finds more than its grants diverged in a fresh container. -/
theorem recreates_created
    (hcreated : createContainer env answers host mounts = some (body, host'))
    (hreports : Reports body info)
    (trigger : Trigger) :
    recreates env host' info mounts trigger =
      userMountsDrifted (actualUserMounts info) mounts := by
  obtain ⟨networkMode, hsettle, rfl⟩ := createContainer_cases hcreated
  cases trigger with
  | restart =>
      rw [recreates, requestsGpu_createBody hreports, Bool.and_not_self, Bool.or_false]
  | boot =>
      rw [recreates, ← settleNetwork_expected hsettle]
      exact needsRebuild_created hreports

/-- Creating the container over again changes nothing. -/
theorem createContainer_again
    (hcreated : createContainer env answers host mounts = some (body, host')) :
    createContainer env answers host' mounts = some (body, host') := by
  obtain ⟨networkMode, hsettle, rfl⟩ := createContainer_cases hcreated
  have hagain := settleNetwork_again hsettle
  rw [createContainer] at hcreated ⊢
  split at hcreated
  · cases hcreated
  · rename_i hready
    rw [hsettle, Option.bind_eq_bind, Option.bind_some] at hcreated
    dsimp only at hcreated
    split at hcreated
    · rename_i hwritten
      rw [if_neg hready, hagain, Option.bind_eq_bind, Option.bind_some]
      dsimp only
      rw [if_pos hwritten]
    · cases hcreated

/-- A fresh container is left as it is exactly when its grants are spelled as cleaned. -/
theorem recreates_eq_false_iff
    (hcreated : createContainer env answers host mounts = some (body, host'))
    (hreports : Reports body info)
    (trigger : Trigger) :
    recreates env host' info mounts trigger = false ↔ Clean mounts := by
  rw [recreates_created hcreated hreports, userMountsDrifted_eq_false_iff,
    ← cleanedBinds_perm_iff]
  obtain ⟨networkMode, -, rfl⟩ := createContainer_cases hcreated
  have hactual := actualUserMounts_perm hreports
  constructor
  · intro h
    exact hactual.symm.trans h
  · intro h
    exact hactual.trans h

end Created

/-! ## Boots and restarts while nothing changes -/

/-- An agent's container, and how often it was rebuilt since it was created. -/
structure State where
  host : Host
  info : ContainerInspectResponse
  rebuilds : Nat

/-- A boot or a restart, and what Docker answers and reports where it creates a container. -/
structure Pass where
  trigger : Trigger
  answers : Answers
  info : ContainerInspectResponse

/-- What a boot or a restart does to the container of unchanged inputs. -/
def pass (env : AgentEnv) (mounts : List HostMount) (s : State) (p : Pass) : Option State :=
  if recreates env s.host s.info mounts p.trigger then
    (createContainer env p.answers s.host mounts).map fun created =>
      { host := created.2, info := p.info, rebuilds := s.rebuilds + 1 }
  else
    some s

/-- The boots and restarts of an agent whose container has just been created. -/
def machine
    (env : AgentEnv)
    (mounts : List HostMount)
    (host : Host)
    (info : ContainerInspectResponse) :
    Machine State Pass where
  start s := s = { host, info, rebuilds := 0 }
  step := pass env mounts

/-- Docker reports each container it creates. -/
def Honest (env : AgentEnv) (mounts : List HostMount) (s : State) (p : Pass) : Prop :=
  ∀ created ∈ createContainer env p.answers s.host mounts, Reports created.1 p.info

section Runs

variable {env : AgentEnv} {answers : Answers} {host host' : Host} {mounts : List HostMount}
variable {body : ContainerCreateBody} {info : ContainerInspectResponse}

/-- With cleanly spelled grants no boot or restart rebuilds the container. -/
theorem never_rebuilt
    (hcreated : createContainer env answers host mounts = some (body, host'))
    (hreports : Reports body info)
    (hclean : Clean mounts)
    {s : State}
    (h : (machine env mounts host' info).Reaches (Honest env mounts) s) :
    s.rebuilds = 0 := by
  have hkept : s = { host := host', info, rebuilds := 0 } := by
    refine h.invariant (I := fun s => s = { host := host', info, rebuilds := 0 }) ?_ ?_
    · exact fun s hs => hs
    · rintro s p t rfl - hstep
      have hleft := (recreates_eq_false_iff hcreated hreports p.trigger).2 hclean
      simp only [machine, pass, hleft, Bool.false_eq_true, if_false, Option.some.injEq] at hstep
      exact hstep.symm
  rw [hkept]

/-- A container whose grants are not cleanly spelled is rebuilt by the next boot. -/
theorem rebuilt_of_not_clean
    (hcreated : createContainer env answers host mounts = some (body, host'))
    (hreports : Reports body info)
    (hclean : ¬Clean mounts) :
    (machine env mounts host' info).Reaches (Honest env mounts)
      { host := host', info, rebuilds := 1 } := by
  have hrebuilt : recreates env host' info mounts .boot = true := by
    rw [← Bool.not_eq_false, recreates_eq_false_iff hcreated hreports]
    exact hclean
  have hagain := createContainer_again hcreated
  have hstart : (machine env mounts host' info).Reaches (Honest env mounts)
      { host := host', info, rebuilds := 0 } := .start rfl
  refine hstart.step (a := { trigger := .boot, answers, info }) ?_ ?_
  · intro created hmem
    rw [Option.mem_def, hagain, Option.some.injEq] at hmem
    subst hmem
    exact hreports
  · simp [machine, pass, hrebuilt, hagain]

/-- Neither a boot nor a restart finds a fresh container diverged, and no run of them with
unchanged inputs rebuilds it, if and only if every path of its grants is spelled as Docker
cleans it. -/
theorem reconcile_converges_iff
    (hcreated : createContainer env answers host mounts = some (body, host'))
    (hreports : Reports body info) :
    ((∀ trigger, recreates env host' info mounts trigger = false) ↔ Clean mounts) ∧
      ((∀ s, (machine env mounts host' info).Reaches (Honest env mounts) s →
        s.rebuilds = 0) ↔ Clean mounts) := by
  constructor
  · constructor
    · intro h
      exact (recreates_eq_false_iff hcreated hreports .boot).1 (h .boot)
    · intro h trigger
      exact (recreates_eq_false_iff hcreated hreports trigger).2 h
  · constructor
    · intro h
      by_contra hclean
      exact absurd (h _ (rebuilt_of_not_clean hcreated hreports hclean)) (by simp)
    · intro h s hs
      exact never_rebuilt hcreated hreports h hs

end Runs

/-! ## A grant spelled with a doubled slash -/

section Concrete

/-- An agent without a proxy on a host without a GPU. -/
def plainEnv : AgentEnv where
  agentName := "ada".toList
  currentUser := "user".toList
  envPath := "/vesta/ada.env".toList
  constitutionPath := "/vesta/ada.md".toList
  upstreamDir := "/vesta/upstream".toList
  coreDir := "/vesta/core".toList
  imageTag := "egress".toList
  agentContainerCmd := ["sh".toList]

def plainHost : Host where
  proxy := .ok none
  sidecar := none
  nvidiaSmi := false
  runtimes := none

def plainAnswers : Answers where
  networkReady := true
  egressImage := true
  freshSidecar := none
  sidecarStarts := true
  sidecarRemoved := true
  filesWritten := true
  created := true

/-- What the inspect of a container with one grant reports. -/
def reported (mount : HostMount) : ContainerInspectResponse where
  cmd := (createBody plainEnv plainHost (agentNetworkName plainEnv) [mount]).cmd
  hostConfig := (createBody plainEnv plainHost (agentNetworkName plainEnv) [mount]).hostConfig
  mounts := some ((managedBinds plainEnv ++ [cleanedBind mount]).map MountPoint.ofBind)

def plainMount : HostMount where
  hostPath := "/data".toList
  containerPath := "/mnt/data".toList
  writable := true

def doubledMount : HostMount where
  hostPath := "/data".toList
  containerPath := "/mnt//data".toList
  writable := true

theorem reports_plainMount :
    Reports (createBody plainEnv plainHost (agentNetworkName plainEnv) [plainMount])
      (reported plainMount) where
  cmd := rfl
  hostConfig := rfl
  mounts := ⟨managedBinds plainEnv ++ [cleanedBind plainMount], _, by decide +kernel,
    by decide +kernel, rfl, List.Perm.refl _⟩

theorem reports_doubledMount :
    Reports (createBody plainEnv plainHost (agentNetworkName plainEnv) [doubledMount])
      (reported doubledMount) where
  cmd := rfl
  hostConfig := rfl
  mounts := ⟨managedBinds plainEnv ++ [cleanedBind doubledMount], _, by decide +kernel,
    by decide +kernel, rfl, List.Perm.refl _⟩

theorem reconcile_converges_plainMount :
    (∀ trigger,
      recreates plainEnv plainHost (reported plainMount) [plainMount] trigger = false) ∧
      ∀ s, (machine plainEnv [plainMount] plainHost (reported plainMount)).Reaches
        (Honest plainEnv [plainMount]) s → s.rebuilds = 0 := by
  have hclean : Clean [plainMount] := by
    intro m hm
    obtain rfl := List.mem_singleton.1 hm
    decide
  have hcreated : createContainer plainEnv plainAnswers plainHost [plainMount] =
      some (createBody plainEnv plainHost (agentNetworkName plainEnv) [plainMount],
        plainHost) := rfl
  have hboth := reconcile_converges_iff hcreated reports_plainMount
  exact ⟨hboth.1.2 hclean, hboth.2.2 hclean⟩

/-- The validation accepts `/mnt//data`, the container is created and Docker reports it at
`/mnt/data`: the boot and the restart after it rebuild the container. -/
theorem doubledMount_rebuilt :
    validateMounts oneDirectory [("/data".toList, some "/mnt//data".toList, true)] [] =
        .ok [doubledMount] ∧
      createContainer plainEnv plainAnswers plainHost [doubledMount] =
        some (createBody plainEnv plainHost (agentNetworkName plainEnv) [doubledMount],
          plainHost) ∧
      Reports (createBody plainEnv plainHost (agentNetworkName plainEnv) [doubledMount])
        (reported doubledMount) ∧
      ∀ trigger, recreates plainEnv plainHost (reported doubledMount) [doubledMount] trigger =
        true := by
  refine ⟨by decide, rfl, reports_doubledMount, fun trigger => ?_⟩
  have hnot : ¬Clean [doubledMount] := by
    intro h
    exact absurd (h doubledMount List.mem_cons_self).2 (by decide)
  have hcreated : createContainer plainEnv plainAnswers plainHost [doubledMount] =
      some (createBody plainEnv plainHost (agentNetworkName plainEnv) [doubledMount],
        plainHost) := rfl
  rw [← Bool.not_eq_false, recreates_eq_false_iff hcreated reports_doubledMount]
  exact hnot

end Concrete

end Reconcile
end Vestad
end Vesta
