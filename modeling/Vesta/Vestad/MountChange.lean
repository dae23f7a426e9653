import Vesta.Vestad.Reconcile

/-!
# Telling an agent that its mounts changed

Two comparisons look at the mounts of a container and the grants it should have.  Drift
compares the binds as wholes and has the container rebuilt.  The reason that the agent is
told goes by container path and looks at the mode, so it does not see that a path is served
from another host directory.
-/

namespace Vesta
namespace Vestad
namespace MountChange

open Lib Mounts Reconcile

/-! ## The reason -/

/-- `LifecycleReason`: what the log says and what the agent is told. -/
structure LifecycleReason where
  logReason : Text
  agentMessage : Text
deriving DecidableEq

/-- `[..].join(separator)` -/
def join (separator : Text) (items : List Text) : Text := separator.intercalate items

/-- Items as `a`, `a and b` or `a, b and c`. -/
def joinAnd : List Text → Text
  | [] => []
  | [one] => one
  | items => join ", ".toList items.dropLast ++ " and ".toList ++ items.getLastD []

def mode (writable : Bool) : Text :=
  if writable then "read-write".toList else "read-only".toList

/-- The mode a container path has: of two binds of a path the later one counts. -/
def actualMode (actual : List UserMount) (containerPath : Text) : Option Bool :=
  (actual.reverse.find? fun m => m.2.1 = containerPath).map (·.2.2)

/-- The grants of new paths. -/
def granted (actual : List UserMount) (desired : List HostMount) : List Text :=
  desired.filterMap fun mount =>
    match actualMode actual mount.containerPath with
    | none => some (mount.containerPath ++ " (".toList ++ mode mount.writable ++ ")".toList)
    | some _ => none

/-- The grants whose mode is another. -/
def changed (actual : List UserMount) (desired : List HostMount) : List Text :=
  desired.filterMap fun mount =>
    match actualMode actual mount.containerPath with
    | some current =>
        if current ≠ mount.writable then
          some (mount.containerPath ++ " (now ".toList ++ mode mount.writable ++ ")".toList)
        else
          none
    | none => none

/-- The paths that are no longer granted. -/
def removed (actual : List UserMount) (desired : List HostMount) : List Text :=
  (actual.filter fun m => !(desired.map (·.containerPath)).contains m.2.1).map (·.2.1)

/-- A part of a mixed change, when there is something of the kind. -/
def segment (label : Text) (items : List Text) : List Text :=
  if items.isEmpty then [] else [label ++ join ", ".toList items]

/-- How a change of the grants is worded, or nothing if they are unchanged. -/
def mountChangeReason
    (actual : List UserMount)
    (desired : List HostMount) :
    Option LifecycleReason :=
  let granted := granted actual desired
  let changed := changed actual desired
  let removed := removed actual desired
  match granted.isEmpty, removed.isEmpty, changed.isEmpty with
  | true, true, true => none
  | false, true, true =>
      let detail := joinAnd granted
      some
        { logReason := "mounts: granted ".toList ++ detail
          agentMessage := "You now have access to ".toList ++ detail ++ ".".toList }
  | true, false, true =>
      let detail := joinAnd removed
      some
        { logReason := "mounts: removed ".toList ++ detail
          agentMessage := "Your access to ".toList ++ detail ++ " was removed.".toList }
  | true, true, false =>
      let detail := joinAnd changed
      some
        { logReason := "mounts: changed ".toList ++ detail
          agentMessage := "Your access changed: ".toList ++ detail ++ ".".toList }
  | _, _, _ =>
      let detail := join "; ".toList
        (segment "granted: ".toList granted ++ segment "removed: ".toList removed ++
          segment "changed: ".toList changed)
      some
        { logReason := "mounts: ".toList ++ detail
          agentMessage :=
            "Your filesystem access changed. ".toList ++ detail ++ ".".toList }

example :
    mountChangeReason [("/x".toList, "/x".toList, true)] [⟨"/x".toList, "/x".toList, false⟩] =
      some
        { logReason := "mounts: changed /x (now read-only)".toList
          agentMessage := "Your access changed: /x (now read-only).".toList } := by
  decide

/-! ## The container of some grants -/

/-- The bind of a grant. -/
def plainBind (m : HostMount) : UserMount := (m.hostPath, m.containerPath, m.writable)

/-- A grant as the inspect of a container shows it. -/
def mountPoint (m : HostMount) : MountPoint where
  source := some m.hostPath
  destination := some m.containerPath
  rw := some m.writable

/-- A container has the mounts of some grants and reserved ones, in any order. -/
def Carries (info : ContainerInspectResponse) (grants : List HostMount) : Prop :=
  ∃ reserved : List MountPoint, (∀ p ∈ reserved, ∃ dest ∈ mountDests, p.destination = some dest) ∧
    (info.mounts.getD []).Perm (reserved ++ grants.map mountPoint)

/-- Grants as the validation leaves them: of distinct container paths, none protected. -/
structure Grants (mounts : List HostMount) : Prop where
  distinct : (mounts.map (·.containerPath)).Nodup
  unprotected : ∀ m ∈ mounts, isProtected m.containerPath = false

theorem grants_of_validated
    {canonicalize : Text → Option Text} {inputs : List Input} {knownHostPaths : List Text}
    {mounts : List HostMount}
    (h : validateMounts canonicalize inputs knownHostPaths = .ok mounts) :
    Grants mounts := by
  obtain ⟨accepted, hmounts, -, hall, -, hpairwise⟩ := acceptedFrom_cases h
  rw [List.nil_append] at hmounts
  subst hmounts
  exact ⟨List.pairwise_map.2 hpairwise, fun m hm => (hall m hm).1⟩

theorem isProtected_mountDests : ∀ dest ∈ mountDests, isProtected dest = true := by decide

section Container

variable {grants : List HostMount}

theorem filterMap_userMount_grants
    (h : Grants grants) :
    (grants.map mountPoint).filterMap userMount = grants.map plainBind := by
  rw [List.filterMap_map, ← List.filterMap_eq_map]
  refine List.filterMap_congr fun m hm => ?_
  have hfree : m.containerPath ∉ mountDests := by
    intro hmem
    have hprotected := isProtected_mountDests _ hmem
    rw [h.unprotected m hm] at hprotected
    cases hprotected
  simp [userMount, mountPoint, plainBind, hfree]

/-- The user mounts read from a container are the binds of its grants. -/
theorem actualUserMounts_perm
    {info : ContainerInspectResponse}
    (hcarries : Carries info grants)
    (h : Grants grants) :
    (actualUserMounts info).Perm (grants.map plainBind) := by
  obtain ⟨reserved, hreserved, hperm⟩ := hcarries
  have hnone : reserved.filterMap userMount = [] := by
    refine List.filterMap_eq_nil_iff.2 fun p hp => ?_
    obtain ⟨dest, hdest, heq⟩ := hreserved p hp
    simp [userMount, heq, hdest]
  have hfilter := hperm.filterMap userMount
  rw [List.filterMap_append, hnone, List.nil_append, filterMap_userMount_grants h] at hfilter
  exact hfilter

end Container

/-! ## When nothing is announced -/

theorem mountChangeReason_eq_none_iff
    {actual : List UserMount} {desired : List HostMount} :
    mountChangeReason actual desired = none ↔
      granted actual desired = [] ∧ changed actual desired = [] ∧ removed actual desired = [] := by
  rw [mountChangeReason]
  generalize granted actual desired = granted
  generalize changed actual desired = changed
  generalize removed actual desired = removed
  cases granted <;> cases changed <;> cases removed <;> simp

/-- Of binds with distinct paths, the mode of a path is that of its bind. -/
theorem actualMode_eq_some_iff
    {actual : List UserMount} {containerPath : Text} {writable : Bool}
    (hdistinct : (actual.map (·.2.1)).Nodup) :
    actualMode actual containerPath = some writable ↔
      (containerPath, writable) ∈ actual.map (·.2) := by
  rw [actualMode, Option.map_eq_some_iff, List.mem_map]
  constructor
  · rintro ⟨m, hfind, rfl⟩
    have hpath := List.find?_some hfind
    rw [decide_eq_true_eq] at hpath
    exact ⟨m, List.mem_reverse.1 (List.mem_of_find?_eq_some hfind), by rw [← hpath]⟩
  · rintro ⟨m, hm, heq⟩
    have hpath : m.2.1 = containerPath := congrArg Prod.fst heq
    cases hfind : actual.reverse.find? fun m => m.2.1 = containerPath with
    | none =>
        have hno := List.find?_eq_none.1 hfind m (List.mem_reverse.2 hm)
        simp [hpath] at hno
    | some found =>
        have hfound := List.find?_some hfind
        rw [decide_eq_true_eq] at hfound
        have hmem := List.mem_reverse.1 (List.mem_of_find?_eq_some hfind)
        have hsame : found = m :=
          List.inj_on_of_nodup_map hdistinct hmem hm (hfound.trans hpath.symm)
        exact ⟨m, by rw [hsame], congrArg Prod.snd heq⟩

/-- Nothing is announced exactly if the paths and their modes are the same. -/
theorem mountChangeReason_eq_none_iff_perm
    {actual : List UserMount} {desired : List HostMount}
    (hactual : (actual.map (·.2.1)).Nodup)
    (hdesired : (desired.map (·.containerPath)).Nodup) :
    mountChangeReason actual desired = none ↔
      (actual.map (·.2)).Perm (desired.map fun m => (m.containerPath, m.writable)) := by
  have hgranted : granted actual desired = [] ∧ changed actual desired = [] ↔
      ∀ m ∈ desired, (m.containerPath, m.writable) ∈ actual.map (·.2) := by
    rw [granted, changed, List.filterMap_eq_nil_iff, List.filterMap_eq_nil_iff, ← forall₂_and]
    refine forall₂_congr fun m hm => ?_
    rw [← actualMode_eq_some_iff hactual]
    cases actualMode actual m.containerPath with
    | none => simp
    | some current => simp
  have hremoved : removed actual desired = [] ↔
      ∀ m ∈ actual, m.2.1 ∈ desired.map (·.containerPath) := by
    rw [removed, List.map_eq_nil_iff, List.filter_eq_nil_iff]
    simp
  have hpairs : (actual.map (·.2)).Nodup := by
    refine List.Nodup.of_map Prod.fst ?_
    rw [List.map_map]
    exact hactual
  have hpairs' : (desired.map fun m => (m.containerPath, m.writable)).Nodup := by
    refine List.Nodup.of_map Prod.fst ?_
    rw [List.map_map]
    exact hdesired
  rw [mountChangeReason_eq_none_iff, ← and_assoc, hgranted, hremoved,
    List.perm_ext_iff_of_nodup hpairs hpairs']
  constructor
  · rintro ⟨hsome, hkept⟩ ⟨containerPath, writable⟩
    constructor
    · intro hmem
      obtain ⟨m, hm, heq⟩ := List.mem_map.1 hmem
      obtain ⟨n, hn, hpath⟩ := List.mem_map.1 (hkept m hm)
      have hother := hsome n hn
      have hmode : writable = n.writable := by
        rw [← actualMode_eq_some_iff hactual] at hmem hother
        rw [hpath, heq, hmem] at hother
        exact Option.some.inj hother
      refine List.mem_map.2 ⟨n, hn, ?_⟩
      rw [hpath, heq, hmode]
    · intro hmem
      obtain ⟨n, hn, heq⟩ := List.mem_map.1 hmem
      rw [← heq]
      exact hsome n hn
  · intro h
    refine ⟨fun m hm => (h _).2 (List.mem_map_of_mem hm), fun m hm => ?_⟩
    obtain ⟨n, hn, heq⟩ := List.mem_map.1 ((h m.2).1 (List.mem_map_of_mem hm))
    exact List.mem_map.2 ⟨n, hn, congrArg Prod.fst heq⟩

/-! ## Announcing and rebuilding -/

/-- Some path is served from another host directory and nothing else is different. -/
def OnlyHostsChange (previous next : List HostMount) : Prop :=
  (previous.map fun m => (m.containerPath, m.writable)).Perm
      (next.map fun m => (m.containerPath, m.writable)) ∧
    ∃ m ∈ previous, ∃ n ∈ next, m.containerPath = n.containerPath ∧ m.hostPath ≠ n.hostPath

section Agree

variable {previous next : List HostMount}

theorem nodup_plainBind
    (h : Grants previous) :
    (previous.map plainBind).Nodup := by
  refine List.Nodup.of_map (fun m : UserMount => m.2.1) ?_
  rw [List.map_map]
  exact h.distinct

/-- The same binds are the same paths and modes, and no host directory that is another. -/
theorem plainBind_perm_iff
    (hprevious : Grants previous)
    (hnext : Grants next) :
    (previous.map plainBind).Perm (next.map plainBind) ↔
      (previous.map fun m => (m.containerPath, m.writable)).Perm
          (next.map fun m => (m.containerPath, m.writable)) ∧
        ∀ m ∈ previous, ∀ n ∈ next, m.containerPath = n.containerPath →
          m.hostPath = n.hostPath := by
  constructor
  · intro h
    have hpairs := h.map fun m : UserMount => m.2
    rw [List.map_map, List.map_map] at hpairs
    refine ⟨hpairs, fun m hm n hn hpath => ?_⟩
    obtain ⟨kept, hkept, heq⟩ := List.mem_map.1 (h.mem_iff.1 (List.mem_map_of_mem hm))
    simp only [plainBind, Prod.mk.injEq] at heq
    have hsame : kept = n :=
      List.inj_on_of_nodup_map hnext.distinct hkept hn (heq.2.1.trans hpath)
    rw [← heq.1, hsame]
  · rintro ⟨hpairs, hhosts⟩
    rw [List.perm_ext_iff_of_nodup (nodup_plainBind hprevious) (nodup_plainBind hnext)]
    rintro ⟨hostPath, containerPath, writable⟩
    simp only [plainBind, List.mem_map, Prod.mk.injEq]
    constructor
    · rintro ⟨m, hm, rfl, rfl, rfl⟩
      obtain ⟨n, hn, heq⟩ := List.mem_map.1 (hpairs.mem_iff.1 (List.mem_map_of_mem hm))
      rw [Prod.mk.injEq] at heq
      exact ⟨n, hn, (hhosts m hm n hn heq.1.symm).symm, heq.1, heq.2⟩
    · rintro ⟨n, hn, rfl, rfl, rfl⟩
      obtain ⟨m, hm, heq⟩ := List.mem_map.1 (hpairs.mem_iff.2 (List.mem_map_of_mem hn))
      rw [Prod.mk.injEq] at heq
      exact ⟨m, hm, hhosts m hm n hn heq.1, heq.1, heq.2⟩

theorem drifted_eq_false_iff
    {info : ContainerInspectResponse}
    (hcarries : Carries info previous)
    (hprevious : Grants previous) :
    userMountsDrifted (actualUserMounts info) next = false ↔
      (previous.map plainBind).Perm (next.map plainBind) := by
  rw [userMountsDrifted_eq_false_iff]
  have hactual := actualUserMounts_perm hcarries hprevious
  exact ⟨hactual.symm.trans, hactual.trans⟩

theorem announced_eq_none_iff
    {info : ContainerInspectResponse}
    (hcarries : Carries info previous)
    (hprevious : Grants previous)
    (hnext : Grants next) :
    mountChangeReason (actualUserMounts info) next = none ↔
      (previous.map fun m => (m.containerPath, m.writable)).Perm
        (next.map fun m => (m.containerPath, m.writable)) := by
  have hactual := actualUserMounts_perm hcarries hprevious
  have hpaths := hactual.map fun m : UserMount => m.2.1
  have hpairs := hactual.map fun m : UserMount => m.2
  rw [List.map_map] at hpaths hpairs
  rw [mountChangeReason_eq_none_iff_perm (hpaths.nodup_iff.2 hprevious.distinct) hnext.distinct]
  exact ⟨hpairs.symm.trans, hpairs.trans⟩

end Agree

/-- For a container with some accepted grants and another accepted list, a change is announced
exactly if it has the container rebuilt, unless only host directories change. -/
theorem announced_iff_drifted
    (canonicalize canonicalize' : Text → Option Text)
    (inputs inputs' : List Input)
    (knownHostPaths knownHostPaths' : List Text)
    (previous next : List HostMount)
    (info : ContainerInspectResponse)
    (hprevious : validateMounts canonicalize inputs knownHostPaths = .ok previous)
    (hnext : validateMounts canonicalize' inputs' knownHostPaths' = .ok next)
    (hcarries : Carries info previous) :
    (mountChangeReason (actualUserMounts info) next = none ↔
        userMountsDrifted (actualUserMounts info) next = false) ↔
      ¬ OnlyHostsChange previous next := by
  have hgrants := grants_of_validated hprevious
  have hgrants' := grants_of_validated hnext
  rw [drifted_eq_false_iff hcarries hgrants, announced_eq_none_iff hcarries hgrants hgrants',
    plainBind_perm_iff hgrants hgrants', OnlyHostsChange]
  constructor
  · rintro hagree ⟨hpairs, m, hm, n, hn, hpath, hhost⟩
    exact hhost ((hagree.1 hpairs).2 m hm n hn hpath)
  · intro hno
    refine ⟨fun hpairs => ⟨hpairs, fun m hm n hn hpath => ?_⟩, And.left⟩
    by_contra hhost
    exact hno ⟨hpairs, m, hm, n, hn, hpath, hhost⟩

/-! ### Another directory under the same path -/

/-- A host with two directories. -/
def twoDirectories (path : Text) : Option Text :=
  if path = "/disk1".toList || path = "/disk2".toList then some path else none

/-- A directory at `/media`. -/
def mediaGrant (hostPath : Text) (writable : Bool) : List Input :=
  [(hostPath, some "/media".toList, writable)]

/-- A container with a grant of `/disk1` at `/media` beside a reserved mount. -/
def mediaContainer : ContainerInspectResponse where
  cmd := none
  hostConfig := none
  mounts := some
    [{ source := some "/env".toList, destination := some envMountDest, rw := some false },
      { source := some "/disk1".toList, destination := some "/media".toList, rw := some true }]

theorem carries_mediaContainer :
    Carries mediaContainer [⟨"/disk1".toList, "/media".toList, true⟩] := by
  refine ⟨[{ source := some "/env".toList, destination := some envMountDest, rw := some false }],
    ?_, List.Perm.refl _⟩
  intro p hp
  rw [List.mem_singleton] at hp
  exact ⟨envMountDest, List.mem_cons_self, by rw [hp]⟩

/-- The container is rebuilt onto the other directory and nothing is announced. -/
theorem rehosted_unannounced :
    validateMounts twoDirectories (mediaGrant "/disk1".toList true) [] =
        .ok [⟨"/disk1".toList, "/media".toList, true⟩] ∧
      validateMounts twoDirectories (mediaGrant "/disk2".toList true) [] =
        .ok [⟨"/disk2".toList, "/media".toList, true⟩] ∧
      Carries mediaContainer [⟨"/disk1".toList, "/media".toList, true⟩] ∧
      mountChangeReason (actualUserMounts mediaContainer)
        [⟨"/disk2".toList, "/media".toList, true⟩] = none ∧
      userMountsDrifted (actualUserMounts mediaContainer)
        [⟨"/disk2".toList, "/media".toList, true⟩] = true := by
  refine ⟨by decide, by decide, carries_mediaContainer, by decide, by decide⟩

/-- A change of the mode is announced. -/
theorem announced_iff_drifted_mode :
    mountChangeReason (actualUserMounts mediaContainer)
        [⟨"/disk1".toList, "/media".toList, false⟩] ≠ none := by
  have hagree := (announced_iff_drifted twoDirectories twoDirectories
    (mediaGrant "/disk1".toList true) (mediaGrant "/disk1".toList false) [] []
    [⟨"/disk1".toList, "/media".toList, true⟩] [⟨"/disk1".toList, "/media".toList, false⟩]
    mediaContainer (by decide) (by decide) carries_mediaContainer).2 ?_
  · rw [ne_eq, hagree]
    decide
  · rintro ⟨hpairs, -⟩
    simp at hpairs

end MountChange
end Vestad
end Vesta
