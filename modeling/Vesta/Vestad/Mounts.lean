import Vesta.Lib.Text

/-!
# Host mounts and the protected container paths

A grant binds a host path to a container path.  The validation compares container
paths as they are spelled, less one trailing slash.  The container runtime cleans
them first: empty and `.` segments do not count.

Resolving a host path asks the file system, so `canonicalize` is a parameter; it
answers `none` for a path that does not exist.
-/

namespace Vesta
namespace Vestad
namespace Mounts

open Lib

/-- Roots that a grant may not mount onto or under. -/
def protectedPrefixes : List Text :=
  ["/root".toList, "/etc".toList, "/usr".toList, "/bin".toList, "/sbin".toList, "/lib".toList,
    "/lib64".toList, "/run".toList, "/proc".toList, "/sys".toList, "/dev".toList, "/boot".toList]

/-- Roots that a grant may not shadow, but whose subpaths are fine. -/
def protectedExact : List Text := ["/tmp".toList, "/var".toList, "/opt".toList]

structure HostMount where
  hostPath : Text
  containerPath : Text
  writable : Bool
deriving DecidableEq

inductive MountError
  | notAbsolute
  | hostPathMissing (path : Text)
  | containerPathProtected (path : Text)
  | duplicateContainerPath (path : Text)
deriving DecidableEq

/-- The text of an error. -/
def MountError.message : MountError → Text
  | notAbsolute => "path must be absolute".toList
  | hostPathMissing path => "host path '".toList ++ path ++ "' does not exist".toList
  | containerPathProtected path =>
      "container path '".toList ++ path ++
        ("' is protected; choose a path outside /root and system dirs, " ++
          "e.g. under /mnt").toList
  | duplicateContainerPath path => "duplicate container path '".toList ++ path ++ "'".toList

/-- One trailing slash less, but `/` stays. -/
def normalize (path : Text) : Text :=
  if 1 < path.length && path.getLast? = some '/' then path.dropLast else path

def isProtected (containerPath : Text) : Bool :=
  let path := normalize containerPath
  if path = ['/'] || protectedExact.contains path then
    true
  else
    protectedPrefixes.any fun root => path = root || (root ++ ['/']).isPrefixOf path

/-- Whether a component of the path is `..`; empty and `.` components are skipped. -/
def hasParentDir (path : Text) : Bool := (path.splitOn '/').contains ['.', '.']

section Validation

variable (canonicalize : Text → Option Text)

/-- The host path that is stored: resolved, or as it is when an accepted grant is offline. -/
def resolveHost (hostPath : Text) (knownHostPaths : List Text) : Except MountError Text :=
  match canonicalize hostPath with
  | some canonical => .ok canonical
  | none =>
      if knownHostPaths.contains hostPath then .ok hostPath
      else .error (.hostPathMissing hostPath)

/-- The container path as the validation compares it: as given, less one trailing slash,
or the stored host path where none is given. -/
def containerText (canonical : Text) (containerPath : Option Text) : Text :=
  match containerPath with
  | some path => normalize path
  | none => canonical

/-- Validate one grant. -/
def validateMount
    (hostPath : Text)
    (containerPath : Option Text)
    (writable : Bool)
    (knownHostPaths : List Text) :
    Except MountError HostMount := do
  if hostPath.head? ≠ some '/' then
    .error .notAbsolute
  let canonical ← resolveHost canonicalize hostPath knownHostPaths
  if containerPath.any fun path => path.head? ≠ some '/' then
    .error .notAbsolute
  let container := containerText canonical containerPath
  if isProtected container then
    .error (.containerPathProtected container)
  if hasParentDir container then
    .error (.containerPathProtected container)
  .ok { hostPath := canonical, containerPath := container, writable }

/-- One grant as the user enters it. -/
abbrev Input := Text × Option Text × Bool

/-- The loop of `validate_mounts`, with the mounts accepted so far. -/
def validateFrom
    (knownHostPaths : List Text) :
    List HostMount → List Input → Except MountError (List HostMount)
  | out, [] => .ok out
  | out, (host, container, writable) :: inputs => do
      let mount ← validateMount canonicalize host container writable knownHostPaths
      if out.any fun m => m.containerPath = mount.containerPath then
        .error (.duplicateContainerPath mount.containerPath)
      validateFrom knownHostPaths (out ++ [mount]) inputs

/-- Validate a list of grants. -/
def validateMounts
    (inputs : List Input)
    (knownHostPaths : List Text) :
    Except MountError (List HostMount) :=
  validateFrom canonicalize knownHostPaths [] inputs

end Validation

/-! ## Cleaned paths -/

/-- The segments that count: neither empty nor `.`. -/
def segments (path : Text) : List Text :=
  (path.splitOn '/').filter fun segment => segment ≠ [] && segment ≠ ['.']

/-- The path of the segments. -/
def render (parts : List Text) : Text :=
  if parts = [] then ['/'] else parts.flatMap fun part => '/' :: part

/-- The path as the container runtime cleans it. -/
def clean (path : Text) : Text := render (segments path)

/-- A path at, under or over a protected prefix, or at or over an exactly protected root. -/
def Conflicts (path : Text) : Prop :=
  (∃ root ∈ protectedPrefixes,
    segments root <+: segments path ∨ segments path <+: segments root) ∨
  ∃ root ∈ protectedExact, segments path <+: segments root

section Clean

/-- A segment that counts. -/
def IsSegment (part : Text) : Prop := part ≠ [] ∧ part ≠ ['.'] ∧ '/' ∉ part

theorem isSegment_of_mem
    {path part : Text}
    (h : part ∈ segments path) :
    IsSegment part := by
  obtain ⟨hsplit, hkept⟩ := List.mem_filter.1 h
  simp only [Bool.and_eq_true, decide_eq_true_eq] at hkept
  exact ⟨hkept.1, hkept.2, not_mem_of_mem_splitOn hsplit⟩

/-- Cleaning forgets nothing about the segments. -/
theorem segments_render
    {parts : List Text}
    (h : ∀ part ∈ parts, IsSegment part) :
    segments (render parts) = parts := by
  cases parts with
  | nil => rfl
  | cons part rest =>
      rw [render, if_neg (List.cons_ne_nil _ _), flatMap_cons_eq_intercalate, segments,
        List.splitOn_intercalate]
      · rw [List.filter_cons_of_neg (by simp), List.filter_eq_self]
        intro other hother
        have hother := h other hother
        simp [hother.1, hother.2.1]
      · intro other hother
        rcases List.mem_cons.1 hother with rfl | hother
        · simp
        · exact (h other hother).2.2
      · exact List.cons_ne_nil _ _

theorem segments_clean (path : Text) : segments (clean path) = segments path :=
  segments_render fun _ h => isSegment_of_mem h

/-- A cleaned path has no trailing slash to take away. -/
theorem normalize_render
    {parts : List Text}
    (h : ∀ part ∈ parts, IsSegment part) :
    normalize (render parts) = render parts := by
  rcases List.eq_nil_or_concat parts with rfl | ⟨init, last, rfl⟩
  · rfl
  · rw [List.concat_eq_append] at h ⊢
    obtain ⟨hne, -, hslash⟩ := h last (by simp)
    rcases List.eq_nil_or_concat last with rfl | ⟨start, c, rfl⟩
    · exact absurd rfl hne
    · rw [List.concat_eq_append] at hslash ⊢
      have hc : c ≠ '/' := fun heq => hslash (by simp [heq])
      have hlast :
          render (init ++ [start ++ [c]]) =
            (init.flatMap fun part => '/' :: part) ++ '/' :: start ++ [c] := by
        simp [render]
      rw [hlast, normalize, List.getLast?_concat, if_neg (by simp [hc])]

/-- The first segment of a path that starts with it. -/
theorem takeWhile_append_of_slash
    {name rest : Text}
    (hname : '/' ∉ name)
    (hrest : rest = [] ∨ rest.head? = some '/') :
    (name ++ rest).takeWhile (fun c => c ≠ '/') = name := by
  have hself : ∀ c ∈ name, decide (c ≠ '/') = true := by
    intro c hc
    rw [decide_eq_true_eq]
    exact fun heq => hname (heq ▸ hc)
  rw [List.takeWhile_append_of_pos hself]
  rcases hrest with rfl | hrest
  · simp
  · obtain ⟨tail, rfl⟩ : ∃ tail, rest = '/' :: tail := by
      cases rest with
      | nil => cases hrest
      | cons c tail => exact ⟨tail, by rw [List.head?_cons, Option.some.injEq] at hrest; rw [hrest]⟩
    simp

theorem head?_flatMap_slash
    (parts : List Text) :
    (parts.flatMap fun part => '/' :: part) = [] ∨
      (parts.flatMap fun part => '/' :: part).head? = some '/' := by
  cases parts with
  | nil => exact Or.inl rfl
  | cons part parts => exact Or.inr rfl

/-- The text comparison with a one-segment root compares the first segment. -/
theorem at_or_under_iff
    {name part : Text} {rest : List Text}
    (hname : '/' ∉ name)
    (hpart : '/' ∉ part) :
    (render (part :: rest) = '/' :: name ∨ ('/' :: name ++ ['/']) <+: render (part :: rest)) ↔
      part = name := by
  rw [render, if_neg (List.cons_ne_nil _ _), List.flatMap_cons, List.cons_append,
    List.cons_append, List.cons.injEq, List.cons_prefix_cons]
  simp only [true_and]
  have hfirst := takeWhile_append_of_slash hpart (head?_flatMap_slash rest)
  constructor
  · rintro (heq | ⟨tail, htail⟩)
    · rw [heq] at hfirst
      rw [← hfirst]
      have hwhole := takeWhile_append_of_slash hname (Or.inl (rfl : ([] : Text) = []))
      rwa [List.append_nil] at hwhole
    · rw [← htail, List.append_assoc] at hfirst
      rw [← hfirst]
      exact takeWhile_append_of_slash hname (Or.inr rfl)
  · rintro rfl
    cases rest with
    | nil => exact Or.inl (by simp)
    | cons next rest =>
        refine Or.inr ⟨next ++ rest.flatMap fun part => '/' :: part, ?_⟩
        simp

theorem root_segments :
    ∀ root ∈ protectedPrefixes ++ protectedExact,
      root = '/' :: root.tail ∧ '/' ∉ root.tail ∧ segments root = [root.tail] := by
  decide

/-- On cleaned paths the validator's test is the protection it stands for. -/
theorem isProtected_clean_iff (path : Text) :
    isProtected (clean path) = true ↔ Conflicts (clean path) := by
  have hparts : ∀ part ∈ segments path, IsSegment part := fun _ h => isSegment_of_mem h
  rw [isProtected, Conflicts, segments_clean, clean, normalize_render hparts]
  cases hsegments : segments path with
  | nil =>
      refine iff_of_true (by decide) (Or.inl ⟨"/root".toList, by decide, Or.inr ?_⟩)
      exact List.nil_prefix
  | cons part rest =>
      have hpart : IsSegment part := hparts part (by rw [hsegments]; exact List.mem_cons_self)
      have hrender : render (part :: rest) ≠ ['/'] := by
        obtain ⟨c, cs, hcs⟩ := List.exists_cons_of_ne_nil hpart.1
        simp [render, hcs]
      have hprefixes :
          (∃ root ∈ protectedPrefixes, render (part :: rest) = root ∨
            (root ++ ['/']) <+: render (part :: rest)) ↔
          ∃ root ∈ protectedPrefixes,
            segments root <+: part :: rest ∨ part :: rest <+: segments root := by
        refine exists_congr fun root => and_congr_right fun hroot => ?_
        obtain ⟨hname, hslash, hsegs⟩ := root_segments root (List.mem_append_left _ hroot)
        rw [hsegs, hname, List.tail_cons, at_or_under_iff hslash hpart.2.2]
        simp only [List.cons_prefix_cons, List.nil_prefix, and_true, List.prefix_nil]
        constructor
        · rintro rfl
          exact Or.inl rfl
        · rintro (heq | ⟨heq, -⟩)
          · exact heq.symm
          · exact heq
      have hexact :
          render (part :: rest) ∈ protectedExact ↔
            ∃ root ∈ protectedExact, part :: rest <+: segments root := by
        constructor
        · intro hroot
          refine ⟨_, hroot, ?_⟩
          have hback := segments_render (hsegments ▸ hparts)
          simp only [hback, List.prefix_rfl]
        · rintro ⟨root, hroot, hle⟩
          obtain ⟨hname, -, hsegs⟩ := root_segments root (List.mem_append_right _ hroot)
          rw [hsegs, List.cons_prefix_cons, List.prefix_nil] at hle
          obtain ⟨rfl, rfl⟩ := hle
          have hrender : render [root.tail] = root := by
            rw [hname]
            simp [render]
          rw [hrender]
          exact hroot
      rw [← hprefixes, ← hexact]
      by_cases hmem : render (part :: rest) ∈ protectedExact
      · simp [hmem]
      · simp [hmem, hrender, List.isPrefixOf_iff_prefix]

end Clean

/-! ## What the validation accepts -/

/-- No accepted grant lands on, under or over a protected path once cleaned, and no two land
on the same cleaned path. -/
structure Safe (mounts : List HostMount) : Prop where
  unprotected : ∀ m ∈ mounts, ¬Conflicts (clean m.containerPath)
  distinct : mounts.Pairwise fun a b => clean a.containerPath ≠ clean b.containerPath

section Accepted

variable (canonicalize : Text → Option Text)

/-- The container path of an input as the validation compares it. -/
def spelled (knownHostPaths : List Text) (input : Input) : Option Text :=
  (resolveHost canonicalize input.1 knownHostPaths).toOption.map fun canonical =>
    containerText canonical input.2.1

/-- The container paths of the inputs as the validation compares them. -/
def spellings (knownHostPaths : List Text) (inputs : List Input) : List Text :=
  inputs.filterMap (spelled canonicalize knownHostPaths)

/-- No path that is not spelled as it is cleaned is protected once cleaned, or cleaned to
the same path as another one. -/
def CleanlySpelled (paths : List Text) : Prop :=
  (∀ path ∈ paths, path ≠ clean path → isProtected (clean path) = false) ∧
    paths.Pairwise fun a b => a ≠ clean a ∨ b ≠ clean b → clean a ≠ clean b

instance (paths : List Text) : Decidable (CleanlySpelled paths) :=
  inferInstanceAs (Decidable (_ ∧ _))

variable {canonicalize}

/-- What an accepted grant passed. -/
theorem accepted_cases
    {host : Text} {container : Option Text} {writable : Bool} {knownHostPaths : List Text}
    {mount : HostMount}
    (h : validateMount canonicalize host container writable knownHostPaths = .ok mount) :
    spelled canonicalize knownHostPaths (host, container, writable) = some mount.containerPath ∧
      isProtected mount.containerPath = false ∧ hasParentDir mount.containerPath = false := by
  simp only [validateMount, bind, Except.bind] at h
  split at h
  · cases h
  · cases hhost : resolveHost canonicalize host knownHostPaths with
    | error e =>
        rw [hhost] at h
        cases h
    | ok canonical =>
        rw [hhost] at h
        dsimp only at h
        split at h
        · cases h
        · split at h
          · cases h
          · rename_i hprotected
            split at h
            · cases h
            · rename_i hparent
              cases h
              refine ⟨?_, Bool.eq_false_iff.2 hprotected, Bool.eq_false_iff.2 hparent⟩
              rw [spelled, hhost]
              rfl

/-- What the loop adds to the mounts accepted so far. -/
theorem acceptedFrom_cases
    {knownHostPaths : List Text} {inputs : List Input} {out result : List HostMount}
    (h : validateFrom canonicalize knownHostPaths out inputs = .ok result) :
    ∃ mounts, result = out ++ mounts ∧
      spellings canonicalize knownHostPaths inputs = mounts.map HostMount.containerPath ∧
      (∀ m ∈ mounts, isProtected m.containerPath = false ∧ hasParentDir m.containerPath = false) ∧
      (∀ m ∈ mounts, ∀ n ∈ out, n.containerPath ≠ m.containerPath) ∧
      mounts.Pairwise fun a b => a.containerPath ≠ b.containerPath := by
  induction inputs generalizing out with
  | nil =>
      cases h
      exact ⟨[], by simp [spellings]⟩
  | cons input inputs ih =>
      obtain ⟨host, container, writable⟩ := input
      cases hmount : validateMount canonicalize host container writable knownHostPaths with
      | error e => simp [validateFrom, hmount, bind, Except.bind] at h
      | ok mount =>
          simp only [validateFrom, hmount, bind, Except.bind] at h
          split at h
          · cases h
          · rename_i hfresh
            obtain ⟨hspelled, hunprotected⟩ := accepted_cases hmount
            obtain ⟨mounts, rfl, hspellings, hall, hout, hpairwise⟩ := ih h
            refine ⟨mount :: mounts, by simp, ?_, ?_, ?_, ?_⟩
            · rw [spellings, List.filterMap_cons_some hspelled]
              exact congrArg _ hspellings
            · exact List.forall_mem_cons.2 ⟨hunprotected, hall⟩
            · refine List.forall_mem_cons.2 ⟨fun n hn heq => hfresh ?_, fun m hm n hn => ?_⟩
              · exact List.any_eq_true.2 ⟨n, hn, by simpa using heq⟩
              · exact hout m hm n (List.mem_append_left _ hn)
            · exact List.pairwise_cons.2
                ⟨fun m hm => hout m hm mount (List.mem_append_right _ (by simp)), hpairwise⟩

/-- An accepted path has no `..`, so the runtime resolves none when it cleans it. -/
theorem noParentDir_of_accepted
    {path : Text}
    (h : hasParentDir path = false) :
    ['.', '.'] ∉ segments path := by
  intro hmem
  have hsplit := (List.mem_filter.1 hmem).1
  rw [hasParentDir, ← Bool.not_eq_true, List.contains_iff_mem] at h
  exact h hsplit

variable (canonicalize) in
/-- An accepted list of grants is safe once cleaned if and only if no path of it that is
spelled other than as it is cleaned cleans to a protected path, or to the path of another
grant. -/
theorem validateMounts_safe_iff
    (inputs : List Input)
    (knownHostPaths : List Text)
    {mounts : List HostMount}
    (h : validateMounts canonicalize inputs knownHostPaths = .ok mounts) :
    (∀ m ∈ mounts, ['.', '.'] ∉ segments m.containerPath) ∧
      (Safe mounts ↔ CleanlySpelled (spellings canonicalize knownHostPaths inputs)) := by
  obtain ⟨accepted, hmounts, hspellings, hall, -, hpairwise⟩ := acceptedFrom_cases h
  rw [List.nil_append] at hmounts
  subst hmounts
  rw [hspellings]
  refine ⟨fun m hm => noParentDir_of_accepted (hall m hm).2, ?_⟩
  constructor
  · intro hsafe
    refine ⟨List.forall_mem_map.2 fun m hm _ => ?_, List.pairwise_map.2 ?_⟩
    · rw [← Bool.not_eq_true, isProtected_clean_iff]
      exact hsafe.unprotected m hm
    · refine hsafe.distinct.imp fun {a b} hne _ => ?_
      exact hne
  · rintro ⟨hprotected, hdistinct⟩
    refine ⟨fun m hm => ?_, ?_⟩
    · rw [← isProtected_clean_iff, Bool.not_eq_true]
      by_cases hclean : m.containerPath = clean m.containerPath
      · rw [← hclean]
        exact (hall m hm).1
      · exact List.forall_mem_map.1 hprotected m hm hclean
    · have hboth := hpairwise.and (List.pairwise_map.1 hdistinct)
      refine hboth.imp fun {a b} hab heq => ?_
      by_cases hclean : a.containerPath = clean a.containerPath ∧
          b.containerPath = clean b.containerPath
      · exact hab.1 (hclean.1.trans (heq.trans hclean.2.symm))
      · rw [not_and_or] at hclean
        exact hab.2 hclean heq

/-- A file system with one directory. -/
def oneDirectory (path : Text) : Option Text :=
  if path = "/data".toList then some "/data".toList else none

/-- A grant below `/mnt`, one trailing slash over, and one at the host path. -/
def plainGrants : List Input :=
  [("/data".toList, some "/mnt/data/".toList, true), ("/data".toList, none, false)]

def plainMounts : List HostMount :=
  [{ hostPath := "/data".toList, containerPath := "/mnt/data".toList, writable := true },
    { hostPath := "/data".toList, containerPath := "/data".toList, writable := false }]

theorem validateMounts_safe_plain : Safe plainMounts :=
  (validateMounts_safe_iff oneDirectory plainGrants [] (by decide)).2.2 (by decide)

/-- A grant whose container path is spelled with a doubled slash lands on `/root`. -/
theorem not_safe_doubledSlash :
    ∃ mounts, validateMounts oneDirectory
        [("/data".toList, some "//root".toList, true)] [] = .ok mounts ∧
      ¬Safe mounts := by
  refine ⟨[⟨"/data".toList, "//root".toList, true⟩], by decide, fun h => ?_⟩
  refine h.unprotected _ List.mem_cons_self ?_
  exact Or.inl ⟨"/root".toList, by decide, by decide⟩

end Accepted

end Mounts
end Vestad
end Vesta
