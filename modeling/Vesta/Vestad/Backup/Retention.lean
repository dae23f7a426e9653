import Vesta.Vestad.Types
import Mathlib.Data.List.Sort

/-!
# Which backups are due and which expire

Retention counts two families.  Periodic and pre-restore backups share one
rolling family of a fixed size; pre-update backups are kept as whole sets of the
newest distinct versions.  Manual backups never expire.

The result of this module is that retention never expires a backup that leads
its family, as long as it keeps at least one.
-/

namespace Vesta
namespace Vestad
namespace Backup

/-- Newest first; backups of one second keep their order. -/
def sortNewest (backups : List BackupInfo) : List BackupInfo :=
  backups.insertionSort fun a b => b.createdAt ≤ a.createdAt

/-- Periodic and pre-restore backups, one rolling family. -/
def inFamily (b : BackupInfo) : Bool :=
  b.backupType = .periodic ∨ b.backupType = .preRestore

def isPreUpdate (b : BackupInfo) : Bool :=
  b.backupType = .preUpdate

/-- The backups past the newest `limit` distinct versions, given the versions kept so far. -/
def expiredVersions (limit : Nat) : List String → List BackupInfo → List Nat
  | _, [] => []
  | kept, info :: rest =>
      let version := info.fromVersion.getD ""
      if version ∈ kept then expiredVersions limit kept rest
      else if kept.length < limit then expiredVersions limit (kept ++ [version]) rest
      else info.id :: expiredVersions limit kept rest

/-- Determine which automatic backups should be deleted. -/
def computeBackupsToDelete
    (backups : List BackupInfo) (retention : RetentionPolicy) : List Nat :=
  let family := sortNewest (backups.filter inFamily)
  let preUpdate := sortNewest (backups.filter isPreUpdate)
  (family.drop retention.periodic).map (·.id) ++
    expiredVersions retention.preUpdateVersions [] preUpdate

inductive PassKind
  | routine
  | preUpdate (fromVersion : String)
deriving DecidableEq

def PassKind.backupType : PassKind → BackupType
  | .routine => .periodic
  | .preUpdate _ => .preUpdate

def PassKind.versionTag : PassKind → Option String
  | .routine => none
  | .preUpdate fromVersion => some fromVersion

def preUpdateReuseSecs : Nat := 24 * 3600

def snapshotFreshnessSlackSecs : Nat := 2 * 3600

def minAgeForBackupSecs : Nat := 6 * 3600

/-- Whether a pass takes a snapshot of an agent with these backups. -/
def agentNeedsSnapshot
    (kind : PassKind) (backups : List BackupInfo) (nowEpoch everyNDays : Nat) : Bool :=
  match kind with
  | .routine =>
      let staleBefore := nowEpoch - everyNDays * 86400 + snapshotFreshnessSlackSecs
      !backups.any fun b =>
        (b.backupType = .periodic ∨ b.backupType = .preUpdate) ∧ staleBefore ≤ b.createdAt
  | .preUpdate fromVersion =>
      let reuseAfter := nowEpoch - preUpdateReuseSecs
      !backups.any fun b =>
        b.backupType = .preUpdate ∧ b.fromVersion = some fromVersion ∧ reuseAfter ≤ b.createdAt

/-! ## What retention keeps -/

/-- The backup comes first when these are sorted, and no other has its identifier. -/
def Leads (x : BackupInfo) (backups : List BackupInfo) : Prop :=
  ∃ rest, sortNewest backups = x :: rest ∧ x.id ∉ rest.map (·.id)

theorem perm_sortNewest
    (backups : List BackupInfo) :
    (sortNewest backups).Perm backups :=
  List.perm_insertionSort _ _

theorem mem_sortNewest
    {b : BackupInfo} {backups : List BackupInfo} :
    b ∈ sortNewest backups ↔ b ∈ backups :=
  (perm_sortNewest backups).mem_iff

theorem mem_expiredVersions
    {limit id : Nat} {kept : List String} {backups : List BackupInfo}
    (h : id ∈ expiredVersions limit kept backups) :
    id ∈ backups.map (·.id) := by
  induction backups generalizing kept with
  | nil => cases h
  | cons info rest ih =>
      rw [List.map_cons, List.mem_cons]
      simp only [expiredVersions] at h
      split at h
      · exact .inr (ih h)
      · split at h
        · exact .inr (ih h)
        · rcases List.mem_cons.1 h with heq | hrest
          · exact .inl heq
          · exact .inr (ih hrest)

/-- Retention deletes backups from the list it is given. -/
theorem mem_computeBackupsToDelete
    {id : Nat} {backups : List BackupInfo} {retention : RetentionPolicy}
    (h : id ∈ computeBackupsToDelete backups retention) :
    id ∈ backups.map (·.id) := by
  have hsub :
      ∀ p : BackupInfo → Bool,
        id ∈ (sortNewest (backups.filter p)).map (·.id) → id ∈ backups.map (·.id) := by
    intro p hmem
    obtain ⟨b, hb, rfl⟩ := List.mem_map.1 hmem
    exact List.mem_map_of_mem (List.mem_of_mem_filter (mem_sortNewest.1 hb))
  rcases List.mem_append.1 h with hfamily | hversions
  · obtain ⟨b, hb, rfl⟩ := List.mem_map.1 hfamily
    exact hsub _ (List.mem_map_of_mem (List.mem_of_mem_drop hb))
  · exact hsub _ (mem_expiredVersions hversions)

/-- A backup that is strictly newer than the others leads them. -/
theorem leads_of_lt
    {x : BackupInfo} {backups : List BackupInfo}
    (hids : (backups.map (·.id)).Nodup)
    (hx : x ∈ backups)
    (hlt : ∀ b ∈ backups, b = x ∨ b.createdAt < x.createdAt) :
    Leads x backups := by
  have hperm := perm_sortNewest backups
  have hsorted : (sortNewest backups).Pairwise fun a b => b.createdAt ≤ a.createdAt :=
    List.pairwise_insertionSort _ _
  cases hsort : sortNewest backups with
  | nil => cases hsort ▸ mem_sortNewest.2 hx
  | cons first rest =>
      rw [hsort] at hperm hsorted
      have hfirst : first = x := by
        rcases hlt first (hperm.mem_iff.1 List.mem_cons_self) with heq | hnewer
        · exact heq
        · rcases List.mem_cons.1 (hperm.mem_iff.2 hx) with heq | hrest
          · exact heq.symm
          · have := List.rel_of_pairwise_cons hsorted hrest
            omega
      subst hfirst
      have hnodup : ((first :: rest).map (·.id)).Nodup := (hperm.map _).nodup_iff.2 hids
      exact ⟨rest, hsort, (List.nodup_cons.1 hnodup).1⟩

/-- A backup put in front leads those that are no newer. -/
theorem leads_cons
    {x : BackupInfo} {backups : List BackupInfo}
    (hid : x.id ∉ backups.map (·.id))
    (hle : ∀ b ∈ backups, b.createdAt ≤ x.createdAt) :
    Leads x (x :: backups) := by
  refine ⟨sortNewest backups, List.insertionSort_cons_of_forall_rel _ hle, ?_⟩
  intro hmem
  exact hid (((perm_sortNewest backups).map _).mem_iff.1 hmem)

/-- The newest version is never past the limit. -/
theorem not_mem_expiredVersions
    {x : BackupInfo} {rest : List BackupInfo} {limit : Nat}
    (hlimit : 1 ≤ limit)
    (hid : x.id ∉ rest.map (·.id)) :
    x.id ∉ expiredVersions limit [] (x :: rest) := by
  intro hmem
  have hroom : ([] : List String).length < limit := hlimit
  rw [expiredVersions, if_neg List.not_mem_nil, if_pos hroom] at hmem
  exact hid (mem_expiredVersions hmem)

/-- Retention keeps a backup that leads its family. -/
theorem not_mem_computeBackupsToDelete
    {x : BackupInfo} {backups : List BackupInfo} {retention : RetentionPolicy}
    (hperiodic : 1 ≤ retention.periodic)
    (hversions : 1 ≤ retention.preUpdateVersions)
    (hids : (backups.map (·.id)).Nodup)
    (hx : x ∈ backups)
    (hfamily : inFamily x = true → Leads x (backups.filter inFamily))
    (hpreUpdate : isPreUpdate x = true → Leads x (backups.filter isPreUpdate)) :
    x.id ∉ computeBackupsToDelete backups retention := by
  have hsame :
      ∀ p : BackupInfo → Bool,
        x.id ∈ (sortNewest (backups.filter p)).map (·.id) → p x = true := by
    intro p hmem
    obtain ⟨b, hb, hid⟩ := List.mem_map.1 hmem
    have hfilter := List.mem_filter.1 (mem_sortNewest.1 hb)
    rw [← List.inj_on_of_nodup_map hids hfilter.1 hx hid]
    exact hfilter.2
  intro hmem
  rcases List.mem_append.1 hmem with hdropped | hexpired
  · obtain ⟨b, hb, hid⟩ := List.mem_map.1 hdropped
    have hin := hsame inFamily (hid ▸ List.mem_map_of_mem (List.mem_of_mem_drop hb))
    obtain ⟨rest, hsort, hrest⟩ := hfamily hin
    obtain ⟨n, hn⟩ := Nat.exists_eq_add_of_le' hperiodic
    rw [hsort, hn, List.drop_succ_cons] at hb
    exact hrest (hid ▸ List.mem_map_of_mem (List.mem_of_mem_drop hb))
  · have hin := hsame isPreUpdate (mem_expiredVersions hexpired)
    obtain ⟨rest, hsort, hrest⟩ := hpreUpdate hin
    rw [hsort] at hexpired
    exact not_mem_expiredVersions hversions hrest hexpired

end Backup
end Vestad
end Vesta
