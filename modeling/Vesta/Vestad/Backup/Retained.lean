import Vesta.Vestad.Backup.Retention
import Mathlib.Data.Finset.Card

/-!
# What retention keeps exactly

`Retained` says what retention is for, with no mention of how it is computed: the
list splits into the backups kept and the backups dropped; of the rolling family
the newest are kept, up to its size; of the pre-update backups those of the most
recent versions are kept.  Manual backups are never dropped.

Retention drops exactly such a part, drops nothing of what it has kept, and does
not depend on the order of a list whose times are distinct.
-/

namespace Vesta
namespace Vestad
namespace Backup

/-- The version a pre-update backup rolls back to. -/
def version (b : BackupInfo) : String := b.fromVersion.getD ""

/-- At most `limit` versions of these backups, each once, and none of the others is more
recent. -/
structure MostRecent (limit : Nat) (backups : List BackupInfo) (recent : List String) :
    Prop where
  nodup : recent.Nodup
  versions : ∀ v ∈ recent, v ∈ backups.map version
  length : recent.length = min limit (backups.map version).toFinset.card
  newest :
    ∀ v ∈ recent, ∀ d ∈ backups, version d ∉ recent →
      ∃ b ∈ backups, version b = v ∧ d.createdAt ≤ b.createdAt

/-- The backups split into those retention keeps and those it drops. -/
structure Retained
    (retention : RetentionPolicy) (backups kept dropped : List BackupInfo) : Prop where
  split : (kept ++ dropped).Perm backups
  manual : ∀ b ∈ dropped, b.backupType ≠ .manual
  familySize :
    (kept.filter inFamily).length =
      min retention.periodic (backups.filter inFamily).length
  familyNewest :
    ∀ b ∈ kept, ∀ d ∈ dropped, inFamily b = true → inFamily d = true →
      d.createdAt ≤ b.createdAt
  preUpdate :
    ∃ recent,
      MostRecent retention.preUpdateVersions (backups.filter isPreUpdate) recent ∧
        (∀ b ∈ kept, isPreUpdate b = true → version b ∈ recent) ∧
        ∀ d ∈ dropped, isPreUpdate d = true → version d ∉ recent

/-! ## The versions that are kept -/

/-- The versions kept at the end, given the versions kept so far. -/
def keptVersions (limit : Nat) : List String → List BackupInfo → List String
  | kept, [] => kept
  | kept, info :: rest =>
      if version info ∈ kept then keptVersions limit kept rest
      else if kept.length < limit then keptVersions limit (kept ++ [version info]) rest
      else keptVersions limit kept rest

section Versions

variable {limit : Nat} {kept : List String} {backups : List BackupInfo}

theorem mem_keptVersions_of_mem
    {v : String}
    (h : v ∈ kept) :
    v ∈ keptVersions limit kept backups := by
  induction backups generalizing kept with
  | nil => exact h
  | cons info rest ih =>
      rw [keptVersions]
      split
      · exact ih h
      · split
        · exact ih (List.mem_append_left _ h)
        · exact ih h

theorem keptVersions_of_full
    (h : limit ≤ kept.length) :
    keptVersions limit kept backups = kept := by
  induction backups with
  | nil => rfl
  | cons info rest ih =>
      rw [keptVersions, if_neg (Nat.not_lt.2 h)]
      split <;> exact ih

/-- What expires is what has a version that is not kept. -/
theorem expiredVersions_eq
    (limit : Nat) (kept : List String) (backups : List BackupInfo) :
    expiredVersions limit kept backups =
      (backups.filter fun b => version b ∉ keptVersions limit kept backups).map (·.id) := by
  induction backups generalizing kept with
  | nil => rfl
  | cons info rest ih =>
      rw [expiredVersions, keptVersions]
      change (if version info ∈ kept then _ else if _ then _ else _) = _
      split
      · rename_i hmem
        have hin : version info ∈ keptVersions limit kept rest := mem_keptVersions_of_mem hmem
        rw [ih, List.filter_cons_of_neg (by simpa using hin)]
      · rename_i hmem
        split
        · rename_i hroom
          have hin : version info ∈ keptVersions limit (kept ++ [version info]) rest :=
            mem_keptVersions_of_mem (by simp)
          rw [List.filter_cons_of_neg (by simpa using hin)]
          exact ih _
        · rename_i hfull
          have hout : version info ∉ keptVersions limit kept rest := by
            rwa [keptVersions_of_full (Nat.not_lt.1 hfull)]
          rw [List.filter_cons_of_pos (by simpa using hout), List.map_cons, ih]

theorem nodup_keptVersions
    (h : kept.Nodup) :
    (keptVersions limit kept backups).Nodup := by
  induction backups generalizing kept with
  | nil => exact h
  | cons info rest ih =>
      rw [keptVersions]
      split
      · exact ih h
      · rename_i hmem
        split
        · refine ih (List.nodup_append.2 ⟨h, List.nodup_singleton _, ?_⟩)
          rintro v hv w hw rfl
          exact hmem (List.mem_singleton.1 hw ▸ hv)
        · exact ih h

theorem length_keptVersions_le
    (h : kept.length ≤ limit) :
    (keptVersions limit kept backups).length ≤ limit := by
  induction backups generalizing kept with
  | nil => exact h
  | cons info rest ih =>
      rw [keptVersions]
      split
      · exact ih h
      · split
        · rename_i hroom
          refine ih ?_
          rw [List.length_append]
          exact hroom
        · exact ih h

theorem mem_of_mem_keptVersions
    {v : String}
    (h : v ∈ keptVersions limit kept backups) :
    v ∈ kept ∨ v ∈ backups.map version := by
  induction backups generalizing kept with
  | nil => exact .inl h
  | cons info rest ih =>
      rw [List.map_cons, List.mem_cons]
      rw [keptVersions] at h
      split at h
      · rcases ih h with hkept | hrest
        · exact .inl hkept
        · exact .inr (.inr hrest)
      · split at h
        · rcases ih h with hkept | hrest
          · rcases List.mem_append.1 hkept with hkept | hnew
            · exact .inl hkept
            · exact .inr (.inl (List.mem_singleton.1 hnew))
          · exact .inr (.inr hrest)
        · rcases ih h with hkept | hrest
          · exact .inl hkept
          · exact .inr (.inr hrest)

/-- A version that is not kept found the limit reached. -/
theorem full_of_not_mem
    {d : BackupInfo}
    (hd : d ∈ backups)
    (h : version d ∉ keptVersions limit kept backups) :
    limit ≤ (keptVersions limit kept backups).length := by
  induction backups generalizing kept with
  | nil => cases hd
  | cons info rest ih =>
      rw [keptVersions] at h ⊢
      rcases List.mem_cons.1 hd with rfl | hrest
      · split at h
        · exact (h (mem_keptVersions_of_mem ‹_›)).elim
        · split at h
          · exact (h (mem_keptVersions_of_mem (by simp))).elim
          · rename_i hmem hfull
            rw [if_neg hmem, if_neg hfull, keptVersions_of_full (Nat.not_lt.1 hfull)]
            exact Nat.not_lt.1 hfull
      · split
        · rename_i hmem
          rw [if_pos hmem] at h
          exact ih hrest h
        · rename_i hmem
          rw [if_neg hmem] at h
          split
          · rename_i hroom
            rw [if_pos hroom] at h
            exact ih hrest h
          · rename_i hfull
            rw [if_neg hfull] at h
            exact ih hrest h

/-- When the backups come newest first, a version that is kept has a backup no older than any of
a version that is not. -/
theorem newest_keptVersions
    (hsorted : backups.Pairwise fun a b => b.createdAt ≤ a.createdAt)
    {v : String}
    (hv : v ∈ keptVersions limit kept backups) :
    v ∈ kept ∨
      ∃ b ∈ backups, version b = v ∧
        ∀ d ∈ backups, version d ∉ keptVersions limit kept backups →
          d.createdAt ≤ b.createdAt := by
  induction backups generalizing kept with
  | nil => exact .inl hv
  | cons info rest ih =>
      obtain ⟨hfirst, hrest⟩ := List.pairwise_cons.1 hsorted
      -- the rest decides, for a version that the first backup leaves out
      have hlater :
          ∀ kept', (version info ∈ keptVersions limit kept' rest) →
            v ∈ keptVersions limit kept' rest →
            v ∈ kept' ∨
              ∃ b ∈ info :: rest, version b = v ∧
                ∀ d ∈ info :: rest, version d ∉ keptVersions limit kept' rest →
                  d.createdAt ≤ b.createdAt := by
        intro kept' hinfo hv
        rcases ih hrest hv with hkept | ⟨b, hb, hversion, hnewest⟩
        · exact .inl hkept
        · refine .inr ⟨b, List.mem_cons_of_mem _ hb, hversion, ?_⟩
          intro d hd hout
          rcases List.mem_cons.1 hd with rfl | hd
          · exact (hout hinfo).elim
          · exact hnewest d hd hout
      rw [keptVersions] at hv ⊢
      split at hv
      · rename_i hmem
        rw [if_pos hmem]
        exact hlater kept (mem_keptVersions_of_mem hmem) hv
      · rename_i hmem
        rw [if_neg hmem]
        split at hv
        · rename_i hroom
          rw [if_pos hroom]
          have hin : version info ∈ keptVersions limit (kept ++ [version info]) rest :=
            mem_keptVersions_of_mem (by simp)
          rcases hlater _ hin hv with hkept | hnewer
          · rcases List.mem_append.1 hkept with hkept | hnew
            · exact .inl hkept
            · refine .inr ⟨info, List.mem_cons_self, (List.mem_singleton.1 hnew).symm, ?_⟩
              intro d hd hout
              rcases List.mem_cons.1 hd with rfl | hd
              · exact Nat.le_refl _
              · exact hfirst d hd
          · exact .inr hnewer
        · rename_i hfull
          rw [keptVersions_of_full (Nat.not_lt.1 hfull)] at hv
          exact .inl hv

end Versions

/-- The versions kept of backups that come newest first are the most recent ones. -/
theorem mostRecent_keptVersions
    {limit : Nat} {backups : List BackupInfo}
    (hsorted : backups.Pairwise fun a b => b.createdAt ≤ a.createdAt) :
    MostRecent limit backups (keptVersions limit [] backups) := by
  have hnodup : (keptVersions limit [] backups).Nodup := nodup_keptVersions List.nodup_nil
  have hversions : ∀ v ∈ keptVersions limit [] backups, v ∈ backups.map version := by
    intro v hv
    rcases mem_of_mem_keptVersions hv with hnil | hmem
    · cases hnil
    · exact hmem
  have hle : (keptVersions limit [] backups).length ≤ limit :=
    length_keptVersions_le (Nat.zero_le _)
  refine ⟨hnodup, hversions, ?_, ?_⟩
  · have hsub :
        (keptVersions limit [] backups).toFinset ⊆ (backups.map version).toFinset := by
      intro v hv
      exact List.mem_toFinset.2 (hversions v (List.mem_toFinset.1 hv))
    have hcard : (keptVersions limit [] backups).toFinset.card =
        (keptVersions limit [] backups).length :=
      List.toFinset_card_of_nodup hnodup
    by_cases hall : ∀ d ∈ backups, version d ∈ keptVersions limit [] backups
    · -- every version is kept
      have hsame : (keptVersions limit [] backups).toFinset = (backups.map version).toFinset := by
        refine Finset.Subset.antisymm hsub ?_
        intro v hv
        obtain ⟨d, hd, rfl⟩ := List.mem_map.1 (List.mem_toFinset.1 hv)
        exact List.mem_toFinset.2 (hall d hd)
      rw [← hsame, hcard]
      omega
    · -- the limit is reached
      obtain ⟨d, hd, hout⟩ : ∃ d ∈ backups, version d ∉ keptVersions limit [] backups := by
        simpa using hall
      have hfull := full_of_not_mem hd hout
      have hbound := Finset.card_le_card hsub
      omega
  · intro v hv d hd hout
    rcases newest_keptVersions hsorted hv with hnil | ⟨b, hb, hversion, hnewest⟩
    · cases hnil
    · exact ⟨b, hb, hversion, hnewest d hd hout⟩

theorem MostRecent.perm
    {limit : Nat} {backups backups' : List BackupInfo} {recent : List String}
    (h : MostRecent limit backups recent)
    (hperm : backups.Perm backups') :
    MostRecent limit backups' recent where
  nodup := h.nodup
  versions v hv := (hperm.map version).mem_iff.1 (h.versions v hv)
  length := by
    rw [h.length, List.toFinset_eq_of_perm _ _ (hperm.map version)]
  newest v hv d hd hout := by
    obtain ⟨b, hb, hnewer⟩ := h.newest v hv d (hperm.mem_iff.2 hd) hout
    exact ⟨b, hperm.mem_iff.1 hb, hnewer⟩

/-! ## The split -/

theorem pairwise_sortNewest (backups : List BackupInfo) :
    (sortNewest backups).Pairwise fun a b => b.createdAt ≤ a.createdAt :=
  List.pairwise_insertionSort _ _

def isManual (b : BackupInfo) : Bool := b.backupType = .manual

theorem not_isPreUpdate_of_inFamily
    {b : BackupInfo}
    (h : inFamily b = true) :
    isPreUpdate b = false := by
  simp only [inFamily, decide_eq_true_eq] at h
  rcases h with h | h <;> simp [isPreUpdate, h]

theorem not_inFamily_of_isPreUpdate
    {b : BackupInfo}
    (h : isPreUpdate b = true) :
    inFamily b = false := by
  simp only [isPreUpdate, decide_eq_true_eq] at h
  simp [inFamily, h]

theorem not_inFamily_of_isManual
    {b : BackupInfo}
    (h : isManual b = true) :
    inFamily b = false ∧ isPreUpdate b = false := by
  simp only [isManual, decide_eq_true_eq] at h
  simp [inFamily, isPreUpdate, h]

/-- A list is its rolling family, its pre-update backups and its manual backups. -/
theorem perm_families (backups : List BackupInfo) :
    (backups.filter inFamily ++ (backups.filter isPreUpdate ++ backups.filter isManual)).Perm
      backups := by
  have hpre :
      (backups.filter fun b => !inFamily b).filter isPreUpdate = backups.filter isPreUpdate := by
    rw [List.filter_filter]
    refine List.filter_congr fun b _ => ?_
    cases h : isPreUpdate b with
    | true => simp [not_inFamily_of_isPreUpdate h]
    | false => rfl
  have hmanual :
      ((backups.filter fun b => !inFamily b).filter fun b => !isPreUpdate b) =
        backups.filter isManual := by
    rw [List.filter_filter]
    refine List.filter_congr fun b _ => ?_
    cases h : b.backupType <;> simp [inFamily, isPreUpdate, isManual, h]
  have hrest := List.filter_append_perm isPreUpdate (backups.filter fun b => !inFamily b)
  rw [hpre, hmanual] at hrest
  exact (hrest.append_left _).trans (List.filter_append_perm inFamily backups)

section Split

variable (backups : List BackupInfo) (retention : RetentionPolicy)

/-- The rolling family, newest first. -/
def family : List BackupInfo := sortNewest (backups.filter inFamily)

/-- The pre-update backups, newest first. -/
def preUpdateFamily : List BackupInfo := sortNewest (backups.filter isPreUpdate)

def recentVersions : List String :=
  keptVersions retention.preUpdateVersions [] (preUpdateFamily backups)

def keptBackups : List BackupInfo :=
  (family backups).take retention.periodic ++
    ((preUpdateFamily backups).filter (fun b => version b ∈ recentVersions backups retention) ++
      backups.filter isManual)

def droppedBackups : List BackupInfo :=
  (family backups).drop retention.periodic ++
    (preUpdateFamily backups).filter fun b => version b ∉ recentVersions backups retention

variable {backups} {retention}

theorem inFamily_of_mem_family
    {b : BackupInfo}
    (h : b ∈ family backups) :
    inFamily b = true :=
  (List.mem_filter.1 (mem_sortNewest.1 h)).2

theorem isPreUpdate_of_mem_preUpdateFamily
    {b : BackupInfo}
    (h : b ∈ preUpdateFamily backups) :
    isPreUpdate b = true :=
  (List.mem_filter.1 (mem_sortNewest.1 h)).2

theorem mem_keptBackups_of_inFamily
    {b : BackupInfo}
    (h : b ∈ keptBackups backups retention)
    (hfamily : inFamily b = true) :
    b ∈ (family backups).take retention.periodic := by
  rcases List.mem_append.1 h with h | h
  · exact h
  · rcases List.mem_append.1 h with h | h
    · have hpre := isPreUpdate_of_mem_preUpdateFamily (List.mem_filter.1 h).1
      simp [not_inFamily_of_isPreUpdate hpre] at hfamily
    · simp [(not_inFamily_of_isManual (List.mem_filter.1 h).2).1] at hfamily

theorem mem_droppedBackups_of_inFamily
    {b : BackupInfo}
    (h : b ∈ droppedBackups backups retention)
    (hfamily : inFamily b = true) :
    b ∈ (family backups).drop retention.periodic := by
  rcases List.mem_append.1 h with h | h
  · exact h
  · have hpre := isPreUpdate_of_mem_preUpdateFamily (List.mem_filter.1 h).1
    simp [not_inFamily_of_isPreUpdate hpre] at hfamily

theorem filter_inFamily_keptBackups :
    (keptBackups backups retention).filter inFamily =
      (family backups).take retention.periodic := by
  have hfamily :
      ((family backups).take retention.periodic).filter inFamily =
        (family backups).take retention.periodic :=
    List.filter_eq_self.2 fun b hb => inFamily_of_mem_family (List.mem_of_mem_take hb)
  have hrest :
      ((preUpdateFamily backups).filter (fun b => version b ∈ recentVersions backups retention) ++
        backups.filter isManual).filter inFamily = [] := by
    refine List.filter_eq_nil_iff.2 fun b hb => ?_
    rcases List.mem_append.1 hb with hb | hb
    · have hpre := isPreUpdate_of_mem_preUpdateFamily (List.mem_filter.1 hb).1
      simp [not_inFamily_of_isPreUpdate hpre]
    · simp [(not_inFamily_of_isManual (List.mem_filter.1 hb).2).1]
  rw [keptBackups, List.filter_append, hfamily, hrest, List.append_nil]

theorem perm_kept_dropped :
    (keptBackups backups retention ++ droppedBackups backups retention).Perm backups := by
  have hfamily := perm_sortNewest (backups.filter inFamily)
  have hpre := perm_sortNewest (backups.filter isPreUpdate)
  have hall := perm_families backups
  have hsplit :
      ((preUpdateFamily backups).filter (fun b => version b ∈ recentVersions backups retention) ++
        (preUpdateFamily backups).filter fun b => version b ∉ recentVersions backups retention).Perm
          (preUpdateFamily backups) := by
    have hboth := List.filter_append_perm
      (fun b => decide (version b ∈ recentVersions backups retention)) (preUpdateFamily backups)
    simpa [decide_not] using hboth
  have htake : (family backups).take retention.periodic ++
      (family backups).drop retention.periodic = family backups :=
    List.take_append_drop _ _
  rw [List.perm_iff_count] at hfamily hpre hall hsplit ⊢
  intro b
  have h1 := hfamily b
  have h2 := hpre b
  have h3 := hall b
  have h4 := hsplit b
  have h5 := congrArg (List.count b) htake
  change List.count b (family backups) = _ at h1
  change List.count b (preUpdateFamily backups) = _ at h2
  simp only [keptBackups, droppedBackups, List.count_append] at *
  omega

/-- The split that retention makes. -/
theorem retained_split :
    Retained retention backups
      (keptBackups backups retention) (droppedBackups backups retention) where
  split := perm_kept_dropped
  manual b hb hmanual := by
    have hnot := not_inFamily_of_isManual (b := b) (by simp [isManual, hmanual])
    rcases List.mem_append.1 hb with hb | hb
    · simp [inFamily_of_mem_family (List.mem_of_mem_drop hb)] at hnot
    · simp [isPreUpdate_of_mem_preUpdateFamily (List.mem_filter.1 hb).1] at hnot
  familySize := by
    rw [filter_inFamily_keptBackups, List.length_take, family,
      (perm_sortNewest (backups.filter inFamily)).length_eq]
  familyNewest b hb d hd hbfamily hdfamily := by
    have hsorted : (family backups).Pairwise fun a b => b.createdAt ≤ a.createdAt :=
      pairwise_sortNewest _
    rw [← List.take_append_drop retention.periodic (family backups)] at hsorted
    exact (List.pairwise_append.1 hsorted).2.2
      b (mem_keptBackups_of_inFamily hb hbfamily)
      d (mem_droppedBackups_of_inFamily hd hdfamily)
  preUpdate := by
    have hrecent : MostRecent retention.preUpdateVersions (backups.filter isPreUpdate)
        (recentVersions backups retention) :=
      (mostRecent_keptVersions (pairwise_sortNewest _)).perm (perm_sortNewest _)
    refine ⟨recentVersions backups retention, hrecent, ?_, ?_⟩
    · intro b hb hpre
      rcases List.mem_append.1 hb with hb | hb
      · have hfamily := inFamily_of_mem_family (List.mem_of_mem_take hb)
        simp [not_isPreUpdate_of_inFamily hfamily] at hpre
      · rcases List.mem_append.1 hb with hb | hb
        · simpa using (List.mem_filter.1 hb).2
        · simp [(not_inFamily_of_isManual (List.mem_filter.1 hb).2).2] at hpre
    · intro d hd hpre
      rcases List.mem_append.1 hd with hd | hd
      · have hfamily := inFamily_of_mem_family (List.mem_of_mem_drop hd)
        simp [not_isPreUpdate_of_inFamily hfamily] at hpre
      · simpa using (List.mem_filter.1 hd).2

theorem computeBackupsToDelete_eq :
    computeBackupsToDelete backups retention =
      (droppedBackups backups retention).map (·.id) := by
  rw [droppedBackups, List.map_append]
  change _ ++ expiredVersions _ [] (preUpdateFamily backups) = _
  rw [expiredVersions_eq]
  rfl

end Split

/-! ## What follows -/

/-- Retention drops nothing of what it has kept, in whatever order that is listed. -/
theorem Retained.stable
    {retention : RetentionPolicy} {backups kept dropped survivors : List BackupInfo}
    (h : Retained retention backups kept dropped)
    (hperm : survivors.Perm kept) :
    computeBackupsToDelete survivors retention = [] := by
  have hfamily : (family survivors).drop retention.periodic = [] := by
    refine List.drop_eq_nil_of_le ?_
    rw [family, (perm_sortNewest _).length_eq, (hperm.filter inFamily).length_eq, h.familySize]
    exact Nat.min_le_left _ _
  obtain ⟨recent, hrecent, hkept, -⟩ := h.preUpdate
  have hin : ∀ v ∈ (preUpdateFamily survivors).map version, v ∈ recent := by
    intro v hv
    obtain ⟨b, hb, rfl⟩ := List.mem_map.1 hv
    have hsurvives := (List.mem_filter.1 (mem_sortNewest.1 hb)).1
    exact hkept b (hperm.mem_iff.1 hsurvives) (isPreUpdate_of_mem_preUpdateFamily hb)
  have hpreUpdate :
      (preUpdateFamily survivors).filter (fun b => version b ∉ recentVersions survivors retention) =
        [] := by
    refine List.filter_eq_nil_iff.2 fun d hd hout => ?_
    have hout : version d ∉ recentVersions survivors retention := by simpa using hout
    have hfull := full_of_not_mem hd hout
    -- one more version than the limit would be recent
    have hnodup : (version d :: recentVersions survivors retention).Nodup :=
      List.nodup_cons.2 ⟨hout, nodup_keptVersions List.nodup_nil⟩
    have hsub : version d :: recentVersions survivors retention ⊆ recent := by
      intro v hv
      rcases List.mem_cons.1 hv with rfl | hv
      · exact hin _ (List.mem_map_of_mem hd)
      · rcases mem_of_mem_keptVersions hv with hnil | hmem
        · cases hnil
        · exact hin v hmem
    have hlength := (hnodup.subperm hsub).length_le
    have hbound : recent.length ≤ retention.preUpdateVersions := by
      rw [hrecent.length]
      exact Nat.min_le_left _ _
    rw [List.length_cons] at hlength
    change retention.preUpdateVersions ≤ (recentVersions survivors retention).length at hfull
    omega
  rw [computeBackupsToDelete_eq, droppedBackups, hfamily, hpreUpdate]
  rfl

/-- Backups of distinct times have one order. -/
theorem sortNewest_eq_of_perm
    {backups backups' : List BackupInfo}
    (hperm : backups'.Perm backups)
    (htimes : (backups.map (·.createdAt)).Nodup) :
    sortNewest backups' = sortNewest backups := by
  refine List.Perm.eq_of_pairwise ?_ (pairwise_sortNewest _) (pairwise_sortNewest _)
    ((perm_sortNewest _).trans (hperm.trans (perm_sortNewest _).symm))
  intro a b ha hb hle hge
  have ha' := hperm.mem_iff.1 (mem_sortNewest.1 ha)
  have hb' := mem_sortNewest.1 hb
  exact List.inj_on_of_nodup_map htimes ha' hb' (Nat.le_antisymm hge hle)

theorem computeBackupsToDelete_perm
    {backups backups' : List BackupInfo} {retention : RetentionPolicy}
    (hperm : backups'.Perm backups)
    (htimes : (backups.map (·.createdAt)).Nodup) :
    computeBackupsToDelete backups' retention = computeBackupsToDelete backups retention := by
  have hsort : ∀ p, sortNewest (backups'.filter p) = sortNewest (backups.filter p) := by
    intro p
    refine sortNewest_eq_of_perm (hperm.filter p) ?_
    exact htimes.sublist (List.filter_sublist.map _)
  rw [computeBackupsToDelete, computeBackupsToDelete, hsort, hsort]

/-- Forgetting what is dropped leaves what is kept, when the identifiers are distinct. -/
theorem Retained.forget
    {retention : RetentionPolicy} {backups kept dropped : List BackupInfo}
    (h : Retained retention backups kept dropped)
    (hids : (backups.map (·.id)).Nodup) :
    (backups.filter fun b => b.id ∉ dropped.map (·.id)).Perm kept := by
  have hboth : ((kept ++ dropped).map (·.id)).Nodup := (h.split.map _).nodup_iff.2 hids
  rw [List.map_append] at hboth
  have hapart := (List.nodup_append.1 hboth).2.2
  have hkept : kept.filter (fun b => b.id ∉ dropped.map (·.id)) = kept := by
    refine List.filter_eq_self.2 fun b hb => ?_
    have hout : b.id ∉ dropped.map (·.id) :=
      fun hmem => hapart b.id (List.mem_map_of_mem hb) b.id hmem rfl
    exact decide_eq_true hout
  have hdropped : dropped.filter (fun b => b.id ∉ dropped.map (·.id)) = [] := by
    refine List.filter_eq_nil_iff.2 fun b hb hout => ?_
    exact of_decide_eq_true hout (List.mem_map_of_mem hb)
  have hfilter := h.split.filter fun b => decide (b.id ∉ dropped.map (·.id))
  rw [List.filter_append, hkept, hdropped, List.append_nil] at hfilter
  exact hfilter.symm

/-- Retention drops exactly what its settings leave out, keeps it on a second run, and does not
depend on the order of distinct times. -/
theorem retention_exact
    (backups : List BackupInfo) (retention : RetentionPolicy) :
    ∃ kept dropped,
      Retained retention backups kept dropped ∧
        computeBackupsToDelete backups retention = dropped.map (·.id) ∧
        ((backups.map (·.id)).Nodup →
          (backups.filter fun b => b.id ∉ computeBackupsToDelete backups retention).Perm
            kept) ∧
        (∀ survivors : List BackupInfo,
          survivors.Perm kept → computeBackupsToDelete survivors retention = []) ∧
        ∀ backups' : List BackupInfo,
          backups'.Perm backups → (backups.map (·.createdAt)).Nodup →
            computeBackupsToDelete backups' retention =
              computeBackupsToDelete backups retention := by
  have hretained := @retained_split backups retention
  refine ⟨_, _, hretained, computeBackupsToDelete_eq, ?_, ?_, ?_⟩
  · intro hids
    rw [computeBackupsToDelete_eq]
    exact hretained.forget hids
  · exact fun survivors hperm => hretained.stable hperm
  · exact fun backups' hperm htimes => computeBackupsToDelete_perm hperm htimes

end Backup
end Vestad
end Vesta
