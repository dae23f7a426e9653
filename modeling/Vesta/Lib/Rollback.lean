import Mathlib.Data.List.Nodup
import Mathlib.Logic.Function.Basic

/-!
# Changes of files that are rolled back

A transaction saves some files, changes them one by one, and writes them back when a change
fails.  A change may fail before it takes effect or after it.  Writing back undoes every
failure exactly when what is saved of each file is enough to make it again.
-/

namespace Vesta
namespace Lib
namespace Rollback

universe u v w

variable {κ : Type u} [DecidableEq κ]
variable {File : Type v} {Saved : Type w}

abbrev Disk (κ : Type u) (File : Type v) := κ → Option File

/-- How a change fails. -/
inductive Fault
  | none
  | before
  | after
deriving DecidableEq

/-- A change of one file, from what it is; `none` where the change raises by itself. -/
structure Change (κ : Type u) (File : Type v) where
  path : κ
  apply : Option File → Option (Option File)

/-- A change on a disk, or the disk it leaves when it fails. -/
def Change.run (change : Change κ File) (fault : Fault) (disk : Disk κ File) :
    Except (Disk κ File) (Disk κ File) :=
  match change.apply (disk change.path), fault with
  | none, _ => .error disk
  | some _, .before => .error disk
  | some file, .after => .error (Function.update disk change.path file)
  | some file, .none => .ok (Function.update disk change.path file)

/-- Changes one after another, up to the first that fails. -/
def runAll : List (Change κ File) → (Nat → Fault) → Disk κ File →
    Except (Disk κ File) (Disk κ File)
  | [], _, disk => .ok disk
  | change :: changes, faults, disk =>
      match change.run (faults 0) disk with
      | .error left => .error left
      | .ok next => runAll changes (fun i => faults (i + 1)) next

/-- What is saved of the files, unless one of them cannot be. -/
def snapshot (save : File → Option Saved) (disk : Disk κ File) :
    List κ → Option (List (κ × Option Saved))
  | [] => some []
  | path :: paths =>
      match disk path with
      | none => (snapshot save disk paths).map ((path, none) :: ·)
      | some file =>
          (save file).bind fun saved =>
            (snapshot save disk paths).map ((path, some saved) :: ·)

/-- Write the files back, and unlink those that were not there. -/
def restore (load : Saved → File) (saved : List (κ × Option Saved)) (disk : Disk κ File) :
    Disk κ File :=
  saved.foldl (fun disk entry => Function.update disk entry.1 (entry.2.map load)) disk

inductive Outcome (κ : Type u) (File : Type v)
  | raised (disk : Disk κ File)
  | done (disk : Disk κ File)

def Outcome.disk : Outcome κ File → Disk κ File
  | .raised disk => disk
  | .done disk => disk

/-- A transaction over the files of `paths`. -/
def transaction
    (save : File → Option Saved)
    (load : Saved → File)
    (paths : List κ)
    (changes : List (Change κ File))
    (faults : Nat → Fault)
    (disk : Disk κ File) :
    Outcome κ File :=
  match snapshot save disk paths with
  | none => .raised disk
  | some saved =>
      match runAll changes faults disk with
      | .ok next => .done next
      | .error left => .raised (restore load saved left)

/-- Every file of `paths` can be saved. -/
def Saves (save : File → Option Saved) (paths : List κ) (disk : Disk κ File) : Prop :=
  ∀ path ∈ paths, ∀ file ∈ disk path, (save file).isSome = true

/-- No change fails, by a fault or by itself. -/
def Passes (changes : List (Change κ File)) (faults : Nat → Fault) (disk : Disk κ File) : Prop :=
  (∀ i < changes.length, faults i = .none) ∧
    ∀ change ∈ changes, (change.apply (disk change.path)).isSome = true

/-! ## Snapshots -/

omit [DecidableEq κ] in
theorem snapshot_isSome_iff
    (save : File → Option Saved)
    (disk : Disk κ File)
    (paths : List κ) :
    (snapshot save disk paths).isSome = true ↔ Saves save paths disk := by
  induction paths with
  | nil => exact iff_of_true rfl fun _ hpath => nomatch hpath
  | cons path paths ih =>
      rw [snapshot, Saves, List.forall_mem_cons]
      cases hfile : disk path with
      | none => simpa [Saves] using ih
      | some file =>
          cases hsaved : save file with
          | none => simp [hsaved]
          | some saved => simpa [Saves, hsaved] using ih

/-- A file that was saved is what was saved of it; the others stay. -/
theorem restore_apply
    {save : File → Option Saved} {load : Saved → File}
    {disk left : Disk κ File} {paths : List κ} {saved : List (κ × Option Saved)}
    (h : snapshot save disk paths = some saved)
    (path : κ) :
    restore load saved left path =
      if path ∈ paths then ((disk path).bind save).map load else left path := by
  induction paths generalizing saved left with
  | nil =>
      cases h
      rfl
  | cons first paths ih =>
      have hentry : ∃ entry rest, saved = (first, entry) :: rest ∧
          entry = (disk first).bind save ∧ snapshot save disk paths = some rest := by
        rw [snapshot] at h
        cases hfile : disk first with
        | none =>
            rw [hfile] at h
            obtain ⟨rest, hrest, rfl⟩ := Option.map_eq_some_iff.1 h
            exact ⟨none, rest, rfl, rfl, hrest⟩
        | some file =>
            rw [hfile] at h
            obtain ⟨entry, hentry, h⟩ := Option.bind_eq_some_iff.1 h
            obtain ⟨rest, hrest, rfl⟩ := Option.map_eq_some_iff.1 h
            exact ⟨some entry, rest, rfl, hentry.symm, hrest⟩
      obtain ⟨entry, rest, rfl, rfl, hrest⟩ := hentry
      rw [restore, List.foldl_cons]
      refine (ih hrest).trans ?_
      by_cases hmem : path ∈ paths
      · simp [hmem]
      · by_cases hfirst : path = first
        · subst hfirst
          simp [hmem]
        · simp [hmem, hfirst]

/-- Writing back undoes what was changed in the saved files exactly if what is saved of each
is enough to make it again. -/
theorem restore_eq_iff
    {save : File → Option Saved} {load : Saved → File}
    {disk left : Disk κ File} {paths : List κ} {saved : List (κ × Option Saved)}
    (h : snapshot save disk paths = some saved)
    (hleft : ∀ path, path ∉ paths → left path = disk path) :
    restore load saved left = disk ↔
      ∀ path ∈ paths, ∀ file ∈ disk path, (save file).map load = some file := by
  constructor
  · intro heq path hpath file hfile
    have happly := congrFun heq path
    rwa [restore_apply h, if_pos hpath, Option.mem_def.1 hfile] at happly
  · intro hfiles
    funext path
    rw [restore_apply h]
    split
    · rename_i hpath
      cases hfile : disk path with
      | none => rfl
      | some file => exact hfiles path hpath file hfile
    · rename_i hpath
      exact hleft path hpath

/-! ## Changes -/

/-- A failed change leaves the other files. -/
theorem Change.error_apply
    {change : Change κ File} {fault : Fault} {disk left : Disk κ File}
    (h : change.run fault disk = .error left)
    {path : κ}
    (hpath : path ≠ change.path) :
    left path = disk path := by
  unfold Change.run at h
  split at h <;> cases h <;> simp [hpath]

theorem Change.ok_eq
    {change : Change κ File} {fault : Fault} {disk next : Disk κ File}
    (h : change.run fault disk = .ok next) :
    fault = .none ∧ ∃ file, change.apply (disk change.path) = some file ∧
      next = Function.update disk change.path file := by
  unfold Change.run at h
  split at h <;> cases h
  rename_i file happly
  exact ⟨rfl, file, happly, rfl⟩

theorem runAll_error_apply
    {changes : List (Change κ File)} {faults : Nat → Fault} {disk left : Disk κ File}
    (h : runAll changes faults disk = .error left)
    {path : κ}
    (hpath : path ∉ changes.map Change.path) :
    left path = disk path := by
  induction changes generalizing faults disk with
  | nil => cases h
  | cons change changes ih =>
      rw [List.map_cons, List.mem_cons, not_or] at hpath
      rw [runAll] at h
      split at h
      · rename_i hrun
        cases h
        exact Change.error_apply hrun hpath.1
      · rename_i next hrun
        obtain ⟨-, file, -, rfl⟩ := Change.ok_eq hrun
        rw [ih h hpath.2, Function.update_of_ne hpath.1]

/-- Changes of distinct files succeed exactly if none fails on the disk before them, and each
file is then what its change makes of it. -/
theorem runAll_ok_iff
    {changes : List (Change κ File)}
    (hnodup : (changes.map Change.path).Nodup)
    (faults : Nat → Fault)
    (disk : Disk κ File) :
    (∃ next, runAll changes faults disk = .ok next) ↔ Passes changes faults disk := by
  induction changes generalizing faults disk with
  | nil => exact iff_of_true ⟨disk, rfl⟩ ⟨fun i hi => absurd hi (Nat.not_lt_zero i), nofun⟩
  | cons change changes ih =>
      obtain ⟨hfree, hnodup⟩ := List.nodup_cons.1 hnodup
      have hsame : ∀ file, ∀ other ∈ changes,
          Function.update disk change.path file other.path = disk other.path := by
        intro file other hother
        refine Function.update_of_ne (fun heq => hfree ?_) _ _
        exact heq ▸ List.mem_map_of_mem hother
      constructor
      · rintro ⟨next, hnext⟩
        rw [runAll] at hnext
        split at hnext
        · cases hnext
        · rename_i first hrun
          obtain ⟨hfault, file, happly, rfl⟩ := Change.ok_eq hrun
          obtain ⟨hfaults, hpasses⟩ := (ih hnodup _ _).1 ⟨next, hnext⟩
          refine ⟨?_, List.forall_mem_cons.2 ⟨by simp [happly], fun other hother => ?_⟩⟩
          · intro i hi
            cases i with
            | zero => exact hfault
            | succ i => exact hfaults i (Nat.lt_of_succ_lt_succ hi)
          · have hother' := hpasses other hother
            rwa [hsame file other hother] at hother'
      · rintro ⟨hfaults, hpasses⟩
        obtain ⟨hfirst, hrest⟩ := List.forall_mem_cons.1 hpasses
        obtain ⟨file, hfile⟩ := Option.isSome_iff_exists.1 hfirst
        have hrun : change.run (faults 0) disk =
            .ok (Function.update disk change.path file) := by
          simp [Change.run, hfile, hfaults 0 (Nat.zero_lt_succ _)]
        rw [runAll, hrun]
        refine (ih hnodup _ _).2 ⟨fun i hi => hfaults (i + 1) (Nat.succ_lt_succ hi), ?_⟩
        intro other hother
        rw [hsame file other hother]
        exact hrest other hother

theorem runAll_ok_apply
    {changes : List (Change κ File)}
    (hnodup : (changes.map Change.path).Nodup)
    {faults : Nat → Fault} {disk next : Disk κ File}
    (h : runAll changes faults disk = .ok next) :
    (∀ change ∈ changes, change.apply (disk change.path) = some (next change.path)) ∧
      ∀ path, path ∉ changes.map Change.path → next path = disk path := by
  induction changes generalizing faults disk with
  | nil =>
      cases h
      exact ⟨nofun, fun _ _ => rfl⟩
  | cons change changes ih =>
      obtain ⟨hfree, hnodup⟩ := List.nodup_cons.1 hnodup
      rw [runAll] at h
      split at h
      · cases h
      · rename_i first hrun
        obtain ⟨-, file, happly, rfl⟩ := Change.ok_eq hrun
        obtain ⟨hchanged, hkept⟩ := ih hnodup h
        constructor
        · refine List.forall_mem_cons.2 ⟨?_, fun other hother => ?_⟩
          · rw [hkept _ hfree, Function.update_self, happly]
          · have hne : other.path ≠ change.path := fun heq =>
              hfree (heq ▸ List.mem_map_of_mem hother)
            have hother' := hchanged other hother
            rwa [Function.update_of_ne hne] at hother'
        · intro path hpath
          rw [List.map_cons, List.mem_cons, not_or] at hpath
          rw [hkept path hpath.2, Function.update_of_ne hpath.1]

/-! ## Transactions -/

section Transactions

variable {save : File → Option Saved} {load : Saved → File}
variable {paths : List κ} {changes : List (Change κ File)}
variable {faults : Nat → Fault} {disk : Disk κ File}

/-- A transaction ends with its changes exactly if the files can be saved and none fails. -/
theorem transaction_done_iff
    (next : Disk κ File) :
    transaction save load paths changes faults disk = .done next ↔
      Saves save paths disk ∧ runAll changes faults disk = .ok next := by
  rw [← snapshot_isSome_iff, transaction]
  cases snapshot save disk paths with
  | none => simp
  | some saved =>
      cases runAll changes faults disk with
      | error left => simp
      | ok other => simp

/-- A transaction that raises leaves the disk as it was exactly if it saved nothing, or what
it saves of each file is enough to make it again. -/
theorem transaction_raised
    (hcovers : ∀ change ∈ changes, change.path ∈ paths)
    {left : Disk κ File}
    (h : transaction save load paths changes faults disk = .raised left) :
    left = disk ↔
      (Saves save paths disk →
        ∀ path ∈ paths, ∀ file ∈ disk path, (save file).map load = some file) := by
  rw [← snapshot_isSome_iff]
  unfold transaction at h
  split at h
  · rename_i hsnapshot
    cases h
    simp [hsnapshot]
  · rename_i saved hsnapshot
    split at h
    · cases h
    · rename_i changed hrun
      cases h
      rw [restore_eq_iff hsnapshot, hsnapshot]
      · simp
      · intro path hpath
        refine runAll_error_apply hrun fun hmem => hpath ?_
        obtain ⟨change, hchange, rfl⟩ := List.mem_map.1 hmem
        exact hcovers change hchange

end Transactions

end Rollback
end Lib
end Vesta
