import Vesta.Lib.Machine
import Vesta.Lib.Program
import Vesta.Vestad.Backup.Retention

/-!
# Snapshots of one agent

A snapshot pipes `docker export` into `restic backup`.  Restic commits whatever
bytes it has received before the end of its input, so an export that dies leaves
a torn snapshot, which is forgotten before the error is reported.  The
maintenance pass lists the snapshots, takes one if the agent needs it, forgets
the periodic ones that a pre-update snapshot supersedes, and applies retention.

The operations on one agent exclude each other, so a run is a sequence of them,
each with every failure of every call.  Restic keeps its snapshots in the order
of their commits.
-/

namespace Vesta
namespace Vestad
namespace Backup

open Lib
open Prog

/-- The last line of restic's output: the snapshot it has committed. -/
structure ResticSummaryMsg where
  snapshotId : Option Nat

/-- What came out of a pipeline whose consumer has succeeded. -/
structure PipeOutput where
  summary : Option ResticSummaryMsg
  producerFailed : Option String

inductive Piped
  | failed (error : String)
  | timedOut
  | output (output : PipeOutput)

inductive Call
  | containerAge
  | listBackups
  | fileLock
  | commitContainer
  | ensureRepo
  | pipeThrough (backupType : BackupType) (fromVersion : Option String)
  | forgetTorn (id : Nat)
  | nowTimestamp
  | forget (ids : List Nat)

abbrev Answer : Call → Type
  | .containerAge => Option Nat
  | .listBackups => Option (List BackupInfo)
  | .pipeThrough .. => Piped
  | .nowTimestamp => Nat
  | _ => Bool

abbrev Op : Type → Type := Prog Answer String

abbrev ask (c : Call) : Op (Answer c) := request c

def orFail (message : String) (worked : Bool) : Op Unit :=
  if worked then pure () else fail message

inductive SnapshotOutcome
  | committed (summary : ResticSummaryMsg)
  | torn (snapshotId : Nat) (exportError : String)

def classifySnapshotOutput (output : PipeOutput) : Except String SnapshotOutcome :=
  match output.summary with
  | none => .error "restic backup produced no summary"
  | some summary =>
      match output.producerFailed with
      | none => .ok (.committed summary)
      | some exportError =>
          match summary.snapshotId with
          | none => .error "restic summary missing snapshot_id"
          | some id => .ok (.torn id exportError)

/-- What is left to do when the pipeline has ended: a torn snapshot must be forgotten before the
caller sees the export error. -/
def finishSnapshot
    (backupType : BackupType) (fromVersion : Option String) : Piped → Op BackupInfo
  | .failed error => fail error
  | .timedOut => fail "backup timed out"
  | .output output =>
      match classifySnapshotOutput output with
      | .error error => fail error
      | .ok (.torn id exportError) => do
          let _ ← ask (.forgetTorn id)
          fail ("docker export failed: " ++ exportError)
      | .ok (.committed summary) =>
          match summary.snapshotId with
          | none => fail "restic summary missing snapshot_id"
          | some id => do
              let now ← ask .nowTimestamp
              pure { id := id, backupType := backupType, createdAt := now, fromVersion := fromVersion }

/-- Stream an export into restic. -/
def snapshot (backupType : BackupType) (fromVersion : Option String) : Op BackupInfo := do
  ask .ensureRepo >>= orFail "restic init failed"
  let piped ← ask (.pipeThrough backupType fromVersion)
  finishSnapshot backupType fromVersion piped

/-- Commit the container to an image and stream its export into restic. -/
def createBackup (backupType : BackupType) (fromVersion : Option String) : Op BackupInfo := do
  ask .commitContainer >>= orFail "docker commit failed"
  snapshot backupType fromVersion

/-- Forget snapshots, if there are any. -/
def forget (ids : List Nat) : Op Bool :=
  if ids = [] then pure true else ask (.forget ids)

def cleanupBackups (backups : List BackupInfo) (retention : RetentionPolicy) : Op Unit := do
  let _ ← forget (computeBackupsToDelete backups retention)
  pure ()

/-- Clear the periodic snapshots that a new pre-update snapshot supersedes. -/
def clearSuperseded (info : BackupInfo) (backups : List BackupInfo) : Op (List BackupInfo) :=
  let superseded := backups.filter (·.backupType = .periodic)
  if info.backupType = .preUpdate ∧ superseded ≠ [] then do
    let cleared ← ask (.forget (superseded.map (·.id)))
    if cleared then pure (backups.filter (·.backupType ≠ .periodic)) else pure backups
  else
    pure backups

/-- Take a snapshot if the agent needs one, then apply retention. -/
def snapshotListed
    (kind : PassKind) (retention : RetentionPolicy) (nowEpoch everyNDays : Nat)
    (backups : List BackupInfo) : Op Unit :=
  if agentNeedsSnapshot kind backups nowEpoch everyNDays then do
    ask .fileLock >>= orFail "failed to acquire lock"
    match (← attempt (createBackup kind.backupType kind.versionTag)) with
    | .ok info =>
        let kept ← clearSuperseded info backups
        cleanupBackups (info :: kept) retention
    | .error error =>
        cleanupBackups backups retention
        fail error
  else
    cleanupBackups backups retention

/-- A pass over one agent. -/
def snapshotAgent
    (kind : PassKind) (enabled : Bool) (retention : RetentionPolicy)
    (nowEpoch everyNDays : Nat) : Op Unit :=
  if enabled = false then pure ()
  else do
    let age ← ask .containerAge
    if (age : Option Nat).any (· < minAgeForBackupSecs) then pure ()
    else
      match (← ask .listBackups : Option (List BackupInfo)) with
      | none => fail "failed to list backups"
      | some backups => snapshotListed kind retention nowEpoch everyNDays backups

/-- What is done with an agent's snapshots, one at a time. -/
inductive Operation
  | createBackup
  | preRestore
  | snapshotAgent
      (kind : PassKind) (enabled : Bool) (retention : RetentionPolicy) (nowEpoch everyNDays : Nat)

def Operation.prog : Operation → Op Unit
  | .createBackup => do
      let _ ← Backup.createBackup .manual none
      pure ()
  | .preRestore => do
      let _ ← snapshot .preRestore none
      pure ()
  | .snapshotAgent kind enabled retention nowEpoch everyNDays =>
      Backup.snapshotAgent kind enabled retention nowEpoch everyNDays

/-! ## The repository -/

/-- A snapshot in the repository, and whether the export had finished. -/
structure Snapshot where
  info : BackupInfo
  complete : Bool
deriving DecidableEq

/-- What a pass has forgotten. -/
structure Deletion where
  before : List Snapshot
  after : List Snapshot
deriving DecidableEq

structure World where
  now : Nat
  repo : List Snapshot
  next : Nat
  deletions : List Deletion

/-- What restic's output says of the snapshot it has committed. -/
inductive Summary
  | missing
  | withoutId
  | withId
deriving DecidableEq

/-- How the restic of a pipeline ends.  One that fails or is killed may have committed. -/
inductive ResticEnd
  | failed (committed : Bool)
  | timedOut (committed : Bool)
  | finished (summary : Summary)
deriving DecidableEq

def ResticEnd.commits : ResticEnd → Bool
  | .failed committed => committed
  | .timedOut committed => committed
  | .finished _ => true

structure Tick where
  works : Bool
  /-- Seconds until restic stamps its snapshot, and from then to the end of the call. -/
  delay : Nat
  elapsed : Nat
  exported : Bool
  restic : ResticEnd
  age : Option Nat
  /-- What a forget that fails has forgotten all the same. -/
  dropped : List Nat

/-- An agent's snapshots as restic lists them, newest first. -/
def World.list (w : World) : List BackupInfo :=
  sortNewest (w.repo.map (·.info))

/-- Time passes in every call. -/
def World.pass (w : World) (t : Tick) : World :=
  { w with now := w.now + t.delay + t.elapsed }

def World.drop (w : World) (ids : List Nat) : List Snapshot :=
  w.repo.filter fun s => s.info.id ∉ ids

/-- The snapshot that a pipeline started now commits. -/
def World.committed
    (w : World) (backupType : BackupType) (fromVersion : Option String) (t : Tick) : Snapshot where
  info :=
    { id := w.next
      backupType := backupType
      createdAt := w.now + t.delay
      fromVersion := fromVersion }
  complete := t.exported

def ResticEnd.answer (exported : Bool) (id : Nat) : ResticEnd → Piped
  | .failed _ => .failed "restic backup failed"
  | .timedOut _ => .timedOut
  | .finished summary =>
      .output
        { summary :=
            match summary with
            | .missing => none
            | .withoutId => some { snapshotId := none }
            | .withId => some { snapshotId := some id }
          producerFailed := if exported then none else some "" }

/-- What a forget leaves. -/
def World.forgotten (w : World) (ids : List Nat) (t : Tick) : List Snapshot :=
  w.drop (if t.works then ids else ids.filter (· ∈ t.dropped))

def exec : Answers Answer World Tick
  | w, .containerAge, t => (t.age, w.pass t)
  | w, .listBackups, t => (if t.works then some w.list else none, w.pass t)
  | w, .fileLock, t => (t.works, w.pass t)
  | w, .commitContainer, t => (t.works, w.pass t)
  | w, .ensureRepo, t => (t.works, w.pass t)
  | w, .pipeThrough backupType fromVersion, t =>
      (t.restic.answer t.exported w.next,
        { w.pass t with
          repo :=
            if t.restic.commits then w.repo ++ [w.committed backupType fromVersion t] else w.repo
          next := w.next + 1 })
  | w, .forgetTorn id, t => (t.works, { w.pass t with repo := w.forgotten [id] t })
  | w, .nowTimestamp, t => (w.now, w.pass t)
  | w, .forget ids, t =>
      let after := w.forgotten ids t
      (t.works,
        { w.pass t with
          repo := after
          deletions := { before := w.repo, after := after } :: w.deletions })

attribute [grind =] exec

/-- Run one operation to its end. -/
structure Label where
  op : Operation
  ticks : List Tick

def machine : Machine World Label where
  start w := w.repo = [] ∧ w.deletions = []
  step w label :=
    match run exec label.op.prog w label.ticks with
    | (w', some _) => some w'
    | (_, none) => none

/-- The newest complete snapshot that is not manual. -/
def newestComplete (repo : List Snapshot) : Option Snapshot :=
  (repo.filter fun s => s.complete ∧ s.info.backupType ≠ .manual).getLast?

/-- Every snapshot that lists is complete, and no pass has deleted the newest complete one. -/
structure RollbackPoint (w : World) : Prop where
  complete : ∀ s ∈ w.repo, s.info ∈ w.list → s.complete = true
  kept : ∀ d ∈ w.deletions, ∀ s ∈ newestComplete d.before, s ∈ d.after

/-- The retention of a pass keeps at least one of each. -/
def Operation.Keeps : Operation → Prop
  | .snapshotAgent _ _ retention _ _ => 1 ≤ retention.periodic ∧ 1 ≤ retention.preUpdateVersions
  | .createBackup => True
  | .preRestore => True

/-- The runs of passes that keep at least one of each. -/
def Kept (_ : World) (label : Label) : Prop := label.op.Keeps

/-- A torn snapshot is reported with its identifier, so that it is forgotten. -/
def Tick.reportsTorn (t : Tick) : Prop :=
  t.exported = false → t.restic.commits = true → t.restic = .finished .withId

/-- No export that fails leaves a snapshot that is not reported, the forget of a torn one works,
and no two snapshots are stamped within one second. -/
def tidy : Guard Call World Tick where
  call w
    | .pipeThrough .., t =>
        t.reportsTorn ∧
          (t.restic.commits = true → ∀ s ∈ w.repo, s.info.createdAt ≠ w.now + t.delay)
    | .forgetTorn _, t => t.works = true
    | _, _ => True
  cut _ _ := False

/-- A pass that keeps at least one of each, along which every torn snapshot is forgotten. -/
def Tidy (w : World) (label : Label) : Prop :=
  label.op.Keeps ∧ Meets exec tidy label.op.prog w label.ticks

instance (t : Tick) : Decidable t.reportsTorn :=
  inferInstanceAs (Decidable (_ → _ → _))

instance (w : World) : ∀ c t, Decidable (tidy.call w c t)
  | .pipeThrough .., t =>
      inferInstanceAs
        (Decidable
          (t.reportsTorn ∧
            (t.restic.commits = true → ∀ s ∈ w.repo, s.info.createdAt ≠ w.now + t.delay)))
  | .forgetTorn _, t => inferInstanceAs (Decidable (t.works = true))
  | .containerAge, _ | .listBackups, _ | .fileLock, _ | .commitContainer, _ | .ensureRepo, _
  | .nowTimestamp, _ | .forget _, _ => isTrue trivial

instance (w : World) (c : Call) : Decidable (tidy.cut w c) :=
  inferInstanceAs (Decidable False)

instance : ∀ op : Operation, Decidable op.Keeps
  | .snapshotAgent .. => inferInstanceAs (Decidable (_ ∧ _))
  | .createBackup | .preRestore => isTrue trivial

instance (w : World) (label : Label) : Decidable (Kept w label) :=
  inferInstanceAs (Decidable label.op.Keeps)

instance (w : World) (label : Label) : Decidable (Tidy w label) :=
  inferInstanceAs (Decidable (_ ∧ _))

/-! ## The repository between two operations -/

/-- The repository is in the order of its commits and holds complete snapshots only. -/
structure RepoInv (w : World) : Prop where
  complete : ∀ s ∈ w.repo, s.complete = true
  ordered :
    w.repo.Pairwise fun a b =>
      a.info.createdAt < b.info.createdAt ∧ a.info.id < b.info.id
  past : ∀ s ∈ w.repo, s.info.createdAt ≤ w.now ∧ s.info.id < w.next
  kept : ∀ d ∈ w.deletions, ∀ s ∈ newestComplete d.before, s ∈ d.after

theorem RepoInv.keep
    {w w' : World}
    (h : RepoInv w)
    (hrepo : w'.repo = w.repo) (hdeletions : w'.deletions = w.deletions)
    (hnow : w.now ≤ w'.now) (hnext : w.next ≤ w'.next) :
    RepoInv w' := by
  refine ⟨hrepo ▸ h.complete, hrepo ▸ h.ordered, ?_, hdeletions ▸ h.kept⟩
  intro s hs
  have := h.past s (hrepo ▸ hs)
  omega

theorem World.now_le_pass (w : World) (t : Tick) : w.now ≤ (w.pass t).now := by
  change w.now ≤ w.now + t.delay + t.elapsed
  omega

theorem RepoInv.pass
    {w : World}
    (h : RepoInv w) (t : Tick) :
    RepoInv (w.pass t) :=
  h.keep rfl rfl (w.now_le_pass t) le_rfl

theorem RepoInv.ids_nodup
    {w : World}
    (h : RepoInv w) :
    (w.list.map (·.id)).Nodup := by
  refine ((perm_sortNewest _).map _).nodup_iff.2 ?_
  rw [List.map_map, List.Nodup, List.pairwise_map]
  exact h.ordered.imp fun hab => Nat.ne_of_lt hab.2

/-- The newest one is in the repository, and every other one that is not manual is older. -/
theorem newestComplete_spec
    {repo : List Snapshot} {x : Snapshot}
    (hordered :
      repo.Pairwise fun a b => a.info.createdAt < b.info.createdAt ∧ a.info.id < b.info.id)
    (h : newestComplete repo = some x) :
    x ∈ repo ∧ x.info.backupType ≠ .manual ∧
      ∀ s ∈ repo, s.complete = true → s.info.backupType ≠ .manual →
        s = x ∨ s.info.createdAt < x.info.createdAt := by
  obtain ⟨front, hfront⟩ := List.getLast?_eq_some_iff.1 h
  have hmem :
      ∀ s, s ∈ repo ∧ s.complete = true ∧ s.info.backupType ≠ .manual ↔ s ∈ front ++ [x] := by
    intro s
    rw [← hfront]
    simp
  have hx := (hmem x).2 (by simp)
  refine ⟨hx.1, hx.2.2, ?_⟩
  intro s hs hcomplete hauto
  have hsub : (front ++ [x]).Pairwise fun a b =>
      a.info.createdAt < b.info.createdAt ∧ a.info.id < b.info.id := by
    rw [← hfront]
    exact hordered.filter _
  rcases List.mem_append.1 ((hmem s).1 ⟨hs, hcomplete, hauto⟩) with hfr | hlast
  · exact .inr ((List.pairwise_append.1 hsub).2.2 s hfr x (by simp)).1
  · exact .inl (by simpa using hlast)

/-- The last commit, if it is complete and not manual, is the newest. -/
theorem newestComplete_append
    {repo : List Snapshot} {s : Snapshot}
    (hcomplete : s.complete = true) (hauto : s.info.backupType ≠ .manual) :
    newestComplete (repo ++ [s]) = some s := by
  simp [newestComplete, List.filter_append, hcomplete, hauto]

/-- The newest complete snapshot is not among these. -/
def Spares (ids : List Nat) (repo : List Snapshot) : Prop :=
  ∀ x ∈ newestComplete repo, x.info.id ∉ ids

theorem forgotten_sublist (w : World) (ids : List Nat) (t : Tick) :
    (w.forgotten ids t).Sublist w.repo :=
  List.filter_sublist

theorem mem_forgotten
    {w : World} {ids : List Nat} {t : Tick} {s : Snapshot}
    (hs : s ∈ w.repo) (hid : s.info.id ∉ ids) :
    s ∈ w.forgotten ids t := by
  refine List.mem_filter.2 ⟨hs, ?_⟩
  split
  · simpa using hid
  · simp [hid]

/-- The last commit stays the last one. -/
theorem forgotten_append
    {w : World} {repo : List Snapshot} {s : Snapshot} {ids : List Nat}
    (hrepo : w.repo = repo ++ [s]) (hid : s.info.id ∉ ids) (t : Tick) :
    ∃ front, w.forgotten ids t = front ++ [s] := by
  have hkept := mem_forgotten (t := t) (hrepo ▸ List.mem_append_right repo (by simp)) hid
  rw [World.forgotten, World.drop, List.mem_filter] at hkept
  refine ⟨repo.filter fun r => r.info.id ∉ if t.works then ids else ids.filter (· ∈ t.dropped), ?_⟩
  rw [World.forgotten, World.drop, hrepo, List.filter_append, List.filter_singleton, hkept.2]
  rfl

/-- A forget that spares the newest complete snapshot keeps the invariant. -/
theorem RepoInv.forget
    {w : World} {ids : List Nat}
    (h : RepoInv w) (hspares : Spares ids w.repo) (t : Tick) :
    RepoInv (exec w (.forget ids) t).2 := by
  have hsub := forgotten_sublist w ids t
  refine ⟨?_, h.ordered.sublist hsub, ?_, ?_⟩
  · intro s hs
    exact h.complete s (hsub.mem hs)
  · intro s hs
    exact (h.pass t).past s (hsub.mem hs)
  · intro d hd x hx
    rcases List.mem_cons.1 hd with rfl | hd
    · exact mem_forgotten (newestComplete_spec h.ordered hx).1 (hspares x hx)
    · exact h.kept d hd x hx

/-! ## What the programs keep -/

/-- What a snapshot leaves: one more complete snapshot, or possibly none on an error. -/
def Taken (backupType : BackupType) (repo : List Snapshot) : Except String BackupInfo → World → Prop
  | .ok info, w =>
      RepoInv w ∧ info.backupType = backupType ∧
        (∀ s ∈ repo, s.info.createdAt ≤ info.createdAt) ∧
        ∃ s, w.repo = repo ++ [s] ∧ s.info.id = info.id ∧ s.info.backupType = backupType
  | .error _, w => RepoInv w ∧ (w.repo = repo ∨ ∃ s, w.repo = repo ++ [s])

/-- A commit under the guard is newer than what is in the repository. -/
theorem RepoInv.commit
    {w w' : World} {s : Snapshot}
    (h : RepoInv w)
    (hcomplete : s.complete = true)
    (hnewer : ∀ r ∈ w.repo, r.info.createdAt < s.info.createdAt)
    (hid : s.info.id = w.next)
    (hrepo : w'.repo = w.repo ++ [s])
    (hnow : s.info.createdAt ≤ w'.now) (hle : w.now ≤ w'.now) (hnext : w'.next = w.next + 1)
    (hdeletions : w'.deletions = w.deletions) :
    RepoInv w' := by
  refine ⟨?_, ?_, ?_, hdeletions ▸ h.kept⟩
  · intro r hr
    rw [hrepo] at hr
    rcases List.mem_append.1 hr with hr | hr
    · exact h.complete r hr
    · rw [List.mem_singleton.1 hr]
      exact hcomplete
  · rw [hrepo, List.pairwise_append]
    refine ⟨h.ordered, List.pairwise_singleton _ _, ?_⟩
    intro r hr r' hr'
    rw [List.mem_singleton.1 hr', hid]
    exact ⟨hnewer r hr, (h.past r hr).2⟩
  · intro r hr
    rw [hrepo] at hr
    rw [hnext]
    rcases List.mem_append.1 hr with hr | hr
    · have := h.past r hr
      omega
    · rw [List.mem_singleton.1 hr]
      omega

/-- The assertions below are about operations that run to their end. -/
abbrev Ensures {α : Type} (p : Op α) (Q : Except String α → World → Prop) (w : World) : Prop :=
  wp exec tidy (fun _ => True) Q p w

theorem ensures_orFail
    {α : Type} {message : String} {worked : Bool} {f : Unit → Op α}
    {Q : Except String α → World → Prop} {w : World}
    (hfail : Q (.error message) w) (hok : Ensures (f ()) Q w) :
    Ensures (orFail message worked >>= f) Q w := by
  cases worked with
  | false => exact hfail
  | true => exact hok

/-- The torn snapshot that a pipeline has left is forgotten. -/
theorem repo_forgetTorn
    {w : World} {t t' : Tick}
    (backupType : BackupType) (fromVersion : Option String)
    (h : RepoInv w) (hcommits : t.restic.commits = true) (hworks : t'.works = true) :
    (exec (exec w (.pipeThrough backupType fromVersion) t).2 (.forgetTorn w.next) t').2.repo =
      w.repo := by
  have hold : w.repo.filter (fun s => s.info.id ∉ [w.next]) = w.repo := by
    refine List.filter_eq_self.2 fun s hs => ?_
    have := (h.past s hs).2
    simp only [List.mem_singleton, decide_eq_true_eq]
    omega
  simp only [exec, World.forgotten, World.drop, hcommits, hworks, if_true, List.filter_append, hold]
  simp [World.committed]

theorem ensures_finishSnapshot
    {w : World} {t : Tick} {backupType : BackupType} {fromVersion : Option String}
    (h : RepoInv w)
    (hok : tidy.call w (.pipeThrough backupType fromVersion) t) :
    Ensures
      (finishSnapshot backupType fromVersion
        (exec w (.pipeThrough backupType fromVersion) t).1)
      (Taken backupType w.repo)
      (exec w (.pipeThrough backupType fromVersion) t).2 := by
  obtain ⟨hreports, hdistinct⟩ := hok
  have hnone :
      t.restic.commits = false →
        RepoInv (exec w (.pipeThrough backupType fromVersion) t).2 ∧
          (exec w (.pipeThrough backupType fromVersion) t).2.repo = w.repo := by
    intro hcommits
    have hrepo : (exec w (.pipeThrough backupType fromVersion) t).2.repo = w.repo := by
      simp [exec, hcommits]
    exact ⟨h.keep hrepo rfl (w.now_le_pass t) (Nat.le_succ _), hrepo⟩
  have hsome :
      t.restic.commits = true → t.exported = true →
        RepoInv (exec w (.pipeThrough backupType fromVersion) t).2 ∧
          (exec w (.pipeThrough backupType fromVersion) t).2.repo =
            w.repo ++ [w.committed backupType fromVersion t] := by
    intro hcommits hexported
    have hrepo :
        (exec w (.pipeThrough backupType fromVersion) t).2.repo =
          w.repo ++ [w.committed backupType fromVersion t] := by
      simp [exec, hcommits]
    refine ⟨h.commit hexported ?_ rfl hrepo ?_ (w.now_le_pass t) rfl rfl, hrepo⟩
    · intro r hr
      have := (h.past r hr).1
      have := hdistinct hcommits r hr
      change r.info.createdAt < w.now + t.delay
      omega
    · change w.now + t.delay ≤ w.now + t.delay + t.elapsed
      omega
  -- an error that is reported without a forget: what is committed is complete
  have herror :
      ∀ message, t.restic ≠ .finished .withId ∨ t.exported = true →
        Taken backupType w.repo (.error message)
          (exec w (.pipeThrough backupType fromVersion) t).2 := by
    intro message hend
    cases hcommits : t.restic.commits with
    | false => exact ⟨(hnone hcommits).1, .inl (hnone hcommits).2⟩
    | true =>
        have hexported : t.exported = true := by
          rcases hend with hend | hend
          · by_contra hnot
            exact hend (hreports (by simpa using hnot) hcommits)
          · exact hend
        exact ⟨(hsome hcommits hexported).1, .inr ⟨_, (hsome hcommits hexported).2⟩⟩
  change Ensures (finishSnapshot backupType fromVersion (t.restic.answer t.exported w.next)) _ _
  cases hrestic : t.restic with
  | failed committed => exact herror _ (.inl (by simp [hrestic]))
  | timedOut committed => exact herror _ (.inl (by simp [hrestic]))
  | finished summary =>
      have hcommits : t.restic.commits = true := by rw [hrestic]; rfl
      cases summary with
      | missing => exact herror _ (.inl (by simp [hrestic]))
      | withoutId =>
          have := herror "restic summary missing snapshot_id" (.inl (by simp [hrestic]))
          cases t.exported <;> exact this
      | withId =>
          cases hexported : t.exported with
          | false =>
              refine ⟨fun _ => trivial, fun t' ht' => ?_⟩
              have hrepo := repo_forgetTorn backupType fromVersion h hcommits ht'
              refine ⟨h.keep hrepo rfl ?_ (Nat.le_succ _), .inl hrepo⟩
              exact le_trans (w.now_le_pass t) (World.now_le_pass _ t')
          | true =>
              obtain ⟨hinv, hrepo⟩ := hsome hcommits hexported
              refine ⟨fun _ => trivial, fun t' _ => ?_⟩
              refine ⟨hinv.pass t', rfl, ?_, _, hrepo, rfl, rfl⟩
              intro s hs
              exact le_trans (h.past s hs).1 (w.now_le_pass t)

theorem ensures_snapshot
    {w : World}
    (h : RepoInv w) (backupType : BackupType) (fromVersion : Option String) :
    Ensures (snapshot backupType fromVersion) (Taken backupType w.repo) w := by
  refine ⟨fun _ => trivial, fun t _ => ?_⟩
  refine ensures_orFail ⟨h.pass t, .inl rfl⟩ ?_
  exact ⟨fun _ => trivial, fun t' ht' => ensures_finishSnapshot (h.pass t) ht'⟩

theorem ensures_createBackup
    {w : World}
    (h : RepoInv w) (backupType : BackupType) (fromVersion : Option String) :
    Ensures (createBackup backupType fromVersion) (Taken backupType w.repo) w := by
  refine ⟨fun _ => trivial, fun t _ => ?_⟩
  exact ensures_orFail ⟨h.pass t, .inl rfl⟩ (ensures_snapshot (h.pass t) _ _)

/-! ## What the passes spare -/

theorem mem_list
    {w : World} {b : BackupInfo} :
    b ∈ w.list ↔ ∃ s ∈ w.repo, s.info = b := by
  rw [World.list, mem_sortNewest, List.mem_map]

/-- The last commit is not in a list read before it. -/
theorem RepoInv.not_mem_list
    {w w' : World} {s : Snapshot}
    (h : RepoInv w') (hrepo : w'.repo = w.repo ++ [s]) :
    s.info.id ∉ w.list.map (·.id) := by
  intro hmem
  obtain ⟨b, hb, hid⟩ := List.mem_map.1 hmem
  obtain ⟨r, hr, rfl⟩ := mem_list.1 hb
  have hordered := h.ordered
  rw [hrepo, List.pairwise_append] at hordered
  have := (hordered.2.2 r hr s (by simp)).2
  omega

/-- Retention on the listed backups spares the newest complete one. -/
theorem spares_list
    {w : World} {retention : RetentionPolicy}
    (h : RepoInv w)
    (hperiodic : 1 ≤ retention.periodic) (hversions : 1 ≤ retention.preUpdateVersions) :
    Spares (computeBackupsToDelete w.list retention) w.repo := by
  intro x hx
  obtain ⟨hmem, hauto, hnewest⟩ := newestComplete_spec h.ordered hx
  have hlisted : x.info ∈ w.list := mem_list.2 ⟨x, hmem, rfl⟩
  have hleads :
      ∀ p : BackupInfo → Bool, (∀ b, p b = true → b.backupType ≠ .manual) →
        p x.info = true → Leads x.info (w.list.filter p) := by
    intro p hp hpx
    refine leads_of_lt ?_ (List.mem_filter.2 ⟨hlisted, hpx⟩) ?_
    · exact h.ids_nodup.sublist (List.filter_sublist.map _)
    · intro b hb
      obtain ⟨hb, hpb⟩ := List.mem_filter.1 hb
      obtain ⟨s, hs, rfl⟩ := mem_list.1 hb
      rcases hnewest s hs (h.complete s hs) (hp _ hpb) with rfl | hlt
      · exact .inl rfl
      · exact .inr hlt
  refine not_mem_computeBackupsToDelete hperiodic hversions h.ids_nodup hlisted ?_ ?_
  · exact hleads _ fun b hb hmanual => by simp [inFamily, hmanual] at hb
  · exact hleads _ fun b hb hmanual => by simp [isPreUpdate, hmanual] at hb

/-- It does so too when the list is older than the last commit. -/
theorem spares_append
    {repo : List Snapshot} {s : Snapshot} {ids : List Nat}
    (hspares : Spares ids repo) (hid : s.info.id ∉ ids) :
    Spares ids (repo ++ [s]) := by
  intro x hx
  by_cases hnew : s.complete = true ∧ s.info.backupType ≠ .manual
  · rw [newestComplete_append hnew.1 hnew.2] at hx
    rw [← Option.some.inj hx]
    exact hid
  · have hsame : newestComplete (repo ++ [s]) = newestComplete repo := by
      simp only [newestComplete, List.filter_append]
      simp [hnew]
    rw [hsame] at hx
    exact hspares x hx

/-- Retention on a list that starts with the backup just taken spares it. -/
theorem spares_taken
    {repo : List Snapshot} {s : Snapshot} {info : BackupInfo} {backups : List BackupInfo}
    {retention : RetentionPolicy}
    (hperiodic : 1 ≤ retention.periodic) (hversions : 1 ≤ retention.preUpdateVersions)
    (hcomplete : s.complete = true) (hauto : s.info.backupType ≠ .manual)
    (hid : s.info.id = info.id)
    (hids : (backups.map (·.id)).Nodup)
    (hfresh : info.id ∉ backups.map (·.id))
    (hnewer : ∀ b ∈ backups, b.createdAt ≤ info.createdAt) :
    Spares (computeBackupsToDelete (info :: backups) retention) (repo ++ [s]) := by
  intro x hx
  rw [newestComplete_append hcomplete hauto] at hx
  rw [← Option.some.inj hx, hid]
  have hleads :
      ∀ p : BackupInfo → Bool, p info = true → Leads info ((info :: backups).filter p) := by
    intro p hp
    rw [List.filter_cons_of_pos hp]
    refine leads_cons ?_ ?_
    · exact fun hmem => hfresh ((List.filter_sublist.map _).subset hmem)
    · exact fun b hb => hnewer b (List.mem_filter.1 hb).1
  refine not_mem_computeBackupsToDelete hperiodic hversions ?_ List.mem_cons_self
    (hleads _) (hleads _)
  exact List.nodup_cons.2 ⟨hfresh, hids⟩

/-! ## The passes -/

theorem ensures_cleanupBackups
    {w : World} {backups : List BackupInfo} {retention : RetentionPolicy}
    (h : RepoInv w)
    (hspares : Spares (computeBackupsToDelete backups retention) w.repo) :
    Ensures (cleanupBackups backups retention) (fun _ w' => RepoInv w') w := by
  unfold cleanupBackups forget
  split
  · exact h
  · exact ⟨fun _ => trivial, fun t _ => h.forget hspares t⟩

/-- Clearing what a snapshot supersedes leaves that snapshot the last one. -/
theorem ensures_clearSuperseded
    {α : Type} {w : World} {repo : List Snapshot} {s : Snapshot}
    {info : BackupInfo} {backups : List BackupInfo}
    {f : List BackupInfo → Op α} {Q : Except String α → World → Prop}
    (h : RepoInv w)
    (hrepo : w.repo = repo ++ [s])
    (hcomplete : s.complete = true) (hauto : s.info.backupType ≠ .manual)
    (hfresh : s.info.id ∉ backups.map (·.id))
    (hf :
      ∀ kept w', kept.Sublist backups → RepoInv w' → (∃ front, w'.repo = front ++ [s]) →
        Ensures (f kept) Q w') :
    Ensures (clearSuperseded info backups >>= f) Q w := by
  unfold clearSuperseded
  dsimp only
  split
  · refine ⟨fun _ => trivial, fun t _ => ?_⟩
    have hid : s.info.id ∉ (backups.filter (·.backupType = .periodic)).map (·.id) :=
      fun hmem => hfresh ((List.filter_sublist.map _).subset hmem)
    have hspares : Spares ((backups.filter (·.backupType = .periodic)).map (·.id)) w.repo := by
      intro x hx
      rw [hrepo, newestComplete_append hcomplete hauto] at hx
      rw [← Option.some.inj hx]
      exact hid
    have hlast := forgotten_append hrepo hid t
    obtain ⟨works, delay, elapsed, exported, restic, age, dropped⟩ := t
    cases works with
    | false => exact hf _ _ (List.Sublist.refl _) (h.forget hspares _) hlast
    | true => exact hf _ _ List.filter_sublist (h.forget hspares _) hlast
  · exact hf backups w (List.Sublist.refl _) h ⟨repo, hrepo⟩

theorem ensures_snapshotListed
    {w : World} {retention : RetentionPolicy}
    (h : RepoInv w)
    (hperiodic : 1 ≤ retention.periodic) (hversions : 1 ≤ retention.preUpdateVersions)
    (kind : PassKind) (nowEpoch everyNDays : Nat) :
    Ensures
      (snapshotListed kind retention nowEpoch everyNDays w.list)
      (fun _ w' => RepoInv w') w := by
  have hspares := spares_list h hperiodic hversions
  unfold snapshotListed
  split
  · refine ⟨fun _ => trivial, fun t _ => ensures_orFail (h.pass t) ?_⟩
    refine wp_attempt_bind (ensures_createBackup (h.pass t) _ _) ?_
    intro r w' hr
    cases r with
    | ok info =>
        obtain ⟨hinv, htype, hnewer, s, hrepo, hid, hstype⟩ := hr
        have hcomplete : s.complete = true := hinv.complete s (by rw [hrepo]; simp)
        have hauto : s.info.backupType ≠ .manual := by
          rw [hstype]
          cases kind <;> simp [PassKind.backupType]
        have hfresh := hinv.not_mem_list hrepo
        refine ensures_clearSuperseded hinv hrepo hcomplete hauto hfresh ?_
        rintro kept v hkept hv ⟨front, hfront⟩
        refine ensures_cleanupBackups hv ?_
        rw [hfront]
        refine spares_taken hperiodic hversions hcomplete hauto hid ?_ ?_ ?_
        · exact h.ids_nodup.sublist (hkept.map _)
        · exact fun hmem => hfresh (hid ▸ (hkept.map _).subset hmem)
        · intro b hb
          obtain ⟨r, hr, rfl⟩ := mem_list.1 (hkept.subset hb)
          exact hnewer r hr
    | error e =>
        obtain ⟨hinv, hrepo⟩ := hr
        refine wp_seq (ensures_cleanupBackups hinv ?_) (fun _ _ hv => hv) fun _ _ hv => hv
        rcases hrepo with hsame | ⟨s, happend⟩
        · rw [hsame]
          exact hspares
        · rw [happend]
          refine spares_append hspares fun hmem => ?_
          exact hinv.not_mem_list happend (mem_computeBackupsToDelete hmem)
  · exact ensures_cleanupBackups h hspares

theorem ensures_snapshotAgent
    {w : World} {retention : RetentionPolicy}
    (h : RepoInv w)
    (hperiodic : 1 ≤ retention.periodic) (hversions : 1 ≤ retention.preUpdateVersions)
    (kind : PassKind) (enabled : Bool) (nowEpoch everyNDays : Nat) :
    Ensures
      (snapshotAgent kind enabled retention nowEpoch everyNDays)
      (fun _ w' => RepoInv w') w := by
  unfold snapshotAgent
  split
  · exact h
  · refine ⟨fun _ => trivial, fun t _ => ?_⟩
    show Ensures (if _ then _ else _) _ (w.pass t)
    split
    · exact h.pass t
    · refine ⟨fun _ => trivial, fun t' _ => ?_⟩
      have hlisted := (h.pass t).pass t'
      obtain ⟨works, delay, elapsed, exported, restic, age, dropped⟩ := t'
      cases works with
      | false => exact hlisted
      | true => exact ensures_snapshotListed hlisted hperiodic hversions kind nowEpoch everyNDays

/-- What a snapshot leaves, whether it has worked or not. -/
theorem repoInv_of_taken
    {backupType : BackupType} {repo : List Snapshot} {w : World}
    (r : Except String BackupInfo) (h : Taken backupType repo r w) :
    RepoInv w := by
  cases r with
  | ok info => exact h.1
  | error e => exact h.1

theorem ensures_prog
    {w : World} {op : Operation}
    (h : RepoInv w) (hop : op.Keeps) :
    Ensures op.prog (fun _ w' => RepoInv w') w := by
  cases op with
  | createBackup =>
      exact wp_seq (ensures_createBackup h .manual none)
        (fun _ _ => repoInv_of_taken (.ok _)) fun _ _ => repoInv_of_taken (.error _)
  | preRestore =>
      exact wp_seq (ensures_snapshot h .preRestore none)
        (fun _ _ => repoInv_of_taken (.ok _)) fun _ _ => repoInv_of_taken (.error _)
  | snapshotAgent kind enabled retention nowEpoch everyNDays =>
      exact ensures_snapshotAgent h hop.1 hop.2 kind enabled nowEpoch everyNDays

theorem repoInv_of_reaches
    {w : World}
    (h : machine.Reaches Tidy w) :
    RepoInv w := by
  refine h.invariant ?_ ?_
  · rintro w ⟨hrepo, hdeletions⟩
    refine ⟨?_, ?_, ?_, ?_⟩ <;> simp [hrepo, hdeletions]
  · intro w label w' hinv hok hstep
    have hrun := run_of_wp (ensures_prog hinv hok.1) hok.2
    change (match run exec label.op.prog w label.ticks with
      | (w', some _) => some w'
      | (_, none) => none) = some w' at hstep
    revert hrun hstep
    cases run exec label.op.prog w label.ticks with
    | mk v r =>
        cases r with
        | none => exact fun _ hstep => by cases hstep
        | some r =>
            rintro hrun ⟨⟩
            exact hrun

/-- Along tidy runs there is always a complete rollback point. -/
theorem rollbackPoint_of_tidy
    (w : World)
    (h : machine.Reaches Tidy w) :
    RollbackPoint w :=
  ⟨fun s hs _ => (repoInv_of_reaches h).complete s hs, (repoInv_of_reaches h).kept⟩

/-! ## An export that fails, and its forget -/

def fresh : World where
  now := 0
  repo := []
  next := 0
  deletions := []

/-- A call that works. -/
def working : Tick where
  works := true
  delay := 1
  elapsed := 1
  exported := true
  restic := .finished .withId
  age := none
  dropped := []

/-- A routine pass that keeps one periodic backup. -/
def routine (nowEpoch : Nat) (ticks : List Tick) : Label where
  op := .snapshotAgent .routine true ⟨1, 5⟩ nowEpoch 1
  ticks := ticks

/-- A pass a day later whose export fails; its last tick is that of the forget. -/
def failingPass (forget : Tick) : Label :=
  routine 100000
    ([{ working with elapsed := 100000 }] ++ List.replicate 4 working ++
      [{ working with exported := false }, forget])

/-- The torn snapshot is forgotten, and a later pass replaces the first. -/
def forgottenRun : List Label :=
  [routine 0 (List.replicate 7 working), failingPass working,
    routine 100000 (List.replicate 8 working)]

theorem rollbackPoint_of_tidy_forgottenRun :
    RollbackPoint (machine.runTo fresh forgottenRun) ∧
      (machine.runTo fresh forgottenRun).repo.map (·.info.id) = [2] := by
  have hstart : machine.Reaches Tidy fresh := .start ⟨rfl, rfl⟩
  exact ⟨rollbackPoint_of_tidy _ (hstart.runTo forgottenRun (by decide) (by decide)), by decide⟩

/-- The forget of the torn snapshot fails, and the next pass keeps it in place of the first. -/
def tornRun : List Label :=
  [routine 0 (List.replicate 7 working), failingPass { working with works := false },
    routine 100000 (List.replicate 3 working)]

theorem not_rollbackPoint_tornRun :
    ¬∀ w, machine.Reaches Kept w → RollbackPoint w := by
  intro hall
  have hstart : machine.Reaches Kept fresh := .start ⟨rfl, rfl⟩
  have hpoint := hall _ (hstart.runTo tornRun (by decide) (by decide))
  exact absurd hpoint.kept (by decide)

end Backup
end Vestad
end Vesta
