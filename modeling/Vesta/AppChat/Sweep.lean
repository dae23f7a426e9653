import Mathlib.Logic.Function.Basic
import Vesta.Lib.Machine

/-!
# The sweep of the attachment store

An attachment is a directory of up to four files: the session and the part of an
upload that is staging, the blob and the meta record of a finalized one.
`finalize` renames the part to the blob, writes the meta record and removes the
session, one file operation after the other, and a crash stops it between any
two.  A removed blob leaves its meta record behind.

A sweep reads the references of all stored events once and then visits one
directory after the other.  It takes a directory without a change in the last day
as abandoned when its session is there, or when it has a blob and no reference.
`sweep_safe_iff` says that no pass deletes what is still needed exactly on the
runs that `Fits` admits: no visit finds an old session beside a meta record that
is still needed, or a reference that came after the pass read them.
-/

namespace Vesta
namespace AppChat
namespace Sweep

open Lib

/-! ## Directories -/

def maxAttachmentBytes : Nat := 512 * 1024 * 1024

def staleSessionMaxAgeSecs : Nat := 24 * 3600

/-- A file by its size and its last change.  The size of a record is the size it declares. -/
structure File where
  size : Nat
  mtime : Nat
deriving DecidableEq, Repr

structure Directory where
  session : Option File
  part : Option File
  blob : Option File
  record : Option File
  mtime : Nat
deriving DecidableEq, Repr

namespace Directory

/-- The directory as `mkdir` leaves it. -/
def empty (now : Nat) : Directory where
  session := none
  part := none
  blob := none
  record := none
  mtime := now

def children (directory : Directory) : List File :=
  directory.session.toList ++ directory.part.toList ++ directory.blob.toList ++
    directory.record.toList

/-- The newest change of the directory and of what is in it. -/
def lastActivity (directory : Directory) : Nat :=
  (directory.children.map File.mtime).foldl max directory.mtime

def partSize (directory : Directory) : Nat :=
  match directory.part with
  | some part => part.size
  | none => 0

/-- Meta present but blob gone. -/
def isRemoved (directory : Directory) : Bool :=
  directory.record.isSome && directory.blob.isNone

/-- Append one chunk at an explicit offset.  An empty chunk changes no file that is there. -/
def appendAt (directory : Directory) (now offset bytes : Nat) : Option Directory :=
  match directory.session with
  | none => none
  | some session =>
      if offset = directory.partSize ∧ offset + bytes ≤ session.size then
        match directory.part with
        | none => some { directory with part := some ⟨bytes, now⟩, mtime := now }
        | some part =>
            if bytes = 0 then some directory
            else some { directory with part := some ⟨part.size + bytes, now⟩ }
      else none

/-- Free the bytes, keep the meta record. -/
def removeBlob (directory : Directory) (now : Nat) : Option Directory :=
  if directory.record.isSome ∧ directory.blob.isSome then
    some { directory with blob := none, mtime := now }
  else none

end Directory

/-- How far a new directory came, when a crash may stop it: `mkdir` only, its first file too, or
all of it. -/
inductive Made
  | bare
  | half
  | whole
deriving DecidableEq, Repr

/-- The directory of a new upload. -/
def createSession (now size : Nat) : Made → Directory
  | .bare => .empty now
  | .half => { Directory.empty now with session := some ⟨size, now⟩ }
  | .whole => { Directory.empty now with session := some ⟨size, now⟩, part := some ⟨0, now⟩ }

/-- The directory of a file that the agent sends. -/
def ingestFile (now size : Nat) : Made → Directory
  | .bare => .empty now
  | .half => { Directory.empty now with blob := some ⟨size, now⟩ }
  | .whole => { Directory.empty now with blob := some ⟨size, now⟩, record := some ⟨size, now⟩ }

/-! ## Finalize -/

/-- The next file operation of a finalize, with the size that its session declares. -/
inductive Stage
  | readMeta
  | readSession
  | readPart (size : Nat)
  | replace (size : Nat)
  | writeMeta (size : Nat)
  | unlink
  | ended
deriving DecidableEq, Repr

structure Finalizer where
  id : Nat
  stage : Stage
deriving DecidableEq, Repr

/-- One file operation of a finalize: the directory it leaves, when it changes it, and the next
operation.  An operation that fails ends it. -/
def finalizeStep (directory : Directory) (now : Nat) : Stage → Option Directory × Stage
  | .readMeta => (none, if directory.record.isSome then .ended else .readSession)
  | .readSession =>
      match directory.session with
      | some session => (none, .readPart session.size)
      | none => (none, .ended)
  | .readPart size => (none, if directory.partSize = size then .replace size else .ended)
  | .replace size =>
      match directory.part with
      | some part =>
          (some { directory with blob := some part, part := none, mtime := now }, .writeMeta size)
      | none => (none, .ended)
  | .writeMeta size =>
      (some { directory with record := some ⟨size, now⟩, mtime := now }, .unlink)
  | .unlink =>
      match directory.session with
      | some _ => (some { directory with session := none, mtime := now }, .ended)
      | none => (none, .ended)
  | .ended => (none, .ended)

attribute [grind =] finalizeStep

/-- The same operation when the directory is gone. -/
def finalizeMissing : Stage → Stage
  | .readMeta => .readSession
  | _ => .ended

/-! ## The store over time -/

/-- A pass of the sweep: its time, and the references it read. -/
structure Pass where
  now : Nat
  references : List Nat
deriving DecidableEq, Repr

/-- `active` is the time of the last file operation of each upload, and `interrupted` are the
uploads whose finalize a crash stopped before its last one. -/
structure World where
  dirs : Nat → Option Directory
  finalizers : List Finalizer
  references : List Nat
  pass : Option Pass
  clock : Nat
  active : Nat → Nat
  interrupted : List Nat

inductive Label
  | tick (secs : Nat)
  | create (id size : Nat) (made : Made)
  | ingest (id size : Nat) (made : Made)
  | append (id offset bytes : Nat)
  | finalize (id : Nat)
  | proceed (finalizer : Nat)
  | send (ids : List Nat)
  | remove (id : Nat)
  | sweepBegin
  | visit (id : Nat)
  | sweepEnd
  | crash
deriving DecidableEq, Repr

namespace World

def withDir (w : World) (id : Nat) (directory : Directory) : World :=
  { w with dirs := Function.update w.dirs id (some directory) }

/-- A file operation of an upload. -/
def upload (w : World) (id : Nat) (directory : Directory) : World :=
  { w.withDir id directory with active := Function.update w.active id w.clock }

def append (w : World) (id : Nat) (before after : Directory) : World :=
  if after = before then w else w.upload id after

def proceed (w : World) (k : Nat) (finalizer : Finalizer) : World :=
  match w.dirs finalizer.id with
  | none =>
      { w with
        finalizers := w.finalizers.set k ⟨finalizer.id, finalizeMissing finalizer.stage⟩ }
  | some directory =>
      let next := finalizeStep directory w.clock finalizer.stage
      let moved := { w with finalizers := w.finalizers.set k ⟨finalizer.id, next.2⟩ }
      match next.1 with
      | some changed => moved.upload finalizer.id changed
      | none => moved

/-- An event is stored with the meta records of its attachments. -/
def hasMeta (w : World) (id : Nat) : Bool :=
  match w.dirs id with
  | some directory => directory.record.isSome
  | none => false

/-- Whether a pass deletes a directory. -/
def sweeps (pass : Pass) (id : Nat) (directory : Directory) : Bool :=
  if pass.now < directory.lastActivity + staleSessionMaxAgeSecs then false
  else
    directory.session.isSome || (!directory.isRemoved && !pass.references.contains id)

def visit (w : World) (pass : Pass) (id : Nat) : World :=
  match w.dirs id with
  | none => w
  | some directory =>
      if sweeps pass id directory then { w with dirs := Function.update w.dirs id none } else w

/-- The process dies with its finalizes and its pass. -/
def crash (w : World) : World :=
  { w with
    finalizers := []
    pass := none
    interrupted :=
      w.interrupted ++ (w.finalizers.filter (·.stage = .unlink)).map Finalizer.id }

end World

/-- The id of a new directory is a fresh one. -/
def step (w : World) : Label → Option World
  | .tick secs => some { w with clock := w.clock + secs }
  | .create id size made =>
      if w.dirs id = none ∧ size ≤ maxAttachmentBytes then
        some (w.upload id (createSession w.clock size made))
      else none
  | .ingest id size made =>
      if w.dirs id = none ∧ size ≤ maxAttachmentBytes then
        some (w.upload id (ingestFile w.clock size made))
      else none
  | .append id offset bytes =>
      match w.dirs id with
      | none => none
      | some directory => (directory.appendAt w.clock offset bytes).map (w.append id directory)
  | .finalize id => some { w with finalizers := w.finalizers ++ [⟨id, .readMeta⟩] }
  | .proceed k =>
      match w.finalizers[k]? with
      | none => none
      | some finalizer => some (w.proceed k finalizer)
  | .send ids =>
      if ids.all w.hasMeta then some { w with references := w.references ++ ids } else none
  | .remove id =>
      match w.dirs id with
      | none => none
      | some directory => (directory.removeBlob w.clock).map (w.withDir id)
  | .sweepBegin =>
      if w.pass.isNone then some { w with pass := some ⟨w.clock, w.references⟩ } else none
  | .visit id =>
      match w.pass with
      | none => none
      | some pass => some (w.visit pass id)
  | .sweepEnd => if w.pass.isSome then some { w with pass := none } else none
  | .crash => some w.crash

attribute [grind =] step

def initial : World where
  dirs := fun _ => none
  finalizers := []
  references := []
  pass := none
  clock := 0
  active := fun _ => 0
  interrupted := []

def machine : Machine World Label where
  start w := w = initial
  step := step

/-! ## What a sweep must not delete -/

/-- The directory is that of a finalized attachment which a stored event refers to, or the
tombstone of a removed blob, or an upload that staged something within the maximum age. -/
def Needed (w : World) (id : Nat) (directory : Directory) : Prop :=
  directory.record.isSome = true ∧ id ∈ w.references ∨
    directory.isRemoved = true ∨
      directory.record = none ∧ w.clock < w.active id + staleSessionMaxAgeSecs

/-- A step deletes no directory that is still needed. -/
def Safe (w t : World) : Prop :=
  ∀ id directory, w.dirs id = some directory → t.dirs id = none → ¬ Needed w id directory

/-- A visit after the maximum age finds a finalized directory without its session, unless it has
its blob and no reference; and a reference to a blob was there when the pass read them. -/
def Fits (w : World) : Label → Prop
  | .visit id =>
      ∀ pass ∈ w.pass, ∀ directory ∈ w.dirs id,
        directory.lastActivity + staleSessionMaxAgeSecs ≤ pass.now →
          directory.record.isSome = true →
            (directory.session.isSome = true →
              directory.blob.isSome = true ∧ id ∉ w.references) ∧
              (directory.session = none → directory.blob.isSome = true →
                id ∈ w.references → id ∈ pass.references)
  | _ => True

/-! ## Activity -/

section Activity

variable {directory changed : Directory} {file : File} {now size : Nat} {made : Made}
variable {stage : Stage}

theorem le_foldl_max
    (times : List Nat)
    (first : Nat) :
    first ≤ times.foldl max first ∧ ∀ time ∈ times, time ≤ times.foldl max first := by
  induction times generalizing first with
  | nil => simp
  | cons time times ih =>
      obtain ⟨hfirst, htimes⟩ := ih (max first time)
      rw [List.foldl_cons]
      refine ⟨Nat.le_trans (Nat.le_max_left _ _) hfirst, fun other hother => ?_⟩
      rcases List.mem_cons.1 hother with rfl | hother
      · exact Nat.le_trans (Nat.le_max_right _ _) hfirst
      · exact htimes other hother

theorem le_lastActivity
    (h : now ≤ directory.mtime) :
    now ≤ directory.lastActivity :=
  Nat.le_trans h (le_foldl_max _ _).1

theorem child_le_lastActivity
    (h : file ∈ directory.children) :
    file.mtime ≤ directory.lastActivity :=
  (le_foldl_max _ _).2 file.mtime (List.mem_map_of_mem h)

theorem createSession_active : now ≤ (createSession now size made).lastActivity := by
  cases made <;> exact le_lastActivity (Nat.le_refl _)

theorem ingestFile_active : now ≤ (ingestFile now size made).lastActivity := by
  cases made <;> exact le_lastActivity (Nat.le_refl _)

/-- A chunk that changes a file leaves its time. -/
theorem appendAt_active
    {offset bytes : Nat}
    (h : directory.appendAt now offset bytes = some changed)
    (hne : changed ≠ directory) :
    now ≤ changed.lastActivity := by
  rw [Directory.appendAt] at h
  split at h
  · cases h
  · split at h
    · split at h
      · cases h
        exact le_lastActivity (Nat.le_refl _)
      · split at h
        · cases h
          exact absurd rfl hne
        · rename_i part hpart hbytes
          cases h
          have hchild : (⟨part.size + bytes, now⟩ : File) ∈ Directory.children
              { directory with part := some ⟨part.size + bytes, now⟩ } := by
            simp [Directory.children]
          exact child_le_lastActivity hchild
    · cases h

theorem appendAt_records
    {offset bytes : Nat}
    (h : directory.appendAt now offset bytes = some changed) :
    changed.session = directory.session ∧ changed.record = directory.record := by
  rw [Directory.appendAt] at h
  split at h
  · cases h
  · split at h
    · split at h
      · cases h
        exact ⟨rfl, rfl⟩
      · split at h <;> cases h <;> exact ⟨rfl, rfl⟩
    · cases h

/-- A finalize that changes the directory leaves its time, keeps a session that it does not
unlink, and writes a meta record only before it unlinks. -/
theorem finalizeStep_spec
    (h : (finalizeStep directory now stage).1 = some changed) :
    now ≤ changed.lastActivity ∧
      (changed.session.isSome = true → directory.session.isSome = true) ∧
      (changed.session.isSome = true → changed.record.isSome = true →
        (finalizeStep directory now stage).2 = .unlink ∨ directory.record.isSome = true) := by
  cases stage with
  | readMeta => cases h
  | readSession =>
      rw [finalizeStep] at h
      split at h <;> cases h
  | readPart size => cases h
  | replace size =>
      rw [finalizeStep] at h ⊢
      split at h
      · cases h
        exact ⟨le_lastActivity (Nat.le_refl _), id, fun _ hrecord => Or.inr hrecord⟩
      · cases h
  | writeMeta size =>
      cases h
      exact ⟨le_lastActivity (Nat.le_refl _), id, fun _ _ => Or.inl rfl⟩
  | unlink =>
      rw [finalizeStep] at h ⊢
      split at h
      · cases h
        exact ⟨le_lastActivity (Nat.le_refl _), nofun, nofun⟩
      · cases h
  | ended => cases h

end Activity

/-! ## What every run keeps -/

/-- Every file operation of an upload left its time, and a session beside a meta record has a
finalize that comes to unlink it, or lost it to a crash. -/
structure Kept (w : World) : Prop where
  activity :
    ∀ id directory, w.dirs id = some directory → w.active id ≤ directory.lastActivity
  clock : ∀ id, w.active id ≤ w.clock
  pass : ∀ pass ∈ w.pass, pass.now ≤ w.clock
  leftover :
    ∀ id directory, w.dirs id = some directory →
      directory.session.isSome = true → directory.record.isSome = true →
        id ∈ w.interrupted ∨ ⟨id, .unlink⟩ ∈ w.finalizers

section Kept

variable {w t : World} {id : Nat} {directory changed : Directory} {label : Label}

theorem kept_initial : Kept initial where
  activity := by simp [initial]
  clock := fun _ => Nat.le_refl 0
  pass := by simp [initial]
  leftover := by simp [initial]

theorem Kept.withDir
    (h : Kept w)
    (hactive : w.active id ≤ changed.lastActivity)
    (hleft :
      changed.session.isSome = true → changed.record.isSome = true →
        id ∈ w.interrupted ∨ ⟨id, .unlink⟩ ∈ w.finalizers) :
    Kept (w.withDir id changed) where
  activity := by
    intro other directory hother
    by_cases heq : other = id
    · subst heq
      simp only [World.withDir, Function.update_self, Option.some.injEq] at hother
      exact hother ▸ hactive
    · simp only [World.withDir, Function.update_of_ne heq] at hother
      exact h.activity other directory hother
  clock := h.clock
  pass := h.pass
  leftover := by
    intro other directory hother
    by_cases heq : other = id
    · subst heq
      simp only [World.withDir, Function.update_self, Option.some.injEq] at hother
      exact hother ▸ hleft
    · simp only [World.withDir, Function.update_of_ne heq] at hother
      exact h.leftover other directory hother

theorem Kept.upload
    (h : Kept w)
    (hnow : w.clock ≤ changed.lastActivity)
    (hleft :
      changed.session.isSome = true → changed.record.isSome = true →
        id ∈ w.interrupted ∨ ⟨id, .unlink⟩ ∈ w.finalizers) :
    Kept (w.upload id changed) := by
  have hdir := h.withDir (Nat.le_trans (h.clock id) hnow) hleft
  refine ⟨?_, ?_, hdir.pass, hdir.leftover⟩
  · intro other directory hother
    by_cases heq : other = id
    · subst heq
      simp only [World.upload, World.withDir, Function.update_self, Option.some.injEq] at hother
      simp only [World.upload, Function.update_self]
      exact hother ▸ hnow
    · simp only [World.upload, Function.update_of_ne heq]
      exact hdir.activity other directory hother
  · intro other
    by_cases heq : other = id
    · subst heq
      simp [World.upload, World.withDir]
    · simp only [World.upload, Function.update_of_ne heq]
      exact h.clock other

/-- The finalize that moves is the only one that leaves its last operation. -/
theorem mem_set_of_ne
    {finalizers : List Finalizer} {k : Nat} {old new other : Finalizer}
    (hk : finalizers[k]? = some old)
    (hmem : other ∈ finalizers)
    (hne : other ≠ old) :
    other ∈ finalizers.set k new := by
  obtain ⟨i, hi⟩ := List.mem_iff_getElem?.1 hmem
  refine List.mem_iff_getElem?.2 ⟨i, ?_⟩
  rw [List.getElem?_set_ne, hi]
  rintro rfl
  rw [hk] at hi
  exact hne (Option.some.inj hi).symm

/-- A finalize that leaves its last operation has removed the session. -/
theorem Kept.moved
    {k : Nat} {finalizer : Finalizer} {next : Stage}
    (h : Kept w)
    (hk : w.finalizers[k]? = some finalizer)
    (hgone :
      ∀ directory, w.dirs finalizer.id = some directory → finalizer.stage = .unlink →
        directory.session = none) :
    Kept { w with finalizers := w.finalizers.set k ⟨finalizer.id, next⟩ } where
  activity := h.activity
  clock := h.clock
  pass := h.pass
  leftover := by
    intro other directory hother hsession hrecord
    refine (h.leftover other directory hother hsession hrecord).imp_right fun hmem => ?_
    refine mem_set_of_ne hk hmem ?_
    rintro rfl
    have := hgone directory hother rfl
    simp [this] at hsession

theorem Kept.proceed
    {k : Nat} {finalizer : Finalizer}
    (h : Kept w)
    (hk : w.finalizers[k]? = some finalizer) :
    Kept (w.proceed k finalizer) := by
  have hlt : k < w.finalizers.length := (List.getElem?_eq_some_iff.1 hk).1
  rw [World.proceed]
  split
  · rename_i hnone
    exact h.moved hk fun directory hdir => by simp [hnone] at hdir
  · rename_i directory hdir
    dsimp only
    split
    · rename_i changed hchanged
      obtain ⟨hnow, hsession, hrecord⟩ := finalizeStep_spec hchanged
      by_cases hunlink : finalizer.stage = .unlink
      · -- the session goes, so the directory needs no finalize any more
        have hgone : changed.session = none := by
          rw [hunlink, finalizeStep] at hchanged
          split at hchanged <;> cases hchanged
          rfl
        have hupload : Kept (w.upload finalizer.id changed) :=
          h.upload hnow fun hses => by simp [hgone] at hses
        refine hupload.moved hk fun other hother _ => ?_
        simp only [World.upload, World.withDir, Function.update_self, Option.some.injEq] at hother
        rw [← hother, hgone]
      · refine (h.moved hk fun _ _ hstage => absurd hstage hunlink).upload hnow ?_
        intro hses hrec
        rcases hrecord hses hrec with hnext | hold
        · rw [hnext]
          exact Or.inr (List.mem_set hlt _)
        · refine (h.leftover finalizer.id directory hdir (hsession hses) hold).imp_right
            fun hmem => ?_
          refine mem_set_of_ne hk hmem ?_
          intro heq
          rw [← heq] at hunlink
          exact hunlink rfl
    · rename_i hnone
      refine h.moved hk fun other hother hstage => ?_
      rw [hdir] at hother
      cases hother
      rw [hstage, finalizeStep] at hnone
      split at hnone
      · cases hnone
      · assumption

/-- A directory that is gone vouches for nothing. -/
theorem Kept.delete
    (h : Kept w) :
    Kept { w with dirs := Function.update w.dirs id none } := by
  have hold : ∀ other directory, Function.update w.dirs id none other = some directory →
      w.dirs other = some directory := by
    intro other directory hother
    by_cases heq : other = id
    · subst heq
      simp at hother
    · rwa [Function.update_of_ne heq] at hother
  exact ⟨fun other directory hother => h.activity other directory (hold other directory hother),
    h.clock, h.pass,
    fun other directory hother => h.leftover other directory (hold other directory hother)⟩

theorem kept_step
    (h : Kept w)
    (hstep : step w label = some t) :
    Kept t := by
  cases label with
  | tick secs =>
      cases hstep
      refine ⟨h.activity, fun id => Nat.le_add_right_of_le (h.clock id), ?_, h.leftover⟩
      exact fun pass hpass => Nat.le_add_right_of_le (h.pass pass hpass)
  | create id size made =>
      rw [step] at hstep
      split at hstep
      · cases hstep
        refine h.upload createSession_active fun _ hrecord => ?_
        cases made <;> cases hrecord
      · cases hstep
  | ingest id size made =>
      rw [step] at hstep
      split at hstep
      · cases hstep
        refine h.upload ingestFile_active fun hsession _ => ?_
        cases made <;> cases hsession
      · cases hstep
  | append id offset bytes =>
      rw [step] at hstep
      split at hstep
      · cases hstep
      · rename_i directory hdir
        obtain ⟨changed, hchanged, rfl⟩ := Option.map_eq_some_iff.1 hstep
        rw [World.append]
        split
        · exact h
        · rename_i hne
          have hsame := appendAt_records hchanged
          refine h.upload (appendAt_active hchanged hne) ?_
          rw [hsame.1, hsame.2]
          exact h.leftover id directory hdir
  | finalize id =>
      cases hstep
      refine ⟨h.activity, h.clock, h.pass, fun id directory hdir hsession hrecord => ?_⟩
      exact (h.leftover id directory hdir hsession hrecord).imp_right (List.mem_append_left _)
  | proceed k =>
      rw [step] at hstep
      split at hstep
      · cases hstep
      · rename_i finalizer hk
        cases hstep
        exact h.proceed hk
  | send ids =>
      rw [step] at hstep
      split at hstep
      · cases hstep
        exact ⟨h.activity, h.clock, h.pass, h.leftover⟩
      · cases hstep
  | remove id =>
      rw [step] at hstep
      split at hstep
      · cases hstep
      · rename_i directory hdir
        obtain ⟨changed, hchanged, rfl⟩ := Option.map_eq_some_iff.1 hstep
        rw [Directory.removeBlob] at hchanged
        split at hchanged
        · cases hchanged
          exact h.withDir (Nat.le_trans (h.clock id) (le_lastActivity (Nat.le_refl _)))
            (h.leftover id directory hdir)
        · cases hchanged
  | sweepBegin =>
      rw [step] at hstep
      split at hstep
      · cases hstep
        refine ⟨h.activity, h.clock, ?_, h.leftover⟩
        rintro pass hpass
        cases hpass
        exact Nat.le_refl _
      · cases hstep
  | visit id =>
      rw [step] at hstep
      split at hstep
      · cases hstep
      · cases hstep
        rw [World.visit]
        split
        · exact h
        · split
          · exact h.delete
          · exact h
  | sweepEnd =>
      rw [step] at hstep
      split at hstep
      · cases hstep
        exact ⟨h.activity, h.clock, fun pass hpass => absurd hpass (Option.not_mem_none pass),
          h.leftover⟩
      · cases hstep
  | crash =>
      cases hstep
      refine ⟨h.activity, h.clock, fun pass hpass => absurd hpass (Option.not_mem_none pass), ?_⟩
      intro id directory hdir hsession hrecord
      refine Or.inl (List.mem_append.2 ?_)
      refine (h.leftover id directory hdir hsession hrecord).imp_right fun hmem => ?_
      exact List.mem_map.2 ⟨⟨id, .unlink⟩, by simp [hmem], rfl⟩

end Kept

/-- In every run a session stays beside a meta record only while a finalize is before its last
operation, or after a crash that stopped one there. -/
theorem leftover_of_reaches
    {w : World} {id : Nat} {directory : Directory}
    (h : machine.Reaches Machine.always w)
    (hdir : w.dirs id = some directory)
    (hsession : directory.session.isSome = true)
    (hrecord : directory.record.isSome = true) :
    id ∈ w.interrupted ∨ ⟨id, .unlink⟩ ∈ w.finalizers := by
  have hkept : Kept w := by
    refine h.invariant (I := Kept) ?_ ?_
    · rintro v rfl
      exact kept_initial
    · exact fun _ _ _ hv _ hstep => kept_step hv hstep
  exact hkept.leftover id directory hdir hsession hrecord

/-! ## Sweeps -/

section Sweeps

variable {w t : World} {id : Nat} {pass : Pass} {directory : Directory} {label : Label}

theorem sweeps_iff :
    World.sweeps pass id directory = true ↔
      directory.lastActivity + staleSessionMaxAgeSecs ≤ pass.now ∧
        (directory.session.isSome = true ∨
          directory.isRemoved = false ∧ id ∉ pass.references) := by
  rw [World.sweeps]
  split
  · rename_i hrecent
    simp [Nat.not_le.2 hrecent]
  · rename_i hstale
    simp [Nat.not_lt.1 hstale]

theorem visit_of_sweeps
    (hdir : w.dirs id = some directory)
    (hsweeps : World.sweeps pass id directory = true) :
    w.visit pass id = { w with dirs := Function.update w.dirs id none } := by
  rw [World.visit, hdir]
  exact if_pos hsweeps

theorem visit_of_keeps
    (hdir : w.dirs id = some directory)
    (hkeeps : ¬World.sweeps pass id directory = true) :
    w.visit pass id = w := by
  rw [World.visit, hdir]
  exact if_neg hkeeps

theorem visit_deletes_iff
    (hdir : w.dirs id = some directory) :
    (w.visit pass id).dirs id = none ↔ World.sweeps pass id directory = true := by
  by_cases hsweeps : World.sweeps pass id directory = true
  · rw [visit_of_sweeps hdir hsweeps]
    exact iff_of_true (Function.update_self id none w.dirs) hsweeps
  · rw [visit_of_keeps hdir hsweeps, hdir]
    exact iff_of_false (Option.some_ne_none directory) hsweeps

theorem visit_other
    {other : Nat}
    (hne : other ≠ id) :
    (w.visit pass id).dirs other = w.dirs other := by
  cases hdir : w.dirs id with
  | none => rw [World.visit, hdir]
  | some directory =>
      by_cases hsweeps : World.sweeps pass id directory = true
      · rw [visit_of_sweeps hdir hsweeps]
        exact Function.update_of_ne hne none w.dirs
      · rw [visit_of_keeps hdir hsweeps]

/-- A step that is no visit keeps every directory. -/
theorem dirs_of_no_visit
    (hstep : step w label = some t)
    (hvisit : ∀ id, label ≠ .visit id)
    (hdir : (w.dirs id).isSome = true) :
    (t.dirs id).isSome = true := by
  have hupdate : ∀ (other : Nat) (changed : Directory),
      (Function.update w.dirs other (some changed) id).isSome = true := by
    intro other changed
    by_cases heq : id = other
    · subst heq
      simp
    · rwa [Function.update_of_ne heq]
  cases label with
  | tick secs =>
      cases hstep
      exact hdir
  | create other size made =>
      rw [step] at hstep
      split at hstep
      · cases hstep
        exact hupdate other _
      · cases hstep
  | ingest other size made =>
      rw [step] at hstep
      split at hstep
      · cases hstep
        exact hupdate other _
      · cases hstep
  | append other offset bytes =>
      rw [step] at hstep
      split at hstep
      · cases hstep
      · obtain ⟨changed, -, rfl⟩ := Option.map_eq_some_iff.1 hstep
        rw [World.append]
        split
        · exact hdir
        · exact hupdate other _
  | finalize other =>
      cases hstep
      exact hdir
  | proceed k =>
      rw [step] at hstep
      split at hstep
      · cases hstep
      · cases hstep
        rw [World.proceed]
        split
        · exact hdir
        · dsimp only
          split
          · exact hupdate _ _
          · exact hdir
  | send ids =>
      rw [step] at hstep
      split at hstep
      · cases hstep
        exact hdir
      · cases hstep
  | remove other =>
      rw [step] at hstep
      split at hstep
      · cases hstep
      · obtain ⟨changed, -, rfl⟩ := Option.map_eq_some_iff.1 hstep
        exact hupdate other _
  | sweepBegin =>
      rw [step] at hstep
      split at hstep
      · cases hstep
        exact hdir
      · cases hstep
  | visit other => exact absurd rfl (hvisit other)
  | sweepEnd =>
      rw [step] at hstep
      split at hstep
      · cases hstep
        exact hdir
      · cases hstep
  | crash =>
      cases hstep
      exact hdir

/-- An upload that staged something within the maximum age is not old for the pass. -/
theorem not_recent_of_stale
    (h : Kept w)
    (hpass : w.pass = some pass)
    (hdir : w.dirs id = some directory)
    (hstale : directory.lastActivity + staleSessionMaxAgeSecs ≤ pass.now) :
    ¬ w.clock < w.active id + staleSessionMaxAgeSecs := by
  have hactive := h.activity id directory hdir
  have hnow := h.pass pass hpass
  omega

/-- A visit deletes nothing that is needed exactly when `Fits` admits it. -/
theorem safe_visit_iff
    (h : Kept w)
    (hpass : w.pass = some pass) :
    Safe w (w.visit pass id) ↔ Fits w (.visit id) := by
  constructor
  · intro hsafe pass' hpass' directory hdir hstale hrecord
    rw [hpass] at hpass'
    cases hpass'
    have hkeep := fun hsweeps => hsafe id directory hdir ((visit_deletes_iff hdir).2 hsweeps)
    constructor
    · intro hsession
      have hnot := hkeep (sweeps_iff.2 ⟨hstale, Or.inl hsession⟩)
      constructor
      · refine Option.isSome_iff_ne_none.2 fun hblob => hnot (Or.inr (Or.inl ?_))
        simp [Directory.isRemoved, hrecord, hblob]
      · exact fun hreference => hnot (Or.inl ⟨hrecord, hreference⟩)
    · intro _ hblob hreference
      refine Classical.byContradiction fun hunknown => ?_
      have hpresent : directory.isRemoved = false := by
        rw [Directory.isRemoved, Option.isNone_eq_false_iff.2 hblob, Bool.and_false]
      exact hkeep (sweeps_iff.2 ⟨hstale, Or.inr ⟨hpresent, hunknown⟩⟩)
        (Or.inl ⟨hrecord, hreference⟩)
  · intro hfits other directory hdir hgone hneeded
    by_cases heq : other = id
    · subst heq
      obtain ⟨hstale, hcause⟩ := sweeps_iff.1 ((visit_deletes_iff hdir).1 hgone)
      have hadmitted := hfits pass hpass directory hdir hstale
      rcases hneeded with ⟨hrecord, hreference⟩ | hremoved | ⟨-, hrecent⟩
      · obtain ⟨hleft, hlate⟩ := hadmitted hrecord
        cases hsession : directory.session with
        | some session => exact (hleft (by simp [hsession])).2 hreference
        | none =>
            rcases hcause with hstaging | ⟨hpresent, hunknown⟩
            · simp [hsession] at hstaging
            · have hblob : directory.blob.isSome = true := by
                rw [Directory.isRemoved, hrecord, Bool.true_and] at hpresent
                simpa using hpresent
              exact hunknown (hlate hsession hblob hreference)
      · rcases hcause with hstaging | ⟨hpresent, -⟩
        · obtain ⟨hrecord, hblob⟩ : directory.record.isSome = true ∧ directory.blob = none := by
            simpa [Directory.isRemoved] using hremoved
          have := ((hadmitted hrecord).1 hstaging).1
          simp [hblob] at this
        · rw [hremoved] at hpresent
          cases hpresent
      · exact not_recent_of_stale h hpass hdir hstale hrecent
    · rw [visit_other heq, hdir] at hgone
      cases hgone

theorem safe_step_iff
    (h : Kept w) :
    (∀ t ∈ step w label, Safe w t) ↔ Fits w label := by
  by_cases hvisit : ∀ id, label ≠ .visit id
  · have hfits : Fits w label := by
      cases label with
      | visit id => exact absurd rfl (hvisit id)
      | _ => trivial
    refine iff_of_true (fun t ht id directory hdir hgone => ?_) hfits
    have hbefore : (w.dirs id).isSome = true := by simp [hdir]
    have hafter := dirs_of_no_visit ht hvisit hbefore
    simp [hgone] at hafter
  · obtain ⟨id, rfl⟩ : ∃ id, label = .visit id := by
      simpa using hvisit
    cases hpass : w.pass with
    | none => simp [step, hpass, Fits]
    | some pass =>
        simp only [step, hpass, Option.mem_some_iff, forall_eq']
        exact safe_visit_iff h hpass

end Sweeps

/-- No pass deletes what is needed on exactly the runs in which no visit finds an old session
beside a meta record that is still needed, or a reference that the pass did not read. -/
theorem sweep_safe_iff (run : List Label) :
    machine.Admits (fun w label => ∀ t ∈ step w label, Safe w t) initial run ↔
      machine.Admits Fits initial run :=
  machine.admits_congr (fun _ _ _ hkept _ hstep => kept_step hkept hstep)
    (fun _ _ hkept => safe_step_iff hkept) run kept_initial

/-- A finalize that a crash stops before its last operation, then a message with the
attachment. -/
def leftBehind : List Label :=
  [.create 0 0 .whole, .finalize 0, .proceed 0, .proceed 0, .proceed 0, .proceed 0, .proceed 0,
    .crash, .send [0], .tick staleSessionMaxAgeSecs, .sweepBegin]

/-- The sweep takes the finalized attachment for a staging upload and deletes it. -/
theorem visit_deletes_referenced :
    ∃ w t directory, machine.Reaches Machine.always w ∧ step w (.visit 0) = some t ∧
      w.dirs 0 = some directory ∧ t.dirs 0 = none ∧ Needed w 0 directory := by
  have hstart : machine.Reaches Machine.always initial := .start rfl
  refine ⟨machine.runTo initial leftBehind,
    (machine.runTo initial leftBehind).visit ⟨staleSessionMaxAgeSecs, [0]⟩ 0,
    { session := some ⟨0, 0⟩, part := none, blob := some ⟨0, 0⟩, record := some ⟨0, 0⟩,
      mtime := 0 },
    hstart.runTo leftBehind (Machine.admits_always _ _ _) (by decide +kernel), ?_, ?_, ?_, ?_⟩
  · rfl
  · decide +kernel
  · decide +kernel
  · exact Or.inl ⟨by decide +kernel, by decide +kernel⟩

end Sweep
end AppChat
end Vesta
