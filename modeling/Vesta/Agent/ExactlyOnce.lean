import Mathlib.Data.List.Perm.Basic
import Vesta.Agent.Intake

/-!
# Each version that is read is handled once

The invariant says what the file under a path may be.  Under a path that is remembered, read
by the scan or carried by a turn, it is the version that was read there, or one that was
written while the path was held.  Under any other path it has not been announced.  So a scan
announces what it has not announced before, and a clear deletes what was delivered.
-/

namespace Vesta
namespace Agent
namespace Intake

open Lib

/-- The file under the path is gone, of this version, or was written while it was held. -/
def World.Carries (w : World) (path : Text) (version : Nat) : Prop :=
  ∀ file, w.files[path]? = some file → file.version = version ∨ file.version ∈ w.superseded

/-- What the scan has read of a path is new exactly if the path is not remembered. -/
structure Scanned (w : World) (entry : Text × File) : Prop where
  written : entry ∈ w.written
  carried : w.Carries entry.1 entry.2.version
  seen : entry.1 ∈ w.queuedPaths → entry.2.version ∈ w.emitted ∨ entry.2.version ∈ w.superseded
  unseen : entry.1 ∉ w.queuedPaths → entry.2.version ∉ w.emitted

structure Sound (w : World) : Prop where
  young : ∀ entry ∈ w.written, entry.2.version < w.nextVersion
  unique : ∀ entry ∈ w.written, ∀ other ∈ w.written,
    entry.2.version = other.2.version → entry = other
  bounded : ∀ version ∈ w.emitted, version < w.nextVersion
  stored : ∀ (path : Text) (file : File), w.files[path]? = some file → (path, file) ∈ w.written
  held : ∀ path ∈ w.queuedPaths, ∀ file, w.files[path]? = some file →
    file.version ∈ w.emitted ∨ file.version ∈ w.superseded
  unheld : ∀ path, path ∉ w.queuedPaths → ∀ file, w.files[path]? = some file →
    file.version ∉ w.emitted
  listing : (w.phase.entries.map Prod.fst).Nodup
  scanned : ∀ entry ∈ w.phase.entries, Scanned w entry
  live : ∀ e ∈ w.live, e.version ∈ w.emitted ∧ w.Carries e.path e.version
  sent : ∀ running ∈ w.running, running.sent = true →
    ∀ e ∈ running.item.entries, e.version ∈ w.delivered
  once : ExactlyOnce w

section Steps

variable {blockDashes : Bool}
variable {w next : World}

theorem Sound.start (h : (machine blockDashes).start w) : Sound w := by
  obtain ⟨hyoung, hunique, hw⟩ := h
  rw [hw]
  have hstored : ∀ (path : Text) (file : File), w.files[path]? = some file →
      (path, file) ∈ w.files.toList := fun path file hfile =>
    Std.ExtTreeMap.mem_toList_iff_getElem?_eq_some.2 hfile
  constructor
  · exact hyoung
  · exact hunique
  · simp
  · exact hstored
  · simp
  · simp
  · exact .nil
  · exact fun entry hentry => absurd hentry List.not_mem_nil
  · simp [World.live]
  · simp
  · constructor
    · exact .nil
    · exact .nil
    · simp
    · exact fun entry hentry =>
        .inr (.inl (Std.ExtTreeMap.mem_toList_iff_getElem?_eq_some.1 hentry))
    · simp
    · simp
    · simp

/-! ## The processor -/

/-- Items may be reordered and dropped, and what is snoozed be queued. -/
theorem Sound.reshape
    (h : Sound w)
    {notify : Bool} {pendingSnoozed : List Loaded} {queue pending : List Item}
    {running : Option Running} {queued delivered : List Nat}
    (hnext : next = { w with
      notify := notify
      pendingSnoozed := pendingSnoozed
      queue := queue
      pending := pending
      running := running
      queued := queued
      delivered := delivered })
    (hlive : ∀ e ∈ next.live, e ∈ w.live)
    (hqueued : (queued ++ pendingSnoozed.map Loaded.version).Perm
      (w.queued ++ w.pendingSnoozed.map Loaded.version))
    (hdelivered : ∀ version ∈ w.delivered, version ∈ delivered)
    (hsent : ∀ r ∈ running, r.sent = true → ∀ e ∈ r.item.entries, e.version ∈ delivered) :
    Sound next := by
  subst hnext
  constructor
  · exact h.young
  · exact h.unique
  · exact h.bounded
  · exact h.stored
  · exact h.held
  · exact h.unheld
  · exact h.listing
  · exact fun entry hentry =>
      have hscanned := h.scanned entry hentry
      ⟨hscanned.written, hscanned.carried, hscanned.seen, hscanned.unseen⟩
  · exact fun e he => h.live e (hlive e he)
  · exact hsent
  · exact {
      emitted := h.once.emitted
      routed := (hqueued.append_right _).trans h.once.routed
      read := h.once.read
      accounted := h.once.accounted
      deleted := fun version hversion =>
        (h.once.deleted version hversion).imp_left (hdelivered version)
      moved := h.once.moved
      unlinked := h.once.unlinked }

/-- Files whose versions were announced, or that do not parse, may go. -/
theorem Sound.erase
    (h : Sound w)
    {gone : List Text} {deleted : List Nat} {unlinked : List File}
    (hnext : next = { w with
      files := gone.foldl (fun files path => files.erase path) w.files
      deleted := deleted
      unlinked := unlinked })
    (hgone : ∀ path ∈ gone, ∀ file, w.files[path]? = some file →
      file.version ∈ w.emitted ∨ file ∈ unlinked ∨ file.version ∈ w.superseded)
    (hdeleted : ∀ version ∈ deleted, version ∈ w.delivered ∨ version ∈ w.superseded)
    (hkept : ∀ file ∈ w.unlinked, file ∈ unlinked)
    (hunlinked : ∀ file ∈ unlinked, file.content = none ∨ file.version ∈ w.superseded) :
    Sound next := by
  have hsub : ∀ (path : Text) (file : File), next.files[path]? = some file →
      w.files[path]? = some file := fun path file hfile =>
    (Map.getElem?_foldl_erase.1 (by rw [hnext] at hfile; exact hfile)).2
  have hcarries : ∀ path version, w.Carries path version → next.Carries path version :=
    fun path version hcarried file hfile => by
      rw [hnext]
      exact hcarried file (hsub path file hfile)
  have haccounted : ∀ entry ∈ w.written,
      entry.2.version ∈ w.emitted ∨ next.files[entry.1]? = some entry.2 ∨
        entry.2.version ∈ w.overwritten ∨ entry.2 ∈ unlinked ∨
        entry.2.version ∈ w.superseded := by
    intro entry hentry
    rcases h.once.accounted entry hentry with hemitted | hfile | hover | hun | hsuper
    · exact .inl hemitted
    · by_cases hpath : entry.1 ∈ gone
      · rcases hgone entry.1 hpath entry.2 hfile with hemitted | hun | hsuper
        · exact .inl hemitted
        · exact .inr (.inr (.inr (.inl hun)))
        · exact .inr (.inr (.inr (.inr hsuper)))
      · rw [hnext]
        exact .inr (.inl (Map.getElem?_foldl_erase.2 ⟨hpath, hfile⟩))
    · exact .inr (.inr (.inl hover))
    · exact .inr (.inr (.inr (.inl (hkept _ hun))))
    · exact .inr (.inr (.inr (.inr hsuper)))
  subst hnext
  constructor
  · exact h.young
  · exact h.unique
  · exact h.bounded
  · exact fun path file hfile => h.stored path file (hsub path file hfile)
  · exact fun path hpath file hfile => h.held path hpath file (hsub path file hfile)
  · exact fun path hpath file hfile => h.unheld path hpath file (hsub path file hfile)
  · exact h.listing
  · exact fun entry hentry =>
      have hscanned := h.scanned entry hentry
      ⟨hscanned.written, hcarries _ _ hscanned.carried, hscanned.seen, hscanned.unseen⟩
  · exact fun e he => ⟨(h.live e he).1, hcarries _ _ (h.live e he).2⟩
  · exact h.sent
  · exact {
      emitted := h.once.emitted
      routed := h.once.routed
      read := h.once.read
      accounted := haccounted
      deleted := hdeleted
      moved := h.once.moved
      unlinked := hunlinked }

/-- The files of an item may be cleared once it is delivered. -/
theorem Sound.clear
    (h : Sound w)
    {item : Item}
    (hitem : ∀ e ∈ item.entries,
      e.version ∈ w.emitted ∧ e.version ∈ w.delivered ∧ w.Carries e.path e.version) :
    Sound (w.clear item) := by
  have hpaths : ∀ path ∈ item.turn.filePaths, ∀ file, w.files[path]? = some file →
      (file.version ∈ w.emitted ∧ file.version ∈ w.delivered) ∨
        file.version ∈ w.superseded := by
    intro path hpath file hfile
    rw [item.filePaths_eq] at hpath
    obtain ⟨e, he, rfl⟩ := List.mem_map.1 hpath
    obtain ⟨hemitted, hdelivered, hcarries⟩ := hitem e he
    refine (hcarries file hfile).imp_left fun hversion => ?_
    rw [hversion]
    exact ⟨hemitted, hdelivered⟩
  refine h.erase rfl ?_ ?_ (fun file hfile => hfile) h.once.unlinked
  · intro path hpath file hfile
    rcases hpaths path hpath file hfile with ⟨hemitted, -⟩ | hsuper
    · exact .inl hemitted
    · exact .inr (.inr hsuper)
  · intro version hversion
    rcases List.mem_append.1 hversion with hold | hnew
    · exact h.once.deleted version hold
    · obtain ⟨path, hpath, hdeleted⟩ := List.mem_filterMap.1 hnew
      obtain ⟨file, hfile, rfl⟩ := Option.map_eq_some_iff.1 hdeleted
      exact (hpaths path hpath file hfile).imp_left And.right

/-! ## The producers -/

theorem Sound.write
    (h : Sound w)
    (path : Text)
    (content : Option Notification) :
    Sound (w.write path content) := by
  have hsuper : ∀ version ∈ w.superseded, version ∈ (w.write path content).superseded := by
    intro version hversion
    rw [World.write]
    split
    · exact List.mem_append_left _ hversion
    · exact hversion
  have hnew : path ∈ w.held → w.nextVersion ∈ (w.write path content).superseded := by
    intro hheld
    rw [World.write, if_pos hheld]
    exact List.mem_append_right _ (List.mem_singleton_self _)
  -- A file is the new one, or one that was there.
  have hcases : ∀ (other : Text) (file : File),
      (w.write path content).files[other]? = some file →
      (other = path ∧ file = ⟨w.nextVersion, content⟩) ∨
        (other ≠ path ∧ w.files[other]? = some file) := by
    intro other file hfile
    simp only [World.write, Std.ExtTreeMap.getElem?_insert] at hfile
    by_cases hpath : other = path
    · subst hpath
      simp only [Std.compare_self, if_true] at hfile
      exact .inl ⟨rfl, (Option.some.inj hfile).symm⟩
    · rw [if_neg (by simpa using fun heq : path = other => hpath heq.symm)] at hfile
      exact .inr ⟨hpath, hfile⟩
  have hcarries : ∀ other version, other ∈ w.held → w.Carries other version →
      (w.write path content).Carries other version := by
    intro other version hheld hcarried file hfile
    rcases hcases other file hfile with ⟨rfl, rfl⟩ | ⟨-, hold⟩
    · exact .inr (hnew hheld)
    · exact (hcarried file hold).imp_right (hsuper _)
  have hqueuedHeld : ∀ other ∈ w.queuedPaths, other ∈ w.held := fun other hother =>
    List.mem_append_left _ (List.mem_append_left _ hother)
  have hscanHeld : ∀ entry ∈ w.phase.entries, entry.1 ∈ w.held := fun entry hentry =>
    List.mem_append_left _ (List.mem_append_right _ (List.mem_map_of_mem hentry))
  have hliveHeld : ∀ e ∈ w.live, e.path ∈ w.held := fun e he =>
    List.mem_append_right _ (List.mem_map_of_mem he)
  have hwritten : ∀ entry ∈ (w.write path content).written,
      entry ∈ w.written ∨ entry = (path, ⟨w.nextVersion, content⟩) := fun entry hentry =>
    (List.mem_append.1 hentry).imp_right List.mem_singleton.1
  constructor
  · intro entry hentry
    rcases hwritten entry hentry with hold | rfl
    · exact Nat.lt_succ_of_lt (h.young entry hold)
    · exact Nat.lt_succ_self _
  · intro entry hentry other hother hversion
    rcases hwritten entry hentry with hold | rfl
    · rcases hwritten other hother with hold' | rfl
      · exact h.unique entry hold other hold' hversion
      · exact absurd hversion (Nat.ne_of_lt (h.young entry hold))
    · rcases hwritten other hother with hold' | rfl
      · exact absurd hversion.symm (Nat.ne_of_lt (h.young other hold'))
      · rfl
  · exact fun version hversion => Nat.lt_succ_of_lt (h.bounded version hversion)
  · intro other file hfile
    rcases hcases other file hfile with ⟨rfl, rfl⟩ | ⟨-, hold⟩
    · exact List.mem_append_right _ (List.mem_singleton_self _)
    · exact List.mem_append_left _ (h.stored other file hold)
  · intro other hother file hfile
    rcases hcases other file hfile with ⟨rfl, rfl⟩ | ⟨-, hold⟩
    · exact .inr (hnew (hqueuedHeld other hother))
    · exact (h.held other hother file hold).imp_right (hsuper _)
  · intro other hother file hfile
    rcases hcases other file hfile with ⟨rfl, rfl⟩ | ⟨-, hold⟩
    · exact fun hemitted => Nat.lt_irrefl _ (h.bounded _ hemitted)
    · exact h.unheld other hother file hold
  · exact h.listing
  · intro entry hentry
    have hscanned := h.scanned entry hentry
    exact ⟨List.mem_append_left _ hscanned.written,
      hcarries _ _ (hscanHeld entry hentry) hscanned.carried,
      fun hqueued => (hscanned.seen hqueued).imp_right (hsuper _), hscanned.unseen⟩
  · exact fun e he => ⟨(h.live e he).1, hcarries _ _ (hliveHeld e he) (h.live e he).2⟩
  · exact h.sent
  · refine {
      emitted := h.once.emitted
      routed := h.once.routed
      read := fun version hversion => (h.once.read version hversion).imp_right (hsuper _)
      accounted := ?_
      deleted := fun version hversion => (h.once.deleted version hversion).imp_right (hsuper _)
      moved := fun version hversion => (h.once.moved version hversion).imp_right (hsuper _)
      unlinked := fun file hfile => (h.once.unlinked file hfile).imp_right (hsuper _) }
    intro entry hentry
    rcases hwritten entry hentry with hold | rfl
    · rcases h.once.accounted entry hold with hemitted | hfile | hover | hun | hsup
      · exact .inl hemitted
      · by_cases hpath : entry.1 = path
        · refine .inr (.inr (.inl (List.mem_append_right _ ?_)))
          rw [← hpath, hfile]
          exact List.mem_singleton_self _
        · refine .inr (.inl ?_)
          simp only [World.write, Std.ExtTreeMap.getElem?_insert]
          rw [if_neg (by simpa using fun heq : path = entry.1 => hpath heq.symm), hfile]
      · exact .inr (.inr (.inl (List.mem_append_left _ hover)))
      · exact .inr (.inr (.inr (.inl hun)))
      · exact .inr (.inr (.inr (.inr (hsuper _ hsup))))
    · exact .inr (.inl (by simp [World.write]))

/-! ## The scan -/

/-- The scan may read on, and forget what it has read. -/
theorem Sound.rescan
    (h : Sound w)
    {notify : Bool} {queuedPaths : List Text} {phase : Phase}
    (hnext : next = { w with notify := notify, queuedPaths := queuedPaths, phase := phase })
    (hpruned : ∀ path ∈ queuedPaths, path ∈ w.queuedPaths)
    (hgone : ∀ path ∈ w.queuedPaths, path ∉ queuedPaths → w.files[path]? = none)
    (hlisting : (phase.entries.map Prod.fst).Nodup)
    (hscanned : ∀ entry ∈ phase.entries, Scanned next entry) :
    Sound next := by
  subst hnext
  constructor
  · exact h.young
  · exact h.unique
  · exact h.bounded
  · exact h.stored
  · exact fun path hpath => h.held path (hpruned path hpath)
  · intro path hpath file hfile
    refine h.unheld path (fun hqueued => ?_) file hfile
    exact nomatch (hgone path hqueued hpath).symm.trans hfile
  · exact hlisting
  · exact hscanned
  · exact h.live
  · exact h.sent
  · exact ⟨h.once.emitted, h.once.routed, h.once.read, h.once.accounted, h.once.deleted,
      h.once.moved, h.once.unlinked⟩

theorem Sound.tick (h : Sound w) : Sound w.tick := by
  refine h.rescan rfl ?_ ?_ .nil ?_
  · exact fun path hpath => (List.mem_filter.1 hpath).1
  · intro path hpath hpruned
    cases hfile : w.files[path]? with
    | none => rfl
    | some file => exact absurd (List.mem_filter.2 ⟨hpath, by rw [hfile]; rfl⟩) hpruned
  · exact fun entry hentry => absurd hentry List.not_mem_nil

theorem Sound.load (h : Sound w) : Sound { w with phase := .listed w.files.toList } := by
  refine h.rescan rfl (fun path hpath => hpath) ?_ (Map.nodup_map_fst_toList w.files) ?_
  · exact fun path hpath hpruned => absurd hpath hpruned
  · intro entry hentry
    have hfile := Std.ExtTreeMap.mem_toList_iff_getElem?_eq_some.1 hentry
    exact {
      written := h.stored entry.1 entry.2 hfile
      carried := fun file hfile' => by
        rw [Option.some.inj (hfile.symm.trans hfile')]
        exact .inl rfl
      seen := fun hqueued => h.held entry.1 hqueued entry.2 hfile
      unseen := fun hqueued => h.unheld entry.1 hqueued entry.2 hfile }

/-- What parses is in the order in which it was listed. -/
theorem parsed_sublist (contents : List (Text × File)) :
    ((parsed contents).map Loaded.entry).Sublist contents := by
  induction contents with
  | nil => exact .slnil
  | cons entry contents ih =>
      obtain ⟨path, version, content⟩ := entry
      cases content with
      | none => exact ih.cons _
      | some notif => exact ih.cons_cons _

theorem Sound.parse
    (h : Sound w)
    {contents : List (Text × File)}
    (hphase : w.phase = .listed contents) :
    Sound (w.parse contents) := by
  have hscanned : ∀ entry ∈ contents, Scanned w entry := fun entry hentry =>
    h.scanned entry (by rw [hphase]; exact hentry)
  have hlisting : (contents.map Prod.fst).Nodup := by
    have hnodup := h.listing
    rwa [hphase] at hnodup
  have hsub := parsed_sublist contents
  -- The scan goes on with what parses; then the rest is unlinked.
  have hparsed : Sound { w with phase := .parsed (parsed contents) } := by
    refine h.rescan rfl (fun path hpath => hpath) ?_ (hlisting.sublist (hsub.map _)) ?_
    · exact fun path hpath hpruned => absurd hpath hpruned
    · intro entry hentry
      have hentry := hscanned entry (hsub.subset hentry)
      exact ⟨hentry.written, hentry.carried, hentry.seen, hentry.unseen⟩
  have hmalformed : ∀ path ∈ (contents.filter fun entry => entry.2.content.isNone).map Prod.fst,
      ∀ file, w.files[path]? = some file →
        file.content = none ∨ file.version ∈ w.superseded := by
    intro path hpath file hfile
    obtain ⟨entry, hentry, rfl⟩ := List.mem_map.1 hpath
    obtain ⟨hentry, hnone⟩ := List.mem_filter.1 hentry
    have hread := hscanned entry hentry
    refine (hread.carried file hfile).imp_left fun hversion => ?_
    have hsame := h.unique _ (h.stored entry.1 file hfile) entry hread.written hversion
    rw [← hsame] at hnone
    exact Option.isNone_iff_eq_none.1 hnone
  refine hparsed.erase rfl ?_ h.once.deleted ?_ ?_
  · intro path hpath file hfile
    exact .inr (.inl (List.mem_append_right _ (List.mem_filterMap.2 ⟨path, hpath, hfile⟩)))
  · exact fun file hfile => List.mem_append_left _ hfile
  · intro file hfile
    rcases List.mem_append.1 hfile with hold | hnew
    · exact h.once.unlinked file hold
    · obtain ⟨path, hpath, hfile⟩ := List.mem_filterMap.1 hnew
      exact hmalformed path hpath file hfile

/-! ## The decision -/

/-- Rendering a batch neither loses nor repeats a notification. -/
theorem processBatch_perm (notifications : List Loaded) (disposition : DeliveredDisposition) :
    ((processBatch notifications disposition).flatMap Item.entries).Perm notifications := by
  have hsection : ∀ (group : List Loaded) (disposition : Option DeliveredDisposition),
      (if group = [] then [] else [queueSection group disposition]).flatMap Item.entries =
        group := by
    intro group disposition
    split
    · rename_i hgroup
      rw [hgroup]
      rfl
    · simp [queueSection]
  rw [processBatch, List.flatMap_append, hsection, hsection]
  have hsplit := List.filter_append_perm (fun e : Loaded => e.notif.source = coreSource)
    notifications
  simpa using hsplit

theorem versions_processBatch_perm
    (notifications : List Loaded) (disposition : DeliveredDisposition) :
    (versions (processBatch notifications disposition)).Perm
      (notifications.map Loaded.version) :=
  (processBatch_perm notifications disposition).map _

/-- Each fresh notification is decided in one way. -/
theorem decided_perm (rules : List Rule) (fresh : List Loaded) :
    (decided rules .interrupt fresh ++ decided rules .snooze fresh ++
      decided rules .trash fresh).Perm fresh := by
  have hfirst := List.filter_append_perm
    (fun e : Loaded => notifDisposition e.notif rules = .interrupt) fresh
  have hsecond := List.filter_append_perm
    (fun e : Loaded => notifDisposition e.notif rules = .snooze)
    (fresh.filter fun e => !decide (notifDisposition e.notif rules = .interrupt))
  refine .trans ?_ hfirst
  rw [List.append_assoc]
  refine .append_left _ (.trans (.of_eq ?_) hsecond)
  simp only [decided, List.filter_filter]
  congr 1
  · apply List.filter_congr
    intro e _
    cases notifDisposition e.notif rules <;> rfl
  · apply List.filter_congr
    intro e _
    cases notifDisposition e.notif rules <;> rfl

theorem mem_fresh {loaded : List Loaded} {e : Loaded} :
    e ∈ w.fresh loaded ↔ e ∈ loaded ∧ e.path ∉ w.queuedPaths := by
  simp [World.fresh]

theorem mem_decided
    {rules : List Rule} {disposition : Disposition} {fresh : List Loaded} {e : Loaded} :
    e ∈ decided rules disposition fresh ↔
      e ∈ fresh ∧ notifDisposition e.notif rules = disposition := by
  simp [decided]

/-- After a scan, what it has decided is in the queue, snoozed, or was there before. -/
theorem live_dispatch
    {loaded : List Loaded} {rules : List Rule} {e : Loaded}
    (he : e ∈ (w.dispatch loaded rules).live) :
    e ∈ w.live ∨ e ∈ w.fresh loaded := by
  have hqueued : ∀ e ∈ (processBatch (decided rules .interrupt (w.fresh loaded))
      .interrupt).flatMap Item.entries, e ∈ w.fresh loaded := fun e he =>
    (mem_decided.1 ((processBatch_perm _ _).mem_iff.1 he)).1
  have hsnoozed : ∀ e ∈ decided rules .snooze (w.fresh loaded), e ∈ w.fresh loaded :=
    fun e he => (mem_decided.1 he).1
  simp only [World.live, World.dispatch, List.flatMap_append, List.mem_append] at he ⊢
  rcases he with ((hold | hnew) | hold | hold | hnew) | hold
  · exact .inl (.inl (.inl hold))
  · exact .inr (hsnoozed e hnew)
  · exact .inl (.inl (.inr (.inl hold)))
  · exact .inl (.inl (.inr (.inr hold)))
  · exact .inr (hqueued e hnew)
  · exact .inl (.inr hold)

theorem Sound.dispatch
    (h : Sound w)
    {loaded : List Loaded}
    (hphase : w.phase = .parsed loaded)
    (rules : List Rule) :
    Sound (w.dispatch loaded rules) := by
  have hscanned : ∀ e ∈ loaded, Scanned w e.entry := fun e he =>
    h.scanned e.entry (by rw [hphase]; exact List.mem_map_of_mem he)
  have hfresh : ∀ e ∈ w.fresh loaded, Scanned w e.entry ∧ e.path ∉ w.queuedPaths :=
    fun e he => ⟨hscanned e (mem_fresh.1 he).1, (mem_fresh.1 he).2⟩
  have hnewly : ∀ e ∈ w.fresh loaded, e.version ∈ (w.dispatch loaded rules).emitted :=
    fun e he => List.mem_append_right _ (List.mem_map_of_mem he)
  have hemitted : ∀ version ∈ w.emitted, version ∈ (w.dispatch loaded rules).emitted :=
    fun version hversion => List.mem_append_left _ hversion
  have htrash : ∀ path, path ∈ (decided rules .trash (w.fresh loaded)).map Loaded.path ↔
      ∃ e ∈ w.fresh loaded, notifDisposition e.notif rules = .trash ∧ e.path = path := by
    intro path
    simp only [List.mem_map, mem_decided, and_assoc]
  have hfile : ∀ (path : Text) (file : File),
      (w.dispatch loaded rules).files[path]? = some file ↔
        path ∉ (decided rules .trash (w.fresh loaded)).map Loaded.path ∧
          w.files[path]? = some file := fun path file => Map.getElem?_foldl_erase
  have hcarries : ∀ path version, w.Carries path version →
      (w.dispatch loaded rules).Carries path version := fun path version hcarried file hget =>
    hcarried file ((hfile path file).1 hget).2
  -- The versions of one scan differ, for its paths do.
  have hnodup : ((w.fresh loaded).map Loaded.version).Nodup := by
    have hlisting := h.listing
    rw [hphase] at hlisting
    have hpaths : ((w.fresh loaded).map Loaded.path).Nodup := by
      simp only [Phase.entries, List.map_map] at hlisting
      exact hlisting.sublist (List.filter_sublist.map _)
    rw [List.nodup_map_iff_inj_on (List.Nodup.of_map _ hpaths)]
    intro e he other hother hversion
    have hentry := h.unique _ (hfresh e he).1.written _ (hfresh other hother).1.written hversion
    exact List.inj_on_of_nodup_map hpaths he hother (congrArg Prod.fst hentry)
  constructor
  · exact h.young
  · exact h.unique
  · intro version hversion
    rcases List.mem_append.1 hversion with hold | hnew
    · exact h.bounded version hold
    · obtain ⟨e, he, rfl⟩ := List.mem_map.1 hnew
      exact h.young _ (hfresh e he).1.written
  · exact fun path file hget => h.stored path file ((hfile path file).1 hget).2
  · intro path hpath file hget
    have hget := ((hfile path file).1 hget).2
    rcases List.mem_append.1 hpath with hold | hnew
    · exact (h.held path hold file hget).imp_left (hemitted _)
    · obtain ⟨e, he, rfl⟩ := List.mem_map.1 hnew
      have he := (List.mem_filter.1 he).1
      refine ((hfresh e he).1.carried file hget).imp_left fun hversion => ?_
      rw [hversion]
      exact hnewly e he
  · intro path hpath file hget hversion
    obtain ⟨hkeep, hget⟩ := (hfile path file).1 hget
    rcases List.mem_append.1 hversion with hold | hnew
    · exact h.unheld path (fun hqueued => hpath (List.mem_append_left _ hqueued)) file hget hold
    · obtain ⟨e, he, hversion⟩ := List.mem_map.1 hnew
      have hentry := h.unique _ (hfresh e he).1.written _ (h.stored path file hget) hversion
      have hsame : e.path = path := congrArg Prod.fst hentry
      -- The file is the one that was decided: its path is remembered, or the file is gone.
      by_cases hdecision : notifDisposition e.notif rules = .trash
      · exact hkeep ((htrash path).2 ⟨e, he, hdecision, hsame⟩)
      · refine hpath (List.mem_append_right _ (List.mem_map.2 ⟨e, ?_, hsame⟩))
        exact List.mem_filter.2 ⟨he, by simpa using hdecision⟩
  · exact .nil
  · exact fun entry hentry => absurd hentry List.not_mem_nil
  · intro e he
    rcases live_dispatch he with hold | hnew
    · exact ⟨hemitted _ (h.live e hold).1, hcarries _ _ (h.live e hold).2⟩
    · exact ⟨hnewly e hnew, hcarries _ _ (hfresh e hnew).1.carried⟩
  · exact h.sent
  · constructor
    · refine List.nodup_append'.2 ⟨h.once.emitted, hnodup, ?_⟩
      intro version hold hnew
      obtain ⟨e, he, rfl⟩ := List.mem_map.1 hnew
      exact (hfresh e he).1.unseen (hfresh e he).2 hold
    · have hitems := versions_processBatch_perm
        (decided rules .interrupt (w.fresh loaded)) .interrupt
      have hdecided := (decided_perm rules (w.fresh loaded)).map Loaded.version
      simp only [List.map_append] at hdecided
      have hnew := ((hitems.append_right _).append_right _).trans hdecided
      simp only [World.dispatch, List.map_append]
      refine .trans ?_ (h.once.routed.append hnew)
      rw [List.perm_iff_count]
      intro version
      simp only [List.count_append]
      omega
    · intro version hversion
      rcases List.mem_append.1 hversion with hold | hnew
      · exact (h.once.read version hold).imp_left (hemitted _)
      · obtain ⟨e, he, rfl⟩ := List.mem_map.1 hnew
        by_cases hpath : e.path ∈ w.queuedPaths
        · exact ((hscanned e he).seen hpath).imp_left (hemitted _)
        · exact .inl (hnewly e (mem_fresh.2 ⟨he, hpath⟩))
    · intro entry hentry
      rcases h.once.accounted entry hentry with hold | hget | hover | hun | hsuper
      · exact .inl (hemitted _ hold)
      · by_cases hpath : entry.1 ∈ (decided rules .trash (w.fresh loaded)).map Loaded.path
        · obtain ⟨e, he, -, hsame⟩ := (htrash entry.1).1 hpath
          rw [← hsame] at hget
          rcases (hfresh e he).1.carried entry.2 hget with hversion | hsuper
          · rw [hversion]
            exact .inl (hnewly e he)
          · exact .inr (.inr (.inr (.inr hsuper)))
        · exact .inr (.inl ((hfile entry.1 entry.2).2 ⟨hpath, hget⟩))
      · exact .inr (.inr (.inl hover))
      · exact .inr (.inr (.inr (.inl hun)))
      · exact .inr (.inr (.inr (.inr hsuper)))
    · exact h.once.deleted
    · intro version hversion
      rcases List.mem_append.1 hversion with hold | hnew
      · exact (h.once.moved version hold).imp_left (List.mem_append_left _)
      · obtain ⟨path, hpath, hmoved⟩ := List.mem_filterMap.1 hnew
        obtain ⟨file, hget, rfl⟩ := Option.map_eq_some_iff.1 hmoved
        obtain ⟨e, he, rfl⟩ := List.mem_map.1 hpath
        refine ((hfresh e (mem_decided.1 he).1).1.carried file hget).imp_left fun hversion => ?_
        rw [hversion]
        exact List.mem_append_right _ (List.mem_map_of_mem he)
    · exact h.once.unlinked

/-! ## Runs -/

theorem Sound.flush (h : Sound w) : Sound w.flush := by
  have hitems := processBatch_perm w.pendingSnoozed .snooze
  refine h.reshape rfl ?_ ?_ (fun version hversion => hversion) h.sent
  · intro e he
    simp only [World.live, World.flush, List.flatMap_append, List.mem_append, hitems.mem_iff,
      List.not_mem_nil, false_or] at he ⊢
    tauto
  · rw [List.map_nil, List.append_nil]
    exact (versions_processBatch_perm w.pendingSnoozed .snooze).append_left _

/-- The next item comes from those that wait. -/
theorem next_spec
    {item : Item}
    (hnext : w.next = some (item, next)) :
    ∃ pending queue, next = { w with pending := pending, queue := queue } ∧
      ∀ e, (e ∈ item.entries ∨ e ∈ (pending ++ queue).flatMap Item.entries) ↔
        e ∈ (w.pending ++ w.queue).flatMap Item.entries := by
  cases hpending : w.pending with
  | cons first pending =>
      simp only [World.next, hpending] at hnext
      cases hnext
      refine ⟨pending, w.queue, rfl, fun e => ?_⟩
      rw [List.cons_append, List.flatMap_cons, List.mem_append]
  | nil =>
      cases hqueue : w.queue with
      | nil =>
          simp only [World.next, hpending, hqueue] at hnext
          cases hnext
      | cons first queue =>
          simp only [World.next, hpending, hqueue] at hnext
          cases hnext
          refine ⟨[], queue, rfl, fun e => ?_⟩
          rw [List.nil_append, List.nil_append, List.flatMap_cons, List.mem_append]

theorem Sound.take
    (h : Sound w)
    {item : Item}
    (hidle : w.running = none)
    (hnext : w.next = some (item, next)) :
    Sound { next with running := some ⟨item, false⟩ } := by
  obtain ⟨pending, queue, rfl, hmem⟩ := next_spec hnext
  refine h.reshape rfl ?_ .rfl (fun version hversion => hversion) ?_
  · intro e he
    simp only [World.live, hidle, Option.elim_none, Option.elim_some, List.append_nil] at he ⊢
    rw [List.append_assoc, List.mem_append, List.mem_append] at he
    rw [List.mem_append, ← hmem e]
    exact he.imp_right Or.symm
  · intro running hrunning hsent
    cases hrunning
    cases hsent

theorem Sound.defer
    (h : Sound w)
    {item : Item}
    (hnext : w.next = some (item, next)) :
    Sound next := by
  obtain ⟨pending, queue, rfl, hmem⟩ := next_spec hnext
  refine h.reshape rfl ?_ .rfl (fun version hversion => hversion) h.sent
  intro e he
  simp only [World.live, List.mem_append] at he ⊢
  exact he.imp_left (Or.imp_right fun hwaits => (hmem e).1 (.inr hwaits))

theorem Sound.send
    (h : Sound w)
    {item : Item}
    (hrunning : w.running = some ⟨item, false⟩) :
    Sound { w.deliver item with running := some ⟨item, true⟩ } := by
  refine h.reshape rfl ?_ .rfl (fun version hversion => List.mem_append_left _ hversion) ?_
  · intro e he
    simpa only [World.live, World.deliver, hrunning, Option.elim_some] using he
  · intro running hnow _ e he
    cases hnow
    exact List.mem_append_right _ (List.mem_map_of_mem he)

/-- The first item of the queue is delivered into the turn that runs. -/
theorem Sound.preempt
    (h : Sound w)
    {item : Item} {queue : List Item}
    (hqueue : w.queue = item :: queue) :
    Sound (({ w with queue := queue }.deliver item).clear item) := by
  have hitem : ∀ e ∈ item.entries, e ∈ w.live := by
    intro e he
    simp only [World.live, hqueue, List.flatMap_append, List.flatMap_cons, List.mem_append]
    exact .inl (.inr (.inr (.inl he)))
  have hdelivered : Sound ({ w with queue := queue }.deliver item) := by
    refine h.reshape rfl ?_ .rfl (fun version hversion => List.mem_append_left _ hversion) ?_
    · intro e he
      simp only [World.live, World.deliver, hqueue, List.flatMap_append, List.flatMap_cons,
        List.mem_append] at he ⊢
      tauto
    · intro running hrunning hsent e he
      exact List.mem_append_left _ (h.sent running hrunning hsent e he)
  refine hdelivered.clear fun e he => ⟨(h.live e (hitem e he)).1, ?_, (h.live e (hitem e he)).2⟩
  exact List.mem_append_right _ (List.mem_map_of_mem he)

/-- The turn that runs was sent: its files may be cleared when it ends or asks to end. -/
theorem Sound.settle
    (h : Sound w)
    {item : Item}
    (hrunning : w.running = some ⟨item, true⟩)
    {running : Option Running}
    (hempty : ∀ r ∈ running, r.item.entries = []) :
    Sound ({ w with running := running }.clear item) := by
  have hitem : ∀ e ∈ item.entries, e ∈ w.live := by
    intro e he
    simp only [World.live, hrunning, Option.elim_some, List.mem_append]
    exact .inr he
  have hnow : Sound { w with running := running } := by
    refine h.reshape rfl ?_ .rfl (fun version hversion => hversion) ?_
    · intro e he
      have hnone : (running.elim [] fun running => running.item.entries) = [] := by
        cases running with
        | none => rfl
        | some r => exact hempty r rfl
      simp only [World.live, hnone, List.append_nil] at he
      exact List.mem_append_left _ he
    · intro r hr _ e he
      rw [hempty r hr] at he
      exact absurd he List.not_mem_nil
  refine hnow.clear fun e he => ?_
  exact ⟨(h.live e (hitem e he)).1, h.sent _ hrunning rfl e he, (h.live e (hitem e he)).2⟩

theorem Sound.finish
    (h : Sound w)
    {item : Item} {script : Script}
    (hrunning : w.running = some ⟨item, script.message.outcome.sent⟩)
    (status : Option ProviderAuthState) :
    Sound (if clearsFiles blockDashes script status then { w with running := none }.clear item
      else { w with running := none }) := by
  split
  · rename_i hclears
    have hsent : script.message.outcome.sent = true := by
      simp only [clearsFiles, Bool.and_eq_true] at hclears
      exact hclears.1.1
    rw [hsent] at hrunning
    exact h.settle hrunning fun r hr => absurd hr (Option.not_mem_none r)
  · refine h.reshape rfl ?_ .rfl (fun version hversion => hversion)
      fun r hr => absurd hr (Option.not_mem_none r)
    intro e he
    simp only [World.live, Option.elim_none, List.append_nil] at he
    exact List.mem_append_left _ he

theorem Sound.step
    (h : Sound w)
    (label : Label)
    (hstep : step blockDashes w label = some next) :
    Sound next := by
  cases label with
  | write path content =>
      cases hstep
      exact h.write path content
  | wake =>
      cases hstep
      exact h.reshape rfl (fun e he => he) .rfl (fun version hversion => hversion) h.sent
  | tick =>
      simp only [Intake.step] at hstep
      split at hstep
      · cases hstep
        exact h.tick
      · cases hstep
  | load =>
      simp only [Intake.step] at hstep
      split at hstep
      · cases hstep
        exact h.load
      · cases hstep
  | parse =>
      simp only [Intake.step] at hstep
      split at hstep
      · rename_i contents hphase
        cases hstep
        exact h.parse hphase
      · cases hstep
  | dispatch rules =>
      simp only [Intake.step] at hstep
      split at hstep
      · rename_i loaded hphase
        cases hstep
        exact h.dispatch hphase rules
      · cases hstep
  | flush =>
      simp only [Intake.step] at hstep
      split at hstep
      · cases hstep
        exact h.flush
      · cases hstep
  | user text =>
      cases hstep
      refine h.reshape rfl ?_ .rfl (fun version hversion => hversion) h.sent
      intro e he
      simpa [World.live, List.flatMap_append, or_assoc] using he
  | take =>
      simp only [Intake.step] at hstep
      split at hstep
      · cases hstep
      · rename_i hidle
        obtain ⟨⟨item, after⟩, hnext, rfl⟩ := Option.map_eq_some_iff.1 hstep
        exact h.take hidle hnext
  | defer =>
      simp only [Intake.step] at hstep
      split at hstep
      · cases hstep
      · obtain ⟨⟨item, after⟩, hnext, rfl⟩ := Option.map_eq_some_iff.1 hstep
        exact h.defer hnext
  | send =>
      simp only [Intake.step] at hstep
      split at hstep
      · rename_i item hrunning
        cases hstep
        exact h.send hrunning
      · cases hstep
  | preempt sent =>
      simp only [Intake.step] at hstep
      split at hstep
      · rename_i running item queue hrunning hqueue
        cases sent with
        | true =>
            cases hstep
            exact h.preempt hqueue
        | false =>
            simp only [Bool.false_eq_true, if_false] at hstep
            cases hstep
            refine h.reshape rfl ?_ .rfl (fun version hversion => hversion) h.sent
            intro e he
            simp only [World.live, hqueue, List.flatMap_append, List.flatMap_cons,
              List.flatMap_nil, List.append_nil, List.mem_append] at he ⊢
            tauto
      · cases hstep
  | release =>
      simp only [Intake.step] at hstep
      split at hstep
      · rename_i item hrunning
        cases hstep
        refine h.settle hrunning fun r hr => ?_
        cases hr
        rfl
      · cases hstep
  | finish script status =>
      simp only [Intake.step] at hstep
      split at hstep
      · rename_i item sent hrunning
        split at hstep
        · rename_i hsent
          cases hstep
          exact h.finish (hsent ▸ hrunning) status
        · cases hstep
      · cases hstep

end Steps

/--
For every order of writes, scans, deliveries and clears: each version that a scan decides is
announced once and queued, snoozed or put to trash once; no version is lost unless another
one was written over it; and what is deleted was delivered, was put to trash or does not
parse.  The versions written under a path that was held are left out.
-/
theorem intake_exactly_once
    (blockDashes : Bool)
    {w : World}
    (h : (machine blockDashes).Reaches Machine.always w) :
    ExactlyOnce w :=
  have hsound : Sound w := h.invariant (fun _ => Sound.start) fun _ label _ hs _ hstep =>
    hs.step label hstep
  hsound.once

/-! ## One file, written once and again -/

def sampleMessage : Notification where
  timestamp := "2025-01-01T09:00:00".toList
  source := "whatsapp".toList
  type := "message".toList
  extra := [("message".toList, .str "are you there?".toList)]

/-- Read the directory and decide by the rules. -/
def scan (rules : List Rule) : List Label := [.tick, .load, .parse, .dispatch rules]

/-- The queued turn runs to its end; another file may be written while it does. -/
def sampleRun (during : List Label) : List Label :=
  .write samplePath (some sampleMessage) :: scan [] ++ [.take, .send] ++ during ++
    [.finish plainScript (some .authenticated)]

theorem reaches_runTo
    (run : List Label)
    (hrun : ((machine true).exec {} run).isSome = true) :
    (machine true).Reaches Machine.always ((machine true).runTo {} run) := by
  have hstart : (machine true).start {} := by
    have hnil : (∅ : Map Text File).toList = [] := Std.ExtTreeMap.toList_eq_nil_iff.2 rfl
    have hnone : ∀ entry, entry ∉ (∅ : Map Text File).toList := by simp [hnil]
    refine ⟨fun entry hentry => absurd hentry (hnone entry),
      fun entry hentry => absurd hentry (hnone entry), ?_⟩
    rw [hnil]
  exact (Machine.Reaches.start hstart).runTo run (Machine.admits_always _ _ _) hrun

theorem intake_exactly_once_sample :
    ExactlyOnce ((machine true).runTo {} (sampleRun [])) ∧
      ((machine true).runTo {} (sampleRun [])).queued = [0] ∧
      ((machine true).runTo {} (sampleRun [])).deleted = [0] := by
  refine ⟨intake_exactly_once true ?_, by decide +kernel, by decide +kernel⟩
  exact reaches_runTo (sampleRun []) (by decide +kernel)

/-- Some versions are never queued, or deleted without being delivered: one that is written
over before a scan, a notification a rule puts to trash, a file that does not parse, and a
file that is written again while its path is queued. -/
theorem intake_not_every_version :
    (∃ w, (machine true).Reaches Machine.always w ∧
      w.written.map (·.2.version) = [0, 1] ∧ w.emitted = [1] ∧ w.overwritten = [0]) ∧
    (∃ w, (machine true).Reaches Machine.always w ∧
      w.written.map (·.2.version) = [0] ∧ w.emitted = [0] ∧ w.trashed = [0] ∧ w.queued = []) ∧
    (∃ w, (machine true).Reaches Machine.always w ∧
      w.unlinked.map File.version = [0] ∧ w.emitted = [] ∧ w.delivered = []) ∧
    (∃ w, (machine true).Reaches Machine.always w ∧
      w.written.map (·.2.version) = [0, 1] ∧ w.emitted = [0] ∧ w.delivered = [0] ∧
        w.deleted = [1] ∧ w.files.toList = []) := by
  let write : Label := .write samplePath (some sampleMessage)
  refine ⟨?_, ?_, ?_, ?_⟩
  · exact ⟨_, reaches_runTo (write :: write :: scan []) (by decide +kernel), by decide +kernel⟩
  · exact ⟨_, reaches_runTo (write :: scan [⟨fun _ => true, .trash⟩]) (by decide +kernel),
      by decide +kernel⟩
  · exact ⟨_, reaches_runTo [.write samplePath none, .tick, .load, .parse]
      (by decide +kernel), by decide +kernel⟩
  · exact ⟨_, reaches_runTo (sampleRun [.write samplePath (some sampleMessage)])
      (by decide +kernel), by decide +kernel⟩

end Intake
end Agent
end Vesta
