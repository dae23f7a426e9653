import Mathlib.Data.List.Basic
import Vesta.Lib.Json
import Vesta.Lib.Machine

/-!
# The persisted agent state and its overlapping saves

The agent keeps its boot-time and cross-restart markers in memory and dumps all of them to
`state.json` after every mutation.  A save takes its snapshot on the event loop.  The write
of the snapshot goes through a temporary file of its own, which is renamed over the target;
`save_state` does it on the loop, `save_state_async` in a worker thread.

A step of the machine is a mutation with its snapshot, the next step of one write, or the
error of one write.  Beside the file the machine keeps which snapshots were renamed into
place, in order, and which saves raised.
-/

namespace Vesta
namespace Agent
namespace StateStore

open Lib

structure RateLimitedWindow where
  window : Option Text := none
  resetsAt : Option Int := none
deriving DecidableEq

structure PersistedState where
  firstStartDone : Bool := false
  lastRestartReason : Option Text := none
  lastDreamerRun : Option Text := none
  pendingBootMessage : Option Text := none
  sessionId : Option Text := none
  appliedMigrations : List Text := []
  rateLimited : Option RateLimitedWindow := none
deriving DecidableEq

/-! ## The JSON of a state -/

def printBool (b : Bool) : Text := if b then "true".toList else "false".toList

def printInt : Int → Text
  | .ofNat n => Json.printNat n
  | .negSucc n => '-' :: Json.printNat (n + 1)

def printOption {α : Type} (print : α → Text) : Option α → Text
  | none => "null".toList
  | some a => print a

def printArray {α : Type} (print : α → Text) (items : List α) : Text :=
  '[' :: ((items.map print).intersperse [',']).flatten ++ [']']

def RateLimitedWindow.modelDumpJson (limited : RateLimitedWindow) : Text :=
  Json.printObject
    [("window".toList, printOption Json.printString limited.window),
     ("resets_at".toList, printOption printInt limited.resetsAt)]

def PersistedState.modelDumpJson (state : PersistedState) : Text :=
  Json.printObject
    [("first_start_done".toList, printBool state.firstStartDone),
     ("last_restart_reason".toList, printOption Json.printString state.lastRestartReason),
     ("last_dreamer_run".toList, printOption Json.printString state.lastDreamerRun),
     ("pending_boot_message".toList, printOption Json.printString state.pendingBootMessage),
     ("session_id".toList, printOption Json.printString state.sessionId),
     ("applied_migrations".toList, printArray Json.printString state.appliedMigrations),
     ("rate_limited".toList, printOption RateLimitedWindow.modelDumpJson state.rateLimited)]

/-! ## Saves -/

/-- How far `atomic_write_text` is: the content is that of its temporary file. -/
inductive Stage
  | queued
  | opened
  | synced (content : Text)
  | replaced
deriving DecidableEq

/-- A save that has not completed, with the text it writes. -/
structure Save where
  ticket : Nat
  payload : Text
  stage : Stage := .queued
deriving DecidableEq

inductive Mode
  | saveState
  | saveStateAsync
deriving DecidableEq

structure World where
  persisted : PersistedState := {}
  stateJson : Option Text := none
  saves : List Save := []
  /-- The save that the event loop itself is busy with. -/
  blocking : Option Nat := none
  issued : Nat := 0
  replacedBy : List Nat := []
  failed : List Nat := []

inductive Label
  | save (next : PersistedState) (mode : Mode)
  | advance (i : Nat)
  | fail (i : Nat)
deriving DecidableEq

/-- Mutate the state and take the snapshot, in one stretch of the loop. -/
def World.save (w : World) (next : PersistedState) (mode : Mode) : World :=
  { w with
    persisted := next
    saves := w.saves ++ [⟨w.issued + 1, next.modelDumpJson, .queued⟩]
    blocking := if mode = .saveState then some (w.issued + 1) else none
    issued := w.issued + 1 }

/-- A save that returns, or raises, no longer keeps the loop. -/
def World.drop (w : World) (i : Nat) (save : Save) : World :=
  { w with
    saves := w.saves.eraseIdx i
    blocking := if w.blocking = some save.ticket then none else w.blocking }

/-- The next step of a write. -/
def World.atomicWriteText (w : World) (i : Nat) (save : Save) : World :=
  match save.stage with
  | .queued => { w with saves := w.saves.set i { save with stage := .opened } }
  | .opened => { w with saves := w.saves.set i { save with stage := .synced save.payload } }
  | .synced content =>
      { w with
        stateJson := some content
        saves := w.saves.set i { save with stage := .replaced }
        replacedBy := w.replacedBy ++ [save.ticket] }
  | .replaced => w.drop i save

def step (w : World) : Label → Option World
  | .save next mode => if w.blocking.isSome then none else some (w.save next mode)
  | .advance i => w.saves[i]?.map (w.atomicWriteText i)
  | .fail i =>
      w.saves[i]?.map fun save => { w.drop i save with failed := w.failed ++ [save.ticket] }

/-- The agent starts with any state in memory and any file. -/
def machine : Machine World Label where
  start w := w.saves = [] ∧ w.blocking = none ∧ w.issued = 0 ∧ w.replacedBy = [] ∧ w.failed = []
  step := step

def markSetupDone (persisted : PersistedState) : Label :=
  .save { persisted with firstStartDone := true } .saveStateAsync

def persistSessionId (persisted : PersistedState) (sessionId : Text) : Label :=
  .save { persisted with sessionId := some sessionId } .saveStateAsync

/-! ## Convergence -/

/-- No older snapshot has overwritten a newer one, and once no save is outstanding the file
holds the state in memory, unless it is the save of that state that raised. -/
structure Converged (w : World) : Prop where
  ordered : w.replacedBy.Pairwise (· < ·)
  latest : w.saves = [] → 0 < w.issued → w.issued ∉ w.failed →
    w.stateJson = some w.persisted.modelDumpJson

/-- A rename is of a snapshot newer than the one that was renamed into place last. -/
def InOrder (w : World) : Label → Prop
  | .advance i =>
      ∀ save ∈ w.saves[i]?, ∀ content, save.stage = .synced content →
        ∀ last ∈ w.replacedBy.getLast?, last < save.ticket
  | _ => True

/-- What holds in every order of the writes. -/
structure Sound (w : World) : Prop where
  accounted : ∀ ticket, 0 < ticket → ticket ≤ w.issued →
    ticket ∈ w.failed ∨ ticket ∈ w.replacedBy ∨ ∃ save ∈ w.saves, save.ticket = ticket
  bounded : ∀ save ∈ w.saves, save.ticket ≤ w.issued
  current : ∀ save ∈ w.saves, save.ticket = w.issued → save.payload = w.persisted.modelDumpJson
  whole : ∀ save ∈ w.saves, ∀ content, save.stage = .synced content → content = save.payload
  placed : ∀ save ∈ w.saves, save.stage = .replaced → save.ticket ∈ w.replacedBy
  history : ∀ ticket ∈ w.replacedBy, ticket ≤ w.issued
  file : w.replacedBy.getLast? = some w.issued → w.stateJson = some w.persisted.modelDumpJson

section Runs

variable {w next : World}

theorem Sound.start (h : machine.start w) : Sound w := by
  obtain ⟨hsaves, -, hissued, hreplaced, -⟩ := h
  constructor
  · intro ticket hpos hle
    omega
  · simp [hsaves]
  · simp [hsaves]
  · simp [hsaves]
  · simp [hsaves]
  · simp [hreplaced]
  · simp [hreplaced]

theorem Sound.save
    (h : Sound w)
    (persisted : PersistedState) (mode : Mode) :
    Sound (w.save persisted mode) := by
  have hmem : ∀ save, save ∈ (w.save persisted mode).saves ↔
      save ∈ w.saves ∨ save = ⟨w.issued + 1, persisted.modelDumpJson, .queued⟩ := by
    simp [World.save]
  constructor
  · intro ticket hpos hle
    rcases Nat.lt_or_eq_of_le hle with hlt | heq
    · rcases h.accounted ticket hpos (Nat.lt_succ_iff.1 hlt) with hf | hr | ⟨save, hs, ht⟩
      · exact .inl hf
      · exact .inr (.inl hr)
      · exact .inr (.inr ⟨save, (hmem save).2 (.inl hs), ht⟩)
    · exact .inr (.inr ⟨_, (hmem _).2 (.inr rfl), heq.symm⟩)
  · intro save hsave
    rcases (hmem save).1 hsave with hs | rfl
    · exact Nat.le_succ_of_le (h.bounded save hs)
    · exact Nat.le_refl _
  · intro save hsave hticket
    rcases (hmem save).1 hsave with hs | rfl
    · exact absurd hticket (Nat.ne_of_lt (Nat.lt_succ_of_le (h.bounded save hs)))
    · rfl
  · intro save hsave content hstage
    rcases (hmem save).1 hsave with hs | rfl
    · exact h.whole save hs content hstage
    · exact nomatch hstage
  · intro save hsave hstage
    rcases (hmem save).1 hsave with hs | rfl
    · exact h.placed save hs hstage
    · exact nomatch hstage
  · intro ticket hticket
    exact Nat.le_succ_of_le (h.history ticket hticket)
  · intro hlast
    exact absurd (h.history _ (List.mem_of_getLast? hlast)) (Nat.not_succ_le_self _)

/-- A write that gets further keeps its ticket and its payload. -/
theorem Sound.setStage
    (h : Sound w)
    {i : Nat} {save : Save}
    (hsave : w.saves[i]? = some save)
    {stage : Stage}
    (hwhole : ∀ content, stage = .synced content → content = save.payload)
    (hplaced : stage = .replaced → save.ticket ∈ w.replacedBy) :
    Sound { w with saves := w.saves.set i { save with stage := stage } } := by
  have hmem := List.mem_of_getElem? hsave
  have hset : ∀ other ∈ w.saves.set i { save with stage := stage },
      other ∈ w.saves ∨ other = { save with stage := stage } :=
    fun other => List.mem_or_eq_of_mem_set
  constructor
  · intro ticket hpos hle
    rcases h.accounted ticket hpos hle with hf | hr | ⟨other, hother, hticket⟩
    · exact .inl hf
    · exact .inr (.inl hr)
    · obtain ⟨j, hj⟩ := List.mem_iff_getElem?.1 hother
      obtain ⟨hi, -⟩ := List.getElem?_eq_some_iff.1 hsave
      refine .inr (.inr ?_)
      by_cases hij : i = j
      · subst hij
        obtain rfl := Option.some.inj (hsave.symm.trans hj)
        exact ⟨{ save with stage := stage }, List.mem_iff_getElem?.2
          ⟨i, List.getElem?_set_self hi⟩, hticket⟩
      · exact ⟨other, List.mem_iff_getElem?.2 ⟨j, (List.getElem?_set_ne hij).trans hj⟩, hticket⟩
  · intro other hother
    rcases hset other hother with ho | rfl
    · exact h.bounded other ho
    · exact h.bounded save hmem
  · intro other hother hticket
    rcases hset other hother with ho | rfl
    · exact h.current other ho hticket
    · exact h.current save hmem hticket
  · intro other hother content hstage
    rcases hset other hother with ho | rfl
    · exact h.whole other ho content hstage
    · exact hwhole content hstage
  · intro other hother hstage
    rcases hset other hother with ho | rfl
    · exact h.placed other ho hstage
    · exact hplaced hstage
  · exact h.history
  · exact h.file

/-- A save whose outcome is recorded may be forgotten. -/
theorem Sound.drop
    (h : Sound w)
    {i : Nat} {save : Save}
    (hsave : w.saves[i]? = some save)
    (hdone : save.ticket ∈ w.failed ∨ save.ticket ∈ w.replacedBy) :
    Sound (w.drop i save) := by
  have hsub : ∀ other ∈ w.saves.eraseIdx i, other ∈ w.saves := fun other =>
    List.mem_of_mem_eraseIdx
  constructor
  · intro ticket hpos hle
    rcases h.accounted ticket hpos hle with hf | hr | ⟨other, hother, hticket⟩
    · exact .inl hf
    · exact .inr (.inl hr)
    · obtain ⟨j, hj⟩ := List.mem_iff_getElem?.1 hother
      by_cases hij : j = i
      · subst hij
        obtain rfl := Option.some.inj (hsave.symm.trans hj)
        rw [hticket] at hdone
        rcases hdone with hf | hr
        · exact .inl hf
        · exact .inr (.inl hr)
      · exact .inr (.inr ⟨other, List.mem_eraseIdx_iff_getElem?.2 ⟨j, hij, hj⟩, hticket⟩)
  · exact fun other hother => h.bounded other (hsub other hother)
  · exact fun other hother => h.current other (hsub other hother)
  · exact fun other hother => h.whole other (hsub other hother)
  · exact fun other hother => h.placed other (hsub other hother)
  · exact h.history
  · exact h.file

/-- The rename puts the whole payload of the save into place. -/
theorem Sound.rename
    (h : Sound w)
    {save : Save} {content : Text}
    (hmem : save ∈ w.saves)
    (hstage : save.stage = .synced content) :
    Sound { w with
      stateJson := some content
      replacedBy := w.replacedBy ++ [save.ticket] } := by
  constructor
  · intro ticket hpos hle
    rcases h.accounted ticket hpos hle with hf | hr | hs
    · exact .inl hf
    · exact .inr (.inl (List.mem_append_left _ hr))
    · exact .inr (.inr hs)
  · exact h.bounded
  · exact h.current
  · exact h.whole
  · exact fun other hother hreplaced =>
      List.mem_append_left _ (h.placed other hother hreplaced)
  · intro ticket hticket
    rcases List.mem_append.1 hticket with ht | ht
    · exact h.history ticket ht
    · rw [List.mem_singleton.1 ht]
      exact h.bounded save hmem
  · intro hlast
    have hticket : save.ticket = w.issued := by
      rw [List.getLast?_append, List.getLast?_singleton] at hlast
      exact Option.some.inj hlast
    change some content = _
    rw [h.whole save hmem content hstage, h.current save hmem hticket]

theorem Sound.atomicWriteText
    (h : Sound w)
    {i : Nat} {save : Save}
    (hsave : w.saves[i]? = some save) :
    Sound (w.atomicWriteText i save) := by
  have hmem := List.mem_of_getElem? hsave
  rw [World.atomicWriteText]
  cases hstage : save.stage with
  | queued => exact h.setStage hsave nofun nofun
  | opened => exact h.setStage hsave (fun content hc => (Stage.synced.inj hc).symm) nofun
  | synced content =>
      exact (h.rename hmem hstage).setStage hsave nofun
        fun _ => List.mem_append_right _ (List.mem_singleton_self _)
  | replaced => exact h.drop hsave (.inr (h.placed save hmem hstage))

theorem Sound.fail
    (h : Sound w)
    {i : Nat} {save : Save}
    (hsave : w.saves[i]? = some save) :
    Sound { w.drop i save with failed := w.failed ++ [save.ticket] } := by
  have hrecorded : Sound { w with failed := w.failed ++ [save.ticket] } :=
    { h with
      accounted := fun ticket hpos hle =>
        (h.accounted ticket hpos hle).imp_left (List.mem_append_left _) }
  exact hrecorded.drop hsave (.inl (List.mem_append_right _ (List.mem_singleton_self _)))

/-- What a step does: a snapshot, the next step of a write, or the error of one. -/
theorem step_cases
    {label : Label}
    (hstep : step w label = some next) :
    (∃ persisted mode, label = .save persisted mode ∧ w.blocking = none ∧
      next = w.save persisted mode) ∨
    (∃ i save, label = .advance i ∧ w.saves[i]? = some save ∧ next = w.atomicWriteText i save) ∨
    (∃ i save, label = .fail i ∧ w.saves[i]? = some save ∧
      next = { w.drop i save with failed := w.failed ++ [save.ticket] }) := by
  cases label with
  | save persisted mode =>
      rw [step] at hstep
      split at hstep
      · exact nomatch hstep
      · rename_i hidle
        exact .inl ⟨persisted, mode, rfl, by simpa using hidle, (Option.some.inj hstep).symm⟩
  | advance i =>
      obtain ⟨save, hsave, rfl⟩ := Option.map_eq_some_iff.1 hstep
      exact .inr (.inl ⟨i, save, rfl, hsave, rfl⟩)
  | fail i =>
      obtain ⟨save, hsave, rfl⟩ := Option.map_eq_some_iff.1 hstep
      exact .inr (.inr ⟨i, save, rfl, hsave, rfl⟩)

theorem Sound.step
    {label : Label}
    (h : Sound w)
    (hstep : step w label = some next) :
    Sound next := by
  rcases step_cases hstep with
    ⟨persisted, mode, -, -, rfl⟩ | ⟨i, save, -, hsave, rfl⟩ | ⟨i, save, -, hsave, rfl⟩
  · exact h.save persisted mode
  · exact h.atomicWriteText hsave
  · exact h.fail hsave

/-- The largest of an increasing list is its last. -/
theorem getLast?_of_increasing
    {tickets : List Nat} {largest : Nat}
    (hordered : tickets.Pairwise (· < ·))
    (hmem : largest ∈ tickets)
    (hle : ∀ ticket ∈ tickets, ticket ≤ largest) :
    tickets.getLast? = some largest := by
  rcases List.eq_nil_or_concat tickets with rfl | ⟨init, last, rfl⟩
  · exact absurd hmem List.not_mem_nil
  · rw [List.concat_eq_append] at *
    obtain ⟨-, -, hbelow⟩ := List.pairwise_append.1 hordered
    rcases List.mem_append.1 hmem with hinit | hlast
    · have hlt := hbelow largest hinit last (List.mem_singleton_self _)
      exact absurd (hle last (by simp)) (Nat.not_le.2 hlt)
    · rw [List.mem_singleton.1 hlast, List.getLast?_concat]

/-- When no older snapshot overwrote a newer one, the last one to be put into place is the
latest, so the file holds the state in memory once no save is outstanding. -/
theorem Sound.converged_iff (h : Sound w) :
    Converged w ↔ w.replacedBy.Pairwise (· < ·) := by
  constructor
  · exact fun hconverged => hconverged.ordered
  · intro hordered
    refine ⟨hordered, fun hsaves hpos hfailed => h.file ?_⟩
    rcases h.accounted w.issued hpos (Nat.le_refl _) with hf | hr | ⟨save, hsave, -⟩
    · exact absurd hf hfailed
    · exact getLast?_of_increasing hordered hr h.history
    · rw [hsaves] at hsave
      exact absurd hsave List.not_mem_nil

/-- A list that increases still does with one more exactly if that is above the last. -/
theorem increasing_append_iff
    {tickets : List Nat} {ticket : Nat}
    (hordered : tickets.Pairwise (· < ·)) :
    (tickets ++ [ticket]).Pairwise (· < ·) ↔ ∀ last ∈ tickets.getLast?, last < ticket := by
  rcases List.eq_nil_or_concat tickets with rfl | ⟨init, last, rfl⟩
  · simp
  · rw [List.concat_eq_append] at *
    obtain ⟨-, -, hbelow⟩ := List.pairwise_append.1 hordered
    rw [List.pairwise_append, List.getLast?_concat]
    constructor
    · rintro ⟨-, -, hlt⟩ other hother
      obtain rfl := Option.some.inj hother
      exact hlt last (by simp) ticket (List.mem_singleton_self _)
    · intro hlt
      refine ⟨hordered, List.pairwise_singleton _ _, fun other hother newest hnewest => ?_⟩
      rw [List.mem_singleton.1 hnewest]
      have hlast := hlt last rfl
      rcases List.mem_append.1 hother with hinit | hsingle
      · exact Nat.lt_trans (hbelow other hinit last (List.mem_singleton_self _)) hlast
      · rwa [List.mem_singleton.1 hsingle]

theorem converged_step_iff
    {label : Label}
    (hsound : Sound w)
    (h : Converged w)
    (hstep : step w label = some next) :
    Converged next ↔ InOrder w label := by
  rw [(hsound.step hstep).converged_iff]
  rcases step_cases hstep with
    ⟨persisted, mode, rfl, -, rfl⟩ | ⟨i, save, rfl, hsave, rfl⟩ | ⟨i, save, rfl, hsave, rfl⟩
  · exact iff_of_true h.ordered trivial
  · rw [World.atomicWriteText]
    cases hstage : save.stage with
    | synced content =>
        have hinOrder : InOrder w (.advance i) ↔
            ∀ last ∈ w.replacedBy.getLast?, last < save.ticket := by
          simp [InOrder, hsave, hstage]
        rw [hinOrder]
        exact increasing_append_iff h.ordered
    | queued => exact iff_of_true h.ordered (by simp [InOrder, hsave, hstage])
    | opened => exact iff_of_true h.ordered (by simp [InOrder, hsave, hstage])
    | replaced => exact iff_of_true h.ordered (by simp [InOrder, hsave, hstage])
  · exact iff_of_true h.ordered trivial

theorem inOrder_of_stuck
    {label : Label}
    (hstep : step w label = none) :
    InOrder w label := by
  cases label with
  | save persisted mode => trivial
  | advance i =>
      have hnone : w.saves[i]? = none := Option.map_eq_none_iff.1 hstep
      simp [InOrder, hnone]
  | fail i => trivial

theorem Converged.start (h : machine.start w) : Converged w := by
  obtain ⟨-, -, hissued, hreplaced, -⟩ := h
  refine ⟨by simp [hreplaced], fun _ hpos => ?_⟩
  omega

/--
For every sequence of mutations, each with its save, and every order of the steps of the
writes: the saves converge throughout exactly when the renames are in the order of the
snapshots.
-/
theorem state_converges_iff
    (w : World)
    (run : List Label)
    (hstart : machine.start w) :
    machine.Admits (fun s label => ∀ t ∈ machine.step s label, Converged t) w run ↔
      machine.Admits InOrder w run :=
  machine.admits_iff_within (I := Converged) (J := Sound)
    (fun _ _ _ hsound hs => hsound.step hs)
    (fun _ _ _ hsound h hs => converged_step_iff hsound h hs)
    (fun _ _ _ _ hs => inOrder_of_stuck hs)
    run (.start hstart) (.start hstart)

/-! ## Saves one after another -/

/-- A mutation is saved only when no save is outstanding. -/
def OneAtATime (w : World) : Label → Prop
  | .save _ _ => w.saves = []
  | _ => True

/-- The only save outstanding is newer than everything renamed into place. -/
structure Newest (w : World) : Prop where
  single : w.saves.length ≤ 1
  above : ∀ save ∈ w.saves, save.stage ≠ .replaced → ∀ ticket ∈ w.replacedBy, ticket < save.ticket

theorem Newest.inOrder
    (h : Newest w)
    (label : Label) :
    InOrder w label := by
  cases label with
  | save persisted mode => trivial
  | advance i =>
      intro save hsave content hstage last hlast
      exact h.above save (List.mem_of_getElem? hsave) (by rw [hstage]; exact nofun) last
        (List.mem_of_getLast? hlast)
  | fail i => trivial

theorem Newest.drop
    (h : Newest w)
    (i : Nat) (save : Save) :
    Newest (w.drop i save) := by
  constructor
  · exact Nat.le_trans (List.length_eraseIdx_le ..) h.single
  · exact fun other hother => h.above other (List.mem_of_mem_eraseIdx hother)

theorem Newest.setStage
    (h : Newest w)
    {i : Nat} {save : Save}
    (hsave : w.saves[i]? = some save)
    (hpending : save.stage ≠ .replaced)
    (stage : Stage) :
    Newest { w with saves := w.saves.set i { save with stage := stage } } := by
  constructor
  · rw [List.length_set]
    exact h.single
  · intro other hother hstage ticket hticket
    rcases List.mem_or_eq_of_mem_set hother with ho | rfl
    · exact h.above other ho hstage ticket hticket
    · exact h.above save (List.mem_of_getElem? hsave) hpending ticket hticket

/-- After the rename nothing outstanding is left to be renamed. -/
theorem Newest.rename
    (h : Newest w)
    {i : Nat} {save : Save} {content : Text}
    (hsave : w.saves[i]? = some save) :
    Newest { w with
      stateJson := some content
      saves := w.saves.set i { save with stage := .replaced }
      replacedBy := w.replacedBy ++ [save.ticket] } := by
  have hsaves : w.saves.set i { save with stage := .replaced } =
      [{ save with stage := .replaced }] := by
    obtain ⟨hi, -⟩ := List.getElem?_eq_some_iff.1 hsave
    have hlength := h.single
    obtain ⟨only, honly⟩ := List.length_eq_one_iff.1 (by omega : w.saves.length = 1)
    have hzero : i = 0 := by omega
    rw [honly, hzero, List.set_cons_zero]
  constructor
  · rw [hsaves]
    exact Nat.le_refl 1
  · intro other hother hstage
    rw [hsaves] at hother
    rw [List.mem_singleton.1 hother] at hstage
    exact absurd rfl hstage

theorem Newest.step
    {label : Label}
    (hsound : Sound w)
    (h : Newest w)
    (hserial : OneAtATime w label)
    (hstep : step w label = some next) :
    Newest next := by
  rcases step_cases hstep with
    ⟨persisted, mode, rfl, -, rfl⟩ | ⟨i, save, rfl, hsave, rfl⟩ | ⟨i, save, rfl, hsave, rfl⟩
  · have hsaves : w.saves = [] := hserial
    have hone : (w.save persisted mode).saves =
        [⟨w.issued + 1, persisted.modelDumpJson, .queued⟩] := by
      rw [World.save, hsaves]
      rfl
    constructor
    · rw [hone]
      exact Nat.le_refl 1
    · intro save hsave _ ticket hticket
      rw [hone] at hsave
      rw [List.mem_singleton.1 hsave]
      exact Nat.lt_succ_of_le (hsound.history ticket hticket)
  · rw [World.atomicWriteText]
    cases hstage : save.stage with
    | queued => exact h.setStage hsave (by rw [hstage]; exact nofun) _
    | opened => exact h.setStage hsave (by rw [hstage]; exact nofun) _
    | synced content => exact h.rename hsave
    | replaced => exact h.drop i save
  · exact ⟨(h.drop i save).single, (h.drop i save).above⟩

/-- The state of the next boot, and the file after it was loaded. -/
def loadState
    (modelValidateJson : Text → Option PersistedState) (veteran : Bool) (stateJson : Option Text) :
    PersistedState × Option Text :=
  match stateJson with
  | some content =>
      match modelValidateJson content with
      | some state => (state, stateJson)
      | none => ({ firstStartDone := veteran }, stateJson)
  | none => ({}, some ({} : PersistedState).modelDumpJson)

/-- A boot after the saves converged starts with the state that was in memory. -/
theorem Converged.loadState
    (h : Converged w)
    (hsaves : w.saves = [])
    (hissued : 0 < w.issued)
    (hfailed : w.issued ∉ w.failed)
    {modelValidateJson : Text → Option PersistedState}
    (hvalidate : ∀ state, modelValidateJson state.modelDumpJson = some state)
    (veteran : Bool) :
    (loadState modelValidateJson veteran w.stateJson).1 = w.persisted := by
  rw [h.latest hsaves hissued hfailed, StateStore.loadState, hvalidate]

end Runs

/-! ## Two saves that overlap -/

def setupDone : PersistedState := { firstStartDone := true }

/-- The tool's save and the stream's overlap, and the tool's older snapshot lands last. -/
def overlappingSaves : List Label :=
  [markSetupDone {}, persistSessionId setupDone "s1".toList,
    .advance 1, .advance 1, .advance 1, .advance 1,
    .advance 0, .advance 0, .advance 0, .advance 0]

/-- Both saves have completed, and the file lacks the session that is in memory. -/
theorem state_not_converged :
    ∃ w, machine.Reaches Machine.always w ∧
      w.saves = [] ∧ w.issued = 2 ∧ w.failed = [] ∧
      w.persisted.sessionId = some "s1".toList ∧
      w.stateJson = some setupDone.modelDumpJson ∧
      w.stateJson ≠ some w.persisted.modelDumpJson := by
  have hstart : machine.Reaches Machine.always {} := .start ⟨rfl, rfl, rfl, rfl, rfl⟩
  refine ⟨machine.runTo {} overlappingSaves, hstart.runTo overlappingSaves
    (Machine.admits_always _ _ _) (by decide +kernel), ?_⟩
  decide +kernel

/-- The same saves in the order of their snapshots. -/
theorem state_converges_ordered :
    machine.Admits (fun s label => ∀ t ∈ machine.step s label, Converged t) {}
      [markSetupDone {}, persistSessionId setupDone "s1".toList,
        .advance 0, .advance 0, .advance 0, .advance 0,
        .advance 0, .advance 0, .advance 0, .advance 0] := by
  refine (state_converges_iff {} _ ⟨rfl, rfl, rfl, rfl, rfl⟩).2 ?_
  simp [Machine.Admits, InOrder, machine, step, markSetupDone, persistSessionId, World.save,
    World.atomicWriteText, World.drop]

end StateStore
end Agent
end Vesta
