import Mathlib.Data.List.Nodup
import Mathlib.Logic.Function.Basic
import Vesta.Lib.Machine
import Vesta.Tasks.Ladder

/-!
# Runs of ticks

Tasks are added, changed and deleted, and a tick announces the checkpoints that have come.
What a task has announced since its date was set is kept beside the table, with the instant
up to which the ticks have looked at it.

A tick with a ladder that cannot be computed raises before it commits: what it has announced
is announced again at the next.
-/

namespace Vesta
namespace Tasks

open Lib

/-! ## The machine -/

/-- The instant a task's date was set, the instant it is covered through, and the checkpoints
announced since the date was set. -/
structure Ledger where
  setAt : Nat
  covered : Nat
  announced : List Nat
deriving DecidableEq

def Ledger.fresh (now : Nat) : Ledger := ⟨now, now, []⟩

structure State where
  clock : Nat
  rows : List Row
  ledger : Text → Ledger

inductive Act
  | add (id subject : Text) (due : Option Nat) (created now : Nat)
  | update (id : Text) (change : Change) (now : Nat)
  | delete (id : Text) (now : Nat)
  | tick (now : Nat)

/-- The notifications of a task. -/
def notesOf (id : Text) (notes : List Note) : List Note :=
  notes.filter fun note => note.taskId == id

/-- Whether a tick looks at the ladder of a row. -/
def Row.dated (row : Row) : Bool := row.isOpen && row.due.isSome

def Ledger.tick (ledger : Ledger) (now : Nat) (looked : Bool) (notes : List Note) : Ledger where
  setAt := ledger.setAt
  covered := if looked then max ledger.covered now else ledger.covered
  announced := ledger.announced ++ notes.map fun note => note.rung.time

def setRow (rows : List Row) (row : Row) : List Row :=
  rows.map fun other => if other.id == row.id then row else other

def step (s : State) : Act → Option State
  | .add id subject due created now =>
      if s.clock ≤ now && !s.rows.any (fun row => row.id == id) then
        some ⟨now, s.rows ++ [addTask id subject due created now],
          Function.update s.ledger id (.fresh now)⟩
      else none
  | .update id change now =>
      if s.clock ≤ now then do
        let row ← s.rows.find? fun row => row.id == id
        let changed ← updateTask row change now
        some ⟨now, setRow s.rows changed,
          if change.due.isSome then Function.update s.ledger id (.fresh now) else s.ledger⟩
      else none
  | .delete id now =>
      if s.clock ≤ now then do
        let row ← s.rows.find? fun row => row.id == id
        some ⟨now, setRow s.rows (deleteTask row now), s.ledger⟩
      else none
  | .tick now =>
      if s.clock ≤ now then
        let out := fireDueCheckpoints now s.rows
        some ⟨now, out.2.getD s.rows, fun id =>
          (s.ledger id).tick now
            (out.2.isSome && s.rows.any fun row => row.id == id && row.dated)
            (notesOf id out.1)⟩
      else none

/-- A table of tasks; the id is its key. -/
structure Table where
  rows : List Row
  nodup : (rows.map Row.id).Nodup

/-- A task is covered through its floor when a run starts. -/
def Table.initial (table : Table) (clock : Nat) : State where
  clock := clock
  rows := table.rows
  ledger id :=
    match table.rows.find? fun row => row.id == id with
    | none => .fresh clock
    | some row => .fresh row.floor

def machine : Machine State Act where
  start s := ∃ table clock, s = Table.initial table clock
  step := step

/-! ## What is asked of a run -/

/-- A tick completes; of each dated open task it announces the newest checkpoint since the
covered instant, if there is one, and nothing else.  So the decision at the due date is never
skipped. -/
structure TickRight (s : State) (now : Nat) : Prop where
  completed : (fireDueCheckpoints now s.rows).2.isSome = true
  newest : ∀ row ∈ s.rows, row.isOpen = true → ∀ due, row.due = some due →
    (notesOf row.id (fireDueCheckpoints now s.rows).1 = [] ∧
        ∀ t, IsRung due row.created t → (s.ledger row.id).covered < t → now < t) ∨
      ∃ rung, notesOf row.id (fireDueCheckpoints now s.rows).1 = [notify row rung] ∧
        IsNewest due row.created (s.ledger row.id).covered now rung.time ∧
          (rung.label = none ↔ rung.time = due)
  decision : ∀ row ∈ s.rows, row.isOpen = true → ∀ due, row.due = some due →
    row.created < due → (s.ledger row.id).covered < due → due ≤ now →
      ∃ rung, notesOf row.id (fireDueCheckpoints now s.rows).1 = [notify row rung] ∧
        rung.label = none
  silent : ∀ row ∈ s.rows, row.dated = false →
    notesOf row.id (fireDueCheckpoints now s.rows).1 = []

/-- No checkpoint is announced twice, and none that was past when the date was set. -/
def Ledger.Right (ledger : Ledger) : Prop :=
  ledger.announced.Nodup ∧ ∀ t ∈ ledger.announced, ledger.setAt < t

/-- What is asked of a step. -/
def Right (s : State) (a : Act) : Prop :=
  ∀ t, step s a = some t →
    (∀ now, a = .tick now → TickRight s now) ∧ ∀ row ∈ t.rows, (t.ledger row.id).Right

/-- At a tick, the ladder of each open task can be computed. -/
def Laddered (s : State) : Act → Prop
  | .tick now =>
      s.clock ≤ now → ∀ row ∈ s.rows, row.isOpen = true → ∀ due, row.due = some due →
        Computable due row.created
  | _ => True

/-- What a tick does to a row when it does not raise. -/
def fired (now : Nat) (row : Row) : Row × Option Note := (fireRow now row).getD (row, none)

/-! ## One task at a tick -/

section Fire

variable {now : Nat} {row : Row}

theorem fireRow_undated
    (h : row.dated = false) :
    fireRow now row = some (row, none) := by
  rw [Row.dated, Bool.and_eq_false_iff] at h
  cases hdue : row.due with
  | none => simp [fireRow, hdue]
  | some due =>
      rcases h with h | h
      · simp [fireRow, hdue, h]
      · simp [hdue] at h

/-- What a tick does to a dated open task. -/
theorem fireRow_cases
    (now : Nat)
    {due : Nat}
    (hopen : row.isOpen = true)
    (hdue : row.due = some due)
    (hcomputable : Computable due row.created) :
    (fireRow now row = some (row, none) ∧
        ∀ t, IsRung due row.created t → row.floor < t → now < t) ∨
      ∃ rung,
        fireRow now row = some ({ row with firedThrough := some now }, some (notify row rung)) ∧
          IsNewest due row.created row.floor now rung.time ∧
            (rung.label = none ↔ rung.time = due) := by
  obtain ⟨ladder, hladder⟩ := hcomputable.exists_ladder
  have hspec := (checkpointTimes_spec hladder).2
  cases hlast : (eligible row.floor now ladder).getLast? with
  | none =>
      refine .inl ⟨?_, hspec.none_eligible hlast⟩
      simp [fireRow, hdue, hopen, hladder, hlast]
  | some rung =>
      refine .inr ⟨rung, ?_, hspec.newest hlast⟩
      simp [fireRow, hdue, hopen, hladder, hlast]

theorem computable_of_fireRow
    {due : Nat} {out : Row × Option Note}
    (h : fireRow now row = some out)
    (hopen : row.isOpen = true)
    (hdue : row.due = some due) :
    Computable due row.created := by
  simp only [fireRow, hdue, hopen, if_true] at h
  obtain ⟨ladder, hladder, -⟩ := Option.bind_eq_some_iff.1 h
  exact (checkpointTimes_spec hladder).1

theorem id_of_fireRow
    {row' : Row} {note : Option Note}
    (h : fireRow now row = some (row', note)) :
    row'.id = row.id ∧ ∀ n ∈ note, n.taskId = row.id := by
  rw [fireRow] at h
  split at h
  · cases h
    simp
  · split at h
    · obtain ⟨ladder, -, h⟩ := Option.bind_eq_some_iff.1 h
      split at h
      · cases h
        simp
      · cases h
        simp [notify]
    · cases h
      simp

end Fire

/-! ## The table at a tick -/

section Table

variable {now : Nat} {rows : List Row}

/-- A tick that completes has done each row. -/
theorem fireRow_of_completed
    (h : (fireDueCheckpoints now rows).2.isSome = true) :
    ∀ row ∈ rows, ∃ out, fireRow now row = some out := by
  induction rows with
  | nil => simp
  | cons row rows ih =>
      rw [fireDueCheckpoints] at h
      cases hfire : fireRow now row with
      | none => simp [hfire] at h
      | some out =>
          simp only [hfire, Option.isSome_map] at h
          exact List.forall_mem_cons.2 ⟨⟨out, hfire⟩, ih h⟩

theorem taskId_of_mem_notes
    {note : Note}
    (h : note ∈ (fireDueCheckpoints now rows).1) :
    note.taskId ∈ rows.map Row.id := by
  induction rows with
  | nil => cases h
  | cons row rows ih =>
      rw [fireDueCheckpoints] at h
      rw [List.map_cons]
      cases hfire : fireRow now row with
      | none => simp [hfire] at h
      | some out =>
          obtain ⟨row', fired⟩ := out
          simp only [hfire, List.mem_append, Option.mem_toList] at h
          rcases h with h | h
          · rw [(id_of_fireRow hfire).2 note h]
            exact List.mem_cons_self
          · exact List.mem_cons_of_mem _ (ih h)

theorem notesOf_eq_nil
    {id : Text} {notes : List Note}
    (h : ∀ note ∈ notes, note.taskId ≠ id) :
    notesOf id notes = [] := by
  rw [notesOf, List.filter_eq_nil_iff]
  intro note hnote
  simpa using h note hnote

theorem notesOf_append (id : Text) (a b : List Note) :
    notesOf id (a ++ b) = notesOf id a ++ notesOf id b :=
  List.filter_append _ _

theorem notesOf_toList
    {id : Text} {note : Option Note}
    (h : ∀ n ∈ note, n.taskId = id) :
    notesOf id note.toList = note.toList := by
  rw [notesOf, List.filter_eq_self]
  intro n hn
  simpa using h n (Option.mem_toList.1 hn)

/-- A tick that can do each row completes, and each row's notifications are its own. -/
theorem fireDueCheckpoints_of_all
    (hnodup : (rows.map Row.id).Nodup)
    (h : ∀ row ∈ rows, ∃ out, fireRow now row = some out) :
    (fireDueCheckpoints now rows).2 = some (rows.map fun row => (fired now row).1) ∧
      ∀ row ∈ rows,
        notesOf row.id (fireDueCheckpoints now rows).1 = (fired now row).2.toList := by
  induction rows with
  | nil => exact ⟨rfl, by simp⟩
  | cons row rows ih =>
      rw [List.map_cons, List.nodup_cons] at hnodup
      rw [List.forall_mem_cons] at h
      obtain ⟨⟨row', note⟩, hfire⟩ := h.1
      obtain ⟨hrows, hall⟩ := ih hnodup.2 h.2
      have hids := (id_of_fireRow hfire).2
      have hfired : fired now row = (row', note) := by rw [fired, hfire]; rfl
      rw [fireDueCheckpoints]
      simp only [hfire, hrows, Option.map_some, List.map_cons, hfired]
      refine ⟨trivial, List.forall_mem_cons.2 ⟨?_, fun other hother => ?_⟩⟩
      · rw [notesOf_append, notesOf_toList hids, notesOf_eq_nil, List.append_nil, hfired]
        intro other hother heq
        exact hnodup.1 (heq ▸ taskId_of_mem_notes hother)
      · rw [notesOf_append, notesOf_eq_nil, List.nil_append, hall other hother]
        intro n hn heq
        rw [hids n (Option.mem_toList.1 hn)] at heq
        exact hnodup.1 (heq ▸ List.mem_map_of_mem hother)

end Table

/-! ## The invariant -/

/-- What the ledger says of a task's row: nothing is due between its floor and the instant it
is covered through, and what was announced is covered. -/
structure Kept (clock : Nat) (row : Row) (ledger : Ledger) : Prop where
  setAt : ledger.setAt ≤ row.floor
  floor : row.floor ≤ ledger.covered
  covered : ledger.covered ≤ max row.floor clock
  clear : ∀ due, row.due = some due → ∀ t, IsRung due row.created t →
    row.floor < t → ledger.covered < t
  announced : ∀ t ∈ ledger.announced, ledger.setAt < t ∧ t ≤ row.floor
  ordered : ledger.announced.Pairwise (· < ·)

structure Sound (s : State) : Prop where
  nodup : (s.rows.map Row.id).Nodup
  kept : ∀ row ∈ s.rows, Kept s.clock row (s.ledger row.id)

theorem Kept.right
    {clock : Nat} {row : Row} {ledger : Ledger}
    (h : Kept clock row ledger) :
    ledger.Right :=
  ⟨h.ordered.imp fun hlt => hlt.ne, fun t ht => (h.announced t ht).1⟩

/-- A task whose date is set now is covered through now. -/
theorem kept_fresh
    {now : Nat} {row : Row}
    (h : row.floor = now) :
    Kept now row (.fresh now) where
  setAt := h.ge
  floor := h.le
  covered := le_max_right _ _
  clear due _ t _ ht := h ▸ ht
  announced t ht := by cases ht
  ordered := .nil

/-- A change that sets no date keeps the ledger. -/
theorem Kept.change
    {clock now : Nat} {row row' : Row} {ledger : Ledger}
    (h : Kept clock row ledger)
    (hclock : clock ≤ now)
    (hfloor : row'.floor = row.floor)
    (hcreated : row'.created = row.created)
    (hdue : ∀ due, row'.due = some due → row.due = some due) :
    Kept now row' ledger where
  setAt := hfloor ▸ h.setAt
  floor := hfloor ▸ h.floor
  covered := by
    have := h.covered
    rw [hfloor]
    omega
  clear due hd t ht hlt := h.clear due (hdue due hd) t (hcreated ▸ ht) (hfloor ▸ hlt)
  announced := hfloor ▸ h.announced
  ordered := h.ordered

theorem Kept.later
    {clock now : Nat} {row : Row} {ledger : Ledger}
    (h : Kept clock row ledger)
    (hclock : clock ≤ now) :
    Kept now row ledger :=
  h.change hclock rfl rfl fun _ hdue => hdue

@[simp] theorem Ledger.tick_false (ledger : Ledger) (now : Nat) :
    ledger.tick now false [] = ledger := by
  simp [Ledger.tick]

/-- A tick that looks at a task without a checkpoint to announce. -/
theorem Kept.tick_none
    {clock now due : Nat} {row : Row} {ledger : Ledger}
    (h : Kept clock row ledger)
    (hclock : clock ≤ now)
    (hdue : row.due = some due)
    (hnone : ∀ t, IsRung due row.created t → row.floor < t → now < t) :
    Kept now row (ledger.tick now true []) where
  setAt := h.setAt
  floor := h.floor.trans (le_max_left _ _)
  covered := by
    have := h.covered
    simp only [Ledger.tick, if_true]
    omega
  clear due' hdue' t ht hlt := by
    rw [hdue] at hdue'
    cases hdue'
    exact max_lt (h.clear due hdue t ht hlt) (hnone t ht hlt)
  announced := by simpa [Ledger.tick] using h.announced
  ordered := by simpa [Ledger.tick] using h.ordered

/-- A tick that announces the newest checkpoint of a task. -/
theorem Kept.tick_some
    {clock now due : Nat} {row : Row} {ledger : Ledger} {rung : Rung}
    (h : Kept clock row ledger)
    (hclock : clock ≤ now)
    (hnewest : IsNewest due row.created row.floor now rung.time) :
    Kept now { row with firedThrough := some now }
      (ledger.tick now true [notify row rung]) where
  setAt := by
    have hset := h.setAt
    have hafter := hnewest.after
    have hreached := hnewest.reached
    show ledger.setAt ≤ now
    omega
  floor := le_max_right _ _
  covered := by
    have hcovered := h.covered
    have hafter := hnewest.after
    have hreached := hnewest.reached
    show max ledger.covered now ≤ max now now
    omega
  clear due _ t _ hlt := by
    have hcovered := h.covered
    have hafter := hnewest.after
    have hreached := hnewest.reached
    have hlt : now < t := hlt
    show max ledger.covered now < t
    omega
  announced t ht := by
    have hset := h.setAt
    have hafter := hnewest.after
    have hreached := hnewest.reached
    rcases List.mem_append.1 ht with ht | ht
    · have := h.announced t ht
      exact ⟨this.1, show t ≤ now by omega⟩
    · have heq : t = rung.time := List.mem_singleton.1 ht
      exact ⟨show ledger.setAt < t by omega, show t ≤ now by omega⟩
  ordered := by
    refine List.pairwise_append.2 ⟨h.ordered, List.pairwise_singleton _ _, fun t ht u hu => ?_⟩
    have heq : u = rung.time := List.mem_singleton.1 hu
    have := (h.announced t ht).2
    have := hnewest.after
    omega

/-! ## Commands -/

section Commands

variable {s : State} {now : Nat}

theorem map_id_setRow (rows : List Row) (row : Row) :
    (setRow rows row).map Row.id = rows.map Row.id := by
  rw [setRow, List.map_map]
  apply List.map_congr_left
  intro other _
  simp only [Function.comp_apply]
  split
  · rename_i heq
    exact (beq_iff_eq.1 heq).symm
  · rfl

theorem mem_setRow
    {rows : List Row} {row other : Row}
    (h : other ∈ setRow rows row) :
    other = row ∨ (other ∈ rows ∧ other.id ≠ row.id) := by
  obtain ⟨old, hold, heq⟩ := List.mem_map.1 h
  split at heq
  · exact .inl heq.symm
  · rename_i hne
    rw [← heq]
    exact .inr ⟨hold, by simpa using hne⟩

/-- A changed row keeps what the ledger is about, unless its date is set now. -/
theorem updateTask_spec
    {row row' : Row} {change : Change}
    (h : updateTask row change now = some row') :
    row'.id = row.id ∧ row'.created = row.created ∧
      (change.due.isSome = true → row'.floor = now) ∧
        (change.due.isSome = false →
          row'.floor = row.floor ∧ ∀ due, row'.due = some due → row.due = some due) := by
  rw [updateTask] at h
  generalize backburnerUpdate row change = flags at h
  split at h
  · cases h
  · cases h
    refine ⟨rfl, rfl, fun hsome => ?_, fun hnone => ?_⟩
    · simp [Row.floor, hsome]
    · have hdue : change.due = none := by simpa using hnone
      refine ⟨by simp [Row.floor, hdue], fun due hd => ?_⟩
      simp only [hdue] at hd
      split at hd
      · cases hd
      · exact hd

theorem Sound.add
    {id subject : Text} {due : Option Nat} {created : Nat}
    (h : Sound s)
    (hclock : s.clock ≤ now)
    (hnew : s.rows.any (fun row => row.id == id) = false) :
    Sound ⟨now, s.rows ++ [addTask id subject due created now],
      Function.update s.ledger id (.fresh now)⟩ := by
  have hne : ∀ row ∈ s.rows, row.id ≠ id := by
    intro row hrow
    simpa using List.any_eq_false.1 hnew row hrow
  refine ⟨?_, fun row hrow => ?_⟩
  · rw [List.map_append, List.nodup_append]
    refine ⟨h.nodup, List.nodup_singleton _, fun a ha b hb => ?_⟩
    obtain ⟨row, hrow, rfl⟩ := List.mem_map.1 ha
    rw [List.mem_singleton.1 hb]
    exact hne row hrow
  · rcases List.mem_append.1 hrow with hrow | hrow
    · simp only [Function.update_of_ne (hne row hrow)]
      exact (h.kept row hrow).later hclock
    · rw [List.mem_singleton.1 hrow]
      have hself : Function.update s.ledger id (.fresh now) id = .fresh now :=
        Function.update_self _ _ _
      simp only [addTask, hself]
      exact kept_fresh rfl

theorem Sound.set
    {row row' : Row} {ledger : Text → Ledger}
    (h : Sound s)
    (hclock : s.clock ≤ now)
    (hid : row'.id = row.id)
    (hothers : ∀ id, id ≠ row.id → ledger id = s.ledger id)
    (hkept : Kept now row' (ledger row.id)) :
    Sound ⟨now, setRow s.rows row', ledger⟩ := by
  refine ⟨by rw [map_id_setRow]; exact h.nodup, fun other hother => ?_⟩
  rcases mem_setRow hother with rfl | ⟨hmem, hne⟩
  · rw [hid]
    exact hkept
  · rw [hid] at hne
    show Kept now other (ledger other.id)
    rw [hothers other.id hne]
    exact (h.kept other hmem).later hclock

theorem Sound.update
    {row row' : Row} {change : Change}
    (h : Sound s)
    (hclock : s.clock ≤ now)
    (hrow : row ∈ s.rows)
    (hchange : updateTask row change now = some row') :
    Sound ⟨now, setRow s.rows row',
      if change.due.isSome then Function.update s.ledger row.id (.fresh now) else s.ledger⟩ := by
  obtain ⟨hid, hcreated, hset, hkeep⟩ := updateTask_spec hchange
  cases hdue : change.due.isSome with
  | true =>
      rw [if_pos rfl]
      refine h.set hclock hid (fun id hne => Function.update_of_ne hne _ _) ?_
      rw [Function.update_self]
      exact kept_fresh (hset hdue)
  | false =>
      obtain ⟨hfloor, hd⟩ := hkeep hdue
      exact h.set hclock hid (fun _ _ => rfl)
        ((h.kept row hrow).change hclock hfloor hcreated hd)

theorem Sound.delete
    {row : Row}
    (h : Sound s)
    (hclock : s.clock ≤ now)
    (hrow : row ∈ s.rows) :
    Sound ⟨now, setRow s.rows (deleteTask row now), s.ledger⟩ :=
  h.set hclock rfl (fun _ _ => rfl) ((h.kept row hrow).change hclock rfl rfl fun _ hd => hd)

end Commands

/-! ## Ticks -/

section Tick

variable {s : State} {now : Nat}

theorem exists_fireRow
    (now : Nat)
    (h : ∀ row ∈ s.rows, row.isOpen = true → ∀ due, row.due = some due →
      Computable due row.created) :
    ∀ row ∈ s.rows, ∃ out, fireRow now row = some out := by
  intro row hrow
  cases hdated : row.dated with
  | false => exact ⟨_, fireRow_undated hdated⟩
  | true =>
      rw [Row.dated, Bool.and_eq_true, Option.isSome_iff_exists] at hdated
      obtain ⟨hopen, due, hdue⟩ := hdated
      rcases fireRow_cases now hopen hdue (h row hrow hopen due hdue) with
        ⟨hfire, -⟩ | ⟨rung, hfire, -⟩
      · exact ⟨_, hfire⟩
      · exact ⟨_, hfire⟩

/-- A tick announces the newest checkpoint of each task, if one has come. -/
theorem Sound.newest
    (h : Sound s)
    (now : Nat)
    (hladdered : ∀ row ∈ s.rows, row.isOpen = true → ∀ due, row.due = some due →
      Computable due row.created)
    {row : Row} {due : Nat}
    (hrow : row ∈ s.rows)
    (hopen : row.isOpen = true)
    (hdue : row.due = some due) :
    (notesOf row.id (fireDueCheckpoints now s.rows).1 = [] ∧
        ∀ t, IsRung due row.created t → (s.ledger row.id).covered < t → now < t) ∨
      ∃ rung, notesOf row.id (fireDueCheckpoints now s.rows).1 = [notify row rung] ∧
        IsNewest due row.created (s.ledger row.id).covered now rung.time ∧
          (rung.label = none ↔ rung.time = due) := by
  have hfire := exists_fireRow now hladdered
  have hnotes := (fireDueCheckpoints_of_all h.nodup hfire).2
  have hkept := h.kept row hrow
  rw [hnotes row hrow, fired]
  rcases fireRow_cases now hopen hdue (hladdered row hrow hopen due hdue) with
    ⟨hfire, hnone⟩ | ⟨rung, hfire, hnewest, hlabel⟩
  · rw [hfire]
    refine .inl ⟨rfl, fun t ht hlt => hnone t ht ?_⟩
    have := hkept.floor
    omega
  · rw [hfire]
    have hafter := hkept.clear due hdue rung.time hnewest.rung hnewest.after
    exact .inr ⟨rung, rfl, ⟨hnewest.rung, hafter, hnewest.reached, hnewest.newest⟩, hlabel⟩

/-- What is computable is announced as asked. -/
theorem Sound.tickRight
    (h : Sound s)
    (hclock : s.clock ≤ now)
    (hladdered : Laddered s (.tick now)) :
    TickRight s now := by
  have hladdered := hladdered hclock
  obtain ⟨hrows, hnotes⟩ := fireDueCheckpoints_of_all h.nodup (exists_fireRow now hladdered)
  refine ⟨by rw [hrows]; rfl, fun row hrow hopen due hdue => h.newest now hladdered hrow hopen hdue,
    fun row hrow hopen due hdue hcreated hcovered hreached => ?_, fun row hrow hundated => ?_⟩
  · rcases h.newest now hladdered hrow hopen hdue with
      ⟨-, hnone⟩ | ⟨rung, hnotes, hnewest, hlabel⟩
    · have := hnone due ⟨hcreated, .inl rfl⟩ hcovered
      omega
    · exact ⟨rung, hnotes, hlabel.2 (hnewest.eq_due hcreated hreached)⟩
  · rw [hnotes row hrow, fired, fireRow_undated hundated]
    rfl

/-- A tick that completes could compute the ladder of each open task. -/
theorem TickRight.laddered
    (h : TickRight s now) :
    Laddered s (.tick now) := by
  intro _ row hrow hopen due hdue
  obtain ⟨out, hfire⟩ := fireRow_of_completed h.completed row hrow
  exact computable_of_fireRow hfire hopen hdue

theorem looked_eq
    {row : Row}
    (hnodup : (s.rows.map Row.id).Nodup)
    (hrow : row ∈ s.rows) :
    (s.rows.any fun other => other.id == row.id && other.dated) = row.dated := by
  rw [Bool.eq_iff_iff, List.any_eq_true]
  constructor
  · rintro ⟨other, hother, heq⟩
    rw [Bool.and_eq_true, beq_iff_eq] at heq
    rw [← List.inj_on_of_nodup_map hnodup hother hrow heq.1]
    exact heq.2
  · intro hdated
    exact ⟨row, hrow, by simp [hdated]⟩

theorem Sound.tick
    (h : Sound s)
    (hclock : s.clock ≤ now)
    (hladdered : Laddered s (.tick now))
    {t : State}
    (hstep : step s (.tick now) = some t) :
    Sound t := by
  have hall := hladdered hclock
  have hfire := exists_fireRow now hall
  obtain ⟨hrows, hnotes⟩ := fireDueCheckpoints_of_all h.nodup hfire
  have hids : ∀ row ∈ s.rows, (fired now row).1.id = row.id := by
    intro row hrow
    obtain ⟨⟨row', note⟩, hout⟩ := hfire row hrow
    rw [fired, hout]
    exact (id_of_fireRow hout).1
  simp only [step, if_pos hclock, hrows, Option.getD_some, Option.isSome_some,
    Bool.true_and] at hstep
  cases hstep
  refine ⟨?_, fun row' hrow' => ?_⟩
  · have hmap : (s.rows.map fun row => (fired now row).1).map Row.id = s.rows.map Row.id := by
      rw [List.map_map]
      exact List.map_congr_left hids
    exact hmap ▸ h.nodup
  · obtain ⟨row, hrow, rfl⟩ := List.mem_map.1 hrow'
    simp only [hids row hrow, hnotes row hrow, looked_eq h.nodup hrow]
    have hkept := h.kept row hrow
    cases hdated : row.dated with
    | false =>
        rw [fired, fireRow_undated hdated]
        simp only [Option.getD_some, Option.toList_none, Ledger.tick_false]
        exact hkept.later hclock
    | true =>
        have hdated' := hdated
        rw [Row.dated, Bool.and_eq_true, Option.isSome_iff_exists] at hdated'
        obtain ⟨hopen, due, hdue⟩ := hdated'
        rcases fireRow_cases now hopen hdue (hall row hrow hopen due hdue) with
          ⟨hfire, hnone⟩ | ⟨rung, hfire, hnewest, -⟩
        · rw [fired, hfire]
          exact hkept.tick_none hclock hdue hnone
        · rw [fired, hfire]
          exact hkept.tick_some hclock hnewest

end Tick

/-! ## Runs -/

/-- Each step keeps the invariant; a tick needs its ladders. -/
theorem Sound.step
    {s t : State} {a : Act}
    (h : Sound s)
    (hladdered : Laddered s a)
    (hstep : step s a = some t) :
    Sound t := by
  cases a with
  | add id subject due created now =>
      simp only [Tasks.step] at hstep
      split at hstep
      · rename_i hguard
        rw [Bool.and_eq_true, decide_eq_true_eq, Bool.not_eq_true'] at hguard
        cases hstep
        exact h.add hguard.1 hguard.2
      · cases hstep
  | update id change now =>
      simp only [Tasks.step] at hstep
      split at hstep
      · rename_i hclock
        obtain ⟨row, hfind, hstep⟩ := Option.bind_eq_some_iff.1 hstep
        obtain ⟨row', hchange, hstep⟩ := Option.bind_eq_some_iff.1 hstep
        cases hstep
        have hid : row.id = id := by simpa using List.find?_some hfind
        subst hid
        exact h.update hclock (List.mem_of_find?_eq_some hfind) hchange
      · cases hstep
  | delete id now =>
      simp only [Tasks.step] at hstep
      split at hstep
      · rename_i hclock
        obtain ⟨row, hfind, hstep⟩ := Option.bind_eq_some_iff.1 hstep
        cases hstep
        exact h.delete hclock (List.mem_of_find?_eq_some hfind)
      · cases hstep
  | tick now =>
      have hclock : s.clock ≤ now := by
        by_contra hnot
        simp [Tasks.step, hnot] at hstep
      exact h.tick hclock hladdered hstep

theorem kept_initial (clock : Nat) (row : Row) : Kept clock row (.fresh row.floor) where
  setAt := le_rfl
  floor := le_rfl
  covered := le_max_left _ _
  clear due _ t _ ht := ht
  announced t ht := by cases ht
  ordered := .nil

theorem sound_initial (table : Table) (clock : Nat) : Sound (table.initial clock) where
  nodup := table.nodup
  kept row hrow := by
    have hledger : (table.initial clock).ledger row.id = .fresh row.floor := by
      cases hfind : table.rows.find? fun other => other.id == row.id with
      | none => simpa using List.find?_eq_none.1 hfind row hrow
      | some other =>
          have hid : other.id = row.id := by simpa using List.find?_some hfind
          simp only [Table.initial, hfind]
          rw [List.inj_on_of_nodup_map table.nodup (List.mem_of_find?_eq_some hfind) hrow hid]
    rw [hledger]
    exact kept_initial clock row

/-- A step is right exactly if the ladders of a tick can be computed. -/
theorem Sound.right_iff
    {s : State}
    (h : Sound s)
    (a : Act) :
    Right s a ↔ Laddered s a := by
  constructor
  · intro hright
    cases a with
    | tick now =>
        intro hclock
        have hstep : ∃ t, Tasks.step s (.tick now) = some t := by
          simp [Tasks.step, hclock]
        obtain ⟨t, hstep⟩ := hstep
        exact ((hright t hstep).1 now rfl).laddered hclock
    | add => trivial
    | update => trivial
    | delete => trivial
  · intro hladdered t hstep
    refine ⟨?_, fun row hrow => ((h.step hladdered hstep).kept row hrow).right⟩
    rintro now rfl
    refine h.tickRight ?_ hladdered
    by_contra hnot
    simp [Tasks.step, hnot] at hstep

/-- A run is right in all its steps exactly if at each of its ticks the ladder of each open
task can be computed. -/
theorem run_right_iff (table : Table) (clock : Nat) (acts : List Act) :
    machine.Admits Right (table.initial clock) acts ↔
      machine.Admits Laddered (table.initial clock) acts :=
  machine.admits_congr (fun _ _ _ h hok hstep => h.step hok hstep) (fun _ a h => h.right_iff a)
    acts (sound_initial table clock)

/-- A task due at the end of 9999 and one due within the hour, made at noon on 2026-03-02. -/
def farAndNear : Table where
  rows :=
    [addTask ['f'] ['F'] (some 315537897540000000) 63908049600000000 63908049600000000,
      addTask ['n'] ['N'] (some 63908053200000000) 63908049600000000 63908049600000000]
  nodup := by decide

/-- The ladder of the far date raises, and the near task is not announced at 12:46. -/
theorem far_date_stops_tick :
    fireDueCheckpoints 63908052360000000 farAndNear.rows = ([], none) ∧
      ¬machine.Admits Right (farAndNear.initial 63908049600000000) [.tick 63908052360000000] := by
  have htick : fireDueCheckpoints 63908052360000000 farAndNear.rows = ([], none) := by
    decide +kernel
  refine ⟨htick, fun h => ?_⟩
  have hright := (h.1 _ rfl).1 63908052360000000 rfl
  have hcompleted := hright.completed
  rw [show (farAndNear.initial 63908049600000000).rows = farAndNear.rows from rfl, htick]
    at hcompleted
  cases hcompleted

end Tasks
end Vesta
