import Mathlib.Data.List.Count
import Vesta.Lib.Machine
import Vesta.Lib.Map
import Vesta.Vestad.Docker.Names
import Vesta.Vestad.Sync.Protocol

/-!
# Published operations

While the gateway works on an agent it publishes the operation on the roster.  A
guard puts the operation into a table when it is created and takes the agent's
entry out when it is dropped.  The table holds one operation per agent, under the
normalized name.

Handlers and nightly jobs create their guard under the agent's write lock, which
is keyed by the name as the request spells it, and drop it before they give the
lock back.  The repair of a drifted sidecar runs in the status poll: it finds no
operation of the agent, creates its guard and only then spawns the task that waits
for the lock.  The task drops its guard after it gave the lock back.
-/

namespace Vesta
namespace Vestad
namespace PublishedOperations

open Lib

/-- How far a task is with the agent's write lock and with its guard. -/
inductive Phase
  /-- A handler or job that waits for the lock. -/
  | waiting
  /-- It holds the lock and has no guard yet. -/
  | holding
  /-- It holds the lock and the guard. -/
  | operating
  /-- It dropped the guard and still holds the lock. -/
  | settled
  /-- A repair that holds its guard and waits for the lock. -/
  | queued
  /-- It holds the guard and the lock. -/
  | repairing
  /-- It gave the lock back and still holds the guard. -/
  | unlocked
  | done
deriving DecidableEq

/-- Whether a task holds a guard. -/
def Phase.guarded : Phase → Bool
  | operating => true
  | queued => true
  | repairing => true
  | unlocked => true
  | _ => false

/-- Whether a task holds the write lock. -/
def Phase.locked : Phase → Bool
  | holding => true
  | operating => true
  | settled => true
  | repairing => true
  | _ => false

/-- A task on an agent, under the name it was given. -/
structure Task where
  name : String
  operation : AgentOperation
  phase : Phase
deriving DecidableEq

/-- The table, the tasks and the agent the poll is about to repair. -/
structure World where
  operations : Map String AgentOperation
  tasks : List Task
  poll : Option String

def initial : World where
  operations := ∅
  tasks := []
  poll := none

/-- `PublishedOperation::new`: the entry goes in under the normalized name. -/
def publish
    (operations : Map String AgentOperation)
    (name : String)
    (operation : AgentOperation) :
    Map String AgentOperation :=
  operations.insert (normalizeName name) operation

/-- The drop of a `PublishedOperation`. -/
def withdraw
    (operations : Map String AgentOperation)
    (name : String) :
    Map String AgentOperation :=
  operations.erase (normalizeName name)

/-- No task holds the lock of this spelling of the name. -/
def lockFree (tasks : List Task) (name : String) : Bool :=
  tasks.all fun task => task.name ≠ name || !task.phase.locked

inductive Label
  /-- A handler or job starts and asks for the lock. -/
  | start (name : String) (operation : AgentOperation)
  /-- A task takes its next step. -/
  | advance (task : Nat)
  /-- A handler or job returns before it publishes. -/
  | giveUp (task : Nat)
  /-- The poll finds no operation of an agent and asks Docker about its sidecar. -/
  | pollCheck (name : String)
  | pollSkip
  | pollRepair

/-- The world with a task in another phase. -/
def World.enter (w : World) (i : Nat) (task : Task) (phase : Phase) : World :=
  { w with tasks := w.tasks.set i { task with phase } }

/-- The next step of a task. -/
def advance (w : World) (i : Nat) (task : Task) : Option World :=
  match task.phase with
  | .waiting => if lockFree w.tasks task.name then some (w.enter i task .holding) else none
  | .holding =>
      some
        { w.enter i task .operating with
          operations := publish w.operations task.name task.operation }
  | .operating =>
      some { w.enter i task .settled with operations := withdraw w.operations task.name }
  | .settled => some (w.enter i task .done)
  | .queued => if lockFree w.tasks task.name then some (w.enter i task .repairing) else none
  | .repairing => some (w.enter i task .unlocked)
  | .unlocked =>
      some { w.enter i task .done with operations := withdraw w.operations task.name }
  | .done => none

def step (w : World) : Label → Option World
  | .start name operation =>
      some { w with tasks := w.tasks ++ [{ name, operation, phase := .waiting }] }
  | .advance i => w.tasks[i]?.bind (advance w i)
  | .giveUp i =>
      w.tasks[i]?.bind fun task =>
        if task.phase = .holding then some (w.enter i task .done) else none
  | .pollCheck name =>
      if w.poll.isNone && !w.operations.contains (normalizeName name) then
        some { w with poll := some name }
      else
        none
  | .pollSkip => some { w with poll := none }
  | .pollRepair =>
      w.poll.map fun name =>
        { operations := publish w.operations name .restarting
          tasks := w.tasks ++ [{ name, operation := .restarting, phase := .queued }]
          poll := none }

def machine : Machine World Label where
  start w := w = initial
  step := step

/-- Whether a task holds a guard of the agent. -/
def guards (agent : String) (task : Task) : Bool :=
  task.phase.guarded && normalizeName task.name = agent

/-- How many guards of an agent are alive. -/
def alive (w : World) (agent : String) : Nat := w.tasks.countP (guards agent)

/-- The table has an entry of an agent exactly while a guard of it is alive. -/
def Visible (w : World) : Prop :=
  ∀ agent, agent ∈ w.operations ↔ 0 < alive w agent

/-- The label does not drop a guard while another guard of the agent is alive. -/
def DropsLast (w : World) : Label → Prop
  | .advance i =>
      ∀ task ∈ w.tasks[i]?, task.phase = .operating ∨ task.phase = .unlocked →
        alive w (normalizeName task.name) = 1
  | _ => True

section Runs

variable {w t : World}

theorem alive_enter
    {i : Nat} {task : Task}
    (hi : w.tasks[i]? = some task)
    (phase : Phase) (agent : String) :
    alive (w.enter i task phase) agent =
      alive w agent - (if guards agent task then 1 else 0) +
        if guards agent { task with phase } then 1 else 0 := by
  obtain ⟨hlt, hget⟩ := List.getElem?_eq_some_iff.1 hi
  rw [alive, World.enter, List.countP_set hlt, hget]
  rfl

theorem alive_pos
    {i : Nat} {task : Task} {agent : String}
    (hi : w.tasks[i]? = some task)
    (h : guards agent task = true) :
    0 < alive w agent :=
  List.countP_pos_iff.2 ⟨task, List.mem_of_getElem? hi, h⟩

/-- A step that neither creates nor drops a guard keeps what is visible. -/
theorem Visible.enter
    (h : Visible w)
    {i : Nat} {task : Task} {phase : Phase}
    (hi : w.tasks[i]? = some task)
    (hsame : phase.guarded = task.phase.guarded) :
    Visible (w.enter i task phase) := by
  intro agent
  have hguards : guards agent { task with phase } = guards agent task := by
    simp [guards, hsame]
  have hle : guards agent task = true → 0 < alive w agent := alive_pos hi
  rw [alive_enter hi, hguards]
  refine (h agent).trans ?_
  split
  · have := hle ‹_›
    omega
  · simp

/-- A new task without a guard is not seen. -/
theorem alive_append
    (task : Task) (agent : String) :
    alive { w with tasks := w.tasks ++ [task] } agent =
      alive w agent + if guards agent task then 1 else 0 := by
  rw [alive, List.countP_append, List.countP_singleton]
  rfl

theorem mem_publish
    {operations : Map String AgentOperation} {name agent : String} {operation : AgentOperation} :
    agent ∈ publish operations name operation ↔
      normalizeName name = agent ∨ agent ∈ operations := by
  rw [publish, Std.ExtTreeMap.mem_insert, Std.LawfulEqCmp.compare_eq_iff_eq]

theorem mem_withdraw
    {operations : Map String AgentOperation} {name agent : String} :
    agent ∈ withdraw operations name ↔ normalizeName name ≠ agent ∧ agent ∈ operations := by
  rw [withdraw, Std.ExtTreeMap.mem_erase, ne_eq, Std.LawfulEqCmp.compare_eq_iff_eq]

/-- A task that publishes is seen. -/
theorem Visible.publish
    (h : Visible w)
    {i : Nat} {task : Task} {phase : Phase}
    (hi : w.tasks[i]? = some task)
    (hbefore : task.phase.guarded = false)
    (hafter : phase.guarded = true)
    (operation : AgentOperation) :
    Visible
      { w.enter i task phase with operations := publish w.operations task.name operation } := by
  intro agent
  change agent ∈ PublishedOperations.publish w.operations task.name operation ↔
    0 < alive (w.enter i task phase) agent
  rw [mem_publish, h agent, alive_enter hi]
  by_cases hagent : normalizeName task.name = agent <;> simp [guards, hbefore, hafter, hagent]

/-- A dropped guard is seen to be gone exactly when it was the last one. -/
theorem visible_withdraw_iff
    (h : Visible w)
    {i : Nat} {task : Task} {phase : Phase}
    (hi : w.tasks[i]? = some task)
    (hbefore : task.phase.guarded = true)
    (hafter : phase.guarded = false) :
    Visible { w.enter i task phase with operations := withdraw w.operations task.name } ↔
      alive w (normalizeName task.name) = 1 := by
  have halive :
      ∀ agent, alive (w.enter i task phase) agent =
        alive w agent - if normalizeName task.name = agent then 1 else 0 := by
    intro agent
    rw [alive_enter hi]
    simp [guards, hbefore, hafter]
  have hpos : 0 < alive w (normalizeName task.name) :=
    alive_pos hi (by simp [guards, hbefore])
  constructor
  · intro hvisible
    have hself := (hvisible (normalizeName task.name)).not
    change ¬normalizeName task.name ∈ withdraw w.operations task.name ↔
      ¬0 < alive (w.enter i task phase) (normalizeName task.name) at hself
    rw [mem_withdraw, halive, if_pos rfl] at hself
    have := hself.1 fun hboth => hboth.1 rfl
    omega
  · intro hlast agent
    change agent ∈ withdraw w.operations task.name ↔ 0 < alive (w.enter i task phase) agent
    rw [mem_withdraw, h agent, halive]
    by_cases hagent : normalizeName task.name = agent
    · subst hagent
      simp [hlast]
    · simp [hagent]

/-- The step of one task. -/
theorem visible_advance_iff
    (h : Visible w)
    {i : Nat} {task : Task}
    (hi : w.tasks[i]? = some task)
    (hstep : advance w i task = some t) :
    Visible t ↔
      (task.phase = .operating ∨ task.phase = .unlocked →
        alive w (normalizeName task.name) = 1) := by
  -- The last implication speaks of the two phases that drop a guard only.
  have hkeep :
      ∀ phase : Phase, phase.guarded = task.phase.guarded →
        ¬(task.phase = .operating ∨ task.phase = .unlocked) →
          (Visible (w.enter i task phase) ↔
            (task.phase = .operating ∨ task.phase = .unlocked →
              alive w (normalizeName task.name) = 1)) := by
    intro phase hsame hother
    exact iff_of_true (h.enter hi hsame) fun hdrops => absurd hdrops hother
  have hdrop :
      ∀ phase : Phase, task.phase.guarded = true → phase.guarded = false →
        (task.phase = .operating ∨ task.phase = .unlocked) →
          (Visible { w.enter i task phase with operations := withdraw w.operations task.name } ↔
            (task.phase = .operating ∨ task.phase = .unlocked →
              alive w (normalizeName task.name) = 1)) := by
    intro phase hbefore hafter hdrops
    rw [visible_withdraw_iff h hi hbefore hafter]
    exact ⟨fun hlast _ => hlast, fun hlast => hlast hdrops⟩
  rw [advance] at hstep
  cases hphase : task.phase with
  | waiting =>
      simp only [hphase] at hstep hkeep
      split at hstep
      · cases hstep
        exact hkeep .holding rfl (by simp)
      · cases hstep
  | holding =>
      simp only [hphase] at hstep
      cases hstep
      exact iff_of_true (h.publish hi (by rw [hphase]; rfl) rfl _) (by simp)
  | operating =>
      simp only [hphase] at hstep
      rw [hphase] at hdrop
      cases hstep
      exact hdrop .settled rfl rfl (Or.inl rfl)
  | settled =>
      simp only [hphase] at hstep hkeep
      cases hstep
      exact hkeep .done rfl (by simp)
  | queued =>
      simp only [hphase] at hstep hkeep
      split at hstep
      · cases hstep
        exact hkeep .repairing rfl (by simp)
      · cases hstep
  | repairing =>
      simp only [hphase] at hstep hkeep
      cases hstep
      exact hkeep .unlocked rfl (by simp)
  | unlocked =>
      simp only [hphase] at hstep
      rw [hphase] at hdrop
      cases hstep
      exact hdrop .done rfl rfl (Or.inr rfl)
  | done =>
      simp only [hphase] at hstep
      cases hstep

/-- What is visible stays visible in a step exactly when the step drops no guard that
another guard of the agent outlives. -/
theorem visible_step_iff
    (h : Visible w)
    {a : Label}
    (hstep : step w a = some t) :
    Visible t ↔ DropsLast w a := by
  cases a with
  | start name operation =>
      cases hstep
      refine iff_of_true (fun agent => ?_) trivial
      rw [alive_append]
      exact h agent
  | advance i =>
      obtain ⟨task, hi, hadvance⟩ := Option.bind_eq_some_iff.1 hstep
      rw [visible_advance_iff h hi hadvance]
      simp [DropsLast, hi]
  | giveUp i =>
      obtain ⟨task, hi, hgive⟩ := Option.bind_eq_some_iff.1 hstep
      split at hgive
      · rename_i hphase
        cases hgive
        exact iff_of_true (h.enter hi (by rw [hphase]; rfl)) trivial
      · cases hgive
  | pollCheck name =>
      simp only [step] at hstep
      split at hstep
      · cases hstep
        exact iff_of_true h trivial
      · cases hstep
  | pollSkip =>
      cases hstep
      exact iff_of_true h trivial
  | pollRepair =>
      obtain ⟨name, -, rfl⟩ := Option.map_eq_some_iff.1 hstep
      refine iff_of_true (fun agent => ?_) trivial
      change agent ∈ PublishedOperations.publish w.operations name .restarting ↔
        0 < alive { w with
          tasks := w.tasks ++ [{ name, operation := .restarting, phase := .queued }] } agent
      rw [mem_publish, h agent, alive_append]
      by_cases hagent : normalizeName name = agent <;> simp [guards, Phase.guarded, hagent]

theorem visible_initial : Visible initial := by
  intro agent
  simp [initial, alive]

theorem dropsLast_of_stuck
    {a : Label}
    (hstep : step w a = none) :
    DropsLast w a := by
  cases a with
  | advance i =>
      intro task hi hdrops
      rw [Option.mem_def] at hi
      simp only [step, hi, Option.bind_some] at hstep
      rcases hdrops with hphase | hphase
      · simp [advance, hphase] at hstep
      · simp [advance, hphase] at hstep
  | start => trivial
  | giveUp => trivial
  | pollCheck => trivial
  | pollSkip => trivial
  | pollRepair => trivial

/-- Runs without a repair, in which every request spells its agent as it is stored. -/
def HandlersOnly (_ : World) : Label → Prop
  | .start name _ => normalizeName name = name
  | .pollRepair => False
  | _ => True

/-- Whether a task holds the lock of the name. -/
def locks (name : String) (task : Task) : Bool :=
  task.phase.locked && task.name = name

/-- The lock of a name has one holder, and only a holder that spells it so is guarded. -/
structure Exclusive (w : World) : Prop where
  spelled : ∀ task ∈ w.tasks, normalizeName task.name = task.name
  operating : ∀ task ∈ w.tasks, task.phase.guarded = true → task.phase = .operating
  locked : ∀ name, w.tasks.countP (locks name) ≤ 1

theorem countP_locks_enter
    {i : Nat} {task : Task}
    (hi : w.tasks[i]? = some task)
    (phase : Phase) (name : String) :
    (w.enter i task phase).tasks.countP (locks name) =
      w.tasks.countP (locks name) - (if locks name task then 1 else 0) +
        if locks name { task with phase } then 1 else 0 := by
  obtain ⟨hlt, hget⟩ := List.getElem?_eq_some_iff.1 hi
  rw [World.enter, List.countP_set hlt, hget]

theorem countP_locks_of_lockFree
    {name : String}
    (hfree : lockFree w.tasks name = true) :
    w.tasks.countP (locks name) = 0 := by
  rw [List.countP_eq_zero]
  intro task htask hlocks
  have htask := List.all_eq_true.1 hfree task htask
  simp only [locks, Bool.and_eq_true, decide_eq_true_eq] at hlocks
  simp [hlocks.1, hlocks.2] at htask

/-- A handler moves on when it had the lock, or found it free. -/
theorem Exclusive.enter
    (h : Exclusive w)
    {i : Nat} {task : Task}
    (hi : w.tasks[i]? = some task)
    (phase : Phase)
    (hguarded : phase.guarded = true → phase = .operating)
    (hlocked :
      phase.locked = true → task.phase.locked = true ∨ lockFree w.tasks task.name = true) :
    Exclusive (w.enter i task phase) := by
  have hmem : task ∈ w.tasks := List.mem_of_getElem? hi
  refine ⟨fun other hother => ?_, fun other hother => ?_, fun name => ?_⟩
  · rcases List.mem_or_eq_of_mem_set hother with hold | rfl
    · exact h.spelled other hold
    · exact h.spelled task hmem
  · rcases List.mem_or_eq_of_mem_set hother with hold | rfl
    · exact h.operating other hold
    · exact hguarded
  · have hle := h.locked name
    rw [countP_locks_enter hi]
    by_cases hafter : locks name { task with phase } = true
    · have hboth : phase.locked = true ∧ task.name = name := by
        simpa [locks] using hafter
      rcases hlocked hboth.1 with hbefore | hfree
      · have hheld : locks name task = true := by
          simp [locks, hbefore, hboth.2]
        rw [if_pos hheld, if_pos hafter]
        omega
      · rw [hboth.2] at hfree
        rw [countP_locks_of_lockFree hfree, if_pos hafter]
        omega
    · rw [if_neg hafter]
      omega

/-- A guard that a handler drops is the last one of its agent. -/
theorem Exclusive.dropsLast
    (h : Exclusive w)
    (a : Label) :
    DropsLast w a := by
  cases a with
  | advance i =>
      intro task hi hdrops
      rw [Option.mem_def] at hi
      have hmem : task ∈ w.tasks := List.mem_of_getElem? hi
      have hguarded : task.phase.guarded = true := by
        rcases hdrops with hphase | hphase <;> rw [hphase] <;> rfl
      have hpos : 0 < alive w (normalizeName task.name) :=
        alive_pos hi (by simp [guards, hguarded])
      have hle : alive w (normalizeName task.name) ≤
          w.tasks.countP (locks (normalizeName task.name)) := by
        refine List.countP_mono_left fun other hother hguards => ?_
        simp only [guards, Bool.and_eq_true, decide_eq_true_eq] at hguards
        have hphase := h.operating other hother hguards.1
        have hname := h.spelled other hother
        rw [hguards.2] at hname
        simp [locks, hphase, Phase.locked, hname]
      have hone := h.locked (normalizeName task.name)
      omega
  | start => trivial
  | giveUp => trivial
  | pollCheck => trivial
  | pollSkip => trivial
  | pollRepair => trivial

theorem Exclusive.advance
    (h : Exclusive w)
    {i : Nat} {task : Task}
    (hi : w.tasks[i]? = some task)
    (hstep : PublishedOperations.advance w i task = some t) :
    Exclusive t := by
  have hoperating := h.operating task (List.mem_of_getElem? hi)
  rw [PublishedOperations.advance] at hstep
  cases hphase : task.phase with
  | waiting =>
      simp only [hphase] at hstep
      split at hstep
      · rename_i hfree
        cases hstep
        exact h.enter hi .holding (nomatch ·) fun _ => Or.inr hfree
      · cases hstep
  | holding =>
      simp only [hphase] at hstep
      cases hstep
      exact { h.enter hi .operating (fun _ => rfl)
        (fun _ => Or.inl (by rw [hphase]; rfl)) with }
  | operating =>
      simp only [hphase] at hstep
      cases hstep
      exact { h.enter hi .settled (nomatch ·)
        (fun _ => Or.inl (by rw [hphase]; rfl)) with }
  | settled =>
      simp only [hphase] at hstep
      cases hstep
      exact h.enter hi .done (nomatch ·) (nomatch ·)
  | queued =>
      rw [hphase] at hoperating
      cases hoperating rfl
  | repairing =>
      rw [hphase] at hoperating
      cases hoperating rfl
  | unlocked =>
      rw [hphase] at hoperating
      cases hoperating rfl
  | done =>
      simp only [hphase] at hstep
      cases hstep

theorem Exclusive.step
    (h : Exclusive w)
    {a : Label}
    (hok : HandlersOnly w a)
    (hstep : PublishedOperations.step w a = some t) :
    Exclusive t := by
  cases a with
  | start name operation =>
      cases hstep
      refine ⟨fun task htask => ?_, fun task htask => ?_, fun other => ?_⟩
      · rcases List.mem_append.1 htask with hold | hnew
        · exact h.spelled task hold
        · rw [List.mem_singleton.1 hnew]
          exact hok
      · rcases List.mem_append.1 htask with hold | hnew
        · exact h.operating task hold
        · rw [List.mem_singleton.1 hnew]
          exact (nomatch ·)
      · rw [List.countP_append]
        exact h.locked other
  | advance i =>
      obtain ⟨task, hi, hadvance⟩ := Option.bind_eq_some_iff.1 hstep
      exact h.advance hi hadvance
  | giveUp i =>
      obtain ⟨task, hi, hgive⟩ := Option.bind_eq_some_iff.1 hstep
      split at hgive
      · cases hgive
        exact h.enter hi .done (nomatch ·) (nomatch ·)
      · cases hgive
  | pollCheck name =>
      simp only [PublishedOperations.step] at hstep
      split at hstep
      · cases hstep
        exact { h with }
      · cases hstep
  | pollSkip =>
      cases hstep
      exact { h with }
  | pollRepair => exact hok.elim

/-- Without repairs the lock keeps the guards of an agent apart, and the table always has
an entry of an agent exactly while one of its guards is alive. -/
theorem visible_without_repair
    (h : machine.Reaches HandlersOnly w) :
    Visible w := by
  have hboth : Exclusive w ∧ Visible w := by
    refine h.invariant (I := fun w => Exclusive w ∧ Visible w) ?_ ?_
    · rintro s rfl
      refine ⟨⟨?_, ?_, ?_⟩, visible_initial⟩ <;> simp [initial]
    · rintro s a t ⟨hexclusive, hvisible⟩ hok hstep
      exact ⟨hexclusive.step hok hstep,
        (visible_step_iff hvisible hstep).2 (hexclusive.dropsLast a)⟩
  exact hboth.2

theorem restarting_visible :
    Visible (machine.runTo initial [.start "scout" .restarting, .advance 0, .advance 0]) := by
  have hname : normalizeName "scout" = "scout" := by decide
  exact visible_without_repair ((Machine.Reaches.start rfl).runTo _
    ⟨hname, fun _ _ => ⟨trivial, fun _ _ => ⟨trivial, fun _ _ => trivial⟩⟩⟩ (by decide))

/-- On a run the table has an entry of each agent exactly while one of its guards is
alive, after every step, if and only if no step of the run drops a guard while another
guard of the agent is alive. -/
theorem operations_visible_iff (run : List Label) :
    machine.Admits (fun w a => ∀ t ∈ machine.step w a, Visible t) initial run ↔
      machine.Admits DropsLast initial run :=
  machine.admits_iff_invariant (fun _ _ _ h hstep => visible_step_iff h hstep)
    (fun _ _ _ hstep => dropsLast_of_stuck hstep) run visible_initial

/-- The poll finds a drifted sidecar while nothing is published, a restart takes the lock
and publishes, the poll publishes its repair, and the restart ends. -/
def overlapped : List Label :=
  [.pollCheck "scout", .start "scout" .restarting, .advance 0, .advance 0, .pollRepair,
    .advance 0]

/-- The repair's guard is alive and the table has no entry of the agent. -/
theorem operations_not_visible :
    ∃ w, machine.Reaches Machine.always w ∧ 0 < alive w "scout" ∧ "scout" ∉ w.operations := by
  refine ⟨machine.runTo initial overlapped, ?_, by decide, by decide⟩
  exact (Machine.Reaches.start rfl).runTo overlapped (machine.admits_always _ _) (by decide)

end Runs

end PublishedOperations
end Vestad
end Vesta
