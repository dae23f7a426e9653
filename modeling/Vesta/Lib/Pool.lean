import Vesta.Lib.Machine
import Vesta.Lib.Map
import Vesta.Lib.Program

/-!
# Pools of effect programs

A pool is a world and the tasks in progress on it, each the rest of a program.
A step starts a task, answers the next request of one task, or kills a task
where it stands.  An operation starts only when it `may`, so that one that needs
a lock throughout waits for the tasks that exclude it, and a request the world is
not `ready` for blocks its task.  So the runs of a pool are all the interleavings
of its tasks, request by request, and killing every task is a crash of the
process that ran them.

`Pool.Reaches.invariant` is the proof rule for such interleavings.  It asks for
an assertion about the world, one about each task against the world and one
about each pair of tasks, and for three facts: a new task meets its assertions,
a task that is answered keeps all three, and it does not disturb the assertion
of another task.
-/

namespace Vesta
namespace Lib

/-- A world and the tasks in progress on it. -/
structure Pool {C : Type} (R : C → Type) (E α W : Type) where
  world : W
  tasks : Map Nat (Prog R E α)

/-- What happens next: a task starts, is answered, or dies. -/
inductive PoolLabel (ι T : Type)
  | spawn (id : Nat) (op : ι)
  | step (id : Nat) (tick : T)
  | kill (id : Nat)

namespace Pool

variable {C : Type} {R : C → Type} {E α W T ι : Type}

def step
    (may : Pool R E α W → ι → Bool) (ready : W → C → Bool)
    (exec : Answers R W T) (prog : ι → Prog R E α)
    (s : Pool R E α W) :
    PoolLabel ι T → Option (Pool R E α W)
  | .spawn id op =>
      if id ∉ s.tasks ∧ may s op = true then
        some { s with tasks := s.tasks.insert id (prog op) }
      else
        none
  | .step id tick =>
      match s.tasks[id]? with
      | some (.call c k) =>
          let answer := exec s.world c tick
          if ready s.world c then
            some { world := answer.2, tasks := s.tasks.insert id (k answer.1) }
          else
            none
      | _ => none
  | .kill id => some { s with tasks := s.tasks.erase id }

/-- The pool as a machine, started without tasks. -/
def machine
    (init : W → Prop) (may : Pool R E α W → ι → Bool) (ready : W → C → Bool)
    (exec : Answers R W T) (prog : ι → Prog R E α) :
    Machine (Pool R E α W) (PoolLabel ι T) where
  start s := init s.world ∧ s.tasks = ∅
  step := step may ready exec prog

section Steps

variable (may : Pool R E α W → ι → Bool) (ready : W → C → Bool)
variable (exec : Answers R W T) (prog : ι → Prog R E α)

theorem step_spawn
    {s t : Pool R E α W} {id : Nat} {op : ι}
    (h : step may ready exec prog s (.spawn id op) = some t) :
    may s op = true ∧ t = { s with tasks := s.tasks.insert id (prog op) } := by
  rw [step] at h
  split at h
  · rename_i hid
    exact ⟨hid.2, (Option.some.inj h).symm⟩
  · cases h

theorem step_step
    {s t : Pool R E α W} {id : Nat} {tick : T}
    (h : step may ready exec prog s (.step id tick) = some t) :
    ∃ c k, s.tasks[id]? = some (.call c k) ∧ ready s.world c = true ∧
      t = { world := (exec s.world c tick).2
            tasks := s.tasks.insert id (k (exec s.world c tick).1) } := by
  rw [step] at h
  split at h
  · rename_i c k hp
    dsimp only at h
    split at h
    · rename_i hready
      exact ⟨c, k, hp, hready, (Option.some.inj h).symm⟩
    · cases h
  · cases h

end Steps

/-- What holds of the world, of every task against it and of every two tasks. -/
structure Holds
    (J : W → Prop) (A : Prog R E α → W → Prop) (B : Prog R E α → Prog R E α → Prop)
    (s : Pool R E α W) : Prop where
  world : J s.world
  task : ∀ (id : Nat) (p : Prog R E α), s.tasks[id]? = some p → A p s.world
  pair :
    ∀ (i j : Nat) (p q : Prog R E α),
      i ≠ j → s.tasks[i]? = some p → s.tasks[j]? = some q → B p q

theorem Holds.spawn
    {J : W → Prop} {A : Prog R E α → W → Prop} {B : Prog R E α → Prog R E α → Prop}
    {s : Pool R E α W}
    (hs : Holds J A B s)
    (hsymm : ∀ p q, B p q → B q p)
    {p : Prog R E α}
    (htask : A p s.world)
    (hpair : ∀ (j : Nat) q, s.tasks[j]? = some q → B p q)
    (id : Nat) :
    Holds J A B { s with tasks := s.tasks.insert id p } := by
  have hlookup :
      ∀ (j : Nat) q, (s.tasks.insert id p)[j]? = some q →
        j = id ∧ q = p ∨ j ≠ id ∧ s.tasks[j]? = some q := by
    intro j q hq
    by_cases hj : id = j
    · subst hj
      exact .inl ⟨rfl, by simpa using hq.symm⟩
    · exact .inr ⟨fun h => hj h.symm, by simpa [Std.ExtTreeMap.getElem?_insert, hj] using hq⟩
  refine ⟨hs.world, ?_, ?_⟩
  · intro j q hq
    rcases hlookup j q hq with ⟨-, rfl⟩ | ⟨-, hq⟩
    · exact htask
    · exact hs.task j q hq
  · intro i j q r hij hq hr
    rcases hlookup i q hq with ⟨hi, hqp⟩ | ⟨-, hqi⟩
    · rcases hlookup j r hr with ⟨hj, -⟩ | ⟨-, hrj⟩
      · exact absurd (hi.trans hj.symm) hij
      · exact hqp ▸ hpair j r hrj
    · rcases hlookup j r hr with ⟨-, hrp⟩ | ⟨-, hrj⟩
      · exact hrp ▸ hsymm _ _ (hpair i q hqi)
      · exact hs.pair i j q r hij hqi hrj

/-- The rule for interleavings. -/
theorem Reaches.invariant
    {init : W → Prop} {may : Pool R E α W → ι → Bool} {ready : W → C → Bool}
    {exec : Answers R W T} {prog : ι → Prog R E α}
    {ok : Pool R E α W → PoolLabel ι T → Prop}
    {J : W → Prop} {A : Prog R E α → W → Prop} {B : Prog R E α → Prog R E α → Prop}
    (hinit : ∀ w, init w → J w)
    (hsymm : ∀ p q, B p q → B q p)
    (hspawn :
      ∀ (s : Pool R E α W) id op,
        Holds J A B s → ok s (.spawn id op) → may s op = true →
        A (prog op) s.world ∧ ∀ (j : Nat) q, s.tasks[j]? = some q → B (prog op) q)
    (hown :
      ∀ (s : Pool R E α W) id tick c k,
        Holds J A B s → ok s (.step id tick) →
        s.tasks[id]? = some (.call c k) → ready s.world c = true →
        J (exec s.world c tick).2 ∧
          A (k (exec s.world c tick).1) (exec s.world c tick).2 ∧
          ∀ (j : Nat) q, j ≠ id → s.tasks[j]? = some q → B (k (exec s.world c tick).1) q)
    (hother :
      ∀ (s : Pool R E α W) id tick c k j p,
        Holds J A B s → ok s (.step id tick) →
        s.tasks[id]? = some (.call c k) → ready s.world c = true →
        j ≠ id → s.tasks[j]? = some p →
        A p (exec s.world c tick).2)
    {s : Pool R E α W}
    (h : (machine init may ready exec prog).Reaches ok s) :
    Holds J A B s := by
  refine h.invariant (I := Holds J A B) ?_ ?_
  · rintro s ⟨hw, htasks⟩
    exact ⟨hinit _ hw, by simp [htasks], by simp [htasks]⟩
  · intro s label t hs hok hstep
    cases label with
    | spawn id op =>
        obtain ⟨hmay, rfl⟩ := step_spawn may ready exec prog hstep
        obtain ⟨htask, hpair⟩ := hspawn s id op hs hok hmay
        exact hs.spawn hsymm htask hpair id
    | step id tick =>
        obtain ⟨c, k, hp, hready, rfl⟩ := step_step may ready exec prog hstep
        obtain ⟨hworld, htask, hpair⟩ := hown s id tick c k hs hok hp hready
        -- the other tasks as they stand, on the new world
        have hrest :
            Holds J A B { world := (exec s.world c tick).2, tasks := s.tasks.erase id } := by
          have hlookup :
              ∀ (j : Nat) q, (s.tasks.erase id)[j]? = some q → j ≠ id ∧ s.tasks[j]? = some q := by
            intro j q hq
            by_cases hj : id = j
            · subst hj
              simp at hq
            · exact ⟨fun h => hj h.symm,
                by simpa [Std.ExtTreeMap.getElem?_erase, hj] using hq⟩
          refine ⟨hworld, ?_, ?_⟩
          · intro j q hq
            obtain ⟨hj, hq⟩ := hlookup j q hq
            exact hother s id tick c k j q hs hok hp hready hj hq
          · intro i j q r hij hq hr
            exact hs.pair i j q r hij (hlookup i q hq).2 (hlookup j r hr).2
        have hinsert :
            (s.tasks.erase id).insert id (k (exec s.world c tick).1) =
              s.tasks.insert id (k (exec s.world c tick).1) := by
          apply Std.ExtTreeMap.ext_getElem?
          intro j
          by_cases hj : id = j
          · subst hj
            simp
          · simp [Std.ExtTreeMap.getElem?_insert, Std.ExtTreeMap.getElem?_erase, hj]
        rw [← hinsert]
        refine hrest.spawn hsymm htask ?_ id
        intro j q hq
        by_cases hj : id = j
        · subst hj
          simp at hq
        · exact hpair j q (fun h => hj h.symm)
            (by simpa [Std.ExtTreeMap.getElem?_erase, hj] using hq)
    | kill id =>
        cases hstep
        have hlookup :
            ∀ (j : Nat) q, (s.tasks.erase id)[j]? = some q → s.tasks[j]? = some q := by
          intro j q hq
          rw [Std.ExtTreeMap.getElem?_erase] at hq
          split at hq
          · cases hq
          · exact hq
        exact ⟨hs.world, fun j q hq => hs.task j q (hlookup j q hq),
          fun i j q r hij hq hr => hs.pair i j q r hij (hlookup i q hq) (hlookup j r hr)⟩

end Pool

end Lib
end Vesta
