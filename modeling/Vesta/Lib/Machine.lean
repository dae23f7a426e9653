import Mathlib.Logic.Relation

/-!
# Labelled machines, guarded runs and their invariants

A machine is a partial step function on states.  Every choice the environment
makes (which party moves, whether a call fails, what a clock reads) is part of
the label, so one label in one state has at most one successor and a run on a
concrete list of labels can be computed.

A run is *guarded* by `ok` when each of its steps is taken in a state and with
a label that `ok` admits.  The unguarded runs are the runs guarded by the
condition that always holds.  `Reaches.invariant` is the one induction over
runs: what holds at the start and is kept by every admitted step holds in every
state a guarded run reaches.
-/

namespace Vesta
namespace Lib

universe u v

/-- A machine: which states a run may start in, and the step a label takes. -/
structure Machine (σ : Type u) (α : Type v) where
  start : σ → Prop
  step : σ → α → Option σ

namespace Machine

variable {σ : Type u} {α : Type v}
variable (M : Machine σ α)

/-- The guard every step meets. -/
def always (_ : σ) (_ : α) : Prop := True

/-- States reached by runs all of whose steps meet `ok`. -/
inductive Reaches (ok : σ → α → Prop) : σ → Prop
  | start {s : σ} :
      M.start s →
      Reaches ok s
  | step {s t : σ} {a : α} :
      Reaches ok s →
      ok s a →
      M.step s a = some t →
      Reaches ok t

/-- The run a list of labels takes, when every label is enabled in turn. -/
def exec : σ → List α → Option σ
  | s, [] => some s
  | s, a :: as =>
      match M.step s a with
      | none => none
      | some t => exec t as

@[simp] theorem exec_nil (s : σ) : M.exec s [] = some s := rfl

/-- Where the run a list of labels takes ends, when every label is enabled. -/
def runTo (s : σ) (as : List α) : σ := (M.exec s as).getD s

theorem exec_runTo
    {s : σ} {as : List α}
    (h : (M.exec s as).isSome = true) :
    M.exec s as = some (M.runTo s as) := by
  obtain ⟨t, ht⟩ := Option.isSome_iff_exists.1 h
  rw [runTo, ht]
  rfl

theorem exec_cons
    {s t : σ} {a : α}
    (hstep : M.step s a = some t)
    (as : List α) :
    M.exec s (a :: as) = M.exec t as := by
  simp [exec, hstep]

/-- What every step keeps holds after a run. -/
theorem exec_invariant
    {I : σ → Prop}
    (hstep : ∀ s a t, I s → M.step s a = some t → I t)
    {s t : σ} {as : List α}
    (h : I s)
    (hrun : M.exec s as = some t) :
    I t := by
  induction as generalizing s with
  | nil =>
      have hst : s = t := by simpa using hrun
      exact hst ▸ h
  | cons a as ih =>
      cases hs : M.step s a with
      | none => simp [exec, hs] at hrun
      | some s' =>
          rw [exec_cons M hs] at hrun
          exact ih (hstep s a s' h hs) hrun

/-- The labels of a run, each met by the guard in the state it is taken in. -/
def Admits (ok : σ → α → Prop) : σ → List α → Prop
  | _, [] => True
  | s, a :: as => ok s a ∧ ∀ t ∈ M.step s a, Admits ok t as

instance decidableAdmits
    (ok : σ → α → Prop) [∀ s a, Decidable (ok s a)] :
    ∀ (as : List α) (s : σ), Decidable (M.Admits ok s as)
  | [], _ => isTrue trivial
  | a :: as, s =>
      have := decidableAdmits ok as
      inferInstanceAs (Decidable (ok s a ∧ ∀ t ∈ M.step s a, M.Admits ok t as))

theorem admits_always (s : σ) (as : List α) :
    M.Admits always s as := by
  induction as generalizing s with
  | nil => trivial
  | cons a as ih => exact ⟨trivial, fun t _ => ih t⟩

/-- Let `J` hold as long as the guard admits the steps.  Two guards that agree on the states of
`J` admit the same runs. -/
theorem admits_congr
    {ok ok' : σ → α → Prop} {J : σ → Prop}
    (hkeep : ∀ s a t, J s → ok s a → M.step s a = some t → J t)
    (hiff : ∀ s a, J s → (ok' s a ↔ ok s a))
    (as : List α)
    {s : σ}
    (hJ : J s) :
    M.Admits ok' s as ↔ M.Admits ok s as := by
  induction as generalizing s with
  | nil => exact Iff.rfl
  | cons a as ih =>
      constructor
      · rintro ⟨hok', hrest⟩
        have hok := (hiff s a hJ).1 hok'
        exact ⟨hok, fun t ht => (ih (hkeep s a t hJ hok ht)).1 (hrest t ht)⟩
      · rintro ⟨hok, hrest⟩
        exact ⟨(hiff s a hJ).2 hok, fun t ht => (ih (hkeep s a t hJ hok ht)).2 (hrest t ht)⟩

/-- Let `J` hold as long as the guard admits the steps.  When a step from `J` keeps `I` exactly
if the guard admits it, the runs on which `I` always holds are the runs the guard admits. -/
theorem admits_iff_while
    {ok : σ → α → Prop} {I J : σ → Prop}
    (hkeep : ∀ s a t, J s → I s → ok s a → M.step s a = some t → J t)
    (hstep : ∀ s a t, J s → I s → M.step s a = some t → (I t ↔ ok s a))
    (hstuck : ∀ s a, J s → I s → M.step s a = none → ok s a)
    (as : List α)
    {s : σ}
    (hJ : J s)
    (hI : I s) :
    M.Admits (fun s a => ∀ t ∈ M.step s a, I t) s as ↔ M.Admits ok s as := by
  refine M.admits_congr (J := fun s => J s ∧ I s) ?_ ?_ as ⟨hJ, hI⟩
  · rintro s a t ⟨hJ, hI⟩ hok ht
    exact ⟨hkeep s a t hJ hI hok ht, (hstep s a t hJ hI ht).2 hok⟩
  · rintro s a ⟨hJ, hI⟩
    cases hs : M.step s a with
    | none => simp [hstuck s a hJ hI hs]
    | some t => simpa using hstep s a t hJ hI hs

/-- Let `J` hold along every run.  When a step from `J` keeps `I` exactly if the guard admits
it, the runs on which `I` always holds are the runs the guard admits. -/
theorem admits_iff_within
    {ok : σ → α → Prop} {I J : σ → Prop}
    (hkeep : ∀ s a t, J s → M.step s a = some t → J t)
    (hstep : ∀ s a t, J s → I s → M.step s a = some t → (I t ↔ ok s a))
    (hstuck : ∀ s a, J s → I s → M.step s a = none → ok s a)
    (as : List α)
    {s : σ}
    (hJ : J s)
    (hI : I s) :
    M.Admits (fun s a => ∀ t ∈ M.step s a, I t) s as ↔ M.Admits ok s as :=
  M.admits_iff_while (fun s a t hJ _ _ => hkeep s a t hJ) hstep hstuck as hJ hI

/-- When a step keeps an invariant exactly if the guard admits it, the runs on which the
invariant always holds are the runs the guard admits. -/
theorem admits_iff_invariant
    {ok : σ → α → Prop} {I : σ → Prop}
    (hstep : ∀ s a t, I s → M.step s a = some t → (I t ↔ ok s a))
    (hstuck : ∀ s a, I s → M.step s a = none → ok s a)
    (as : List α)
    {s : σ}
    (h : I s) :
    M.Admits (fun s a => ∀ t ∈ M.step s a, I t) s as ↔ M.Admits ok s as :=
  M.admits_iff_within (J := fun _ => True) (fun _ _ _ _ _ => trivial)
    (fun s a t _ => hstep s a t) (fun s a _ => hstuck s a) as trivial h

variable {M}

/-- What holds at the start and is kept by admitted steps holds along guarded runs. -/
theorem Reaches.invariant
    {ok : σ → α → Prop} {I : σ → Prop}
    (hstart : ∀ s, M.start s → I s)
    (hstep : ∀ s a t, I s → ok s a → M.step s a = some t → I t)
    {s : σ}
    (h : M.Reaches ok s) :
    I s := by
  induction h with
  | start h0 => exact hstart _ h0
  | step _ hok hs ih => exact hstep _ _ _ ih hok hs

/-- A computed run whose labels are admitted extends a guarded run. -/
theorem Reaches.exec
    {ok : σ → α → Prop}
    {s t : σ} {as : List α}
    (h : M.Reaches ok s)
    (hadm : M.Admits ok s as)
    (hrun : M.exec s as = some t) :
    M.Reaches ok t := by
  induction as generalizing s with
  | nil =>
      have hst : s = t := by simpa using hrun
      exact hst ▸ h
  | cons a as ih =>
      cases hs : M.step s a with
      | none => simp [Machine.exec, hs] at hrun
      | some s' =>
          rw [exec_cons M hs] at hrun
          exact ih (.step h hadm.1 hs) (hadm.2 s' hs) hrun

/-- The end of a computed run whose labels are admitted is reached. -/
theorem Reaches.runTo
    {ok : σ → α → Prop}
    {s : σ}
    (h : M.Reaches ok s)
    (as : List α)
    (hadm : M.Admits ok s as)
    (hrun : (M.exec s as).isSome = true) :
    M.Reaches ok (M.runTo s as) :=
  h.exec hadm (exec_runTo M hrun)

end Machine

end Lib
end Vesta
