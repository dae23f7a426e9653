import Mathlib.Logic.Function.Basic
import Vesta.Lib.Machine
import Vesta.Lib.Text

/-!
# Requests of a client for its agents

A client holds one state for each agent name while one of its own requests is in
flight, and ignores a second submit in the meantime.  The state also ends when
someone clears or sets it, and when the roster no longer has the name.  The
action goes on then, and its end still clears the state of its name.

`World` holds the states by name and the runs by the order they began in.
`SingleFlight` and `struck` are what the requests promise, and `single_flight_iff`
says that they keep it on exactly the runs in which no submit finds an idle state
while an action of the same agent runs.
-/

namespace Vesta
namespace Core
namespace AgentRequests

open Lib

/-! ## The states -/

inductive AgentRequest
  | idle
  | stopping
  | starting
  | authenticating
  | deleting
  | backingUp
  | restoring
deriving DecidableEq, Repr

structure AgentRequestState where
  request : AgentRequest
  error : Text
deriving DecidableEq, Repr

def idleRequest : AgentRequestState where
  request := .idle
  error := []

/-- A run that was not ignored. -/
structure Run where
  name : Text
  fallback : Text
  running : Bool
deriving DecidableEq, Repr

/-- `owner` is the run whose state a name has, and `struck` lists the completions that cleared or
overwrote the state of a later run. -/
structure World where
  states : Text → Option AgentRequestState
  runs : List Run
  owner : Text → Option Nat
  struck : List (Nat × Nat)

/-- An action ends, or it is rejected with the message of its error. -/
inductive Outcome
  | done
  | rejected (message : Text)
deriving DecidableEq, Repr

inductive Label
  | run (name : Text) (request : AgentRequest) (fallback : Text)
  | complete (run : Nat) (outcome : Outcome)
  | set (name : Text) (request : AgentRequest) (error : Text)
  | clear (name : Text)
  | reconcile (names : List Text)
deriving DecidableEq, Repr

namespace World

def get (w : World) (name : Text) : AgentRequestState :=
  (w.states name).getD idleRequest

/-- The state that a name has, and the run that it is of. -/
def put (w : World) (name : Text) (state : Option AgentRequestState) (owner : Option Nat) : World :=
  { w with
    states := Function.update w.states name state
    owner := Function.update w.owner name owner }

def set (w : World) (name : Text) (request : AgentRequest) (error : Text) (owner : Option Nat) :
    World :=
  w.put name (some ⟨request, error⟩) owner

def clear (w : World) (name : Text) : World :=
  w.put name none none

/-- The names that the roster does not have lose their state. -/
def reconcile (w : World) (names : List Text) : World :=
  { w with
    states := fun name => if names.contains name then w.states name else none
    owner := fun name => if names.contains name then w.owner name else none }

/-- A submit begins its action when no request is in flight. -/
def run (w : World) (name : Text) (request : AgentRequest) (fallback : Text) : World :=
  if (w.get name).request ≠ .idle then w
  else
    { w.set name request [] (some w.runs.length) with
      runs := w.runs ++ [⟨name, fallback, true⟩] }

/-- The action of a run is over. -/
def stop (w : World) (k : Nat) (run : Run) : World :=
  { w with
    runs := w.runs.set k { run with running := false }
    struck :=
      match w.owner run.name with
      | some owner => if k < owner then w.struck ++ [(k, owner)] else w.struck
      | none => w.struck }

def complete (w : World) (k : Nat) (run : Run) : Outcome → World
  | .done => (w.stop k run).clear run.name
  | .rejected message =>
      (w.stop k run).set run.name .idle (if message.isEmpty then run.fallback else message) (some k)

end World

def step (w : World) : Label → Option World
  | .run name request fallback => some (w.run name request fallback)
  | .complete k outcome =>
      match w.runs[k]? with
      | some run => if run.running then some (w.complete k run outcome) else none
      | none => none
  | .set name request error => some (w.set name request error none)
  | .clear name => some (w.clear name)
  | .reconcile names => some (w.reconcile names)

def initial : World where
  states := fun _ => none
  runs := []
  owner := fun _ => none
  struck := []

def machine : Machine World Label where
  start w := w = initial
  step := step

/-! ## What the requests promise -/

/-- The k-th run is under way for the agent. -/
def Busy (w : World) (name : Text) (k : Nat) : Prop :=
  ∃ run, w.runs[k]? = some run ∧ run.name = name ∧ run.running = true

/-- At most one action runs for an agent. -/
def SingleFlight (w : World) : Prop :=
  ∀ name i j, Busy w name i → Busy w name j → i = j

def isBusy (w : World) (name : Text) : Bool :=
  w.runs.any fun run => run.name == name && run.running

/-- A submit that finds an idle state finds no action of its agent. -/
def Fits (w : World) : Label → Prop
  | .run name _ _ => isBusy w name = true → (w.get name).request ≠ .idle
  | _ => True

instance (w : World) : DecidablePred (Fits w)
  | .run name _ _ =>
      inferInstanceAs (Decidable (isBusy w name = true → (w.get name).request ≠ .idle))
  | .complete _ _ => isTrue trivial
  | .set _ _ _ => isTrue trivial
  | .clear _ => isTrue trivial
  | .reconcile _ => isTrue trivial

/-! ## Runs -/

section Kept

variable {w next : World}
variable {name : Text}

theorem isBusy_iff :
    isBusy w name = true ↔ ∃ k, Busy w name k := by
  constructor
  · intro h
    obtain ⟨run, hmem, hrun⟩ := List.any_eq_true.1 h
    rw [Bool.and_eq_true, beq_iff_eq] at hrun
    obtain ⟨k, hk⟩ := List.mem_iff_getElem?.1 hmem
    exact ⟨k, run, hk, hrun⟩
  · rintro ⟨k, run, hk, hname, hrunning⟩
    exact List.any_eq_true.2 ⟨run, List.mem_of_getElem? hk, by simp [hname, hrunning]⟩

/-- A run under way is the last of its agent, and the owner of a state is a run of its name. -/
structure Kept (w : World) : Prop where
  latest :
    ∀ name k j run, Busy w name k → w.runs[j]? = some run → run.name = name → j ≤ k
  owned : ∀ name owner, w.owner name = some owner →
    ∃ run, w.runs[owner]? = some run ∧ run.name = name

theorem Kept.singleFlight
    (h : Kept w) :
    SingleFlight w := by
  intro name i j hi hj
  have hji := h.latest name i j _ hi hj.choose_spec.1 hj.choose_spec.2.1
  have hij := h.latest name j i _ hj hi.choose_spec.1 hi.choose_spec.2.1
  omega

/-- Whoever writes a state leaves the runs. -/
theorem Kept.put
    (h : Kept w)
    (name : Text)
    (state : Option AgentRequestState)
    {owner : Option Nat}
    (howner :
      ∀ k, owner = some k → ∃ run, w.runs[k]? = some run ∧ run.name = name) :
    Kept (w.put name state owner) where
  latest := h.latest
  owned := by
    intro other k hk
    rcases eq_or_ne other name with rfl | hne
    · exact howner k (by simpa [World.put] using hk)
    · exact h.owned other k (by simpa [World.put, Function.update_of_ne hne] using hk)

theorem Kept.reconcile
    (h : Kept w)
    (names : List Text) :
    Kept (w.reconcile names) where
  latest := h.latest
  owned := by
    intro name k hk
    simp only [World.reconcile] at hk
    split at hk
    · exact h.owned name k hk
    · cases hk

/-- A run that ends is no longer under way, and the others stay as they are. -/
theorem busy_stop
    {k j : Nat} {run : Run}
    (hbusy : Busy (w.stop k run) name j) :
    Busy w name j := by
  obtain ⟨other, hother, hname, hrunning⟩ := hbusy
  rcases eq_or_ne k j with rfl | hne
  · rw [World.stop, List.getElem?_set_self'] at hother
    obtain ⟨before, hbefore, rfl⟩ := Option.map_eq_some_iff.1 hother
    cases hrunning
  · exact ⟨other, (List.getElem?_set_ne hne).symm.trans hother, hname, hrunning⟩

theorem runs_stop
    {k j : Nat} {run other : Run}
    (hk : w.runs[k]? = some run)
    (hother : (w.stop k run).runs[j]? = some other) :
    ∃ before, w.runs[j]? = some before ∧ before.name = other.name := by
  rcases eq_or_ne k j with rfl | hne
  · rw [World.stop, List.getElem?_set_self'] at hother
    obtain ⟨before, hbefore, rfl⟩ := Option.map_eq_some_iff.1 hother
    exact ⟨run, hk, rfl⟩
  · exact ⟨other, (List.getElem?_set_ne hne).symm.trans hother, rfl⟩

theorem runs_of_stop
    {k j : Nat} {run before : Run}
    (hk : w.runs[k]? = some run)
    (hbefore : w.runs[j]? = some before) :
    ∃ other, (w.stop k run).runs[j]? = some other ∧ other.name = before.name := by
  rcases eq_or_ne k j with rfl | hne
  · obtain rfl : run = before := Option.some.inj (hk.symm.trans hbefore)
    obtain ⟨hlt, -⟩ := List.getElem?_eq_some_iff.1 hk
    exact ⟨{ run with running := false }, by simp [World.stop, hlt], rfl⟩
  · exact ⟨before, (List.getElem?_set_ne hne).trans hbefore, rfl⟩

theorem Kept.stop
    (h : Kept w)
    {k : Nat} {run : Run}
    (hk : w.runs[k]? = some run) :
    Kept (w.stop k run) where
  latest := by
    intro name i j other hbusy hother hname
    obtain ⟨before, hbefore, hsame⟩ := runs_stop hk hother
    exact h.latest name i j before (busy_stop hbusy) hbefore (hsame.trans hname)
  owned := by
    intro name owner howner
    obtain ⟨before, hbefore, hname⟩ := h.owned name owner howner
    obtain ⟨other, hother, hsame⟩ := runs_of_stop hk hbefore
    exact ⟨other, hother, hsame.trans hname⟩

/-- The owner of a state is no later than a run that is under way. -/
theorem Kept.struck_stop
    (h : Kept w)
    {k : Nat} {run : Run}
    (hk : w.runs[k]? = some run)
    (hrunning : run.running = true) :
    (w.stop k run).struck = w.struck := by
  simp only [World.stop]
  split
  · next owner howner =>
      obtain ⟨other, hother, hname⟩ := h.owned run.name owner howner
      have hle := h.latest run.name k owner other ⟨run, hk, rfl, hrunning⟩ hother hname
      rw [if_neg (Nat.not_lt.2 hle)]
  · rfl

theorem Kept.complete
    (h : Kept w)
    {k : Nat} {run : Run}
    (hk : w.runs[k]? = some run)
    (hrunning : run.running = true)
    (outcome : Outcome) :
    Kept (w.complete k run outcome) ∧ (w.complete k run outcome).struck = w.struck := by
  have hstop := h.stop hk
  have hstruck := h.struck_stop hk hrunning
  cases outcome with
  | done => exact ⟨hstop.put _ _ (by simp), hstruck⟩
  | rejected message =>
      refine ⟨hstop.put _ _ ?_, hstruck⟩
      intro owner howner
      obtain rfl : k = owner := Option.some.inj howner
      exact runs_of_stop hk hk

/-- A submit that begins its action. -/
theorem run_of_idle
    {request : AgentRequest} {fallback : Text}
    (hidle : (w.get name).request = .idle) :
    w.run name request fallback =
      { w.set name request [] (some w.runs.length) with
        runs := w.runs ++ [⟨name, fallback, true⟩] } := by
  rw [World.run, if_neg (by simp [hidle])]

theorem run_of_busy
    {request : AgentRequest} {fallback : Text}
    (hbusy : (w.get name).request ≠ .idle) :
    w.run name request fallback = w := by
  rw [World.run, if_pos hbusy]

/-- The runs before a submit are the runs before it still. -/
theorem busy_append
    {runs : List Run} {run : Run} {k : Nat}
    (hruns : next.runs = runs ++ [run])
    (hbusy : Busy next name k) :
    (k = runs.length ∧ run.name = name) ∨
      ∃ other, runs[k]? = some other ∧ other.name = name ∧ other.running = true := by
  obtain ⟨other, hother, hname, hrunning⟩ := hbusy
  rw [hruns, List.getElem?_append] at hother
  split at hother
  · exact Or.inr ⟨other, hother, hname, hrunning⟩
  · have hzero : k - runs.length = 0 := by
      obtain ⟨hlt, -⟩ := List.getElem?_eq_some_iff.1 hother
      simpa using hlt
    rw [hzero] at hother
    obtain rfl : run = other := by simpa using hother
    exact Or.inl ⟨by omega, hname⟩

theorem Kept.begin
    (h : Kept w)
    (request : AgentRequest)
    (fallback : Text)
    (hnone : ∀ k, ¬ Busy w name k) :
    Kept
      { w.set name request [] (some w.runs.length) with
        runs := w.runs ++ [⟨name, fallback, true⟩] } where
  latest := by
    intro other k j run hbusy hj hname
    have hlt : j < w.runs.length + 1 := by
      obtain ⟨hlt, -⟩ := List.getElem?_eq_some_iff.1 hj
      simpa using hlt
    rcases busy_append rfl hbusy with ⟨rfl, -⟩ | ⟨before, hbefore, hsame, hrunning⟩
    · omega
    · rcases Nat.lt_or_eq_of_le (Nat.le_of_lt_succ hlt) with hlt | rfl
      · rw [List.getElem?_append_left hlt] at hj
        exact h.latest other k j run ⟨before, hbefore, hsame, hrunning⟩ hj hname
      · -- the new run is of an agent that has no other under way
        have hnew : (⟨name, fallback, true⟩ : Run) = run := by simpa using hj
        have hagent : name = other := by rw [← hname, ← hnew]
        exact absurd ⟨before, hbefore, hsame.trans hagent.symm, hrunning⟩ (hnone k)
  owned := by
    intro other owner howner
    rcases eq_or_ne other name with rfl | hne
    · obtain rfl : w.runs.length = owner := by simpa [World.set, World.put] using howner
      exact ⟨⟨other, fallback, true⟩, by simp, rfl⟩
    · obtain ⟨run, hrun, hname⟩ := h.owned other owner
        (by simpa [World.set, World.put, Function.update_of_ne hne] using howner)
      exact ⟨run, List.getElem?_append_left (List.getElem?_eq_some_iff.1 hrun).1 ▸ hrun, hname⟩

/-- A submit that `Fits` admits begins only when no action of its agent runs. -/
theorem not_busy_of_fits
    {request : AgentRequest} {fallback : Text}
    (hfits : Fits w (.run name request fallback))
    (hidle : (w.get name).request = .idle)
    (k : Nat) :
    ¬ Busy w name k :=
  fun hbusy => hfits (isBusy_iff.2 ⟨k, hbusy⟩) hidle

theorem Kept.step
    (h : Kept w)
    {label : Label}
    (hfits : Fits w label)
    (hstep : step w label = some next) :
    Kept next ∧ next.struck = w.struck := by
  cases label with
  | run name request fallback =>
      cases hstep
      by_cases hidle : (w.get name).request = .idle
      · rw [run_of_idle hidle]
        exact ⟨h.begin request fallback (not_busy_of_fits hfits hidle), rfl⟩
      · rw [run_of_busy hidle]
        exact ⟨h, rfl⟩
  | complete k outcome =>
      simp only [AgentRequests.step] at hstep
      split at hstep
      · next run hk =>
          split at hstep
          · next hrunning =>
              cases hstep
              exact h.complete hk hrunning outcome
          · cases hstep
      · cases hstep
  | set name request error =>
      cases hstep
      exact ⟨h.put _ _ (by simp), rfl⟩
  | clear name =>
      cases hstep
      exact ⟨h.put _ _ (by simp), rfl⟩
  | reconcile names =>
      cases hstep
      exact ⟨h.reconcile names, rfl⟩

/-- A submit that begins beside an action of its agent. -/
theorem fits_of_singleFlight
    {request : AgentRequest} {fallback : Text}
    (hsingle : SingleFlight (w.run name request fallback)) :
    Fits w (.run name request fallback) := by
  intro hbusy hidle
  rw [run_of_idle hidle] at hsingle
  obtain ⟨k, run, hk, hname, hrunning⟩ := isBusy_iff.1 hbusy
  have hlt : k < w.runs.length := (List.getElem?_eq_some_iff.1 hk).1
  have heq := hsingle name k w.runs.length
    ⟨run, (List.getElem?_append_left hlt).trans hk, hname, hrunning⟩
    ⟨⟨name, fallback, true⟩, by simp, rfl, rfl⟩
  omega

theorem kept_initial :
    Kept initial := by
  constructor
  · rintro name k j run ⟨other, hother, -⟩
    simp [initial] at hother
  · intro name owner howner
    cases howner

end Kept

/-- One action runs for an agent at a time and no completion touches the state of a later run, on
exactly the runs in which no submit finds an idle state while an action of its agent runs. -/
theorem single_flight_iff (run : List Label) :
    machine.Admits (fun w label => ∀ t ∈ step w label, SingleFlight t ∧ t.struck = [])
        initial run ↔
      machine.Admits Fits initial run := by
  refine machine.admits_iff_while (J := Kept) ?_ ?_ ?_ run kept_initial
    ⟨kept_initial.singleFlight, rfl⟩
  · exact fun w label t hkept _ hfits hstep => (hkept.step hfits hstep).1
  · intro w label t hkept hpromise hstep
    constructor
    · rintro ⟨hsingle, -⟩
      cases label with
      | run name request fallback =>
          cases hstep
          exact fits_of_singleFlight hsingle
      | _ => trivial
    · intro hfits
      obtain ⟨hnext, hstruck⟩ := hkept.step hfits hstep
      exact ⟨hnext.singleFlight, hstruck.trans hpromise.2⟩
  · intro w label _ _ hstep
    cases label with
    | run name request fallback => cases hstep
    | _ => trivial

/-- The agent leaves the roster while a request runs, and another is submitted for its name. -/
def recreated : List Label :=
  [.run "ada".toList .restoring [], .reconcile [], .run "ada".toList .starting [],
    .complete 0 .done]

/-- Both actions run, and the end of the first clears the state of the second. -/
theorem recreated_runs_overlap :
    (∃ w, machine.Reaches Machine.always w ∧ ¬ SingleFlight w) ∧
      ∃ w, machine.Reaches Machine.always w ∧ w.struck = [(0, 1)] := by
  have hstart : machine.Reaches Machine.always initial := .start rfl
  refine ⟨⟨machine.runTo initial (recreated.take 3),
    hstart.runTo _ (Machine.admits_always _ _ _) (by decide +kernel), ?_⟩,
    ⟨machine.runTo initial recreated,
      hstart.runTo _ (Machine.admits_always _ _ _) (by decide +kernel), by decide +kernel⟩⟩
  intro hsingle
  have heq := hsingle "ada".toList 0 1
    ⟨⟨"ada".toList, [], true⟩, by decide +kernel⟩ ⟨⟨"ada".toList, [], true⟩, by decide +kernel⟩
  cases heq

end AgentRequests
end Core
end Vesta
