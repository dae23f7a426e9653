import Mathlib.Logic.Basic
import Mathlib.Data.List.Basic

/-!
# Fallible effect programs that may be cut at any call

A program is a tree of requests to the outside world.  A request `c : C` is
answered by a value of type `R c`, and the program goes on from the answer; it
ends with a value or with an error, and an error ends every program it is
sequenced into, as the `?` of a fallible function does.

The world `W` answers a request through a *tick* `T`, which resolves every
choice the environment makes at that point.  `run` feeds a list of ticks to a
program.  When the ticks run out before the program ends, the process died just
before its next request: the world stays as it is and nothing is returned.  So
the runs on all lists of ticks are the runs cut at every point, crossed with
every failure of every request.

`wp` is the weakest precondition of a program for an assertion that must hold
wherever it is cut and one that must hold where it returns, both relative to a
guard on the requests that are answered and on the places it is cut at.
-/

namespace Vesta
namespace Lib

universe u

/-- What ends well after a fallible computation had it end well. -/
theorem ok_of_bind
    {E α β : Type} {x : Except E α} {f : α → Except E β} {b : β}
    (h : (x >>= f) = .ok b) :
    ∃ a, x = .ok a ∧ f a = .ok b := by
  cases x with
  | error error => cases h
  | ok a => exact ⟨a, rfl, h⟩

/-- A fallible program over requests `C` with answers `R`, errors `E` and value `α`. -/
inductive Prog {C : Type} (R : C → Type) (E α : Type)
  | ret (r : Except E α)
  | call (c : C) (k : R c → Prog R E α)

namespace Prog

variable {C : Type} {R : C → Type} {E α β γ : Type}

/-- Sequencing: a returned value goes on, an error ends the whole program. -/
def bind (f : α → Prog R E β) : Prog R E α → Prog R E β
  | ret (.ok a) => f a
  | ret (.error e) => ret (.error e)
  | call c k => call c (fun r => bind f (k r))

instance : Monad (Prog R E) where
  pure a := ret (.ok a)
  bind p f := bind f p

/-- End with an error. -/
def fail (e : E) : Prog R E α := ret (.error e)

/-- One request, whose answer is the value. -/
def request (c : C) : Prog R E (R c) := call c (fun r => ret (.ok r))

/-- Run a program and hand its result on instead of failing with it. -/
def attempt : Prog R E α → Prog R E (Except E α)
  | ret r => ret (.ok r)
  | call c k => call c (fun r => attempt (k r))

/-- Run the body on each item in turn, stopping at the first error. -/
def forEach (f : α → Prog R E Unit) : List α → Prog R E Unit
  | [] => ret (.ok ())
  | a :: as => bind (fun _ => forEach f as) (f a)

/-- The request a program makes next. -/
def next : Prog R E α → Option C
  | ret _ => none
  | call c _ => some c

/-- Whatever the answers, every request after the first is related by `P` to the request
before it and its answer. -/
def Consecutive (P : (c : C) → R c → C → Prop) : Prog R E α → Prop
  | ret _ => True
  | call c k => ∀ r, (∀ c' ∈ (k r).next, P c r c') ∧ Consecutive P (k r)

/-- A sequence has consecutive requests when both halves have and the second may start after
any answer. -/
theorem consecutive_bind
    {P : (c : C) → R c → C → Prop}
    {p : Prog R E α} {f : α → Prog R E β}
    (hp : Consecutive P p)
    (hf : ∀ a, Consecutive P (f a))
    (hjoin : ∀ a, ∀ c' ∈ (f a).next, ∀ c r, P c r c') :
    Consecutive P (p >>= f) := by
  induction p with
  | ret r =>
      cases r with
      | ok a => exact hf a
      | error e => trivial
  | call c k ih =>
      intro r
      refine ⟨?_, ih r (hp r).2⟩
      intro c' hc'
      cases hk : k r with
      | ret x =>
          change c' ∈ (bind f (k r)).next at hc'
          rw [hk] at hc'
          cases x with
          | ok a => exact hjoin a c' hc' c r
          | error e => cases hc'
      | call d l =>
          change c' ∈ (bind f (k r)).next at hc'
          rw [hk] at hc'
          exact (hp r).1 c' (by rw [hk]; exact hc')

/-- Whatever the answers, every request is one of `P`. -/
def Only (P : C → Prop) : Prog R E α → Prop
  | ret _ => True
  | call c k => P c ∧ ∀ r, Only P (k r)

/-- Whatever the answers, the program does not end with an error. -/
def Returns : Prog R E α → Prop
  | ret (.ok _) => True
  | ret (.error _) => False
  | call _ k => ∀ r, Returns (k r)

theorem returns_bind
    {p : Prog R E α} {f : α → Prog R E β}
    (hp : Returns p)
    (hf : ∀ a, Returns (f a)) :
    Returns (p >>= f) := by
  induction p with
  | ret r =>
      cases r with
      | ok a => exact hf a
      | error e => exact hp.elim
  | call c k ih => exact fun r => ih r (hp r)

theorem returns_attempt (p : Prog R E α) : Returns (attempt p) := by
  induction p with
  | ret r => trivial
  | call c k ih => exact ih

theorem returns_forEach
    {f : α → Prog R E Unit}
    (hf : ∀ a, Returns (f a)) (as : List α) :
    Returns (forEach f as) := by
  induction as with
  | nil => trivial
  | cons a as ih => exact returns_bind (hf a) fun _ => ih

end Prog

/-- How a request ends: a lost one has its effect and reports a failure. -/
inductive Outcome
  | ok
  | failed
  | lost
deriving DecidableEq

namespace Outcome

/-- Whether the request has its effect. -/
def acts (o : Outcome) : Bool := o ≠ failed

/-- Whether the request reports that it worked. -/
def reports (o : Outcome) : Bool := o = ok

theorem acts_of_reports
    {o : Outcome}
    (h : o.reports = true) :
    o.acts = true := by
  cases o <;> simp_all [acts, reports]

end Outcome

/-- How a world answers requests: the answer and the world after it. -/
abbrev Answers {C : Type} (R : C → Type) (W T : Type) : Type :=
  W → (c : C) → T → R c × W

/-- Which requests may be answered how, and before which request the process may die. -/
structure Guard (C W T : Type) where
  call : W → C → T → Prop
  cut : W → C → Prop

namespace Prog

variable {C : Type} {R : C → Type} {E α β : Type} {W T : Type}
variable (exec : Answers R W T)

/-- The run of a program on a list of ticks: the world it leaves and its result, if it ended. -/
def run : Prog R E α → W → List T → W × Option (Except E α)
  | ret r, w, _ => (w, some r)
  | call _ _, w, [] => (w, none)
  | call c k, w, t :: ts => run (k (exec w c t).1) (exec w c t).2 ts

/-- Every request answered along the run, and the place it is cut at, meet the guard. -/
def Meets (g : Guard C W T) : Prog R E α → W → List T → Prop
  | ret _, _, _ => True
  | call c _, w, [] => g.cut w c
  | call c k, w, t :: ts =>
      g.call w c t ∧ Meets g (k (exec w c t).1) (exec w c t).2 ts

instance decidableMeets
    (g : Guard C W T)
    [∀ w c t, Decidable (g.call w c t)] [∀ w c, Decidable (g.cut w c)] :
    ∀ (p : Prog R E α) (w : W) (ts : List T), Decidable (Meets exec g p w ts)
  | ret _, _, _ => isTrue trivial
  | call c _, w, [] => inferInstanceAs (Decidable (g.cut w c))
  | call c k, w, t :: ts =>
      have := decidableMeets g (k (exec w c t).1) (exec w c t).2 ts
      inferInstanceAs
        (Decidable (g.call w c t ∧ Meets exec g (k (exec w c t).1) (exec w c t).2 ts))

/-- Weakest precondition: `I` wherever a guarded run is cut, `Q` where it returns. -/
def wp (g : Guard C W T) (I : W → Prop) (Q : Except E α → W → Prop) :
    Prog R E α → W → Prop
  | ret r, w => Q r w
  | call c k, w =>
      (g.cut w c → I w) ∧
        ∀ t, g.call w c t → wp g I Q (k (exec w c t).1) (exec w c t).2

section Rules

variable {exec}
variable {g : Guard C W T} {I : W → Prop}

/-- What `wp` promises of every guarded run. -/
theorem run_of_wp
    {Q : Except E α → W → Prop}
    {p : Prog R E α} {w : W} {ts : List T}
    (h : wp exec g I Q p w)
    (hmeets : Meets exec g p w ts) :
    match run exec p w ts with
    | (w', none) => I w'
    | (w', some r) => Q r w' := by
  induction ts generalizing p w with
  | nil =>
      cases p with
      | ret r => exact h
      | call c k => exact h.1 hmeets
  | cons t ts ih =>
      cases p with
      | ret r => exact h
      | call c k => exact ih (h.2 t hmeets.1) hmeets.2

variable (exec g I) in
/-- The postcondition of the first half of a sequence. -/
def thenPost (Q : Except E β → W → Prop) (f : α → Prog R E β) :
    Except E α → W → Prop
  | .ok a, w => wp exec g I Q (f a) w
  | .error e, w => Q (.error e) w

theorem wp_bind
    (Q : Except E β → W → Prop)
    (p : Prog R E α) (f : α → Prog R E β) (w : W) :
    wp exec g I Q (p >>= f) w ↔
      wp exec g I (thenPost exec g I Q f) p w := by
  induction p generalizing w with
  | ret r => cases r <;> exact Iff.rfl
  | call c k ih =>
      constructor
      · rintro ⟨hcut, hcall⟩
        exact ⟨hcut, fun t ht => (ih _ _).1 (hcall t ht)⟩
      · rintro ⟨hcut, hcall⟩
        exact ⟨hcut, fun t ht => (ih _ _).2 (hcall t ht)⟩

theorem wp_attempt
    (Q : Except E (Except E α) → W → Prop)
    (p : Prog R E α) (w : W) :
    wp exec g I Q (attempt p) w ↔
      wp exec g I (fun r w' => Q (.ok r) w') p w := by
  induction p generalizing w with
  | ret r => exact Iff.rfl
  | call c k ih =>
      constructor
      · rintro ⟨hcut, hcall⟩
        exact ⟨hcut, fun t ht => (ih _ _).1 (hcall t ht)⟩
      · rintro ⟨hcut, hcall⟩
        exact ⟨hcut, fun t ht => (ih _ _).2 (hcall t ht)⟩

theorem wp_mono
    {Q Q' : Except E α → W → Prop}
    (hQ : ∀ r w, Q r w → Q' r w)
    {p : Prog R E α} {w : W}
    (h : wp exec g I Q p w) :
    wp exec g I Q' p w := by
  induction p generalizing w with
  | ret r => exact hQ _ _ h
  | call c k ih => exact ⟨h.1, fun t ht => ih _ (h.2 t ht)⟩

/-- A stronger guard, and what holds where it lets the program be cut. -/
theorem wp_guard
    {g' : Guard C W T} {J : W → Prop}
    {Q : Except E α → W → Prop}
    (hcall : ∀ w c t, g'.call w c t → g.call w c t)
    (hcut : ∀ w c, g'.cut w c → g.cut w c ∧ (I w → J w))
    {p : Prog R E α} {w : W}
    (h : wp exec g I Q p w) :
    wp exec g' J Q p w := by
  induction p generalizing w with
  | ret r => exact h
  | call c k ih =>
      refine ⟨fun hc => ?_, fun t ht => ih _ (h.2 t (hcall w c t ht))⟩
      obtain ⟨hc, hJ⟩ := hcut w c hc
      exact hJ (h.1 hc)

/-- Where the guard lets no program be cut, a guarded run ends. -/
theorem ended_of_wp
    {Q : Except E α → W → Prop}
    (hcut : ∀ w c, ¬g.cut w c)
    {p : Prog R E α} {w : W} {ts : List T}
    (h : wp exec g I Q p w)
    (hmeets : Meets exec g p w ts) :
    ∃ r w', run exec p w ts = (w', some r) ∧ Q r w' := by
  have hno : wp exec g (fun _ => False) Q p w :=
    wp_guard (fun _ _ _ ht => ht) (fun w c hc => (hcut w c hc).elim) h
  have hrun := run_of_wp hno hmeets
  cases hresult : run exec p w ts with
  | mk w' r =>
      rw [hresult] at hrun
      cases r with
      | none => exact hrun.elim
      | some r => exact ⟨r, w', rfl, hrun⟩

/-- A program that does not end with an error returns a value. -/
theorem wp_of_returns
    {p : Prog R E α}
    (hp : Returns p) (w : W) :
    wp exec g (fun _ => True) (fun r _ => ∃ a, r = .ok a) p w := by
  induction p generalizing w with
  | ret r =>
      cases r with
      | ok a => exact ⟨a, rfl⟩
      | error e => exact hp.elim
  | call c k ih => exact ⟨fun _ => trivial, fun t _ => ih _ (hp _) _⟩

/-- What all requests of a program keep holds of it. -/
theorem wp_of_only
    {P : C → Prop} {J : W → Prop}
    {p : Prog R E α} {w : W}
    (hp : Only P p)
    (hcut : ∀ w c, J w → g.cut w c → I w)
    (hcall : ∀ w c t, P c → J w → g.call w c t → J (exec w c t).2)
    (h : J w) :
    wp exec g I (fun _ => J) p w := by
  induction p generalizing w with
  | ret r => exact h
  | call c k ih =>
      exact ⟨hcut w c h, fun t ht => ih _ (hp.2 _) (hcall w c t hp.1 h ht)⟩

/-- Sequencing by what the first half ensures. -/
theorem wp_seq
    {P : Except E α → W → Prop} {Q : Except E β → W → Prop}
    {p : Prog R E α} {f : α → Prog R E β} {w : W}
    (hp : wp exec g I P p w)
    (hok : ∀ a w', P (.ok a) w' → wp exec g I Q (f a) w')
    (herror : ∀ e w', P (.error e) w' → Q (.error e) w') :
    wp exec g I Q (p >>= f) w := by
  refine (wp_bind Q p f w).2 (wp_mono ?_ hp)
  intro r w' hr
  cases r with
  | ok a => exact hok a w' hr
  | error e => exact herror e w' hr

/-- A result that is handed on goes on with what the first half ensures. -/
theorem wp_attempt_bind
    {P : Except E α → W → Prop} {Q : Except E β → W → Prop}
    {p : Prog R E α} {f : Except E α → Prog R E β} {w : W}
    (hp : wp exec g I P p w)
    (hf : ∀ r w', P r w' → wp exec g I Q (f r) w') :
    wp exec g I Q (attempt p >>= f) w :=
  (wp_bind Q (attempt p) f w).2 ((wp_attempt _ p w).2 (wp_mono hf hp))

end Rules

end Prog

end Lib
end Vesta
