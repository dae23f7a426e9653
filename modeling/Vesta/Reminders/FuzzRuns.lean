import Mathlib.Data.Int.LeastGreatest
import Mathlib.Data.List.Nodup
import Vesta.Reminders.Fuzz

/-!
# Runs of a fuzzed schedule

A run starts with a search and goes on with fires and restarts.  A restart may come at any
instant before the armed fire, and each fire is followed by a search from its instant.

A fired nominal instant leaves no pending one before it, so fires never come twice or out of
order.  One is skipped if an earlier one fires at its instant or later: the search takes the
earlier one first, and goes on behind both.
-/

namespace Vesta
namespace Reminders
namespace Fuzz

open Lib

namespace Reminder

/-! ## The runs -/

/-- The clock, the one-shot that is armed and the fires so far.  The nominal instant of a fire
is kept for the record; the job has its instant only. -/
structure State where
  clock : Int
  armed : Option Fire
  fired : List Fire
deriving DecidableEq

inductive Act
  | restart (now : Int)
  | fire
deriving DecidableEq

variable (R : Reminder)

/-- The fuzzed branch of `restoreRow`. -/
def restoreRow (now : Int) (fired : List Fire) : State where
  clock := now
  armed := R.fuzzedNextFire now
  fired := fired

def step (s : State) : Act → Option State
  | .restart now =>
      if s.clock ≤ now ∧ ∀ f ∈ s.armed, now < f.instant then some (R.restoreRow now s.fired)
      else none
  | .fire =>
      match s.armed with
      | none => none
      | some f => some (R.restoreRow f.instant (s.fired ++ [f]))

def machine (start : Int) : Machine State Act where
  start s := s = R.restoreRow start []
  step := R.step

/-- The states of the runs from an instant on. -/
def Reached (start : Int) (s : State) : Prop := (R.machine start).Reaches Machine.always s

/-- The nominal instants that have fired, in the order of the fires. -/
def State.nominals (s : State) : List Int := s.fired.map Fire.nominal

/-! ## What is asked of them -/

/-- Every run fires each nominal instant after the start once, within the fuzz of it, and in
their order: once the run has gone on for some number of fires, or nothing is armed. -/
structure FiresOnce (start : Int) : Prop where
  ordered : ∀ s, R.Reached start s → s.nominals.Pairwise (· < ·)
  near : ∀ s, R.Reached start s → ∀ f ∈ s.fired, start < f.nominal →
    (f.instant - f.nominal).natAbs ≤ R.fuzz
  once : ∀ n, R.trigger.nominal n → start < n →
    ∃ fires : Nat, ∀ s, R.Reached start s → (fires ≤ s.fired.length ∨ s.armed = none) →
      s.nominals.count n = 1

/-- Each nominal instant after the start fires after the start, within the fuzz of it, and
after every earlier one whose window the start does not lie behind. -/
def Separated (start : Int) : Prop :=
  ∀ n, R.trigger.nominal n → start < n →
    start < R.shifted n ∧ (R.shifted n - n).natAbs ≤ R.fuzz ∧
      ∀ m, R.trigger.nominal m → start - R.fuzz ≤ m → m < n → R.shifted m < R.shifted n

/-! ## What a step does -/

variable {R}
variable {start : Int} {s t : State}

theorem step_cases
    {a : Act}
    (h : R.step s a = some t) :
    (∃ now, a = .restart now ∧ s.clock ≤ now ∧ (∀ f ∈ s.armed, now < f.instant) ∧
        t = R.restoreRow now s.fired) ∨
      ∃ f, a = .fire ∧ s.armed = some f ∧ t = R.restoreRow f.instant (s.fired ++ [f]) := by
  cases a with
  | restart now =>
      simp only [step] at h
      split at h
      · rename_i hnow
        cases h
        exact .inl ⟨now, rfl, hnow.1, hnow.2, rfl⟩
      · cases h
  | fire =>
      simp only [step] at h
      split at h
      · cases h
      · rename_i f hf
        cases h
        exact .inr ⟨f, rfl, hf, rfl⟩

theorem Reached.initial (R : Reminder) (start : Int) : R.Reached start (R.restoreRow start []) :=
  .start rfl

theorem Reached.restart
    (h : R.Reached start s)
    {now : Int}
    (hle : s.clock ≤ now)
    (hlt : ∀ f ∈ s.armed, now < f.instant) :
    R.Reached start (R.restoreRow now s.fired) :=
  .step (a := .restart now) h trivial (if_pos ⟨hle, hlt⟩)

theorem step_fire
    {f : Fire}
    (hf : s.armed = some f) :
    R.step s .fire = some (R.restoreRow f.instant (s.fired ++ [f])) := by
  simp only [step, hf]

theorem Reached.fire
    (h : R.Reached start s)
    {f : Fire}
    (hf : s.armed = some f) :
    R.Reached start (R.restoreRow f.instant (s.fired ++ [f])) :=
  .step (a := .fire) h trivial (step_fire hf)

/-! ## What holds in every state -/

/-- The armed fire is that of the search from the clock on; nothing that has fired is pending,
nor anything before it. -/
structure Sound (R : Reminder) (start : Int) (s : State) : Prop where
  armed : s.armed = R.fuzzedNextFire s.clock
  clock : start + s.fired.length ≤ s.clock
  nominal : ∀ f ∈ s.fired, R.trigger.nominal f.nominal
  shifted : ∀ f ∈ s.fired, f.instant = R.shifted f.nominal
  later : ∀ f ∈ s.fired, start < f.instant
  past : ∀ f ∈ s.fired, f.instant ≤ s.clock
  behind : ∀ f ∈ s.fired, ∀ n, R.Pending s.clock n → f.nominal < n
  ordered : s.nominals.Pairwise (· < ·)

theorem sound_start : Sound R start (R.restoreRow start []) where
  armed := rfl
  clock := by simp [restoreRow]
  nominal f hf := by cases hf
  shifted f hf := by cases hf
  later f hf := by cases hf
  past f hf := by cases hf
  behind f hf := by cases hf
  ordered := .nil

theorem Sound.restart
    (h : Sound R start s)
    {now : Int}
    (hle : s.clock ≤ now) :
    Sound R start (R.restoreRow now s.fired) where
  armed := rfl
  clock := h.clock.trans hle
  nominal := h.nominal
  shifted := h.shifted
  later := h.later
  past f hf := (h.past f hf).trans hle
  behind f hf n hn := h.behind f hf n (hn.earlier hle)
  ordered := h.ordered

theorem Sound.fire
    (h : Sound R start s)
    {f : Fire}
    (hf : s.armed = some f) :
    Sound R start (R.restoreRow f.instant (s.fired ++ [f])) := by
  rw [h.armed] at hf
  obtain ⟨hpending, hleast⟩ := pending_of_fuzzedNextFire hf
  have hshifted := fuzzedNextFire_shifted hf
  have hlater := lt_fuzzedNextFire hf
  have hclock := h.clock
  refine ⟨rfl, ?_, ?_, ?_, ?_, ?_, ?_, ?_⟩
  · simp only [restoreRow, List.length_append, List.length_singleton]
    omega
  · intro g hg
    rcases List.mem_append.1 hg with hg | hg
    · exact h.nominal g hg
    · rw [List.mem_singleton.1 hg]
      exact hpending.1
  · intro g hg
    rcases List.mem_append.1 hg with hg | hg
    · exact h.shifted g hg
    · rw [List.mem_singleton.1 hg]
      exact hshifted
  · intro g hg
    rcases List.mem_append.1 hg with hg | hg
    · exact h.later g hg
    · rw [List.mem_singleton.1 hg]
      omega
  · intro g hg
    rcases List.mem_append.1 hg with hg | hg
    · exact (h.past g hg).trans hlater.le
    · rw [List.mem_singleton.1 hg]
      exact le_rfl
  · intro g hg n hn
    have hn' := hn.earlier hlater.le
    rcases List.mem_append.1 hg with hg | hg
    · exact h.behind g hg n hn'
    · rw [List.mem_singleton.1 hg]
      have hle := hleast n hn'
      -- The one that fires is no longer pending.
      have hne : n ≠ f.nominal := by
        intro heq
        have hlt := hn.2.2
        rw [heq, ← hshifted] at hlt
        exact lt_irrefl _ hlt
      omega
  · rw [State.nominals, restoreRow, List.map_append, List.pairwise_append]
    refine ⟨h.ordered, List.pairwise_singleton _ _, ?_⟩
    intro m hm n hn
    obtain ⟨g, hg, rfl⟩ := List.mem_map.1 hm
    rw [List.map_singleton, List.mem_singleton] at hn
    rw [hn]
    exact h.behind g hg f.nominal hpending

theorem Sound.step
    {a : Act}
    (h : Sound R start s)
    (hstep : R.step s a = some t) :
    Sound R start t := by
  rcases step_cases hstep with ⟨now, -, hle, -, rfl⟩ | ⟨f, -, hf, rfl⟩
  · exact h.restart hle
  · exact h.fire hf

theorem Reached.sound (h : R.Reached start s) : Sound R start s := by
  refine Machine.Reaches.invariant ?_ (fun _ _ _ hs _ => hs.step) h
  rintro s rfl
  exact sound_start

theorem Sound.clock_lt
    (h : Sound R start s)
    {f : Fire}
    (hf : s.armed = some f) :
    s.clock < f.instant :=
  lt_fuzzedNextFire (h.armed ▸ hf)

theorem mem_nominals
    {n : Int} :
    n ∈ s.nominals ↔ ∃ f ∈ s.fired, f.nominal = n :=
  List.mem_map

/-- What has fired has fired once, at its shifted instant. -/
theorem Sound.fired
    (h : Sound R start s)
    {n : Int}
    (hn : n ∈ s.nominals) :
    s.nominals.count n = 1 ∧ ∃ f ∈ s.fired, f.nominal = n ∧ f.instant = R.shifted n := by
  obtain ⟨f, hf, rfl⟩ := mem_nominals.1 hn
  have hnodup : s.nominals.Nodup := h.ordered.imp fun hlt => hlt.ne
  exact ⟨List.count_eq_one_of_mem hnodup hn, f, hf, rfl, h.shifted f hf⟩

/-! ## Separated windows -/

section Forward

variable {n : Int}

/-- A nominal instant whose time has come has fired. -/
def Served (R : Reminder) (n : Int) (s : State) : Prop := R.shifted n ≤ s.clock → n ∈ s.nominals

/-- While a nominal instant is to come, the armed fire is its own or an earlier one. -/
theorem Sound.armed_before
    (h : Sound R start s)
    (hn : R.trigger.nominal n)
    (hnear : (R.shifted n - n).natAbs ≤ R.fuzz)
    (hbefore : ∀ m, R.trigger.nominal m → start - R.fuzz ≤ m → m < n →
      R.shifted m < R.shifted n)
    (hcome : s.clock < R.shifted n) :
    ∃ f, s.armed = some f ∧ (f.nominal = n ∨ f.instant < R.shifted n) := by
  have hopen : R.Pending s.clock n := ⟨hn, by omega, hcome⟩
  obtain ⟨f, hf, hle⟩ := exists_fuzzedNextFire hopen
  refine ⟨f, h.armed.trans hf, ?_⟩
  have hpending := (pending_of_fuzzedNextFire hf).1
  have hclock := h.clock
  rcases eq_or_lt_of_le hle with heq | hlt
  · exact .inl heq
  · rw [fuzzedNextFire_shifted hf]
    exact .inr (hbefore f.nominal hpending.1 (by have := hpending.2.1; omega) hlt)

theorem Served.step
    {a : Act}
    (hs : Sound R start s)
    (hn : R.trigger.nominal n)
    (hnear : (R.shifted n - n).natAbs ≤ R.fuzz)
    (hbefore : ∀ m, R.trigger.nominal m → start - R.fuzz ≤ m → m < n →
      R.shifted m < R.shifted n)
    (h : Served R n s)
    (hstep : R.step s a = some t) :
    Served R n t := by
  intro hpast
  rcases lt_or_ge s.clock (R.shifted n) with hcome | hcome
  · obtain ⟨f, hf, hfire⟩ := hs.armed_before hn hnear hbefore hcome
    have hinstant := fuzzedNextFire_shifted (hs.armed ▸ hf : R.fuzzedNextFire s.clock = some f)
    have hle : f.instant ≤ R.shifted n := by
      rcases hfire with rfl | hlt
      · exact hinstant.le
      · exact hlt.le
    rcases step_cases hstep with ⟨now, -, -, hlt, rfl⟩ | ⟨g, -, hg, rfl⟩
    · exact absurd (hlt f hf) (by have : R.shifted n ≤ now := hpast; omega)
    · rw [hf] at hg
      cases hg
      rcases hfire with rfl | hlt
      · exact mem_nominals.2 ⟨f, by simp [restoreRow], rfl⟩
      · exact absurd (show R.shifted n ≤ f.instant from hpast) (by omega)
  · have hmem := h hcome
    rcases step_cases hstep with ⟨now, -, -, -, rfl⟩ | ⟨g, -, -, rfl⟩
    · exact hmem
    · obtain ⟨f, hf, heq⟩ := mem_nominals.1 hmem
      exact mem_nominals.2 ⟨f, List.mem_append_left _ hf, heq⟩

theorem Separated.firesOnce (h : R.Separated start) : R.FiresOnce start where
  ordered s hs := hs.sound.ordered
  near s hs f hf hlater := by
    rw [hs.sound.shifted f hf]
    exact (h f.nominal (hs.sound.nominal f hf) hlater).2.1
  once n hn hlater := by
    obtain ⟨hstart, hnear, hbefore⟩ := h n hn hlater
    refine ⟨(R.shifted n - start).toNat, fun s hs hend => ?_⟩
    have hsound := hs.sound
    have hserved : Served R n s := by
      have hboth : Sound R start s ∧ Served R n s := by
        refine Machine.Reaches.invariant (I := fun s => Sound R start s ∧ Served R n s) ?_ ?_ hs
        · rintro s rfl
          exact ⟨sound_start, fun hpast => absurd hstart hpast.not_gt⟩
        · rintro s a t ⟨hs, hserved⟩ - hstep
          exact ⟨hs.step hstep, hserved.step hs hn hnear hbefore hstep⟩
      exact hboth.2
    have hclock := hsound.clock
    refine (hsound.fired (hserved ?_)).1
    rcases hend with hmany | hnone
    · omega
    · by_contra hcome
      obtain ⟨f, hf, -⟩ := hsound.armed_before hn hnear hbefore (not_le.1 hcome)
      rw [hnone] at hf
      cases hf

end Forward

/-! ## Runs that skip a fire -/

/-- The run without restarts comes to each instant. -/
theorem Reached.exists_at
    (h : R.Reached start s)
    {now : Int}
    (hle : s.clock ≤ now) :
    ∃ t, R.Reached start t ∧ t.clock ≤ now ∧ ∀ f ∈ t.armed, now < f.instant := by
  induction hfuel : (now - s.clock).toNat using Nat.strong_induction_on generalizing s with
  | _ fuel ih =>
      cases harmed : s.armed with
      | none => exact ⟨s, h, hle, by simp [harmed]⟩
      | some f =>
          rcases lt_or_ge now f.instant with hlt | hge
          · refine ⟨s, h, hle, fun g hg => ?_⟩
            rw [harmed] at hg
            cases hg
            exact hlt
          · have hclock := h.sound.clock_lt harmed
            exact ih (now - f.instant).toNat (by omega) (h.fire harmed) hge rfl

/-- Every run goes on for any number of fires, or until nothing is armed. -/
theorem Reached.exists_end
    {I : State → Prop}
    (hkeep : ∀ s t, R.Reached start s → I s → R.step s .fire = some t → I t)
    (h : R.Reached start s)
    (hI : I s)
    (fires : Nat) :
    ∃ t, R.Reached start t ∧ I t ∧ (fires ≤ t.fired.length ∨ t.armed = none) := by
  induction hrest : fires - s.fired.length generalizing s with
  | zero => exact ⟨s, h, hI, .inl (by omega)⟩
  | succ rest ih =>
      cases harmed : s.armed with
      | none => exact ⟨s, h, hI, .inr harmed⟩
      | some f =>
          refine ih (h.fire harmed) (hkeep s _ h hI (step_fire harmed)) ?_
          simp only [restoreRow, List.length_append, List.length_singleton]
          omega

/-- A nominal instant whose time has gone by without its fire. -/
def Skipped (R : Reminder) (n : Int) (s : State) : Prop :=
  R.shifted n ≤ s.clock ∧ n ∉ s.nominals

theorem Skipped.fire
    {n : Int}
    (hs : Sound R start s)
    (h : Skipped R n s)
    (hstep : R.step s .fire = some t) :
    Skipped R n t := by
  rcases step_cases hstep with ⟨now, hact, -⟩ | ⟨f, -, hf, rfl⟩
  · cases hact
  · have hlt := hs.clock_lt hf
    refine ⟨h.1.trans hlt.le, fun hmem => ?_⟩
    obtain ⟨g, hg, heq⟩ := mem_nominals.1 hmem
    rcases List.mem_append.1 hg with hg | hg
    · exact h.2 (mem_nominals.2 ⟨g, hg, heq⟩)
    · rw [List.mem_singleton.1 hg] at heq
      have hinstant := fuzzedNextFire_shifted (hs.armed ▸ hf : R.fuzzedNextFire s.clock = some f)
      rw [heq] at hinstant
      have := h.1
      omega

section Converse

variable {n : Int}

/-- Where each nominal instant fires once, none is ever skipped. -/
theorem FiresOnce.not_skipped
    (h : R.FiresOnce start)
    (hn : R.trigger.nominal n)
    (hlater : start < n)
    (hs : R.Reached start s) :
    ¬Skipped R n s := by
  intro hskipped
  obtain ⟨fires, honce⟩ := h.once n hn hlater
  obtain ⟨t, ht, hskipped', hend⟩ :=
    hs.exists_end (I := Skipped R n) (fun s t hs hI => hI.fire hs.sound) hskipped fires
  have hcount := honce t ht hend
  rw [List.count_eq_zero_of_not_mem hskipped'.2] at hcount
  cases hcount

theorem FiresOnce.exists_fired
    (h : R.FiresOnce start)
    (hn : R.trigger.nominal n)
    (hlater : start < n) :
    ∃ s, R.Reached start s ∧ n ∈ s.nominals := by
  obtain ⟨fires, honce⟩ := h.once n hn hlater
  obtain ⟨s, hs, -, hend⟩ :=
    (Reached.initial R start).exists_end (I := fun _ => True) (fun _ _ _ _ _ => trivial)
      trivial fires
  have hcount := honce s hs hend
  exact ⟨s, hs, List.count_pos_iff.1 (by omega)⟩

/-- A run that skips a nominal instant, when an earlier one fires no earlier: a restart just
before the later fire, or at the end of the earlier window, arms the earlier one. -/
theorem exists_skipped
    (hstart : start < R.shifted n)
    {m : Int}
    (hm : R.trigger.nominal m)
    (hwindow : start - R.fuzz ≤ m)
    (hmn : m < n)
    (hshifted : R.shifted n ≤ R.shifted m) :
    ∃ s, R.Reached start s ∧ Skipped R n s := by
  obtain ⟨m, ⟨hm, hwindow, hmn, hshifted⟩, hleast⟩ := Int.exists_least_of_bdd
    (P := fun m => R.trigger.nominal m ∧ start - R.fuzz ≤ m ∧ m < n ∧ R.shifted n ≤ R.shifted m)
    ⟨start - R.fuzz, fun m hm => hm.2.1⟩ ⟨m, hm, hwindow, hmn, hshifted⟩
  obtain ⟨now, hnow⟩ : ∃ now, now = min (R.shifted n - 1) (m + R.fuzz) := ⟨_, rfl⟩
  obtain ⟨s, hs, hle, hlt⟩ :=
    (Reached.initial R start).exists_at (show start ≤ now by omega)
  have hrestart := hs.restart hle hlt
  have hpending : R.Pending now m := ⟨hm, by omega, by omega⟩
  obtain ⟨f, hf, hfm⟩ := exists_fuzzedNextFire hpending
  have hfirst := (pending_of_fuzzedNextFire hf).1
  have hmf : f.nominal = m := by
    rcases eq_or_lt_of_le hfm with heq | hlt
    · exact heq
    · have hge := hfirst.2.1
      have hafter := hfirst.2.2
      have hsound := hs.sound.clock
      have := hleast f.nominal ⟨hfirst.1, by omega, by omega, by omega⟩
      omega
  refine ⟨_, hrestart.fire hf, ?_⟩
  have hinstant := fuzzedNextFire_shifted hf
  rw [hmf] at hinstant
  refine ⟨?_, fun hmem => ?_⟩
  · rw [← hinstant] at hshifted
    exact hshifted
  · obtain ⟨g, hg, heq⟩ := mem_nominals.1 hmem
    rcases List.mem_append.1 hg with hg | hg
    · have hpast := hs.sound.past g hg
      have hg' := hs.sound.shifted g hg
      rw [heq] at hg'
      omega
    · rw [List.mem_singleton.1 hg] at heq
      omega

theorem FiresOnce.separated (h : R.FiresOnce start) : R.Separated start := by
  intro n hn hlater
  obtain ⟨s, hs, hmem⟩ := h.exists_fired hn hlater
  obtain ⟨-, f, hf, rfl, hinstant⟩ := hs.sound.fired hmem
  have hstart := hs.sound.later f hf
  have hnear := h.near s hs f hf hlater
  rw [hinstant] at hstart hnear
  refine ⟨hstart, hnear, fun m hm hwindow hlt => ?_⟩
  by_contra hnot
  obtain ⟨t, ht, hskipped⟩ := exists_skipped hstart hm hwindow hlt (not_lt.1 hnot)
  exact h.not_skipped hn hlater ht hskipped

end Converse

/-- Every run fires each later nominal instant once, near it and in order, exactly if their
fires are separated. -/
theorem firesOnce_iff (R : Reminder) (start : Int) :
    R.FiresOnce start ↔ R.Separated start :=
  ⟨FiresOnce.separated, Separated.firesOnce⟩

end Reminder

/-! ## A schedule with one short gap a day -/

/-- The times of `0,25,50 1-21/2,22 * * *`. -/
def oddHourTimes : List Int :=
  [1, 3, 5, 7, 9, 11, 13, 15, 17, 19, 21, 22].flatMap fun hour =>
    [0, 25, 50].map fun minutes => (60 * hour + minutes) * minute

def oddHours : CronTrigger Zone.utc := .daily oddHourTimes (by decide) (by decide)

/-- The samples of reminder 00000037 for 21:50 and 22:00 on 2026-03-02. -/
def oddHourSample (nominal : Int) : Sample :=
  if nominal = 1772488200000000 then ⟨2080232279493921, 2251799813685248, by decide, by decide⟩
  else if nominal = 1772488800000000 then
    ⟨-3640087628822751, 4503599627370496, by decide, by decide⟩
  else ⟨0, 1, by decide, by decide⟩

def oddHourReminder : Reminder where
  zone := Zone.utc
  trigger := oddHours
  fuzzMinutes := 12
  sample := oddHourSample

/-- Created at 22:05 on 2026-03-01, the reminder is accepted: its next fires are at least 25
minutes apart.  On the next day the fire of 21:50 comes after that of 22:00, which is skipped. -/
theorem fire_skipped :
    validateFuzz oddHourReminder.trigger oddHourReminder.fuzzMinutes 1772402700000000 = .ok () ∧
      ¬oddHourReminder.FiresOnce 1772402700000000 := by
  refine ⟨by decide +kernel, fun h => ?_⟩
  have hbefore : oddHours.nominal 1772488200000000 :=
    show (1772488200000000 : Int) % day ∈ oddHourTimes by decide
  have hnominal : oddHours.nominal 1772488800000000 :=
    show (1772488800000000 : Int) % day ∈ oddHourTimes by decide
  have hlate := (h.separated 1772488800000000 hnominal (by decide)).2.2
    1772488200000000 hbefore (by decide +kernel) (by decide)
  exact absurd hlate (by decide +kernel)

end Fuzz
end Reminders
end Vesta
