import Mathlib.Data.Int.Order.Basic
import Vesta.Lib.Machine
import Vesta.Lib.Rounding
import Vesta.Lib.Text

/-!
# Fuzzed schedules

Each nominal instant of a fuzzed cron schedule is moved by a sampled share of the fuzz.
The reminder is armed as a one-shot at the first moved instant that is to come, and a
restart of the daemon searches for it again.

Instants are microseconds since an epoch.  The cron trigger, the time zone and the random
samples are parameters.  A moved instant is reckoned on the wall clock of the zone, as is
the gap between two nominal instants; the search starts at an instant.
-/

namespace Vesta
namespace Reminders
namespace Fuzz

open Lib

def second : Int := 1000000

def minute : Int := 60 * second

def day : Int := 86400 * second

/-! ## What the schedule rests on -/

/-- The first instant of a set, or none if the set is empty. -/
def IsFirst (p : Int → Prop) : Option Int → Prop
  | none => ∀ n, ¬p n
  | some n => p n ∧ ∀ m, p m → n ≤ m

/-- A time zone: the wall clock of an instant, and the instant of a wall clock, the earlier one
of two.  They are less than a day apart. -/
structure Zone where
  wall : Int → Int
  instant : Int → Int
  wall_near : ∀ t, (wall t - t).natAbs < day.natAbs
  instant_near : ∀ w, (instant w - w).natAbs < day.natAbs

/-- `aware + delta`: the sum is taken on the wall clock. -/
def Zone.add (zone : Zone) (t delta : Int) : Int := zone.instant (zone.wall t + delta)

def Zone.utc : Zone where
  wall t := t
  instant w := w
  wall_near t := by simp [day, second]
  instant_near w := by simp [day, second]

/-- A cron trigger of a zone returns its nominal instants in order. -/
structure CronTrigger (zone : Zone) where
  nominal : Int → Prop
  getNextFireTime : Option Int → Int → Option Int
  first : ∀ now, IsFirst (fun n => nominal n ∧ now ≤ n) (getNextFireTime none now)
  next : ∀ prev, nominal prev →
    IsFirst (fun n => nominal n ∧ prev < n) (getNextFireTime (some prev) (zone.add prev second))

/-- The first instant from one on at one of the times of day. -/
def dailyFrom (times : List Int) (t : Int) : Option Int :=
  match times.find? fun time => decide (t % day ≤ time) with
  | some time => some (t - t % day + time)
  | none => times.head?.map fun time => t - t % day + day + time

theorem dailyFrom_first
    {times : List Int}
    (hsorted : times.Pairwise (· < ·))
    (hrange : ∀ time ∈ times, 0 ≤ time ∧ time < day)
    (t : Int) :
    IsFirst (fun n => n % day ∈ times ∧ t ≤ n) (dailyFrom times t) := by
  have hday : day = 86400000000 := by decide
  rw [hday] at hrange
  rw [dailyFrom, hday]
  cases hfind : times.find? fun time => decide (t % 86400000000 ≤ time) with
  | some time =>
      obtain ⟨htime, before, after, rfl, hbefore⟩ := List.find?_eq_some_iff_append.1 hfind
      have htime := of_decide_eq_true htime
      have hbounds := hrange time (by simp)
      refine ⟨⟨?_, by omega⟩, fun m hm => ?_⟩
      · have hmod : (t - t % 86400000000 + time) % 86400000000 = time := by omega
        rw [hmod]
        simp
      · obtain ⟨hmem, hle⟩ := hm
        by_contra hlt
        have hsooner : m % 86400000000 < time ∧ t % 86400000000 ≤ m % 86400000000 := by omega
        rcases List.mem_append.1 hmem with hmem | hmem
        · simpa [hsooner.2] using hbefore _ hmem
        · have hafter := (List.pairwise_append.1 hsorted).2.1
          rcases List.mem_cons.1 hmem with heq | hmem
          · omega
          · have := (List.pairwise_cons.1 hafter).1 _ hmem
            omega
  | none =>
      have hnone := List.find?_eq_none.1 hfind
      cases times with
      | nil => exact fun n hn => absurd hn.1 List.not_mem_nil
      | cons time rest =>
          have hbounds := hrange time (by simp)
          rw [List.head?_cons, Option.map_some]
          refine ⟨⟨?_, by omega⟩, fun m hm => ?_⟩
          · have hmod : (t - t % 86400000000 + 86400000000 + time) % 86400000000 = time := by omega
            rw [hmod]
            simp
          · obtain ⟨hmem, hle⟩ := hm
            have hlate := hnone _ hmem
            have hlate : ¬t % 86400000000 ≤ m % 86400000000 := by simpa using hlate
            have hhead : time ≤ m % 86400000000 := by
              rcases List.mem_cons.1 hmem with heq | hmem
              · omega
              · exact ((List.pairwise_cons.1 hsorted).1 _ hmem).le
            omega

/-- The trigger of a schedule that is the same each day, in UTC. -/
def CronTrigger.daily
    (times : List Int)
    (hsorted : times.Pairwise (· < ·))
    (hrange : ∀ time ∈ times, 0 ≤ time ∧ time < day) :
    CronTrigger Zone.utc where
  nominal n := n % day ∈ times
  getNextFireTime prev now :=
    dailyFrom times (match prev with
      | none => now
      | some prev => min now (prev + 1))
  first now := dailyFrom_first hsorted hrange now
  next prev _ := by
    have hnow : min (Zone.utc.add prev second) (prev + 1) = prev + 1 := by
      simp [Zone.add, Zone.utc, second]
    show IsFirst _ (dailyFrom times (min (Zone.utc.add prev second) (prev + 1)))
    rw [hnow]
    exact dailyFrom_first hsorted hrange (prev + 1)

/-- A sample of `uniform(-1.0, 1.0)`: a double is a ratio of integers. -/
structure Sample where
  num : Int
  den : Nat
  den_pos : 0 < den
  bounded : num.natAbs ≤ den

/-- `fuzz * offset`, rounded half to even. -/
def Sample.share (sample : Sample) (fuzz : Int) : Int :=
  Rounding.divEven (fuzz * sample.num) sample.den

theorem Sample.natAbs_share_le (sample : Sample) (fuzz : Int) :
    (sample.share fuzz).natAbs ≤ fuzz.natAbs := by
  have hproduct : (fuzz * sample.num).natAbs ≤ fuzz.natAbs * sample.den := by
    rw [Int.natAbs_mul]
    exact Nat.mul_le_mul_left _ sample.bounded
  have hcast : ((fuzz.natAbs * sample.den : Nat) : Int) = fuzz.natAbs * sample.den :=
    Int.natCast_mul _ _
  have hlow : -(fuzz.natAbs : Int) ≤ sample.share fuzz := by
    apply Rounding.le_divEven sample.den_pos
    rw [Int.neg_mul]
    omega
  have hhigh : sample.share fuzz ≤ fuzz.natAbs := by
    apply Rounding.divEven_le sample.den_pos
    omega
  omega

/-! ## What a reminder is accepted for -/

inductive FuzzError
  | notPositive
  | overHalfTheGap
deriving DecidableEq

def fuzzValidationFires : Nat := 26

section Validate

variable {zone : Zone}
variable (trigger : CronTrigger zone)

/-- At most so many nominal instants from one on. -/
def upcoming : Nat → Option Int → List Int
  | 0, _ => []
  | _ + 1, none => []
  | count + 1, some n =>
      n :: upcoming count (trigger.getNextFireTime (some n) (zone.add n second))

/-- The gaps between instants of one zone, which are those of its wall clock. -/
def gaps (zone : Zone) : List Int → List Int
  | earlier :: later :: rest => (zone.wall later - zone.wall earlier) :: gaps zone (later :: rest)
  | _ => []

def validateFuzz (fuzzMinutes now : Int) : Except FuzzError Unit :=
  if fuzzMinutes ≤ 0 then .error .notPositive
  else
    match (gaps zone (upcoming trigger fuzzValidationFires
      (trigger.getNextFireTime none now))).min? with
    | none => .error .overHalfTheGap
    | some gap =>
        if Rounding.divEven gap 2 < fuzzMinutes * minute then .error .overHalfTheGap else .ok ()

end Validate

/-! ## The next fire -/

/-- A nominal instant and the instant it fires at. -/
@[ext]
structure Fire where
  nominal : Int
  instant : Int
deriving DecidableEq

/-- A fuzzed reminder: its schedule, and the sample for its id and each nominal instant. -/
structure Reminder where
  zone : Zone
  trigger : CronTrigger zone
  fuzzMinutes : Int
  sample : Int → Sample

namespace Reminder

variable (R : Reminder)

def fuzz : Int := R.fuzzMinutes * minute

/-- The instant that a nominal instant fires at. -/
def shifted (nominal : Int) : Int := R.zone.add nominal ((R.sample nominal).share R.fuzz)

/-- The first nominal instant from a given one on that fires later than `after`. -/
def search (after : Int) : Nat → Option Int → Option Fire
  | 0, _ => none
  | _ + 1, none => none
  | fuel + 1, some nominal =>
      if after < R.shifted nominal then some ⟨nominal, R.shifted nominal⟩
      else
        search after fuel
          (R.trigger.getNextFireTime (some nominal) (R.zone.add nominal second))

/-- From this nominal instant on each fires later than `after`. -/
def horizon (after : Int) : Int := after + R.fuzz.natAbs + 2 * day

/-- The loop ends by the horizon; without a nominal instant it raises. -/
def fuzzedNextFire (after : Int) : Option Fire :=
  R.search after ((R.horizon after - (after - R.fuzz)).toNat + 2)
    (R.trigger.getNextFireTime none (after - R.fuzz))

/-- The schedule's label and its next run, once the fuzz is accepted. -/
def applyFuzz
    (scheduleInfo : String)
    (now : Int) :
    Except FuzzError (String × Option Int) := do
  validateFuzz R.trigger R.fuzzMinutes now
  pure (s!"{scheduleInfo}, fuzz {R.fuzzMinutes}m", (R.fuzzedNextFire now).map Fire.instant)

/-! ## What the search finds -/

/-- What the search may answer at `after`. -/
def Pending (after nominal : Int) : Prop :=
  R.trigger.nominal nominal ∧ after - R.fuzz ≤ nominal ∧ after < R.shifted nominal

variable {R}

theorem lt_shifted_of_horizon
    {after nominal : Int}
    (h : R.horizon after < nominal) :
    after < R.shifted nominal := by
  have hwall := R.zone.wall_near nominal
  have hinstant := R.zone.instant_near (R.zone.wall nominal + (R.sample nominal).share R.fuzz)
  have hshare := (R.sample nominal).natAbs_share_le R.fuzz
  have hday : (0 : Int) ≤ day := by decide
  rw [horizon] at h
  rw [shifted, Zone.add]
  omega

theorem search_shifted
    {after : Int} {fuel : Nat} {from? : Option Int} {f : Fire}
    (h : R.search after fuel from? = some f) :
    f.instant = R.shifted f.nominal := by
  induction fuel generalizing from? with
  | zero => cases h
  | succ fuel ih =>
      cases from? with
      | none => cases h
      | some nominal =>
          rw [search] at h
          split at h
          · cases h
            rfl
          · exact ih h

/-- With fuel up to the horizon, the search finds the first nominal instant that fires later. -/
theorem search_first
    {after : Int} {fuel : Nat} {low : Int} {from? : Option Int}
    (hfrom : IsFirst (fun n => R.trigger.nominal n ∧ low ≤ n) from?)
    (hpos : 0 < fuel)
    (hfuel : R.horizon after - low + 1 < fuel) :
    IsFirst (fun n => R.trigger.nominal n ∧ low ≤ n ∧ after < R.shifted n)
      ((R.search after fuel from?).map Fire.nominal) := by
  induction fuel generalizing low from? with
  | zero => cases hpos
  | succ fuel ih =>
      cases from? with
      | none => exact fun n hn => hfrom n ⟨hn.1, hn.2.1⟩
      | some nominal =>
          obtain ⟨⟨hnominal, hlow⟩, hleast⟩ := hfrom
          rw [search]
          split
          · rename_i hlater
            exact ⟨⟨hnominal, hlow, hlater⟩, fun m hm => hleast m ⟨hm.1, hm.2.1⟩⟩
          · rename_i hnot
            have hwithin : nominal ≤ R.horizon after := by
              by_contra hbeyond
              exact hnot (lt_shifted_of_horizon (by omega))
            have hrest := ih (R.trigger.next nominal hnominal) (by omega) (by omega)
            -- Nothing was to be found before the instant that the search goes on from.
            have hsame :
                (fun n => R.trigger.nominal n ∧ nominal + 1 ≤ n ∧ after < R.shifted n) =
                  fun n => R.trigger.nominal n ∧ low ≤ n ∧ after < R.shifted n := by
              funext n
              apply propext
              constructor
              · rintro ⟨hn, hlt, hlater⟩
                exact ⟨hn, by omega, hlater⟩
              · rintro ⟨hn, hge, hlater⟩
                have hle := hleast n ⟨hn, hge⟩
                have hne : n ≠ nominal := fun heq => hnot (heq ▸ hlater)
                exact ⟨hn, by omega, hlater⟩
            exact hsame ▸ hrest

/-- The next fire is that of the first pending nominal instant. -/
theorem fuzzedNextFire_first (after : Int) :
    IsFirst (R.Pending after) ((R.fuzzedNextFire after).map Fire.nominal) :=
  search_first (R.trigger.first _) (by omega) (by omega)

theorem pending_of_fuzzedNextFire
    {after : Int} {f : Fire}
    (h : R.fuzzedNextFire after = some f) :
    R.Pending after f.nominal ∧ ∀ n, R.Pending after n → f.nominal ≤ n := by
  have hfirst := fuzzedNextFire_first (R := R) after
  rw [h] at hfirst
  exact hfirst

theorem fuzzedNextFire_shifted
    {after : Int} {f : Fire}
    (h : R.fuzzedNextFire after = some f) :
    f.instant = R.shifted f.nominal :=
  search_shifted h

theorem lt_fuzzedNextFire
    {after : Int} {f : Fire}
    (h : R.fuzzedNextFire after = some f) :
    after < f.instant := by
  rw [fuzzedNextFire_shifted h]
  exact (pending_of_fuzzedNextFire h).1.2.2

/-- While a nominal instant is pending, the search finds one. -/
theorem exists_fuzzedNextFire
    {after n : Int}
    (h : R.Pending after n) :
    ∃ f, R.fuzzedNextFire after = some f ∧ f.nominal ≤ n := by
  cases hnext : R.fuzzedNextFire after with
  | none =>
      have hfirst := fuzzedNextFire_first (R := R) after
      rw [hnext] at hfirst
      exact absurd h (hfirst n)
  | some f => exact ⟨f, rfl, (pending_of_fuzzedNextFire hnext).2 n h⟩

/-- What is pending later was pending before. -/
theorem Pending.earlier
    {after later n : Int}
    (h : R.Pending later n)
    (hle : after ≤ later) :
    R.Pending after n :=
  ⟨h.1, by have := h.2.1; omega, hle.trans_lt h.2.2⟩

end Reminder

end Fuzz
end Reminders
end Vesta
