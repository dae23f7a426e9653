import Mathlib.Algebra.Order.Group.Int
import Mathlib.Data.List.Basic
import Mathlib.Data.Nat.Find

/-!
# The maintenance window

Maintenance runs while most agents have it between four and five at night.  A scan of the
next day in steps of fifteen minutes finds when that is, and the window is now when no
step has more agents in theirs.  The task polls every fifteen minutes.  In the window it
fires at a poll with all agents idle, or at the last one, which it takes to be the one that
the window is over fifteen minutes after; but the next poll comes a little later.

Instants are nanoseconds, and a zone is its offset in seconds.
-/

namespace Vesta
namespace Vestad
namespace MaintenanceWindow

/-! ## Dates -/

def nanosPerSec : Int := 1000000000

def secsPerMin : Int := 60

def secsPerHour : Int := 3600

def secsPerDay : Int := 86400

/-- Year, month and day of a day since 1970-01-01. -/
def civilDate (day : Int) : Int × Nat × Nat :=
  let shifted := day + 719468
  let era := shifted / 146097
  let dayOfEra := shifted % 146097
  let yearOfEra :=
    (dayOfEra - dayOfEra / 1460 + dayOfEra / 36524 - dayOfEra / 146096) / 365
  let dayOfYear := dayOfEra - (365 * yearOfEra + yearOfEra / 4 - yearOfEra / 100)
  let month := (5 * dayOfYear + 2) / 153
  let dayOfMonth := dayOfYear - (153 * month + 2) / 5 + 1
  let year := yearOfEra + era * 400
  if month < 10 then (year, (month + 3).toNat, dayOfMonth.toNat)
  else (year + 1, (month - 9).toNat, dayOfMonth.toNat)

example : civilDate 20454 = (2026, 1, 1) := by decide

def padded (width n : Nat) : List Char :=
  let digits := Nat.toDigits 10 n
  List.replicate (width - digits.length) '0' ++ digits

/-- `Date::to_string` -/
def dateText (day : Int) : List Char :=
  let date := civilDate day
  (if 0 ≤ date.1 then padded 4 date.1.toNat else '-' :: padded 6 (-date.1).toNat) ++
    '-' :: padded 2 date.2.1 ++ '-' :: padded 2 date.2.2

/-! ## The window -/

def windowStartHour : Int := 4

def windowEndHour : Int := 5

def windowJitterMinutes : UInt64 := 30

/-- The minute past the hour that the window opens at on the night of a date, by FNV-1a. -/
def jitterMinutes (day : Int) : Int :=
  let hash := (dateText day).foldl
    (fun hash c => (hash ^^^ UInt64.ofNat c.toNat) * 0x00000100000001b3) 0xcbf29ce484222325
  (hash % windowJitterMinutes).toNat

/-- Whether an instant falls into the window of a zone. -/
def inWindow (zone instant : Int) : Bool :=
  let secs := instant / nanosPerSec + zone
  let hour := secs / secsPerHour % 24
  let minute := secs / secsPerMin % 60
  decide (windowStartHour ≤ hour) && decide (hour < windowEndHour) &&
    decide (jitterMinutes (secs / secsPerDay) ≤ minute)

def count (zones : List Int) (instant : Int) : Nat :=
  zones.countP fun zone => inWindow zone instant

def scanHorizonHours : Nat := 24

def scanStepMinutes : Nat := 15

/-- The steps of the scan after the first. -/
def laterSteps : List Nat :=
  (List.range (scanHorizonHours * 60 / scanStepMinutes)).map (· + 1)

/-- The instant of a step. -/
def stepAt (now : Int) (step : Nat) : Int :=
  now + (step * scanStepMinutes : Nat) * (secsPerMin * nanosPerSec)

/-- The greatest count so far and the offset of its first step in minutes. -/
def scanStep (zones : List Int) (now : Int) (best : Nat × Nat) (step : Nat) : Nat × Nat :=
  let count := count zones (stepAt now step)
  if best.1 < count then (count, step * scanStepMinutes) else best

/-- How many minutes to wait. -/
def waitUntilBestWindow (zones : List Int) (now : Int) : Nat :=
  if zones = [] then 0
  else ((0 :: laterSteps).foldl (scanStep zones now) (0, 0)).2

/-! ## The task -/

/-- `WINDOW_POLL` -/
def windowPoll : Int := 15 * 60 * nanosPerSec

def passDedupSecs : Nat := 20 * 3600

def epochSecs (instant : Int) : Nat := (instant / nanosPerSec).toNat

def shouldFire (inWindow windowClosing allIdle : Bool) : Bool :=
  inWindow && (allIdle || windowClosing)

/-- A poll of the task: whether it fires, and the epoch of the last pass. -/
def poll (zones : List Int) (lastPass : Nat) (now : Int) (allIdle : Bool) : Bool × Nat :=
  if passDedupSecs ≤ epochSecs now - lastPass then
    let inWindow := waitUntilBestWindow zones now == 0
    let windowClosing :=
      inWindow && !allIdle && waitUntilBestWindow zones (now + windowPoll) != 0
    if shouldFire inWindow windowClosing allIdle then (true, epochSecs now)
    else (false, lastPass)
  else (false, lastPass)

/-- The polls of the task and whether all agents are idle at each: a sleep takes no less than
its time and less than a minute more. -/
structure Schedule where
  instant : Nat → Int
  idle : Nat → Bool
  apart : ∀ k, instant k + windowPoll ≤ instant (k + 1)
  drift : ∀ k, instant (k + 1) < instant k + windowPoll + secsPerMin * nanosPerSec

section Run

variable (zones : List Int)
variable (schedule : Schedule)

/-- The epoch of the last pass before a poll; there is none at the start. -/
def lastPass : Nat → Nat
  | 0 => 0
  | k + 1 => (poll zones (lastPass k) (schedule.instant k) (schedule.idle k)).2

/-- Whether a poll fires a pass. -/
def fires (k : Nat) : Bool :=
  (poll zones (lastPass zones schedule k) (schedule.instant k) (schedule.idle k)).1

/-- No pass fired in the last `passDedupSecs` before a poll. -/
def Rested (k : Nat) : Prop :=
  passDedupSecs ≤ epochSecs (schedule.instant k) ∧
    ∀ l < k, fires zones schedule l = true →
      epochSecs (schedule.instant l) + passDedupSecs ≤ epochSecs (schedule.instant k)

end Run

/-- A best window: the instants from its opening to its close at which there is nothing to wait
for, and no more of them around it. -/
structure BestWindow (zones : List Int) (opening close : Int) : Prop where
  inside : ∀ instant, opening ≤ instant → instant < close →
    waitUntilBestWindow zones instant = 0
  before : waitUntilBestWindow zones (opening - 1) ≠ 0
  after : waitUntilBestWindow zones close ≠ 0

/-- A poll falls into a window. -/
def Inside (schedule : Schedule) (opening close : Int) (k : Nat) : Prop :=
  opening ≤ schedule.instant k ∧ schedule.instant k < close

/-- The polls that fall into a window, from the first to the last of them. -/
structure PollsInside (schedule : Schedule) (opening close : Int) (first last : Nat) : Prop where
  le : first ≤ last
  inside : ∀ k, Inside schedule opening close k ↔ first ≤ k ∧ k ≤ last

/-! ## The scan -/

section Scan

variable {zones : List Int}
variable {now : Int}

/-- A scan stays at the first step as long as no later one has a greater count. -/
theorem foldl_scanStep_eq_zero_iff
    {steps : List Nat} {best : Nat × Nat}
    (hsteps : ∀ step ∈ steps, 0 < step) :
    (steps.foldl (scanStep zones now) best).2 = 0 ↔
      best.2 = 0 ∧ ∀ step ∈ steps, count zones (stepAt now step) ≤ best.1 := by
  induction steps generalizing best with
  | nil => simp
  | cons step steps ih =>
      rw [List.forall_mem_cons] at hsteps
      rw [List.foldl_cons, ih hsteps.2, List.forall_mem_cons]
      by_cases hgreater : best.1 < count zones (stepAt now step)
      · have hmoved : scanStep zones now best step =
            (count zones (stepAt now step), step * scanStepMinutes) := if_pos hgreater
        have hoffset : 0 < step * scanStepMinutes := Nat.mul_pos hsteps.1 (by decide)
        rw [hmoved]
        constructor
        · rintro ⟨hzero, -⟩
          simp only at hzero
          omega
        · rintro ⟨-, hle, -⟩
          omega
      · have hkept : scanStep zones now best step = best := if_neg hgreater
        rw [hkept]
        constructor
        · rintro ⟨hzero, hrest⟩
          exact ⟨hzero, Nat.not_lt.1 hgreater, hrest⟩
        · rintro ⟨hzero, -, hrest⟩
          exact ⟨hzero, hrest⟩

theorem pos_of_mem_laterSteps : ∀ step ∈ laterSteps, 0 < step := by decide

theorem stepAt_zero : stepAt now 0 = now := by simp [stepAt]

/-- There is nothing to wait for when no later step has more agents in their windows. -/
theorem waitUntilBestWindow_eq_zero_iff
    (hzones : zones ≠ []) :
    waitUntilBestWindow zones now = 0 ↔
      ∀ step ∈ laterSteps, count zones (stepAt now step) ≤ count zones now := by
  have hfirst : scanStep zones now (0, 0) 0 = (count zones now, 0) := by
    rw [scanStep, stepAt_zero]
    by_cases hpos : 0 < count zones now
    · exact if_pos hpos
    · have hzero : count zones now = 0 := Nat.eq_zero_of_not_pos hpos
      rw [hzero]
      rfl
  rw [waitUntilBestWindow, if_neg hzones, List.foldl_cons, hfirst,
    foldl_scanStep_eq_zero_iff pos_of_mem_laterSteps]
  simp

theorem grid_eq_range :
    0 :: laterSteps = List.range (scanHorizonHours * 60 / scanStepMinutes + 1) := by
  rw [List.range_succ_eq_map]
  rfl

theorem waitUntilBestWindow_eq_range
    (hzones : zones ≠ []) :
    waitUntilBestWindow zones now =
      ((List.range (scanHorizonHours * 60 / scanStepMinutes + 1)).foldl
        (scanStep zones now) (0, 0)).2 := by
  rw [waitUntilBestWindow, if_neg hzones, grid_eq_range]

/-- What a scan of the first `bound` steps has found: the first step of the greatest count,
unless no step has any agent in its window. -/
inductive Scanned (zones : List Int) (now : Int) (bound : Nat) : Nat × Nat → Prop
  | nothing
      (hnone : ∀ step < bound, count zones (stepAt now step) = 0) :
      Scanned zones now bound (0, 0)
  | found
      (best : Nat)
      (hbest : best < bound)
      (hpos : 0 < count zones (stepAt now best))
      (hmax : ∀ step < bound, count zones (stepAt now step) ≤ count zones (stepAt now best))
      (hfirst : ∀ step < best, count zones (stepAt now step) < count zones (stepAt now best)) :
      Scanned zones now bound (count zones (stepAt now best), best * scanStepMinutes)

/-- One more step of the scan. -/
theorem Scanned.scanStep
    {bound : Nat} {found : Nat × Nat}
    (h : Scanned zones now bound found) :
    Scanned zones now (bound + 1) (scanStep zones now found bound) := by
  by_cases hgreater : found.1 < count zones (stepAt now bound)
  · rw [MaintenanceWindow.scanStep, if_pos hgreater]
    have hbelow : ∀ step < bound,
        count zones (stepAt now step) < count zones (stepAt now bound) := by
      intro step hstep
      cases h with
      | nothing hnone =>
          rw [hnone step hstep]
          exact hgreater
      | found best _ _ hmax _ => exact (hmax step hstep).trans_lt hgreater
    refine .found bound (Nat.lt_succ_self bound) (Nat.zero_lt_of_lt hgreater) ?_ hbelow
    intro step hstep
    rcases Nat.lt_succ_iff_lt_or_eq.1 hstep with hlt | rfl
    · exact (hbelow step hlt).le
    · exact le_rfl
  · rw [MaintenanceWindow.scanStep, if_neg hgreater]
    cases h with
    | nothing hnone =>
        refine .nothing fun step hstep => ?_
        rcases Nat.lt_succ_iff_lt_or_eq.1 hstep with hlt | rfl
        · exact hnone step hlt
        · exact Nat.eq_zero_of_not_pos hgreater
    | found best hbest hpos hmax hfirst =>
        refine .found best (Nat.lt_succ_of_lt hbest) hpos (fun step hstep => ?_) hfirst
        rcases Nat.lt_succ_iff_lt_or_eq.1 hstep with hlt | rfl
        · exact hmax step hlt
        · exact Nat.not_lt.1 hgreater

theorem scanned_foldl (bound : Nat) :
    Scanned zones now bound ((List.range bound).foldl (scanStep zones now) (0, 0)) := by
  induction bound with
  | zero => exact .nothing fun step hstep => absurd hstep (Nat.not_lt_zero step)
  | succ bound ih =>
      rw [List.range_succ, List.foldl_append]
      exact ih.scanStep

/-! ### The night of a zone -/

theorem jitterMinutes_lt (day : Int) : jitterMinutes day < 30 := by
  have hlt (hash : UInt64) : ((hash % windowJitterMinutes).toNat : Int) < 30 := by
    rw [UInt64.toNat_mod]
    exact Int.ofNat_lt.2 (Nat.mod_lt _ (by decide))
  exact hlt _

theorem stepAt_div (step : Nat) :
    stepAt now step / nanosPerSec = now / nanosPerSec + 900 * step := by
  simp only [stepAt, scanStepMinutes, secsPerMin, nanosPerSec]
  push_cast
  omega

/-- The second half of the hour is in the window whatever minute it opens at. -/
theorem inWindow_of_late
    {zone instant : Int}
    (hlow : 270 ≤ (instant / nanosPerSec + zone) / 60 % 1440)
    (hhigh : (instant / nanosPerSec + zone) / 60 % 1440 < 300) :
    inWindow zone instant = true := by
  set secs := instant / nanosPerSec + zone with hsecs
  have hhour : secs / secsPerHour % 24 = 4 := by
    simp only [secsPerHour]
    omega
  have hminute : jitterMinutes (secs / secsPerDay) ≤ secs / secsPerMin % 60 := by
    have hjitter := jitterMinutes_lt (secs / secsPerDay)
    simp only [secsPerMin]
    omega
  simp [inWindow, ← hsecs, hhour, hminute, windowStartHour, windowEndHour]

/-- A day of steps of fifteen minutes falls into the second half of the hour of each zone. -/
theorem exists_step_inWindow (zone now : Int) :
    ∃ step < scanHorizonHours * 60 / scanStepMinutes + 1,
      inWindow zone (stepAt now step) = true := by
  set minute := (now / nanosPerSec + zone) / 60 with hminute
  -- the steps to the first that is at 4:30 or later
  refine ⟨(((270 - minute) % 1440 + 14) / 15).toNat, ?_, ?_⟩
  · simp only [scanHorizonHours, scanStepMinutes]
    omega
  · have hlater (step : Nat) :
        (stepAt now step / nanosPerSec + zone) / 60 = minute + 15 * step := by
      rw [stepAt_div]
      omega
    refine inWindow_of_late ?_ ?_ <;> rw [hlater] <;> omega

end Scan

/-- The instant that the task waits for. -/
def chosenInstant (zones : List Int) (now : Int) : Int :=
  now + waitUntilBestWindow zones now * (secsPerMin * nanosPerSec)

/-- The wait is a day at most, some agent is in its window after it, no step of the scan has
more agents in theirs, and every earlier step has fewer. -/
theorem chosenInstant_best
    (zones : List Int)
    (now : Int)
    (hzones : zones ≠ []) :
    waitUntilBestWindow zones now ≤ 24 * 60 ∧
      (∃ zone ∈ zones, inWindow zone (chosenInstant zones now) = true) ∧
      (∃ step ∈ 0 :: laterSteps, stepAt now step = chosenInstant zones now) ∧
      (∀ step ∈ 0 :: laterSteps,
        count zones (stepAt now step) ≤ count zones (chosenInstant zones now)) ∧
      ∀ step ∈ 0 :: laterSteps, stepAt now step < chosenInstant zones now →
        count zones (stepAt now step) < count zones (chosenInstant zones now) := by
  have hgrid : ∀ step, step ∈ 0 :: laterSteps ↔
      step < scanHorizonHours * 60 / scanStepMinutes + 1 := by
    intro step
    rw [grid_eq_range, List.mem_range]
  have hwait := @waitUntilBestWindow_eq_range zones now hzones
  have hscan := @scanned_foldl zones now (scanHorizonHours * 60 / scanStepMinutes + 1)
  generalize (List.range (scanHorizonHours * 60 / scanStepMinutes + 1)).foldl
    (scanStep zones now) (0, 0) = found at hwait hscan
  cases hscan with
  | nothing hnone =>
      obtain ⟨zone, hzone⟩ := List.exists_mem_of_ne_nil zones hzones
      obtain ⟨step, hstep, hinside⟩ := exists_step_inWindow zone now
      have hpos : 0 < count zones (stepAt now step) :=
        List.countP_pos_iff.2 ⟨zone, hzone, hinside⟩
      rw [hnone step hstep] at hpos
      exact absurd hpos (Nat.lt_irrefl 0)
  | found best hbest hpos hmax hfirst =>
      have hchosen : chosenInstant zones now = stepAt now best := by
        rw [chosenInstant, hwait, stepAt]
      rw [hchosen]
      refine ⟨?_, List.countP_pos_iff.1 hpos, ⟨best, (hgrid best).2 hbest, rfl⟩,
        fun step hstep => hmax step ((hgrid step).1 hstep), fun step _ hearlier => ?_⟩
      · rw [hwait]
        simp only [scanHorizonHours, scanStepMinutes] at hbest ⊢
        omega
      · refine hfirst step ?_
        simp only [stepAt, scanStepMinutes, secsPerMin, nanosPerSec] at hearlier
        omega

/-- Two agents at UTC and one in New York on the first of January 2026. -/
theorem chosenInstant_best_winter :
    let midnight := 20454 * secsPerDay * nanosPerSec
    waitUntilBestWindow [0, 0, -18000] midnight = 270 ∧
      ∃ zone ∈ [0, 0, -18000],
        inWindow zone (chosenInstant [0, 0, -18000] midnight) = true :=
  ⟨by decide +kernel, (chosenInstant_best [0, 0, -18000] _ (by decide)).2.1⟩

/-! ## Passes -/

section Passes

variable {zones : List Int}
variable {schedule : Schedule}

theorem Schedule.instant_lt_succ (k : Nat) : schedule.instant k < schedule.instant (k + 1) := by
  have h := schedule.apart k
  have hpoll : 0 < windowPoll := by decide
  omega

theorem Schedule.instant_mono
    {k l : Nat}
    (h : k ≤ l) :
    schedule.instant k ≤ schedule.instant l := by
  induction h with
  | refl => exact le_rfl
  | step _ ih => exact ih.trans (schedule.instant_lt_succ _).le

theorem epochSecs_mono
    {a b : Int}
    (h : a ≤ b) :
    epochSecs a ≤ epochSecs b :=
  Int.toNat_le_toNat (Int.ediv_le_ediv (by decide) h)

/-- A poll fires in the window when the last pass is long ago and all agents are idle or the
window is over at the time that the next poll is expected. -/
theorem fires_iff
    {k : Nat} :
    fires zones schedule k = true ↔
      passDedupSecs ≤ epochSecs (schedule.instant k) - lastPass zones schedule k ∧
        waitUntilBestWindow zones (schedule.instant k) = 0 ∧
        (schedule.idle k = true ∨
          waitUntilBestWindow zones (schedule.instant k + windowPoll) ≠ 0) := by
  rw [fires, poll]
  by_cases hdedup : passDedupSecs ≤ epochSecs (schedule.instant k) - lastPass zones schedule k
  · rw [if_pos hdedup]
    cases hidle : schedule.idle k <;>
      by_cases hwindow : waitUntilBestWindow zones (schedule.instant k) = 0 <;>
      by_cases hclosing : waitUntilBestWindow zones (schedule.instant k + windowPoll) = 0 <;>
      simp [shouldFire, hdedup, hwindow, hclosing]
  · rw [if_neg hdedup]
    simp [hdedup]

theorem lastPass_succ
    (k : Nat) :
    lastPass zones schedule (k + 1) =
      if fires zones schedule k then epochSecs (schedule.instant k)
      else lastPass zones schedule k := by
  rw [lastPass, fires, poll]
  split
  · simp only
    split <;> rfl
  · rfl

/-- The last pass is one that fired before, or none. -/
theorem lastPass_eq (k : Nat) :
    lastPass zones schedule k = 0 ∨
      ∃ l < k, fires zones schedule l = true ∧
        lastPass zones schedule k = epochSecs (schedule.instant l) := by
  induction k with
  | zero => exact .inl rfl
  | succ k ih =>
      rw [lastPass_succ]
      split
      · rename_i hfires
        exact .inr ⟨k, Nat.lt_succ_self k, hfires, rfl⟩
      · rcases ih with hzero | ⟨l, hl, hfires, heq⟩
        · exact .inl hzero
        · exact .inr ⟨l, Nat.lt_succ_of_lt hl, hfires, heq⟩

/-- The last pass is no earlier than any pass before. -/
theorem epochSecs_le_lastPass
    {k l : Nat}
    (hkl : k < l)
    (hfires : fires zones schedule k = true) :
    epochSecs (schedule.instant k) ≤ lastPass zones schedule l := by
  induction l with
  | zero => exact absurd hkl (Nat.not_lt_zero k)
  | succ l ih =>
      rw [lastPass_succ]
      rcases Nat.lt_succ_iff_lt_or_eq.1 hkl with hlt | rfl
      · split
        · exact epochSecs_mono (schedule.instant_mono hlt.le)
        · exact ih hlt
      · rw [if_pos hfires]

/-- Two passes are at least `passDedupSecs` apart. -/
theorem passes_apart
    {k l : Nat}
    (hkl : k < l)
    (hk : fires zones schedule k = true)
    (hl : fires zones schedule l = true) :
    epochSecs (schedule.instant k) + passDedupSecs ≤ epochSecs (schedule.instant l) := by
  have hlast := epochSecs_le_lastPass hkl hk
  have hdedup := (fires_iff.1 hl).1
  have hpos : 0 < passDedupSecs := by decide
  omega

/-- While no pass fires, the task stays rested. -/
theorem rested_of_no_pass
    {first k : Nat}
    (hrested : Rested zones schedule first)
    (hle : first ≤ k)
    (hnone : ∀ l, first ≤ l → l < k → fires zones schedule l ≠ true) :
    passDedupSecs ≤ epochSecs (schedule.instant k) - lastPass zones schedule k := by
  obtain ⟨hstart, hpasses⟩ := hrested
  have hmono := epochSecs_mono (schedule.instant_mono hle)
  rcases @lastPass_eq zones schedule k with hzero | ⟨l, hl, hfires, heq⟩
  · omega
  · have hbefore : l < first := by
      by_contra hge
      exact hnone l (Nat.not_lt.1 hge) hl hfires
    have hpass := hpasses l hbefore hfires
    omega

end Passes

/-! ## A pass in the window -/

section InWindow

variable {zones : List Int}
variable {schedule : Schedule}
variable {opening close : Int}

theorem Schedule.add_le_instant (k n : Nat) :
    schedule.instant k + n ≤ schedule.instant (k + n) := by
  induction n with
  | zero => simp
  | succ n ih =>
      have hlt := @Schedule.instant_lt_succ schedule (k + n)
      rw [← Nat.add_assoc]
      push_cast
      omega

/-- The polls in a window are those from a first to a last one, if there are any. -/
theorem exists_pollsInside
    (hsome : ∃ k, Inside schedule opening close k) :
    ∃ first last, PollsInside schedule opening close first last := by
  classical
  have hover : ∃ n, close ≤ schedule.instant (Nat.find hsome + n) := by
    refine ⟨(close - schedule.instant (Nat.find hsome)).toNat, ?_⟩
    have hle := @Schedule.add_le_instant schedule (Nat.find hsome)
      (close - schedule.instant (Nat.find hsome)).toNat
    omega
  set first := Nat.find hsome with hfirst
  have hinside : Inside schedule opening close first := Nat.find_spec hsome
  set more := Nat.find hover with hmore
  have hclose : close ≤ schedule.instant (first + more) := Nat.find_spec hover
  have hpos : 0 < more := by
    by_contra hzero
    have heq : more = 0 := Nat.eq_zero_of_not_pos hzero
    rw [heq, Nat.add_zero] at hclose
    exact absurd hinside.2 (Int.not_lt.2 hclose)
  have hbefore : schedule.instant (first + more - 1) < close := by
    have hmin := Nat.find_min hover (m := more - 1) (by omega)
    have heq : first + (more - 1) = first + more - 1 := by omega
    rw [heq] at hmin
    exact Int.not_le.1 hmin
  refine ⟨first, first + more - 1, ⟨by omega, fun k => ⟨fun hk => ⟨?_, ?_⟩, fun hk => ⟨?_, ?_⟩⟩⟩⟩
  · exact Nat.find_min' hsome hk
  · by_contra hgt
    have hle : schedule.instant (first + more) ≤ schedule.instant k :=
      schedule.instant_mono (by omega)
    have hlt := hk.2
    omega
  · exact hinside.1.trans (schedule.instant_mono hk.1)
  · exact (schedule.instant_mono hk.2).trans_lt hbefore

theorem fires_in_window_iff
    (hwindow : BestWindow zones opening close)
    {first last : Nat}
    (hpolls : PollsInside schedule opening close first last)
    (hrested : Rested zones schedule first) :
    (∃ k, Inside schedule opening close k ∧ fires zones schedule k = true) ↔
      (∃ k, Inside schedule opening close k ∧ schedule.idle k = true) ∨
        waitUntilBestWindow zones (schedule.instant last + windowPoll) ≠ 0 := by
  have hlast : Inside schedule opening close last := (hpolls.inside last).2 ⟨hpolls.le, le_rfl⟩
  constructor
  · rintro ⟨k, hk, hfires⟩
    obtain ⟨-, -, hidle | hclosing⟩ := fires_iff.1 hfires
    · exact .inl ⟨k, hk, hidle⟩
    · rcases Nat.lt_or_eq_of_le ((hpolls.inside k).1 hk).2 with hlt | rfl
      · -- fifteen minutes later the next poll in the window has not come yet
        exfalso
        have hnext := schedule.apart k
        have hmono : schedule.instant (k + 1) ≤ schedule.instant last :=
          schedule.instant_mono hlt
        have hpoll : 0 < windowPoll := by decide
        have hopening := hk.1
        have hclose := hlast.2
        exact hclosing (hwindow.inside _ (by omega) (by omega))
      · exact .inr hclosing
  · intro hcondition
    by_contra hnone
    have hdedup {k : Nat} (hk : Inside schedule opening close k) :
        passDedupSecs ≤ epochSecs (schedule.instant k) - lastPass zones schedule k := by
      obtain ⟨hfirst, hle⟩ := (hpolls.inside k).1 hk
      refine rested_of_no_pass hrested hfirst fun l hl hlk hfires => hnone ⟨l, ?_, hfires⟩
      exact (hpolls.inside l).2 ⟨hl, hlk.le.trans hle⟩
    have hnow {k : Nat} (hk : Inside schedule opening close k) :
        waitUntilBestWindow zones (schedule.instant k) = 0 :=
      hwindow.inside _ hk.1 hk.2
    rcases hcondition with ⟨k, hk, hidle⟩ | hclosing
    · exact hnone ⟨k, hk, fires_iff.2 ⟨hdedup hk, hnow hk, .inl hidle⟩⟩
    · exact hnone ⟨last, hlast, fires_iff.2 ⟨hdedup hlast, hnow hlast, .inr hclosing⟩⟩

end InWindow

/-- A task that is rested when it first polls in a best window fires a pass in it if and only
if some poll in it finds all agents idle, or fifteen minutes after its last poll is in no best
window; and two passes are at least `passDedupSecs` apart. -/
theorem pass_in_window_iff
    (zones : List Int)
    (schedule : Schedule)
    (opening close : Int)
    (hwindow : BestWindow zones opening close)
    (hsome : ∃ k, Inside schedule opening close k)
    (hrested : ∀ k, Inside schedule opening close k →
      (∀ l < k, ¬ Inside schedule opening close l) → Rested zones schedule k) :
    ((∃ k, Inside schedule opening close k ∧ fires zones schedule k = true) ↔
        (∃ k, Inside schedule opening close k ∧ schedule.idle k = true) ∨
          ∃ k, Inside schedule opening close k ∧ ¬ Inside schedule opening close (k + 1) ∧
            waitUntilBestWindow zones (schedule.instant k + windowPoll) ≠ 0) ∧
      ∀ k l, k < l → fires zones schedule k = true → fires zones schedule l = true →
        epochSecs (schedule.instant k) + passDedupSecs ≤ epochSecs (schedule.instant l) := by
  obtain ⟨first, last, hpolls⟩ := exists_pollsInside hsome
  have hfirst : Rested zones schedule first := by
    refine hrested first ((hpolls.inside first).2 ⟨le_rfl, hpolls.le⟩) fun l hl hinside => ?_
    exact absurd ((hpolls.inside l).1 hinside).1 (Nat.not_le.2 hl)
  refine ⟨?_, fun k l => passes_apart⟩
  rw [fires_in_window_iff hwindow hpolls hfirst]
  refine or_congr_right ⟨fun hclosing => ?_, ?_⟩
  · refine ⟨last, (hpolls.inside last).2 ⟨hpolls.le, le_rfl⟩, fun hinside => ?_, hclosing⟩
    exact absurd ((hpolls.inside (last + 1)).1 hinside).2 (Nat.not_succ_le_self last)
  · rintro ⟨k, hinside, hnext, hclosing⟩
    have hlast : k = last := by
      obtain ⟨hk, hle⟩ := (hpolls.inside k).1 hinside
      by_contra hne
      exact hnext ((hpolls.inside (k + 1)).2 ⟨by omega, by omega⟩)
    exact hlast ▸ hclosing

/-! ### A poll too late -/

/-- The first of January 2026 in seconds. -/
def newYear : Int := 20454 * secsPerDay

/-- The window of that night at UTC, from 4:19 to 5:00. -/
def newYearOpening : Int := (newYear + 4 * secsPerHour + 19 * secsPerMin) * nanosPerSec

def newYearClose : Int := (newYear + 5 * secsPerHour) * nanosPerSec

theorem jitterMinutes_newYear : jitterMinutes 20454 = 19 := by decide +kernel

theorem inWindow_newYear
    {instant : Int}
    (hopening : newYearOpening ≤ instant)
    (hclose : instant < newYearClose) :
    inWindow 0 instant = true := by
  simp only [newYearOpening, newYearClose, newYear, secsPerDay, secsPerHour, secsPerMin,
    nanosPerSec] at hopening hclose
  obtain ⟨secs, hsecs, hlow, hhigh⟩ : ∃ secs, instant / nanosPerSec + 0 = secs ∧
      1767241140 ≤ secs ∧ secs < 1767243600 := by
    refine ⟨_, rfl, ?_, ?_⟩
    · simp only [nanosPerSec]
      omega
    · simp only [nanosPerSec]
      omega
  have hday : secs / secsPerDay = 20454 := by
    simp only [secsPerDay]
    omega
  have hhour : secs / secsPerHour % 24 = 4 := by
    simp only [secsPerHour]
    omega
  have hminute : 19 ≤ secs / secsPerMin % 60 := by
    simp only [secsPerMin]
    omega
  simp [inWindow, hsecs, hday, hhour, jitterMinutes_newYear, hminute, windowStartHour,
    windowEndHour]

theorem bestWindow_newYear : BestWindow [0] newYearOpening newYearClose := by
  constructor
  · intro instant hopening hclose
    rw [waitUntilBestWindow_eq_zero_iff (by decide)]
    intro step _
    have hone : count [0] instant = 1 := by
      simp [count, inWindow_newYear hopening hclose]
    rw [hone]
    exact List.countP_le_length
  · decide +kernel
  · decide +kernel

/-- A poll every fifteen minutes and twenty seconds from 4:29:30 of that night on. -/
def lateSchedule (idle : Bool) : Schedule where
  instant k :=
    (newYear + 4 * secsPerHour + 29 * secsPerMin + 30 + 920 * (k : Int)) * nanosPerSec
  idle _ := idle
  apart k := by
    simp only [newYear, secsPerDay, secsPerHour, secsPerMin, nanosPerSec, windowPoll]
    push_cast
    omega
  drift k := by
    simp only [newYear, secsPerDay, secsPerHour, secsPerMin, nanosPerSec, windowPoll]
    push_cast
    omega

theorem inside_lateSchedule
    {idle : Bool} {k : Nat} :
    Inside (lateSchedule idle) newYearOpening newYearClose k ↔ k ≤ 1 := by
  simp only [Inside, lateSchedule, newYearOpening, newYearClose, newYear, secsPerDay,
    secsPerHour, secsPerMin, nanosPerSec]
  omega

theorem rested_lateSchedule
    {idle : Bool} :
    Rested [0] (lateSchedule idle) 0 := by
  refine ⟨?_, fun l hl => absurd hl (Nat.not_lt_zero l)⟩
  cases idle <;> decide +kernel

/-- With busy agents no poll of that night fires: the one at 4:44:50 expects the next at
4:59:50, and it comes at 5:00:10. -/
theorem late_poll_skips_window :
    BestWindow [0] newYearOpening newYearClose ∧
      Inside (lateSchedule false) newYearOpening newYearClose 0 ∧
      Rested [0] (lateSchedule false) 0 ∧
      ¬ ∃ k, Inside (lateSchedule false) newYearOpening newYearClose k ∧
        fires [0] (lateSchedule false) k = true := by
  refine ⟨bestWindow_newYear, inside_lateSchedule.2 (by decide), rested_lateSchedule, ?_⟩
  rintro ⟨k, hk, hfires⟩
  have hle := inside_lateSchedule.1 hk
  have hnone : ∀ k ≤ 1, fires [0] (lateSchedule false) k = false := by decide +kernel
  rw [hnone k hle] at hfires
  cases hfires

/-- With idle agents that night has its pass. -/
theorem pass_in_window_newYear :
    ∃ k, Inside (lateSchedule true) newYearOpening newYearClose k ∧
      fires [0] (lateSchedule true) k = true := by
  have hfirst : ∀ k, Inside (lateSchedule true) newYearOpening newYearClose k →
      (∀ l < k, ¬ Inside (lateSchedule true) newYearOpening newYearClose l) →
        Rested [0] (lateSchedule true) k := by
    intro k _ hnone
    have hzero : k = 0 := by
      by_contra hne
      exact hnone 0 (Nat.pos_of_ne_zero hne) (inside_lateSchedule.2 (by decide))
    rw [hzero]
    exact rested_lateSchedule
  have hinside : Inside (lateSchedule true) newYearOpening newYearClose 0 :=
    inside_lateSchedule.2 (by decide)
  exact (pass_in_window_iff [0] (lateSchedule true) newYearOpening newYearClose
    bestWindow_newYear ⟨0, hinside⟩ hfirst).1.2 (.inl ⟨0, hinside, rfl⟩)

end MaintenanceWindow
end Vestad
end Vesta
