import Vesta.EmailClient.Recurrence
import Mathlib.Data.List.Sort
import Mathlib.Data.Option.Basic

/-!
# What the expansion of a recurring event lists

The candidates of a period lie on the days between the starts of the period and of the next,
at the time of day of the event.  So the occurrences ascend, and the periods that the
expansion skips name nothing within a day of its window, whatever the offsets of the zone.
-/

namespace Vesta
namespace EmailClient

open Lib.Civil

section Calendar

theorem dayLength_pos : 0 < dayLength := by decide

theorem ordinal_pos (date : Date) : 1 ≤ date.ordinal := by
  have hfirst : firstOfMonth 12 = 1 := by decide
  have hindex : (12 : Int) ≤ date.monthIndex := by
    have hyear := date.year_pos
    have hmonth := date.month_pos
    rw [Date.monthIndex]
    omega
  have hle := Lib.Civil.firstOfMonth_le hindex
  have hdate := date.firstOfMonth_le
  omega

theorem ordinal_le_max (date : Date) : date.ordinal ≤ maxOrdinal := by
  have hlast : firstOfMonth 120000 = maxOrdinal + 1 := by decide
  have hindex : date.monthIndex + 1 ≤ 120000 := by
    have hyear := date.year_le
    have hmonth := date.month_le
    rw [Date.monthIndex]
    omega
  have hle := Lib.Civil.firstOfMonth_le hindex
  have hdate := date.ordinal_lt
  omega

theorem daysInMonth_eq
    {year month limit : Int}
    (hpos : 1 ≤ month)
    (hle : month ≤ 12)
    (h : daysInMonth year month = some limit) :
    limit = monthLength year month := by
  rw [daysInMonth] at h
  split at h
  · have hindex : year * 12 + (month - 1) + 1 = (year * 12 + (month - 1) + 1) / 12 * 12 +
        ((year * 12 + (month - 1) + 1) % 12 + 1 - 1) := by omega
    have hnext : ordinal ((year * 12 + (month - 1) + 1) / 12)
        ((year * 12 + (month - 1) + 1) % 12 + 1) 1 = _ := ordinal_eq (by omega) (by omega) 1
    have hsucc := firstOfMonth_succ (year * 12 + (month - 1))
    have hyear : (year * 12 + (month - 1)) / 12 = year := by omega
    have hmonth : (year * 12 + (month - 1)) % 12 + 1 = month := by omega
    rw [hyear, hmonth] at hsucc
    have hfirst : ordinal year month 1 = _ := ordinal_eq hpos hle 1
    rw [← hindex] at hnext
    simp only [shiftMonth, Option.some.injEq] at h
    omega
  · cases h

end Calendar

section Lists

theorem mapM_eq_map
    {α β : Type}
    {f : α → Option β}
    {g : α → β}
    {items : List α}
    {results : List β}
    (hf : ∀ item ∈ items, ∀ result, f item = some result → result = g item)
    (h : items.mapM f = some results) :
    results = items.map g := by
  induction items generalizing results with
  | nil =>
      cases h
      rfl
  | cons item items ih =>
      simp only [List.mapM_cons, Option.bind_eq_bind, Option.pure_def, Option.bind_eq_some_iff,
        Option.some.injEq] at h
      obtain ⟨result, hresult, rest, hrest, rfl⟩ := h
      rw [List.map_cons, hf item List.mem_cons_self result hresult,
        ih (fun other hother => hf other (List.mem_cons_of_mem _ hother)) hrest]

end Lists

/-- A time on one of the days from `lo` to before `hi`, at the time of day of an event. -/
def OnDay (base : Naive) (lo hi start : Int) : Prop :=
  ∃ day, start = day * dayLength + base.time ∧ lo ≤ day ∧ day < hi

/-- Ascending times on such days. -/
structure OnDays (base : Naive) (lo hi : Int) (starts : List Int) : Prop where
  ascending : starts.Pairwise (· < ·)
  day : ∀ start ∈ starts, OnDay base lo hi start

section Days

variable {base : Naive} {lo mid hi start later : Int} {starts more : List Int}

theorem OnDay.lt
    (hstart : OnDay base lo mid start)
    (hlater : OnDay base mid hi later) :
    start < later := by
  obtain ⟨day, rfl, -, hday⟩ := hstart
  obtain ⟨laterDay, rfl, hlater, -⟩ := hlater
  simp only [dayLength]
  omega

/-- Two times of an event lie a day apart. -/
theorem OnDay.add_dayLength_le
    {lo' hi' : Int}
    (hstart : OnDay base lo hi start)
    (hlater : OnDay base lo' hi' later)
    (h : start < later) :
    start + dayLength ≤ later := by
  obtain ⟨day, rfl, -, -⟩ := hstart
  obtain ⟨laterDay, rfl, -, -⟩ := hlater
  simp only [dayLength] at h ⊢
  omega

theorem OnDay.weaken
    {lo' hi' : Int}
    (h : OnDay base lo hi start)
    (hlo : lo' ≤ lo)
    (hhi : hi ≤ hi') :
    OnDay base lo' hi' start := by
  obtain ⟨day, hday, hmin, hmax⟩ := h
  exact ⟨day, hday, by omega, by omega⟩

theorem OnDays.weaken
    {lo' hi' : Int}
    (h : OnDays base lo hi starts)
    (hlo : lo' ≤ lo)
    (hhi : hi ≤ hi') :
    OnDays base lo' hi' starts :=
  ⟨h.ascending, fun start hstart => (h.day start hstart).weaken hlo hhi⟩

theorem OnDays.nil : OnDays base lo hi [] := ⟨List.Pairwise.nil, fun _ h => absurd h List.not_mem_nil⟩

theorem OnDays.single (h : OnDay base lo hi start) : OnDays base lo hi [start] :=
  ⟨List.pairwise_singleton _ _, fun _ hother => List.mem_singleton.1 hother ▸ h⟩

theorem OnDays.append
    (h : OnDays base lo mid starts)
    (hmore : OnDays base mid hi more)
    (hlo : lo ≤ mid)
    (hhi : mid ≤ hi) :
    OnDays base lo hi (starts ++ more) where
  ascending := List.pairwise_append.2 ⟨h.ascending, hmore.ascending,
    fun start hstart later hlater => (h.day start hstart).lt (hmore.day later hlater)⟩
  day start hstart := (List.mem_append.1 hstart).elim
    (fun hmem => (h.day start hmem).weaken (Int.le_refl lo) hhi)
    (fun hmem => (hmore.day start hmem).weaken hlo (Int.le_refl hi))

theorem OnDays.filter
    (h : OnDays base lo hi starts)
    (p : Int → Bool) :
    OnDays base lo hi (starts.filter p) :=
  ⟨h.ascending.filter p, fun start hstart => h.day start (List.mem_of_mem_filter hstart)⟩

/-- Ascending days. -/
theorem OnDays.map
    {days : List Int}
    {toDay : Int → Int}
    (hdays : days.Pairwise (· < ·))
    (hmono : ∀ day later, day < later → toDay day < toDay later)
    (hrange : ∀ day ∈ days, lo ≤ toDay day ∧ toDay day < hi) :
    OnDays base lo hi (days.map fun day => toDay day * dayLength + base.time) where
  ascending := List.pairwise_map.2 (hdays.imp fun {day later} hlt => by
    have hday := hmono day later hlt
    simp only [dayLength]
    omega)
  day start hstart := by
    obtain ⟨day, hday, rfl⟩ := List.mem_map.1 hstart
    exact ⟨toDay day, rfl, hrange day hday⟩

end Days

section Candidates

variable {rule : Rule} {base : Naive} {year month : Int} {starts : List Int}

theorem pickOrdinal_subset (nth : Option Int) (found : List Int) :
    ∀ day ∈ pickOrdinal nth found, day ∈ found := by
  intro day hday
  unfold pickOrdinal at hday
  split at hday
  · exact hday
  · split at hday
    · exact List.mem_of_getElem? (Option.mem_toList.1 hday)
    · split at hday
      · exact List.mem_of_getElem? (Option.mem_toList.1 hday)
      · cases hday

theorem pickPosition_subset (candidates : List Int) (pos : Int) :
    ∀ start ∈ pickPosition candidates pos, start ∈ candidates := by
  intro start hstart
  unfold pickPosition at hstart
  extract_lets index at hstart
  split at hstart
  · exact List.mem_of_getElem? (Option.mem_toList.1 hstart)
  · cases hstart

theorem OnDays.applyBysetpos
    {lo hi : Int}
    (h : OnDays base lo hi starts) :
    OnDays base lo hi (EmailClient.applyBysetpos rule starts) := by
  rw [EmailClient.applyBysetpos]
  split
  · exact h
  · refine ⟨(Finset.sortedLT_sort _).pairwise, fun start hstart => ?_⟩
    rw [Finset.mem_sort, List.mem_toFinset] at hstart
    obtain ⟨pos, -, hpos⟩ := List.mem_flatMap.1 hstart
    exact h.day start (pickPosition_subset starts pos start hpos)

/-- The days of a month lie in the month. -/
theorem monthDays_spec
    {days : List Int}
    (hpos : 1 ≤ month)
    (hle : month ≤ 12)
    (h : monthDays rule base year month = some days) :
    days.Pairwise (· < ·) ∧ ∀ day ∈ days, 1 ≤ day ∧ day ≤ monthLength year month := by
  obtain ⟨limit, hlimit, rfl⟩ := Option.map_eq_some_iff.1 h
  have hlength := daysInMonth_eq hpos hle hlimit
  subst hlength
  split
  · refine ⟨(Finset.sortedLT_sort _).pairwise, fun day hday => ?_⟩
    rw [Finset.mem_sort, List.mem_toFinset, List.mem_filter] at hday
    exact of_decide_eq_true hday.2
  · refine ⟨(Finset.sortedLT_sort _).pairwise, fun day hday => ?_⟩
    rw [Finset.mem_sort, List.mem_toFinset] at hday
    obtain ⟨spec, -, hspec⟩ := List.mem_flatMap.1 hday
    have hmem := List.mem_of_mem_filter (pickOrdinal_subset _ _ day hspec)
    obtain ⟨number, hnumber, rfl⟩ := List.mem_map.1 hmem
    rw [List.mem_range] at hnumber
    omega

theorem combine_eq
    {day start : Int}
    (h : combine base year month day = some start) :
    start = ordinal year month day * dayLength + base.time := by
  rw [combine] at h
  split at h
  · exact (Option.some.inj h).symm
  · cases h

theorem plusDays_eq
    {stamp days start : Int}
    (h : plusDays stamp days = some start) :
    start = stamp + days * dayLength := by
  simp only [plusDays] at h
  split at h
  · exact (Option.some.inj h).symm
  · cases h

theorem onDays_monthCandidates
    (hpos : 1 ≤ month)
    (hle : month ≤ 12)
    (h : monthCandidates rule base year month = some starts) :
    OnDays base (firstOfMonth (year * 12 + (month - 1)))
      (firstOfMonth (year * 12 + (month - 1) + 1)) starts := by
  obtain ⟨days, hdays, hstarts⟩ := Option.bind_eq_some_iff.1 h
  obtain ⟨hascending, hrange⟩ := monthDays_spec hpos hle hdays
  rw [mapM_eq_map (fun day _ start => combine_eq) hstarts]
  refine OnDays.map hascending (fun day later hlt => ?_) fun day hday => ⟨?_, ?_⟩
  · rw [ordinal_eq hpos hle, ordinal_eq hpos hle]
    omega
  · have hday := (hrange day hday).1
    rw [ordinal_eq hpos hle]
    omega
  · exact ordinal_lt_next hpos hle (hrange day hday).2

/-- The candidates of ascending months ascend. -/
theorem onDays_months
    {months : List Int}
    {lo : Int}
    {found : List (List Int)}
    (hmonths : months.Pairwise (· < ·))
    (hrange : ∀ month ∈ months, lo < month ∧ month ≤ 12)
    (hlo : 0 ≤ lo)
    (hhi : lo ≤ 12)
    (h : months.mapM (monthCandidates rule base year) = some found) :
    OnDays base (firstOfMonth (year * 12 + lo)) (firstOfMonth (year * 12 + 12))
      found.flatten := by
  induction months generalizing lo found with
  | nil =>
      cases h
      exact OnDays.nil
  | cons month months ih =>
      simp only [List.mapM_cons, Option.bind_eq_bind, Option.pure_def, Option.bind_eq_some_iff,
        Option.some.injEq] at h
      obtain ⟨starts, hstarts, rest, hrest, rfl⟩ := h
      obtain ⟨hfirst, hmonths⟩ := List.pairwise_cons.1 hmonths
      obtain ⟨hlt, hle⟩ := hrange month List.mem_cons_self
      have hmonth := onDays_monthCandidates (by omega) hle hstarts
      have hothers : OnDays base (firstOfMonth (year * 12 + month)) (firstOfMonth (year * 12 + 12))
          rest.flatten :=
        ih hmonths
          (fun other hother =>
            ⟨hfirst other hother, (hrange other (List.mem_cons_of_mem _ hother)).2⟩)
          (by omega) hle hrest
      have hend : year * 12 + (month - 1) + 1 = year * 12 + month := by omega
      rw [hend] at hmonth
      rw [List.flatten_cons]
      exact (hmonth.weaken (firstOfMonth_le (by omega)) (Int.le_refl _)).append hothers
        (firstOfMonth_le (by omega)) (firstOfMonth_le (by omega))

theorem onDay_yearDay
    {month day start : Int}
    (hpos : 1 ≤ month)
    (hle : month ≤ 12)
    (hday : 1 ≤ day)
    (hmax : day ≤ monthLength year month)
    (h : combine base year month day = some start) :
    OnDay base (firstOfMonth (year * 12)) (firstOfMonth (year * 12 + 12)) start := by
  refine ⟨ordinal year month day, combine_eq h, ?_, ?_⟩
  · have hfirst : firstOfMonth (year * 12) ≤ firstOfMonth (year * 12 + (month - 1)) :=
      firstOfMonth_le (by omega)
    rw [ordinal_eq hpos hle]
    omega
  · have hnext := ordinal_lt_next hpos hle hmax
    have hlast : firstOfMonth (year * 12 + (month - 1) + 1) ≤ firstOfMonth (year * 12 + 12) :=
      firstOfMonth_le (by omega)
    omega

theorem onDays_yearCandidates (h : yearCandidates rule base year = some starts) :
    OnDays base (firstOfMonth (year * 12)) (firstOfMonth (year * 12 + 12)) starts := by
  have hmin := base.date.month_pos
  have hmax := base.date.month_le
  rw [yearCandidates] at h
  split at h
  · obtain ⟨found, hfound, rfl⟩ := Option.map_eq_some_iff.1 h
    have hmonths : OnDays base (firstOfMonth (year * 12 + 0)) (firstOfMonth (year * 12 + 12))
        found.flatten := by
      refine onDays_months ((Finset.sortedLT_sort _).pairwise.filter _) (fun month hmonth => ?_)
        (Int.le_refl 0) (by decide) hfound
      have hmem := of_decide_eq_true (List.mem_filter.1 hmonth).2
      omega
    rwa [Int.add_zero] at hmonths
  · split at h
    · obtain ⟨limit, hlimit, h⟩ := Option.bind_eq_some_iff.1 h
      have hlength := daysInMonth_eq (by decide) (by decide) hlimit
      subst hlength
      split at h
      · cases h
        exact OnDays.nil
      · obtain ⟨start, hstart, rfl⟩ := Option.map_eq_some_iff.1 h
        exact OnDays.single (onDay_yearDay (by decide) (by decide) (by decide) (by omega) hstart)
    · rename_i hleapDay
      obtain ⟨start, hstart, rfl⟩ := Option.map_eq_some_iff.1 h
      have hday : base.date.day ≤ monthLength year base.date.month := by
        have hle := base.date.day_le
        unfold monthLength at hle ⊢
        split at hle
        · rename_i hfebruary
          rw [if_pos hfebruary]
          have hnot : base.date.day ≠ 29 := fun hlast => hleapDay ⟨hfebruary, hlast⟩
          split at hle <;> split <;> omega
        · rename_i hother
          rwa [if_neg hother]
      exact OnDays.single (onDay_yearDay hmin hmax base.date.day_pos hday hstart)

/-- The day of the week of an event, from the start of its week on. -/
def weekOffset (rule : Rule) (base : Naive) : Int :=
  (weekday base.date.ordinal - rule.wkst) % 7

theorem weekAnchor_spec
    {anchor : Int × List Int}
    (h : weekAnchor rule base = some anchor) :
    anchor.1 = (base.date.ordinal - weekOffset rule base) * dayLength + base.time ∧
      anchor.2.Pairwise (· < ·) ∧ ∀ offset ∈ anchor.2, 0 ≤ offset ∧ offset < 7 := by
  obtain ⟨weekStart, hstart, rfl⟩ := Option.map_eq_some_iff.1 h
  refine ⟨?_, ?_, fun offset hoffset => ?_⟩
  · have hsum := plusDays_eq hstart
    simp only [Naive.stamp, weekOffset, dayLength] at hsum ⊢
    omega
  · exact (Finset.sortedLT_sort
      (rule.byday.map fun spec => (spec.2 - rule.wkst) % 7).toFinset).pairwise
  · rw [Finset.mem_sort, List.mem_toFinset] at hoffset
    obtain ⟨spec, -, rfl⟩ := List.mem_map.1 hoffset
    omega

/-- The first day of a period. -/
def periodDay (rule : Rule) (base : Naive) (period : Int) : Int :=
  match rule.freq with
  | .daily => base.date.ordinal + period * ruleInterval rule
  | .weekly => base.date.ordinal - weekOffset rule base + 7 * (period * ruleInterval rule)
  | .monthly => firstOfMonth (base.date.monthIndex + period * ruleInterval rule)
  | .yearly => firstOfMonth ((base.date.year + period * ruleInterval rule) * 12)

theorem onDays_patternCandidates
    {period : Int}
    (hinterval : 0 < ruleInterval rule)
    (h : patternCandidates rule base period = some starts) :
    OnDays base (periodDay rule base period) (periodDay rule base (period + 1)) starts := by
  have hsteps : (period + 1) * ruleInterval rule = period * ruleInterval rule + ruleInterval rule := by
    rw [Int.add_mul, Int.one_mul]
  unfold patternCandidates at h
  unfold periodDay
  rw [hsteps]
  generalize period * ruleInterval rule = steps at h ⊢
  cases hfreq : rule.freq with
  | daily =>
      simp only [hfreq] at h ⊢
      obtain ⟨start, hstart, rfl⟩ := Option.map_eq_some_iff.1 h
      have hsum := plusDays_eq hstart
      refine OnDays.single ⟨base.date.ordinal + steps, ?_, by omega, by omega⟩
      simp only [Naive.stamp, dayLength] at hsum ⊢
      omega
  | weekly =>
      simp only [hfreq] at h ⊢
      obtain ⟨anchor, hanchor, h⟩ := Option.bind_eq_some_iff.1 h
      obtain ⟨hstart, hascending, hrange⟩ := weekAnchor_spec hanchor
      split at h
      · obtain ⟨start, hsum, rfl⟩ := Option.map_eq_some_iff.1 h
        have hsum := plusDays_eq hsum
        have hoffset : 0 ≤ weekOffset rule base ∧ weekOffset rule base < 7 := by
          unfold weekOffset
          omega
        refine OnDays.single ⟨base.date.ordinal + 7 * steps, ?_, by omega, by omega⟩
        simp only [Naive.stamp, dayLength] at hsum ⊢
        omega
      · have hstarts := mapM_eq_map (fun offset _ start => plusDays_eq) h
        have hdays : starts = anchor.2.map fun offset =>
            (base.date.ordinal - weekOffset rule base + 7 * steps + offset) * dayLength +
              base.time := by
          rw [hstarts, hstart]
          refine List.map_congr_left fun offset _ => ?_
          simp only [dayLength]
          omega
        rw [hdays]
        refine OnDays.map hascending (fun offset later hlt => by omega) fun offset hoffset => ?_
        have hweek := hrange offset hoffset
        omega
  | monthly =>
      simp only [hfreq, shiftMonth] at h ⊢
      have hmonth := onDays_monthCandidates (by omega) (by omega) h
      have hindex : (base.date.year * 12 + (base.date.month - 1) + steps) / 12 * 12 +
          ((base.date.year * 12 + (base.date.month - 1) + steps) % 12 + 1 - 1) =
          base.date.monthIndex + steps := by
        rw [Date.monthIndex]
        omega
      rw [hindex] at hmonth
      exact hmonth.weaken (Int.le_refl _) (firstOfMonth_le (by omega))
  | yearly =>
      simp only [hfreq] at h ⊢
      exact (onDays_yearCandidates h).weaken (Int.le_refl _) (firstOfMonth_le (by omega))

theorem onDays_periodCandidates
    {period : Int}
    (hinterval : 0 < ruleInterval rule)
    (h : periodCandidates rule base period = some starts) :
    OnDays base (periodDay rule base period) (periodDay rule base (period + 1)) starts := by
  obtain ⟨candidates, hcandidates, rfl⟩ := Option.map_eq_some_iff.1 h
  exact (onDays_patternCandidates hinterval hcandidates).applyBysetpos.filter _

theorem base_le_candidate
    {period start : Int}
    (h : periodCandidates rule base period = some starts)
    (hstart : start ∈ starts) :
    base.stamp ≤ start := by
  obtain ⟨candidates, -, rfl⟩ := Option.map_eq_some_iff.1 h
  exact of_decide_eq_true (List.mem_filter.1 hstart).2

theorem periodDay_lt
    (hinterval : 0 < ruleInterval rule)
    {period later : Int}
    (h : period < later) :
    periodDay rule base period < periodDay rule base later := by
  have hsteps : period * ruleInterval rule < later * ruleInterval rule :=
    Int.mul_lt_mul_of_pos_right h hinterval
  unfold periodDay
  cases rule.freq with
  | daily => exact Int.add_lt_add_left hsteps _
  | weekly => simp only; omega
  | monthly =>
      have hadd := firstOfMonth_add_le (Int.add_le_add_left hsteps.le base.date.monthIndex)
      simp only
      omega
  | yearly =>
      have hyears : (base.date.year + period * ruleInterval rule) * 12 ≤
          (base.date.year + later * ruleInterval rule) * 12 := by omega
      have hadd := firstOfMonth_add_le hyears
      simp only
      omega

theorem periodDay_le
    (hinterval : 0 < ruleInterval rule)
    {period later : Int}
    (h : period ≤ later) :
    periodDay rule base period ≤ periodDay rule base later := by
  rcases Int.le_iff_lt_or_eq.1 h with hlt | rfl
  · exact (periodDay_lt hinterval hlt).le
  · exact Int.le_refl _

/-- The event itself starts in the first period. -/
theorem onDay_base (hinterval : 0 < ruleInterval rule) :
    OnDay base (periodDay rule base 0) (periodDay rule base 1) base.stamp := by
  refine ⟨base.date.ordinal, rfl, ?_, ?_⟩
  · unfold periodDay
    rw [Int.zero_mul]
    cases rule.freq with
    | daily => simp only; omega
    | weekly =>
        simp only [weekOffset]
        omega
    | monthly =>
        have hfirst := base.date.firstOfMonth_le
        simp only
        rwa [Int.add_zero]
    | yearly =>
        have hmonth := base.date.month_pos
        have hfirst := base.date.firstOfMonth_le
        have hyear : firstOfMonth ((base.date.year + 0) * 12) ≤ firstOfMonth base.date.monthIndex :=
          firstOfMonth_le (by rw [Date.monthIndex]; omega)
        simp only
        omega
  · unfold periodDay
    rw [Int.one_mul]
    cases rule.freq with
    | daily => simp only; omega
    | weekly =>
        simp only [weekOffset]
        omega
    | monthly =>
        have hnext := base.date.ordinal_lt
        have hmonth : firstOfMonth (base.date.monthIndex + 1) ≤
            firstOfMonth (base.date.monthIndex + ruleInterval rule) :=
          firstOfMonth_le (by omega)
        simp only
        omega
    | yearly =>
        have hmonth := base.date.month_le
        have hnext := base.date.ordinal_lt
        have hyear : firstOfMonth (base.date.monthIndex + 1) ≤
            firstOfMonth ((base.date.year + ruleInterval rule) * 12) :=
          firstOfMonth_le (by rw [Date.monthIndex]; omega)
        simp only
        omega

end Candidates

section Floor

variable {rule : Rule} {base floor : Naive} {startPeriod : Nat}

theorem mul_le_of_fdiv
    {total unit quotient : Int}
    (htotal : 0 ≤ total)
    (hquotient : 0 < quotient)
    (h : total.fdiv unit = quotient) :
    0 < unit ∧ quotient * unit ≤ total := by
  have hunit : 0 < unit := by
    by_contra hneg
    have hnonpos := Int.fdiv_nonpos_of_nonneg_of_nonpos htotal (Int.not_lt.1 hneg)
    omega
  rw [Int.fdiv_eq_ediv_of_nonneg _ hunit.le] at h
  subst h
  exact ⟨hunit, Int.ediv_mul_le _ hunit.ne'⟩

theorem monthIndex_le (h : base.stamp < floor.stamp) :
    base.date.monthIndex ≤ floor.date.monthIndex := by
  by_contra hlt
  have hfirst := base.date.firstOfMonth_le
  have hnext := floor.date.ordinal_lt
  have hmonths : firstOfMonth (floor.date.monthIndex + 1) ≤ firstOfMonth base.date.monthIndex :=
    firstOfMonth_le (by omega)
  have hbase := base.time_nonneg
  have hfloor := floor.time_lt
  simp only [Naive.stamp, dayLength] at h hfloor
  omega

theorem year_le (h : base.stamp < floor.stamp) : base.date.year ≤ floor.date.year := by
  have hindex := monthIndex_le h
  have hbase := base.date.month_pos
  have hfloor := floor.date.month_le
  rw [Date.monthIndex, Date.monthIndex] at hindex
  omega

/-- The day of a month, seen from a later time. -/
theorem firstOfMonth_stamp_le
    {index : Int}
    (h : index + 1 ≤ floor.date.monthIndex) :
    (firstOfMonth index + 1) * dayLength + base.time ≤ floor.stamp := by
  have hadd := firstOfMonth_add_le h
  have hsucc := firstOfMonth_succ index
  have hlength := monthLength_pos (index / 12) (index % 12 + 1)
  have hfirst := floor.date.firstOfMonth_le
  have htime := base.time_lt
  have hfloor := floor.time_nonneg
  simp only [Naive.stamp, dayLength] at htime ⊢
  omega

/-- Where the expansion starts a whole day lies between the first day and the window. -/
theorem firstPeriodFor_spec
    (h : firstPeriodFor rule base floor = some startPeriod)
    (hstart : 0 < startPeriod) :
    0 < ruleInterval rule ∧
      (periodDay rule base startPeriod + 1) * dayLength + base.time ≤ floor.stamp := by
  unfold firstPeriodFor at h
  split at h
  · cases h
    omega
  · rename_i hlater
    have hlt : base.stamp < floor.stamp := by omega
    split at h
    · cases h
    · simp only at h
      obtain ⟨period, hperiod, hpred⟩ := Option.map_eq_some_iff.1 h
      have hsucc : period = startPeriod + 1 := by omega
      have hpos : 0 < period := by omega
      have hsteps : period * ruleInterval rule =
          startPeriod * ruleInterval rule + ruleInterval rule := by
        rw [hsucc, Int.add_mul, Int.one_mul]
      unfold periodDay
      cases hfreq : rule.freq with
      | daily =>
          simp only [hfreq, Option.some.injEq] at hperiod ⊢
          have hdays : 0 ≤ (floor.stamp - base.stamp) / dayLength :=
            Int.ediv_nonneg (by omega) dayLength_pos.le
          obtain ⟨hinterval, hle⟩ := mul_le_of_fdiv hdays hpos hperiod
          refine ⟨hinterval, ?_⟩
          rw [hsteps] at hle
          generalize startPeriod * ruleInterval rule = steps at hle ⊢
          simp only [Naive.stamp, dayLength] at hle hlt ⊢
          omega
      | weekly =>
          simp only [hfreq] at hperiod ⊢
          obtain ⟨anchor, hanchor, hquotient⟩ := Option.map_eq_some_iff.1 hperiod
          have hweek := (weekAnchor_spec hanchor).1
          have hoffset : 0 ≤ weekOffset rule base := by
            unfold weekOffset
            omega
          have hdays : 0 ≤ (floor.stamp - anchor.1) / dayLength := by
            refine Int.ediv_nonneg ?_ dayLength_pos.le
            simp only [Naive.stamp, dayLength] at hlt hweek ⊢
            omega
          obtain ⟨hinterval, hle⟩ := mul_le_of_fdiv hdays hpos hquotient
          have hseven : period * (7 * ruleInterval rule) =
              7 * (startPeriod * ruleInterval rule) + 7 * ruleInterval rule := by
            rw [Int.mul_left_comm, hsteps, Int.mul_add]
          refine ⟨by omega, ?_⟩
          rw [hseven, hweek] at hle
          generalize startPeriod * ruleInterval rule = steps at hle ⊢
          simp only [Naive.stamp, dayLength] at hle hlt ⊢
          omega
      | monthly =>
          simp only [hfreq, Option.some.injEq] at hperiod ⊢
          have hindex := monthIndex_le hlt
          rw [Date.monthIndex, Date.monthIndex] at hindex
          obtain ⟨hinterval, hle⟩ := mul_le_of_fdiv (by omega) hpos hperiod
          refine ⟨hinterval, firstOfMonth_stamp_le ?_⟩
          rw [Date.monthIndex, Date.monthIndex]
          omega
      | yearly =>
          simp only [hfreq, Option.some.injEq] at hperiod ⊢
          have hyear := year_le hlt
          have hmonth := floor.date.month_pos
          obtain ⟨hinterval, hle⟩ := mul_le_of_fdiv (by omega) hpos hperiod
          refine ⟨hinterval, firstOfMonth_stamp_le ?_⟩
          rw [Date.monthIndex]
          omega

/-- Nothing that starts before the first period of the expansion is within two days of the
window. -/
theorem add_two_days_le
    {lo start : Int}
    (hfloor : (periodDay rule base startPeriod + 1) * dayLength + base.time ≤ floor.stamp)
    (h : OnDay base lo (periodDay rule base startPeriod) start) :
    start + 2 * dayLength ≤ floor.stamp := by
  obtain ⟨day, rfl, -, hday⟩ := h
  simp only [dayLength] at hfloor ⊢
  omega

/-- Whatever the offsets of the zone, it lies before the window. -/
theorem asUtc_lt
    {tz : TzInfo}
    {window : Aware}
    {start : Int}
    (h : start + 2 * dayLength ≤ window.naive.stamp) :
    tz.asUtc start < window.asUtc := by
  have hstart := tz.lt_utcoffset start
  have hwindow := window.utcoffset_lt
  rw [TzInfo.asUtc, Aware.asUtc]
  omega

end Floor

section Representable

variable {rule : Rule} {base floor : Naive} {year month : Int}

theorem mapM_isSome
    {α β : Type}
    {f : α → Option β}
    {items : List α}
    (h : ∀ item ∈ items, ∃ result, f item = some result) :
    ∃ results, items.mapM f = some results := by
  induction items with
  | nil => exact ⟨[], rfl⟩
  | cons item items ih =>
      obtain ⟨result, hresult⟩ := h item List.mem_cons_self
      obtain ⟨results, hresults⟩ := ih fun other hother => h other (List.mem_cons_of_mem _ hother)
      exact ⟨result :: results, by rw [List.mapM_cons, hresult, hresults]; rfl⟩

theorem combine_isSome
    (base : Naive)
    (month day : Int)
    (hpos : 1 ≤ year)
    (hle : year ≤ 9999) :
    ∃ start, combine base year month day = some start :=
  ⟨_, if_pos (by simp [isYear, hpos, hle])⟩

theorem daysInMonth_isSome
    (hmonth : 1 ≤ month)
    (hpos : 1 ≤ year)
    (hle : year ≤ 9999)
    (hnext : (year * 12 + (month - 1) + 1) / 12 ≤ 9999) :
    ∃ limit, daysInMonth year month = some limit := by
  have hlo : 1 ≤ (year * 12 + (month - 1) + 1) / 12 := by omega
  exact ⟨_, if_pos (by simp [isYear, shiftMonth, hpos, hle, hlo, hnext])⟩

theorem monthCandidates_isSome
    (hpos : 1 ≤ year)
    (hle : year ≤ 9999)
    (hnext : (year * 12 + (month - 1) + 1) / 12 ≤ 9999)
    (hmonth : 1 ≤ month) :
    ∃ starts, monthCandidates rule base year month = some starts := by
  obtain ⟨limit, hlimit⟩ := daysInMonth_isSome hmonth hpos hle hnext
  rw [monthCandidates, monthDays, hlimit]
  exact mapM_isSome fun day _ => combine_isSome base month day hpos hle

theorem yearCandidates_isSome
    (hpos : 1 ≤ year)
    (hle : year + 1 ≤ 9999) :
    ∃ starts, yearCandidates rule base year = some starts := by
  rw [yearCandidates]
  split
  · have hmonths : ∀ {months : List Int},
        ∀ month ∈ months.toFinset.sort.filter fun month => 1 ≤ month ∧ month ≤ 12,
        ∃ starts, monthCandidates rule base year month = some starts := by
      intro months month hmonth
      have hrange := of_decide_eq_true (List.mem_filter.1 hmonth).2
      exact monthCandidates_isSome hpos (by omega) (by omega) hrange.1
    obtain ⟨found, hfound⟩ := mapM_isSome hmonths
    rw [hfound]
    exact ⟨found.flatten, rfl⟩
  · split
    · have htwo : (1 : Int) ≤ 2 := by decide
      obtain ⟨limit, hlimit⟩ := daysInMonth_isSome htwo hpos (by omega) (by omega)
      obtain ⟨start, hstart⟩ := combine_isSome base 2 29 hpos (by omega)
      rw [hlimit, hstart, Option.bind_some]
      split
      · exact ⟨_, rfl⟩
      · exact ⟨_, rfl⟩
    · obtain ⟨start, hstart⟩ := combine_isSome base base.date.month base.date.day hpos
        (by omega)
      rw [hstart]
      exact ⟨_, rfl⟩

theorem plusDays_isSome
    {stamp days : Int}
    (hmin : dayLength ≤ stamp + days * dayLength)
    (hmax : stamp + days * dayLength ≤ floor.stamp) :
    ∃ start, plusDays stamp days = some start := by
  have hlast := ordinal_le_max floor.date
  have htime := floor.time_lt
  refine ⟨_, if_pos ⟨hmin, ?_⟩⟩
  simp only [Naive.stamp, dayLength] at hmax htime ⊢
  omega

theorem dayLength_le_stamp (base : Naive) : dayLength ≤ base.stamp := by
  have hfirst := ordinal_pos base.date
  have htime := base.time_nonneg
  simp only [Naive.stamp, dayLength]
  omega

theorem weekAnchor_isSome
    {startPeriod : Nat}
    (hfreq : rule.freq = .weekly)
    (h : firstPeriodFor rule base floor = some startPeriod)
    (hstart : 0 < startPeriod) :
    ∃ anchor, weekAnchor rule base = some anchor ∧ dayLength ≤ anchor.1 := by
  unfold firstPeriodFor at h
  split at h
  · cases h
    omega
  · split at h
    · cases h
    · simp only [hfreq] at h
      obtain ⟨period, hperiod, -⟩ := Option.map_eq_some_iff.1 h
      obtain ⟨anchor, hanchor, -⟩ := Option.map_eq_some_iff.1 hperiod
      refine ⟨anchor, hanchor, ?_⟩
      obtain ⟨weekStart, hweek, rfl⟩ := Option.map_eq_some_iff.1 hanchor
      simp only [plusDays] at hweek
      split at hweek
      · rename_i hrange
        cases hweek
        exact hrange.1
      · cases hweek

/-- Dates before the window exist, so the periods before it raise nothing. -/
theorem periodCandidates_isSome
    {period startPeriod : Nat}
    (h : firstPeriodFor rule base floor = some startPeriod)
    (hlt : period < startPeriod) :
    ∃ starts, periodCandidates rule base period = some starts := by
  obtain ⟨hinterval, hfloor⟩ := firstPeriodFor_spec h (by omega)
  have hsteps : (period : Int) * ruleInterval rule + ruleInterval rule ≤
      startPeriod * ruleInterval rule := by
    have hle : ((period : Int) + 1) * ruleInterval rule ≤ startPeriod * ruleInterval rule :=
      Int.mul_le_mul_of_nonneg_right (by omega) hinterval.le
    rwa [Int.add_mul, Int.one_mul] at hle
  have hnonneg : 0 ≤ (period : Int) * ruleInterval rule := Int.mul_nonneg (by omega) hinterval.le
  have hyearPos := base.date.year_pos
  have hyearMax := floor.date.year_le
  suffices hpattern : ∃ starts, patternCandidates rule base period = some starts by
    obtain ⟨starts, hstarts⟩ := hpattern
    exact ⟨_, by rw [periodCandidates, hstarts]; rfl⟩
  unfold patternCandidates
  unfold periodDay at hfloor
  generalize (period : Int) * ruleInterval rule = steps at hsteps hnonneg ⊢
  generalize (startPeriod : Int) * ruleInterval rule = skipped at hsteps hfloor
  -- The month of the window is not before the month of the period where the expansion starts.
  have hmonths : ∀ {index : Int}, (firstOfMonth index + 1) * dayLength + base.time ≤ floor.stamp →
      index ≤ floor.date.monthIndex := by
    intro index hindex
    by_contra hafter
    have hnext := floor.date.ordinal_lt
    have hle : firstOfMonth (floor.date.monthIndex + 1) ≤ firstOfMonth index :=
      firstOfMonth_le (by omega)
    have hbase := base.time_nonneg
    have htime := floor.time_lt
    simp only [Naive.stamp, dayLength] at hindex htime
    omega
  cases hfreq : rule.freq with
  | daily =>
      simp only [hfreq] at hfloor ⊢
      have hstamp := dayLength_le_stamp base
      have hlo : dayLength ≤ base.stamp + steps * dayLength := by
        simp only [dayLength] at hstamp ⊢
        omega
      have hhi : base.stamp + steps * dayLength ≤ floor.stamp := by
        simp only [Naive.stamp, dayLength] at hfloor ⊢
        omega
      obtain ⟨start, hstart⟩ := plusDays_isSome hlo hhi
      exact ⟨[start], by rw [hstart]; rfl⟩
  | weekly =>
      simp only [hfreq] at hfloor ⊢
      obtain ⟨anchor, hanchor, hmin⟩ := weekAnchor_isSome hfreq h (by omega)
      obtain ⟨hstart, -, hoffsets⟩ := weekAnchor_spec hanchor
      rw [hanchor, Option.bind_some]
      split
      · have hoffset : 0 ≤ weekOffset rule base ∧ weekOffset rule base < 7 := by
          unfold weekOffset
          omega
        have hstamp := dayLength_le_stamp base
        have hlo : dayLength ≤ base.stamp + 7 * steps * dayLength := by
          simp only [dayLength] at hstamp ⊢
          omega
        have hhi : base.stamp + 7 * steps * dayLength ≤ floor.stamp := by
          simp only [Naive.stamp, dayLength] at hfloor ⊢
          omega
        obtain ⟨start, hsum⟩ := plusDays_isSome hlo hhi
        exact ⟨[start], by rw [hsum]; rfl⟩
      · refine mapM_isSome fun offset hoffset => ?_
        have hrange := hoffsets offset hoffset
        have hlo : dayLength ≤ anchor.1 + (7 * steps + offset) * dayLength := by
          simp only [dayLength] at hmin ⊢
          omega
        have hhi : anchor.1 + (7 * steps + offset) * dayLength ≤ floor.stamp := by
          simp only [Naive.stamp, dayLength] at hstart hfloor ⊢
          omega
        exact plusDays_isSome hlo hhi
  | monthly =>
      simp only [hfreq, shiftMonth] at hfloor ⊢
      have hindex := hmonths hfloor
      rw [Date.monthIndex, Date.monthIndex] at hindex
      have hmonth := base.date.month_pos
      have hmax := floor.date.month_le
      exact monthCandidates_isSome (by omega) (by omega) (by omega) (by omega)
  | yearly =>
      simp only [hfreq] at hfloor ⊢
      have hindex := hmonths hfloor
      rw [Date.monthIndex] at hindex
      have hmax := floor.date.month_le
      exact yearCandidates_isSome (by omega) (by omega)

end Representable

end EmailClient
end Vesta
