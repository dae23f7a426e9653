import Vesta.Lib.Civil
import Mathlib.Data.Finset.Sort

/-!
# Expansion of recurring events

A rule names candidate starts period by period, from the start of its event on.  The
expansion of a window lists the starts in the window and the last one before it.  Without a
count it skips the periods before the one in front of the window; it stops at the horizon,
at the end of the rule or at a number of starts, and raises where the periods run out first.

Wall-clock times are counted in microseconds from a fixed day on.
-/

namespace Vesta
namespace EmailClient

open Lib.Civil

def maxOccurrences : Nat := 1000

def maxPeriods : Nat := 5000

def dayLength : Int := 86400000000

/-- The last day of the year 9999. -/
def maxOrdinal : Int := 3652059

/-- A wall-clock time. -/
structure Naive where
  date : Date
  time : Int
  time_nonneg : 0 ≤ time
  time_lt : time < dayLength

def Naive.stamp (naive : Naive) : Int := naive.date.ordinal * dayLength + naive.time

/-- The zone of an event. -/
structure TzInfo where
  utcoffset : Int → Int
  lt_utcoffset : ∀ naive, -dayLength < utcoffset naive
  utcoffset_lt : ∀ naive, utcoffset naive < dayLength

def TzInfo.asUtc (tz : TzInfo) (naive : Int) : Int := naive - tz.utcoffset naive

/-- An instant, as the clocks of a zone show it. -/
structure Aware where
  naive : Naive
  utcoffset : Int
  lt_utcoffset : -dayLength < utcoffset
  utcoffset_lt : utcoffset < dayLength

def Aware.asUtc (aware : Aware) : Int := aware.naive.stamp - aware.utcoffset

inductive Freq where
  | daily
  | weekly
  | monthly
  | yearly
deriving DecidableEq

/-- The values of a supported rule. -/
structure Rule where
  freq : Freq
  interval : Option Int
  count : Option Int
  untilUtc : Option Int
  byday : List (Option Int × Int)
  bymonthday : Option (List Int)
  bymonth : Option (List Int)
  bysetpos : Option (List Int)
  wkst : Int

def ruleInterval (rule : Rule) : Int := rule.interval.getD 1

def plusDays (stamp days : Int) : Option Int :=
  let sum := stamp + days * dayLength
  if dayLength ≤ sum ∧ sum < (maxOrdinal + 1) * dayLength then
    some sum
  else
    none

def isYear (year : Int) : Bool := 1 ≤ year && year ≤ 9999

def combine (base : Naive) (year month day : Int) : Option Int :=
  if isYear year then
    some (ordinal year month day * dayLength + base.time)
  else
    none

def shiftMonth (year month months : Int) : Int × Int :=
  let index := year * 12 + (month - 1) + months
  (index / 12, index % 12 + 1)

def daysInMonth (year month : Int) : Option Int :=
  let next := shiftMonth year month 1
  if isYear year && isYear next.1 then
    some (ordinal next.1 next.2 1 - ordinal year month 1)
  else
    none

/-- The start of the week of an event, and the days of the rule from there on. -/
def weekAnchor (rule : Rule) (base : Naive) : Option (Int × List Int) :=
  (plusDays base.stamp (-((weekday base.date.ordinal - rule.wkst) % 7))).map fun weekStart =>
    (weekStart, (rule.byday.map fun spec => (spec.2 - rule.wkst) % 7).toFinset.sort)

def daysOnWeekday (year month limit code : Int) : List Int :=
  ((List.range limit.toNat).map fun d : Nat => (d : Int) + 1).filter fun d =>
    weekday (ordinal year month d) = code

/-- A negative number counts from the end of the month. -/
def pickOrdinal (nth : Option Int) (found : List Int) : List Int :=
  match nth with
  | none => found
  | some n =>
      if 0 < n ∧ n ≤ found.length then
        found[(n - 1).toNat]?.toList
      else if n < 0 ∧ -n ≤ found.length then
        found[(found.length + n).toNat]?.toList
      else
        []

def monthDays (rule : Rule) (base : Naive) (year month : Int) : Option (List Int) :=
  (daysInMonth year month).map fun limit =>
    if rule.byday.isEmpty then
      let resolved := (rule.bymonthday.getD [base.date.day]).map fun d =>
        if 0 < d then d else limit + 1 + d
      (resolved.filter fun d => 1 ≤ d ∧ d ≤ limit).toFinset.sort
    else
      (rule.byday.flatMap fun spec =>
        pickOrdinal spec.1 (daysOnWeekday year month limit spec.2)).toFinset.sort

def pickPosition (candidates : List Int) (pos : Int) : List Int :=
  let index := if 0 < pos then pos - 1 else candidates.length + pos
  if 0 ≤ index ∧ index < candidates.length then
    candidates[index.toNat]?.toList
  else
    []

def applyBysetpos (rule : Rule) (candidates : List Int) : List Int :=
  match rule.bysetpos with
  | none => candidates
  | some positions => (positions.flatMap (pickPosition candidates)).toFinset.sort

def monthCandidates (rule : Rule) (base : Naive) (year month : Int) : Option (List Int) :=
  (monthDays rule base year month).bind fun days => days.mapM (combine base year month)

/-- The candidates of a year, in the months of the rule or on the day of the event. -/
def yearCandidates (rule : Rule) (base : Naive) (year : Int) : Option (List Int) :=
  match rule.bymonth with
  | some months =>
      ((months.toFinset.sort.filter fun month => 1 ≤ month ∧ month ≤ 12).mapM
        (monthCandidates rule base year)).map List.flatten
  | none =>
      if base.date.month = 2 ∧ base.date.day = 29 then
        (daysInMonth year 2).bind fun limit =>
          if limit < 29 then some [] else (combine base year 2 29).map fun c => [c]
      else
        (combine base year base.date.month base.date.day).map fun c => [c]

def patternCandidates (rule : Rule) (base : Naive) (period : Int) : Option (List Int) :=
  let steps := period * ruleInterval rule
  match rule.freq with
  | .daily => (plusDays base.stamp steps).map fun c => [c]
  | .weekly =>
      (weekAnchor rule base).bind fun anchor =>
        if anchor.2.isEmpty then
          (plusDays base.stamp (7 * steps)).map fun c => [c]
        else
          anchor.2.mapM fun offset => plusDays anchor.1 (7 * steps + offset)
  | .monthly =>
      let shifted := shiftMonth base.date.year base.date.month steps
      monthCandidates rule base shifted.1 shifted.2
  | .yearly => yearCandidates rule base (base.date.year + steps)

/-- The candidates of a period from the start of the event on. -/
def periodCandidates (rule : Rule) (base : Naive) (period : Int) : Option (List Int) :=
  (patternCandidates rule base period).map fun candidates =>
    (applyBysetpos rule candidates).filter fun candidate => base.stamp ≤ candidate

/-- The period in front of the one that holds a time; no period is before the first. -/
def firstPeriodFor (rule : Rule) (base floor : Naive) : Option Nat :=
  if floor.stamp ≤ base.stamp then
    some 0
  else if ruleInterval rule = 0 then
    none
  else
    let days := fun since : Int => (floor.stamp - since) / dayLength
    let period : Option Int :=
      match rule.freq with
      | .daily => some ((days base.stamp).fdiv (ruleInterval rule))
      | .weekly =>
          (weekAnchor rule base).map fun anchor => (days anchor.1).fdiv (7 * ruleInterval rule)
      | .monthly =>
          some (((floor.date.year - base.date.year) * 12 + floor.date.month -
            base.date.month).fdiv (ruleInterval rule))
      | .yearly => some ((floor.date.year - base.date.year).fdiv (ruleInterval rule))
    period.map fun p => (p - 1).toNat

/-- The start of the event comes first, whether the rule names it or not. -/
def yieldEach (base : Int) : Bool → List Int → List Int
  | _, [] => []
  | emittedAny, naive :: rest =>
      if emittedAny = false ∧ naive ≠ base then
        base :: naive :: yieldEach base true rest
      else
        naive :: yieldEach base true rest

/-- The occurrences from a period on; `none` is where the generator raises. -/
def occurrences (rule : Rule) (base : Naive) : Bool → Nat → Nat → List (Option Int)
  | _, _, 0 => []
  | emittedAny, period, periods + 1 =>
      match periodCandidates rule base period with
      | none => [none]
      | some candidates =>
          (yieldEach base.stamp emittedAny candidates).map some ++
            occurrences rule base (emittedAny || !candidates.isEmpty) (period + 1) periods

inductive RruleError where
  | arithmetic
  | tooDeep
deriving DecidableEq

section Collect

variable (tz : TzInfo) (floorUtc horizonUtc : Int) (count untilUtc : Option Int)

/-- `none` where the generator ran dry. -/
def collectStarts (generated : Nat) (lastBefore : Option Int) (starts : List Int) :
    List (Option Int) → Except RruleError (Option (List Int))
  | [] =>
      if count.all fun limit => (generated : Int) < limit then
        .ok none
      else
        .ok (some (lastBefore.toList ++ starts))
  | none :: _ => .error .arithmetic
  | some occurrence :: rest =>
      let occurrenceUtc := tz.asUtc occurrence
      if untilUtc.any (· < occurrenceUtc) then
        .ok (some (lastBefore.toList ++ starts))
      else if count.any fun limit => limit < (generated + 1 : Int) then
        .ok (some (lastBefore.toList ++ starts))
      else if horizonUtc ≤ occurrenceUtc then
        .ok (some (lastBefore.toList ++ starts))
      else if occurrenceUtc < floorUtc then
        collectStarts (generated + 1) (some occurrence) starts rest
      else if maxOccurrences ≤ starts.length + 1 then
        .ok (some (lastBefore.toList ++ (starts ++ [occurrence])))
      else
        collectStarts (generated + 1) lastBefore (starts ++ [occurrence]) rest

end Collect

/-- The expansion from a period on, over a number of periods. -/
def expandFrom (rule : Rule) (base : Naive) (tz : TzInfo) (window : Aware) (horizonUtc : Int)
    (startPeriod periods : Nat) : Except RruleError (List Int) :=
  match collectStarts tz window.asUtc horizonUtc rule.count rule.untilUtc 0 none []
    (occurrences rule base false startPeriod periods) with
  | .error e => .error e
  | .ok none => .error .tooDeep
  | .ok (some starts) => .ok starts

def rruleStarts (rule : Rule) (base : Naive) (tz : TzInfo) (window : Aware) (horizonUtc : Int) :
    Except RruleError (List Int) :=
  match if rule.count.isSome then some 0 else firstPeriodFor rule base window.naive with
  | none => .error .arithmetic
  | some startPeriod => expandFrom rule base tz window horizonUtc startPeriod maxPeriods

end EmailClient
end Vesta
