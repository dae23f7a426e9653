import Mathlib.Data.List.ReduceOption
import Vesta.Lib.Changes
import Vesta.Vestad.Sync.Roster

/-!
# Lifecycle notices

The status task polls the agents and reports two kinds of news to the user: an agent that
moved from one stable status to another, and a rate limit that newly binds one.  Both are
changes against a memory that the cache keeps per agent.  A poll passes over an agent in a
transient status, under an operation or while the gateway is busy: it neither reports it
nor moves its memory.

An agent's memory is dropped when the agent is destroyed.  Observation is switched on after
the boot reconcile and off at the shutdown.
-/

namespace Vesta
namespace Vestad
namespace Observation

open Lib Lib.Changes Sync

def isStable : AgentStatus → Bool
  | .starting | .restarting | .rebuilding => false
  | _ => true

/-- The fields of `AgentStatusCache` that observation reads and moves. -/
structure AgentStatusCache where
  observing : Bool
  stableStatuses : Map String AgentStatus
  rateLimitsNotified : Map String (Option RateLimitedWindow)

/-- `AgentStatusCache::new` -/
def newCache : AgentStatusCache where
  observing := false
  stableStatuses := ∅
  rateLimitsNotified := ∅

/-- What a poll observes: the agents, those under an operation and whether the gateway runs one
of its own. -/
structure Poll where
  agents : List ListEntry
  operated : List String
  gatewayOperationRunning : Bool

section Observe

variable (poll : Poll)

/-- The body of the loop of `observe_transitions`, with the memory and the reports so far. -/
def observeTransition
    (acc : Map String AgentStatus × List (String × AgentStatus))
    (agent : ListEntry) :
    Map String AgentStatus × List (String × AgentStatus) :=
  if poll.gatewayOperationRunning || poll.operated.contains (normalizeName agent.name) then
    acc
  else if !isStable agent.status then
    acc
  else
    let stable := acc.1.insert agent.name agent.status
    match acc.1[agent.name]? with
    | some before =>
        if before ≠ agent.status then
          (stable, acc.2 ++ [(agent.name, agent.status)])
        else
          (stable, acc.2)
    | none => (stable, acc.2)

/-- The stable changes of a poll. -/
def observeTransitions (cache : AgentStatusCache) :
    AgentStatusCache × List (String × AgentStatus) :=
  if !cache.observing then
    (cache, [])
  else
    let observed := poll.agents.foldl (observeTransition poll) (cache.stableStatuses, [])
    ({ cache with stableStatuses := observed.1 }, observed.2)

/-- The body of the loop of `observe_rate_limits`: a window stays when it is no longer seen. -/
def observeRateLimit
    (acc : Map String (Option RateLimitedWindow) × List (String × RateLimitedWindow))
    (agent : ListEntry) :
    Map String (Option RateLimitedWindow) × List (String × RateLimitedWindow) :=
  if poll.gatewayOperationRunning || poll.operated.contains (normalizeName agent.name) then
    acc
  else if !isStable agent.status then
    acc
  else
    match acc.1[agent.name]? with
    | none => (acc.1.insert agent.name agent.rateLimited, acc.2)
    | some held =>
        match agent.rateLimited with
        | some window =>
            if held ≠ some window then
              (acc.1.insert agent.name (some window), acc.2 ++ [(agent.name, window)])
            else
              acc
        | none => acc

/-- The newly binding rate limits of a poll. -/
def observeRateLimits (cache : AgentStatusCache) :
    AgentStatusCache × List (String × RateLimitedWindow) :=
  if !cache.observing then
    (cache, [])
  else
    let observed := poll.agents.foldl (observeRateLimit poll) (cache.rateLimitsNotified, [])
    ({ cache with rateLimitsNotified := observed.1 }, observed.2)

end Observe

/-- `forget_agent` -/
def forgetAgent (cache : AgentStatusCache) (name : String) : AgentStatusCache :=
  { cache with
    stableStatuses := cache.stableStatuses.erase name
    rateLimitsNotified := cache.rateLimitsNotified.erase name }

def beginObserving (cache : AgentStatusCache) : AgentStatusCache := { cache with observing := true }

def stopObserving (cache : AgentStatusCache) : AgentStatusCache := { cache with observing := false }

/-! ## Runs -/

inductive Label
  | poll (poll : Poll)
  | forgetAgent (name : String)
  | beginObserving
  | stopObserving

/-- What is reported to the user. -/
structure Reports where
  transitions : List (String × AgentStatus)
  rateLimits : List (String × RateLimitedWindow)

def step (cache : AgentStatusCache) : Label → AgentStatusCache × Reports
  | .poll poll =>
      let moved := observeTransitions poll cache
      let limited := observeRateLimits poll moved.1
      (limited.1, { transitions := moved.2, rateLimits := limited.2 })
  | .forgetAgent name => (forgetAgent cache name, { transitions := [], rateLimits := [] })
  | .beginObserving => (beginObserving cache, { transitions := [], rateLimits := [] })
  | .stopObserving => (stopObserving cache, { transitions := [], rateLimits := [] })

/-- All reports of a run, in order. -/
def reports (cache : AgentStatusCache) : List Label → Reports
  | [] => { transitions := [], rateLimits := [] }
  | label :: run =>
      let stepped := step cache label
      let rest := reports stepped.1 run
      { transitions := stepped.2.transitions ++ rest.transitions
        rateLimits := stepped.2.rateLimits ++ rest.rateLimits }

/-- Whether a poll observes an agent: it is stable, under no operation and the gateway is idle. -/
def passes (poll : Poll) (agent : ListEntry) : Bool :=
  !(poll.gatewayOperationRunning || poll.operated.contains (normalizeName agent.name)) &&
    isStable agent.status

/-- The agents that a poll observes. -/
def eligible (poll : Poll) : List ListEntry := poll.agents.filter (passes poll)

/-- How an agent is observed in a run: its entries in the polls that observe it and, as `none`,
where it is forgotten. -/
def sightings (name : String) : Bool → List Label → List (Option ListEntry)
  | _, [] => []
  | observing, .poll poll :: run =>
      let seen := if observing then (eligible poll).filter fun agent => agent.name = name else []
      seen.map some ++ sightings name observing run
  | observing, .forgetAgent other :: run =>
      let forgotten := if other = name then [none] else []
      forgotten ++ sightings name observing run
  | _, .beginObserving :: run => sightings name true run
  | _, .stopObserving :: run => sightings name false run

/-- The statuses an agent is observed in. -/
def statusesSeen (name : String) (observing : Bool) (run : List Label) :
    List (Option AgentStatus) :=
  (sightings name observing run).map (Option.map (·.status))

/-- The rate limits, if any, that an agent is observed with. -/
def limitsSeen (name : String) (observing : Bool) (run : List Label) :
    List (Option (Option RateLimitedWindow)) :=
  (sightings name observing run).map (Option.map (·.rateLimited))

/-- A window stands until another one is seen. -/
def sticky : Option (Option RateLimitedWindow) → Option RateLimitedWindow →
    Option RateLimitedWindow
  | none, seen => seen
  | some held, seen => seen.or held

/-! ## One poll -/

section OnePoll

variable {poll : Poll}

/-- The samples that a poll takes of a field. -/
def samples {β : Type} (agents : List ListEntry) (field : ListEntry → β) : List (String × β) :=
  agents.map fun agent => (agent.name, field agent)

theorem valuesOf_samples
    {β : Type}
    (name : String) (agents : List ListEntry) (field : ListEntry → β) :
    valuesOf name (samples agents field) =
      (agents.filter fun agent => agent.name = name).map field := by
  induction agents with
  | nil => rfl
  | cons agent agents ih =>
      rw [samples, List.map_cons, valuesOf_cons, ← samples, ih, List.filter_cons]
      by_cases heq : agent.name = name <;> simp [heq]

/-- The two checks in front of the body of a loop leave out who is passed over. -/
theorem skip_of_not_passes
    {α : Type} {agent : ListEntry}
    (h : ¬ passes poll agent = true)
    (skipped observed : α) :
    (if poll.gatewayOperationRunning || poll.operated.contains (normalizeName agent.name) then
      skipped
    else if !isStable agent.status then skipped else observed) = skipped := by
  rw [passes, Bool.and_eq_true, Bool.not_eq_true', not_and_or, Bool.not_eq_false,
    Bool.not_eq_true] at h
  rcases h with hcovered | htransient
  · rw [if_pos hcovered]
  · rw [htransient]
    simp

/-- The loop over the agents tracks the statuses of those it does not pass over. -/
theorem foldl_observeTransition
    (agents : List ListEntry) (stable : Map String AgentStatus)
    (reported : List (String × AgentStatus)) :
    agents.foldl (observeTransition poll) (stable, reported) =
      let tracked := track latest stable
        (samples (agents.filter (passes poll)) ListEntry.status)
      (tracked.1, reported ++ tracked.2) := by
  induction agents generalizing stable reported with
  | nil => simp [samples, track]
  | cons agent agents ih =>
      rw [List.foldl_cons, List.filter_cons]
      by_cases hpasses : passes poll agent = true
      · rw [if_pos hpasses, samples, List.map_cons, track, ← samples]
        rw [passes, Bool.and_eq_true, Bool.not_eq_true'] at hpasses
        rw [observeTransition, hpasses.1, hpasses.2]
        cases stable[agent.name]? with
        | none => simp [ih, latest]
        | some before =>
            by_cases hsame : before = agent.status
            · simp [ih, latest, change, hsame]
            · simp [ih, latest, change, hsame]
      · have hskip : observeTransition poll (stable, reported) agent = (stable, reported) :=
          skip_of_not_passes hpasses _ _
        rw [if_neg hpasses, hskip]
        exact ih stable reported

/-- The windows among the reports of a tracked limit. -/
def windows (tracked : List (String × Option RateLimitedWindow)) :
    List (String × RateLimitedWindow) :=
  tracked.filterMap fun entry => entry.2.map fun window => (entry.1, window)

theorem valuesOf_windows (name : String) (tracked : List (String × Option RateLimitedWindow)) :
    valuesOf name (windows tracked) = (valuesOf name tracked).reduceOption := by
  induction tracked with
  | nil => rfl
  | cons entry tracked ih =>
      obtain ⟨other, limit⟩ := entry
      rw [valuesOf_cons]
      cases limit with
      | none =>
          have hnone : windows ((other, none) :: tracked) = windows tracked := rfl
          rw [hnone, ih]
          by_cases heq : other = name <;> simp [heq, List.reduceOption_cons_of_none]
      | some window =>
          have hsome : windows ((other, some window) :: tracked) =
              (other, window) :: windows tracked := rfl
          rw [hsome, valuesOf_cons, ih]
          by_cases heq : other = name <;> simp [heq, List.reduceOption_cons_of_some]

/-- The loop over the agents tracks the limits of those it does not pass over. -/
theorem foldl_observeRateLimit
    (agents : List ListEntry) (seen : Map String (Option RateLimitedWindow))
    (reported : List (String × RateLimitedWindow)) :
    agents.foldl (observeRateLimit poll) (seen, reported) =
      let tracked := track sticky seen
        (samples (agents.filter (passes poll)) ListEntry.rateLimited)
      (tracked.1, reported ++ windows tracked.2) := by
  induction agents generalizing seen reported with
  | nil => simp [samples, track, windows]
  | cons agent agents ih =>
      rw [List.foldl_cons, List.filter_cons]
      by_cases hpasses : passes poll agent = true
      · rw [if_pos hpasses, samples, List.map_cons, track, ← samples]
        rw [passes, Bool.and_eq_true, Bool.not_eq_true'] at hpasses
        rw [observeRateLimit, hpasses.1, hpasses.2]
        cases hheld : seen[agent.name]? with
        | none => simp [ih, sticky, windows]
        | some held =>
            have hkept : seen.insert agent.name held = seen := Map.insert_eq_self hheld
            cases agent.rateLimited with
            | none => simp [ih, sticky, change, hkept]
            | some window =>
                by_cases hsame : held = some window
                · subst hsame
                  simp [ih, sticky, change, hkept]
                · simp [ih, sticky, change, hsame, windows]
      · have hskip : observeRateLimit poll (seen, reported) agent = (seen, reported) :=
          skip_of_not_passes hpasses _ _
        rw [if_neg hpasses, hskip]
        exact ih seen reported

end OnePoll

/-! ## A run -/

section Run

variable {poll : Poll} {cache : AgentStatusCache}

/-- What a poll reports of an agent's status is what changes over its sightings, and its last
status stands. -/
theorem observeTransitions_spec (name : String) :
    valuesOf name (observeTransitions poll cache).2 =
        changes (standings latest cache.stableStatuses[name]?
          (statusesSeen name cache.observing [.poll poll])) ∧
      (observeTransitions poll cache).1.stableStatuses[name]? =
        (statusesSeen name cache.observing [.poll poll]).foldl (after latest)
          cache.stableStatuses[name]? := by
  rw [observeTransitions]
  cases hobserving : cache.observing with
  | false => simp [statusesSeen, sightings, valuesOf]
  | true =>
      have hseen : statusesSeen name true [.poll poll] =
          (valuesOf name (samples (eligible poll) ListEntry.status)).map some := by
        simp [statusesSeen, sightings, valuesOf_samples]
      rw [hseen]
      simp only [Bool.not_true, if_false, Bool.false_eq_true, foldl_observeTransition,
        List.nil_append]
      exact ⟨reportsOf_track latest name _ _, getElem?_track latest name _ _⟩

theorem observeRateLimits_spec (name : String) :
    valuesOf name (observeRateLimits poll cache).2 =
        (changes (standings sticky cache.rateLimitsNotified[name]?
          (limitsSeen name cache.observing [.poll poll]))).reduceOption ∧
      (observeRateLimits poll cache).1.rateLimitsNotified[name]? =
        (limitsSeen name cache.observing [.poll poll]).foldl (after sticky)
          cache.rateLimitsNotified[name]? := by
  rw [observeRateLimits]
  cases hobserving : cache.observing with
  | false => simp [limitsSeen, sightings, valuesOf, List.reduceOption_nil]
  | true =>
      have hseen : limitsSeen name true [.poll poll] =
          (valuesOf name (samples (eligible poll) ListEntry.rateLimited)).map some := by
        simp [limitsSeen, sightings, valuesOf_samples]
      rw [hseen]
      simp only [Bool.not_true, if_false, Bool.false_eq_true, foldl_observeRateLimit,
        List.nil_append, valuesOf_windows]
      exact ⟨congrArg _ (reportsOf_track sticky name _ _), getElem?_track sticky name _ _⟩

/-- Whether observation is on after a run. -/
def observingAfter (observing : Bool) (run : List Label) : Bool :=
  run.foldl
    (fun observing label =>
      match label with
      | .poll _ => observing
      | .forgetAgent _ => observing
      | .beginObserving => true
      | .stopObserving => false)
    observing

theorem sightings_append (name : String) (run later : List Label) (observing : Bool) :
    sightings name observing (run ++ later) =
      sightings name observing run ++ sightings name (observingAfter observing run) later := by
  induction run generalizing observing with
  | nil => rfl
  | cons label run ih =>
      rw [List.cons_append]
      cases label with
      | poll poll => rw [sightings, sightings, ih, List.append_assoc]; rfl
      | forgetAgent other => rw [sightings, sightings, ih, List.append_assoc]; rfl
      | beginObserving => rw [sightings, sightings, ih]; rfl
      | stopObserving => rw [sightings, sightings, ih]; rfl

theorem statusesSeen_append (name : String) (run later : List Label) (observing : Bool) :
    statusesSeen name observing (run ++ later) =
      statusesSeen name observing run ++
        statusesSeen name (observingAfter observing run) later := by
  rw [statusesSeen, sightings_append, List.map_append]
  rfl

theorem limitsSeen_append (name : String) (run later : List Label) (observing : Bool) :
    limitsSeen name observing (run ++ later) =
      limitsSeen name observing run ++ limitsSeen name (observingAfter observing run) later := by
  rw [limitsSeen, sightings_append, List.map_append]
  rfl

theorem getElem?_erase_name
    {V : Type}
    (memory : Map String V) (other name : String) :
    (memory.erase other)[name]? = if other = name then none else memory[name]? := by
  rw [Std.ExtTreeMap.getElem?_erase]
  simp

/-- What a step reports of an agent is what changes over its sightings in the step, and what is
remembered of it goes by them. -/
theorem step_spec (name : String) (label : Label) :
    valuesOf name (step cache label).2.transitions =
        changes (standings latest cache.stableStatuses[name]?
          (statusesSeen name cache.observing [label])) ∧
      (step cache label).1.stableStatuses[name]? =
        (statusesSeen name cache.observing [label]).foldl (after latest)
          cache.stableStatuses[name]? ∧
      valuesOf name (step cache label).2.rateLimits =
        (changes (standings sticky cache.rateLimitsNotified[name]?
          (limitsSeen name cache.observing [label]))).reduceOption ∧
      (step cache label).1.rateLimitsNotified[name]? =
        (limitsSeen name cache.observing [label]).foldl (after sticky)
          cache.rateLimitsNotified[name]? ∧
      (step cache label).1.observing = observingAfter cache.observing [label] := by
  cases label with
  | poll poll =>
      obtain ⟨hmoved, hstatus⟩ := @observeTransitions_spec poll cache name
      obtain ⟨hlimited, hlimit⟩ :=
        @observeRateLimits_spec poll (observeTransitions poll cache).1 name
      have hkeeps : (observeTransitions poll cache).1.observing = cache.observing ∧
          (observeTransitions poll cache).1.rateLimitsNotified = cache.rateLimitsNotified := by
        rw [observeTransitions]
        split <;> exact ⟨rfl, rfl⟩
      have hkeeps' (cache : AgentStatusCache) :
          (observeRateLimits poll cache).1.observing = cache.observing ∧
            (observeRateLimits poll cache).1.stableStatuses = cache.stableStatuses := by
        rw [observeRateLimits]
        split <;> exact ⟨rfl, rfl⟩
      rw [hkeeps.1, hkeeps.2] at hlimited hlimit
      refine ⟨hmoved, ?_, hlimited, hlimit, ?_⟩
      · rw [step]
        dsimp only
        rw [(hkeeps' _).2]
        exact hstatus
      · rw [step]
        dsimp only
        rw [(hkeeps' _).1, hkeeps.1]
        rfl
  | forgetAgent other =>
      by_cases heq : other = name
      · subst heq
        simp [step, forgetAgent, statusesSeen, limitsSeen, sightings, observingAfter, valuesOf,
          after, standings, changes, change, List.reduceOption_nil]
      · simp [step, forgetAgent, statusesSeen, limitsSeen, sightings, observingAfter, valuesOf,
          heq, List.reduceOption_nil, getElem?_erase_name]
  | beginObserving =>
      simp [step, beginObserving, statusesSeen, limitsSeen, sightings, observingAfter, valuesOf,
        List.reduceOption_nil]
  | stopObserving =>
      simp [step, stopObserving, statusesSeen, limitsSeen, sightings, observingAfter, valuesOf,
        List.reduceOption_nil]

/-- What a run reports of an agent is what changes over its sightings. -/
theorem reports_spec (name : String) (run : List Label) :
    valuesOf name (reports cache run).transitions =
        changes (standings latest cache.stableStatuses[name]?
          (statusesSeen name cache.observing run)) ∧
      valuesOf name (reports cache run).rateLimits =
        (changes (standings sticky cache.rateLimitsNotified[name]?
          (limitsSeen name cache.observing run))).reduceOption := by
  induction run generalizing cache with
  | nil => exact ⟨rfl, rfl⟩
  | cons label run ih =>
      obtain ⟨hmoved, hstatus, hlimited, hlimit, hobserving⟩ := @step_spec cache name label
      obtain ⟨hrest, hrest'⟩ := @ih (step cache label).1
      have hstatuses := statusesSeen_append name [label] run cache.observing
      have hlimits := limitsSeen_append name [label] run cache.observing
      rw [List.singleton_append] at hstatuses hlimits
      rw [reports, hstatuses, hlimits, changes_standings_append, changes_standings_append,
        List.reduceOption_append]
      dsimp only
      rw [valuesOf_append, valuesOf_append, hmoved, hlimited, hrest, hrest', hstatus, hlimit,
        hobserving]
      exact ⟨rfl, rfl⟩

end Run

/-- From the start of the gateway the statuses reported of an agent are the changes from each of
its sightings to the next, in order, and nothing else; its rate limits are the changes of the
window that stands; and from a sighting of a window on nothing is reported until the agent is
seen with another window or forgotten. -/
theorem reports_exactly_once
    (name : String)
    (run : List Label) :
    valuesOf name (reports newCache run).transitions = changes (statusesSeen name false run) ∧
      valuesOf name (reports newCache run).rateLimits =
        (changes (standings sticky none (limitsSeen name false run))).reduceOption ∧
      ∀ later window, (limitsSeen name false run).getLast? = some (some (some window)) →
        (∀ seen ∈ limitsSeen name (observingAfter false run) later,
          seen = some none ∨ seen = some (some window)) →
        valuesOf name (reports newCache (run ++ later)).rateLimits =
          valuesOf name (reports newCache run).rateLimits := by
  have hnone (V : Type) : (∅ : Map String V)[name]? = none := Std.ExtTreeMap.getElem?_empty
  have hlimits (run : List Label) : valuesOf name (reports newCache run).rateLimits =
      (changes (standings sticky none (limitsSeen name false run))).reduceOption := by
    have h := (@reports_spec newCache name run).2
    rw [newCache, hnone] at h
    exact h
  refine ⟨?_, hlimits run, fun later window hlast hlater => ?_⟩
  · have h := (@reports_spec newCache name run).1
    rw [newCache, hnone, standings_latest, changes_none_cons] at h
    exact h
  · obtain ⟨earlier, hearlier⟩ := List.getLast?_eq_some_iff.1 hlast
    have hstanding :
        (limitsSeen name false run).foldl (after sticky) none = some (some window) := by
      rw [hearlier, List.foldl_append]
      simp only [List.foldl_cons, List.foldl_nil, after]
      cases earlier.foldl (after sticky) none <;> rfl
    rw [hlimits, hlimits, limitsSeen_append, changes_standings_append, hstanding]
    have hsilent : changes (standings sticky (some (some window))
        (limitsSeen name (observingAfter false run) later)) = [] := by
      refine changes_standings_eq_nil sticky fun seen hseen => ?_
      rcases hlater seen hseen with rfl | rfl <;> rfl
    rw [hsilent, List.append_nil]

/-! ### A window that comes back -/

/-- A poll of one agent that is alive, with a rate limit or none. -/
def aliveWith (limit : Option RateLimitedWindow) : Label :=
  .poll
    { agents := [{ name := "luna", status := .alive, booting := false, rateLimited := limit,
                   startedAt := none }]
      operated := []
      gatewayOperationRunning := false }

def weeklyWindow : RateLimitedWindow where
  window := some "seven_day"
  resetsAt := some 1787000000

/-- A window is reported once, and not again after it was not seen for a poll. -/
theorem reports_exactly_once_weekly :
    valuesOf "luna" (reports newCache
      ([.beginObserving, aliveWith none, aliveWith (some weeklyWindow)] ++
        [aliveWith none, aliveWith (some weeklyWindow)])).rateLimits = [weeklyWindow] := by
  have honce := (reports_exactly_once "luna"
    [.beginObserving, aliveWith none, aliveWith (some weeklyWindow)]).2.2
    [aliveWith none, aliveWith (some weeklyWindow)] weeklyWindow
    (by decide +kernel) (by decide +kernel)
  rw [honce]
  decide +kernel

end Observation
end Vestad
end Vesta
