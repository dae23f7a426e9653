import Vesta.Lib.Map

/-!
# Reporting the changes of a sampled value

A value is sampled now and then, and what stands after a sample is remembered.  A sample
after which something else stands than before is a change and is reported; the first
sample has nothing before it and only seeds.  A sample need not replace what stands:
`advance` says what does.  A value may be forgotten, and is then sampled as if for the
first time.

`track` does this for many keys at once, and `reportsOf_track` reduces it to a single
key: its reports are the changes of what stands of its own samples.
-/

namespace Vesta
namespace Lib
namespace Changes

section Sequence

variable {α : Type} [DecidableEq α]

/-- What there is to report of two values in sequence: a known one after another known one. -/
def change : Option α → Option α → Option α
  | some before, some after => if before = after then none else some after
  | _, _ => none

/-- The changes from each value of a sequence to the next. -/
def changes (values : List (Option α)) : List α :=
  (values.zip values.tail).filterMap fun pair => change pair.1 pair.2

@[simp] theorem change_none_left (after : Option α) : change none after = none := rfl

@[simp] theorem change_self (value : Option α) : change value value = none := by
  cases value <;> simp [change]

@[simp] theorem changes_nil : changes ([] : List (Option α)) = [] := rfl

@[simp] theorem changes_singleton (value : Option α) : changes [value] = [] := rfl

theorem changes_cons_cons (first second : Option α) (rest : List (Option α)) :
    changes (first :: second :: rest) =
      (change first second).toList ++ changes (second :: rest) := by
  rw [changes, List.tail_cons, List.zip_cons_cons, List.filterMap_cons]
  cases change first second <;> rfl

/-- Before the first known value there is nothing to report. -/
theorem changes_none_cons (values : List (Option α)) :
    changes (none :: values) = changes values := by
  cases values with
  | nil => rfl
  | cons first rest => simp [changes_cons_cons]

end Sequence

/-! ## What stands -/

section Standing

variable {α β : Type}
variable (advance : Option α → β → α)

/-- What stands after an event: a sample or, as `none`, that the value is forgotten. -/
def after (standing : Option α) : Option β → Option α
  | none => none
  | some sample => some (advance standing sample)

/-- What stands at first and after each event. -/
def standings (standing : Option α) (events : List (Option β)) : List (Option α) :=
  events.scanl (after advance) standing

@[simp] theorem standings_nil (standing : Option α) : standings advance standing [] = [standing] :=
  rfl

theorem standings_cons (standing : Option α) (event : Option β) (events : List (Option β)) :
    standings advance standing (event :: events) =
      standing :: standings advance (after advance standing event) events :=
  List.scanl_cons

theorem changes_standings_cons
    [DecidableEq α]
    (standing : Option α) (event : Option β) (events : List (Option β)) :
    changes (standings advance standing (event :: events)) =
      (change standing (after advance standing event)).toList ++
        changes (standings advance (after advance standing event) events) := by
  rw [standings_cons]
  cases events with
  | nil => rw [standings_nil, changes_cons_cons]
  | cons next events => rw [standings_cons, changes_cons_cons]

/-- The changes over some events and then others are those over each in turn. -/
theorem changes_standings_append
    [DecidableEq α]
    (standing : Option α) (events later : List (Option β)) :
    changes (standings advance standing (events ++ later)) =
      changes (standings advance standing events) ++
        changes (standings advance (events.foldl (after advance) standing) later) := by
  induction events generalizing standing with
  | nil => rfl
  | cons event events ih =>
      rw [List.cons_append, changes_standings_cons, changes_standings_cons, ih,
        List.append_assoc, List.foldl_cons]

/-- A sample that always replaces what stands. -/
def latest (_ : Option α) (sample : α) : α := sample

theorem standings_latest (standing : Option α) (events : List (Option α)) :
    standings latest standing events = standing :: events := by
  induction events generalizing standing with
  | nil => rfl
  | cons event events ih =>
      rw [standings_cons, ih]
      cases event <;> rfl

/-- Events that leave what stands as it is are no changes. -/
theorem changes_standings_eq_nil
    [DecidableEq α]
    {standing : Option α} {events : List (Option β)}
    (h : ∀ event ∈ events, after advance standing event = standing) :
    changes (standings advance standing events) = [] := by
  induction events with
  | nil => rfl
  | cons event events ih =>
      rw [changes_standings_cons, h event (by simp), change_self,
        ih fun other hother => h other (List.mem_cons_of_mem _ hother)]
      rfl

end Standing

/-! ## Many keys -/

section Keys

variable {K α β γ : Type} [Ord K] [Std.TransOrd K] [Std.LawfulEqOrd K]
variable [DecidableEq K] [DecidableEq α]
variable (advance : Option α → β → α)

/-- The values of a key, in order. -/
def valuesOf (k : K) (entries : List (K × γ)) : List γ :=
  entries.filterMap fun entry => if entry.1 = k then some entry.2 else none

/-- What stands of each key after some samples, and the changes. -/
def track (memory : Map K α) : List (K × β) → Map K α × List (K × α)
  | [] => (memory, [])
  | (k, sample) :: samples =>
      let standing := advance memory[k]? sample
      let tracked := track (memory.insert k standing) samples
      (tracked.1, ((change memory[k]? (some standing)).map fun v => (k, v)).toList ++ tracked.2)

omit [Ord K] [Std.TransOrd K] [Std.LawfulEqOrd K] in
theorem valuesOf_append (k : K) (entries later : List (K × γ)) :
    valuesOf k (entries ++ later) = valuesOf k entries ++ valuesOf k later :=
  List.filterMap_append

omit [Ord K] [Std.TransOrd K] [Std.LawfulEqOrd K] in
theorem valuesOf_cons (k : K) (entry : K × γ) (entries : List (K × γ)) :
    valuesOf k (entry :: entries) =
      if entry.1 = k then entry.2 :: valuesOf k entries else valuesOf k entries := by
  rw [valuesOf, List.filterMap_cons]
  split <;> split <;> simp_all [valuesOf]

/-- What stands of a key goes by its own samples. -/
theorem getElem?_track (k : K) (samples : List (K × β)) (memory : Map K α) :
    (track advance memory samples).1[k]? =
      ((valuesOf k samples).map some).foldl (after advance) memory[k]? := by
  induction samples generalizing memory with
  | nil => rfl
  | cons entry samples ih =>
      obtain ⟨other, sample⟩ := entry
      rw [track, ih, valuesOf_cons]
      by_cases heq : other = k
      · subst heq
        simp [after]
      · simp [heq, Std.ExtTreeMap.getElem?_insert]

/-- The reports of a key are the changes of what stands of its own samples. -/
theorem reportsOf_track (k : K) (samples : List (K × β)) (memory : Map K α) :
    valuesOf k (track advance memory samples).2 =
      changes (standings advance memory[k]? ((valuesOf k samples).map some)) := by
  induction samples generalizing memory with
  | nil => rfl
  | cons entry samples ih =>
      obtain ⟨other, sample⟩ := entry
      rw [track, valuesOf_append, ih, valuesOf_cons]
      by_cases heq : other = k
      · subst heq
        simp only [if_true, List.map_cons, changes_standings_cons]
        rw [Std.ExtTreeMap.getElem?_insert_self]
        refine congrArg (· ++ _) ?_
        rw [after]
        cases change memory[other]? (some (advance memory[other]? sample)) <;>
          simp [valuesOf]
      · rw [if_neg heq, Std.ExtTreeMap.getElem?_insert, if_neg (by simpa using heq)]
        cases change memory[other]? (some (advance memory[other]? sample)) <;>
          simp [valuesOf, heq]

end Keys

end Changes
end Lib
end Vesta
