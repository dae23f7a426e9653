import Vesta.Lib.Dict
import Vesta.Lib.Serde

/-!
# Erasing a key throughout a value

`erase key` takes the entries under a key out of every object of a value, at any depth.
What this does is said by the places of a value: a place that is not reached through the
key holds afterwards what it held before, with the key erased in it, and there are no
other places.  So a part without the key is untouched.
-/

namespace Vesta
namespace Lib
namespace Value

/-- Induction over a value, through the values of its entries. -/
@[elab_as_elim]
theorem induct
    {motive : Value → Prop}
    (null : motive .null)
    (bool : ∀ b, motive (.bool b))
    (nat : ∀ n, motive (.nat n))
    (number : ∀ digits, motive (.number digits))
    (str : ∀ s, motive (.str s))
    (arr : ∀ values, (∀ value ∈ values, motive value) → motive (.arr values))
    (obj : ∀ entries, (∀ entry ∈ entries, motive entry.2) → motive (.obj entries))
    (value : Value) :
    motive value := by
  exact Value.rec (motive_1 := motive) (motive_2 := fun values => ∀ value ∈ values, motive value)
    (motive_3 := fun entries => ∀ entry ∈ entries, motive entry.2)
    (motive_4 := fun entry => motive entry.2)
    null bool nat number str arr obj
    (fun _ h => absurd h List.not_mem_nil)
    (fun _ _ hvalue hvalues => List.forall_mem_cons.2 ⟨hvalue, hvalues⟩)
    (fun _ h => absurd h List.not_mem_nil)
    (fun _ _ hentry hentries => List.forall_mem_cons.2 ⟨hentry, hentries⟩)
    (fun _ _ hvalue => hvalue) value

mutual

def erase (key : String) : Value → Value
  | .arr values => .arr (eraseItems key values)
  | .obj entries => .obj (eraseEntries key entries)
  | value => value

def eraseItems (key : String) : List Value → List Value
  | [] => []
  | value :: values => erase key value :: eraseItems key values

def eraseEntries (key : String) : List (String × Value) → List (String × Value)
  | [] => []
  | (name, value) :: entries =>
      if name = key then eraseEntries key entries
      else (name, erase key value) :: eraseEntries key entries

end

mutual

/-- How many entries are under a key, of the objects that are reached through arrays and through
entries of some names. -/
def count (within : String → Bool) (key : String) : Value → Nat
  | .arr values => countItems within key values
  | .obj entries => countEntries within key entries
  | _ => 0

def countItems (within : String → Bool) (key : String) : List Value → Nat
  | [] => 0
  | value :: values => count within key value + countItems within key values

def countEntries (within : String → Bool) (key : String) : List (String × Value) → Nat
  | [] => 0
  | (name, value) :: entries =>
      (if name = key then 1 else 0) + (if within name then count within key value else 0) +
        countEntries within key entries

end

def everywhere : String → Bool := fun _ => true

variable {within : String → Bool}

/-! ## What is left -/

theorem eraseItems_eq_map (key : String) (values : List Value) :
    eraseItems key values = values.map (erase key) := by
  induction values with
  | nil => rfl
  | cons value values ih => rw [eraseItems, ih, List.map_cons]

theorem eraseEntries_eq (key : String) (entries : List (String × Value)) :
    eraseEntries key entries =
      (entries.filter fun entry => entry.1 ≠ key).map fun entry =>
        (entry.1, erase key entry.2) := by
  induction entries with
  | nil => rfl
  | cons entry entries ih =>
      obtain ⟨name, value⟩ := entry
      rw [eraseEntries, ih]
      by_cases hname : name = key <;> simp [hname]

theorem countItems_eq_zero_iff {key : String} {values : List Value} :
    countItems within key values = 0 ↔ ∀ value ∈ values, count within key value = 0 := by
  induction values with
  | nil => simp [countItems]
  | cons value values ih => simp [countItems, ih]

theorem countEntries_eq_zero_iff {key : String} {entries : List (String × Value)} :
    countEntries within key entries = 0 ↔
      ∀ entry ∈ entries, entry.1 ≠ key ∧ (within entry.1 → count within key entry.2 = 0) := by
  induction entries with
  | nil => simp [countEntries]
  | cons entry entries ih =>
      obtain ⟨name, value⟩ := entry
      by_cases hname : name = key <;> simp [countEntries, hname, ih]

/-- A value without the key is left as it is. -/
theorem erase_of_count
    {key : String} {value : Value}
    (h : count everywhere key value = 0) :
    erase key value = value := by
  induction value using induct with
  | null | bool | nat | number | str => rfl
  | arr values ih =>
      rw [count, countItems_eq_zero_iff] at h
      have hsame : values.map (erase key) = values.map id :=
        List.map_congr_left fun value hmem => ih value hmem (h value hmem)
      rw [erase, eraseItems_eq_map, hsame, List.map_id]
  | obj entries ih =>
      rw [count, countEntries_eq_zero_iff] at h
      have hall : (entries.filter fun entry => entry.1 ≠ key) = entries :=
        List.filter_eq_self.2 fun entry hmem => decide_eq_true (h entry hmem).1
      have hsame : entries.map (fun entry => (entry.1, erase key entry.2)) = entries.map id :=
        List.map_congr_left fun entry hmem => by
          rw [ih entry hmem ((h entry hmem).2 rfl)]
          rfl
      rw [erase, eraseEntries_eq, hall, hsame, List.map_id]

/-- Nothing under the key is left. -/
theorem count_erase (key : String) (value : Value) : count within key (erase key value) = 0 := by
  induction value using induct with
  | null | bool | nat | number | str => rfl
  | arr values ih =>
      rw [erase, eraseItems_eq_map, count, countItems_eq_zero_iff]
      exact List.forall_mem_map.2 ih
  | obj entries ih =>
      rw [erase, eraseEntries_eq, count, countEntries_eq_zero_iff]
      intro entry hentry
      obtain ⟨source, hsource, rfl⟩ := List.mem_map.1 hentry
      obtain ⟨hmem, hname⟩ := List.mem_filter.1 hsource
      exact ⟨by simpa using hname, fun _ => ih source hmem⟩

theorem erase_erase (key : String) (value : Value) :
    erase key (erase key value) = erase key value :=
  erase_of_count (count_erase key value)

theorem eraseEntries_put (key : String) (value : Value) (entries : List (String × Value)) :
    eraseEntries key (Entries.put key value entries) = eraseEntries key entries := by
  rw [eraseEntries_eq, eraseEntries_eq, Entries.put]
  split
  · rw [List.filter_map, List.map_map]
    apply List.map_congr_left
    intro entry hentry
    have hname : entry.1 ≠ key := of_decide_eq_true (List.mem_filter.1 hentry).2
    simp only [Function.comp_apply, if_neg hname]
  · simp

theorem countEntries_append (key : String) (front back : List (String × Value)) :
    countEntries within key (front ++ back) =
      countEntries within key front + countEntries within key back := by
  induction front with
  | nil => simp [countEntries]
  | cons entry front ih =>
      obtain ⟨name, value⟩ := entry
      rw [List.cons_append, countEntries, countEntries, ih]
      omega

theorem countItems_append (key : String) (front back : List Value) :
    countItems within key (front ++ back) =
      countItems within key front + countItems within key back := by
  induction front with
  | nil => simp [countItems]
  | cons value front ih =>
      rw [List.cons_append, countItems, countItems, ih]
      omega

/-- Putting the key where it was not makes one entry of it. -/
theorem countEntries_put
    {key : String} {value : Value} {entries : List (String × Value)}
    (hentries : countEntries within key entries = 0)
    (hvalue : count within key value = 0) :
    countEntries within key (Entries.put key value entries) = 1 := by
  have hfresh : key ∉ entries.map Prod.fst := by
    intro hmem
    obtain ⟨entry, hentry, rfl⟩ := List.mem_map.1 hmem
    exact (countEntries_eq_zero_iff.1 hentries entry hentry).1 rfl
  rw [Entries.put, if_neg hfresh, countEntries_append, hentries]
  simp [countEntries, hvalue]

/-! ## The places of a value -/

/-- A step to a part of an object or of an array. -/
inductive Step
  | key (name : String)
  | index (i : Nat)
deriving DecidableEq

def child : Value → Step → Option Value
  | .obj entries, .key name => entries.lookup name
  | .arr values, .index i => values[i]?
  | _, _ => none

/-- What a value holds at a place. -/
def part (value : Value) : List Step → Option Value
  | [] => some value
  | step :: path => (value.child step).bind fun value => value.part path

theorem child_erase
    {key : String} {step : Step} {value : Value}
    (h : step ≠ .key key) :
    (erase key value).child step = (value.child step).map (erase key) := by
  cases value with
  | null | bool | nat | number | str => cases step <;> rfl
  | arr values =>
      cases step with
      | key => rfl
      | index i =>
          rw [erase, eraseItems_eq_map]
          exact List.getElem?_map
  | obj entries =>
      cases step with
      | index => rfl
      | key name =>
          have hne : name ≠ key := fun heq => h (heq ▸ rfl)
          rw [erase, eraseEntries_eq]
          change (List.map _ _).lookup name = _
          rw [Entries.lookup_map fun _ value => erase key value,
            Entries.lookup_filter_of_ne hne]
          rfl

theorem child_erase_self (key : String) (value : Value) :
    (erase key value).child (.key key) = none := by
  cases value with
  | null | bool | nat | number | str | arr => rfl
  | obj entries =>
      rw [erase]
      apply Entries.lookup_eq_none_iff.2
      intro hmem
      obtain ⟨entry, hentry, hname⟩ := List.mem_map.1 hmem
      exact (countEntries_eq_zero_iff.1 (@count_erase everywhere key (.obj entries)) entry
        hentry).1 hname

/-- A place holds what it held, with the key erased in it. -/
theorem part_erase
    {key : String} {path : List Step} {value : Value}
    (h : .key key ∉ path) :
    (erase key value).part path = (value.part path).map (erase key) := by
  induction path generalizing value with
  | nil => rfl
  | cons step path ih =>
      obtain ⟨hstep, hpath⟩ := not_or.1 (List.mem_cons.not.1 h)
      rw [part, part, child_erase (Ne.symm hstep), Option.bind_map]
      cases value.child step with
      | none => rfl
      | some child => exact ih hpath

theorem part_erase_of_mem
    {key : String} {path : List Step} {value : Value}
    (h : .key key ∈ path) :
    (erase key value).part path = none := by
  induction path generalizing value with
  | nil => cases h
  | cons step path ih =>
      rw [part]
      by_cases hstep : step = .key key
      · rw [hstep, child_erase_self]
        rfl
      · rw [child_erase hstep]
        cases value.child step with
        | none => rfl
        | some child => exact ih ((List.mem_cons.1 h).resolve_left (Ne.symm hstep))

/-- One value is another but for entries under a key: a part that the key is not in is where it
was, and no part is new. -/
structure Preserved (key : String) (before after : Value) : Prop where
  kept : ∀ path part, before.part path = some part → .key key ∉ path →
    count everywhere key part = 0 → after.part path = some part
  no_other : ∀ path, (after.part path).isSome → (before.part path).isSome

theorem preserved_erase
    (key : String) (value : Value) :
    Preserved key value (erase key value) where
  kept path part hpart hpath hcount := by
    rw [part_erase hpath, hpart, Option.map_some, erase_of_count hcount]
  no_other path hafter := by
    by_cases hpath : .key key ∈ path
    · rw [part_erase_of_mem hpath] at hafter
      cases hafter
    · rwa [part_erase hpath, Option.isSome_map] at hafter

end Value
end Lib
end Vesta
