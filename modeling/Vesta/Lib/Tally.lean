import Mathlib.Algebra.Order.Ring.Int
import Vesta.Lib.Dict

/-!
# Tallies

A tally is a dictionary of integers in which a missing name counts as zero.  Adding to a
name changes the total of the tally by what was added, and the amount of no other name.
-/

namespace Vesta
namespace Lib

/-- The sum of the numbers that a list of names is given. -/
def sumOver {K : Type} (f : K → Int) : List K → Int
  | [] => 0
  | k :: ks => f k + sumOver f ks

section SumOver

variable {K : Type}

theorem sumOver_congr
    {f g : K → Int} {ks : List K}
    (h : ∀ k ∈ ks, f k = g k) :
    sumOver f ks = sumOver g ks := by
  induction ks with
  | nil => rfl
  | cons k ks ih =>
      rw [sumOver, sumOver, h k List.mem_cons_self,
        ih fun j hj => h j (List.mem_cons_of_mem k hj)]

theorem sumOver_append (f : K → Int) (ks js : List K) :
    sumOver f (ks ++ js) = sumOver f ks + sumOver f js := by
  induction ks with
  | nil => simp [sumOver]
  | cons k ks ih => rw [List.cons_append, sumOver, sumOver, ih, add_assoc]

theorem sumOver_map {J : Type} (f : K → Int) (g : J → K) (js : List J) :
    sumOver f (js.map g) = sumOver (f ∘ g) js := by
  induction js with
  | nil => rfl
  | cons j js ih => rw [List.map_cons, sumOver, sumOver, ih, Function.comp_apply]

theorem sumOver_perm
    {f : K → Int} {ks js : List K}
    (h : ks.Perm js) :
    sumOver f ks = sumOver f js := by
  induction h with
  | nil => rfl
  | cons k h ih => rw [sumOver, sumOver, ih]
  | swap k j ks => rw [sumOver, sumOver, sumOver, sumOver, add_left_comm]
  | trans h h' ih ih' => rw [ih, ih']

theorem sumOver_nonneg
    {f : K → Int} {ks : List K}
    (h : ∀ k ∈ ks, 0 ≤ f k) :
    0 ≤ sumOver f ks := by
  induction ks with
  | nil => exact le_rfl
  | cons k ks ih =>
      have hfirst := h k List.mem_cons_self
      have hrest := ih fun j hj => h j (List.mem_cons_of_mem k hj)
      rw [sumOver]
      omega

theorem sumOver_neg (f : K → Int) (ks : List K) :
    sumOver (fun k => -f k) ks = -sumOver f ks := by
  induction ks with
  | nil => rfl
  | cons k ks ih =>
      rw [sumOver, sumOver, ih]
      omega

/-- Names with zero do not count. -/
theorem sumOver_filter
    {f : K → Int} {p : K → Bool} (ks : List K)
    (h : ∀ k ∈ ks, p k = false → f k = 0) :
    sumOver f (ks.filter p) = sumOver f ks := by
  induction ks with
  | nil => rfl
  | cons k ks ih =>
      have ih := ih fun j hj => h j (List.mem_cons_of_mem k hj)
      cases hk : p k with
      | true => rw [List.filter_cons_of_pos hk, sumOver, sumOver, ih]
      | false =>
          rw [List.filter_cons_of_neg (by simp [hk]), sumOver, ih, h k List.mem_cons_self hk,
            zero_add]

/-- Changing the number of one name changes the sum by the difference. -/
theorem sumOver_update
    [DecidableEq K]
    {ks : List K} {key : K} (f : K → Int) (x : Int)
    (hnodup : ks.Nodup)
    (hkey : key ∈ ks) :
    sumOver (fun k => if k = key then x else f k) ks = sumOver f ks + (x - f key) := by
  induction ks with
  | nil => cases hkey
  | cons k ks ih =>
      obtain ⟨hfresh, hnodup⟩ := List.nodup_cons.1 hnodup
      rw [sumOver, sumOver]
      rcases List.mem_cons.1 hkey with rfl | hmem
      · have hrest : sumOver (fun k => if k = key then x else f k) ks = sumOver f ks :=
          sumOver_congr fun j hj => if_neg (ne_of_mem_of_not_mem hj hfresh)
        rw [hrest, if_pos rfl]
        omega
      · have hne : k ≠ key := fun heq => hfresh (heq ▸ hmem)
        rw [ih hnodup hmem, if_neg hne]
        omega

end SumOver

namespace Tally

variable {K : Type} [DecidableEq K]

/-- What a name has; a missing one has zero. -/
def amount (tally : Dict K Int) (name : K) : Int := (tally.get name).getD 0

/-- The sum of all values. -/
def total (tally : Dict K Int) : Int := sumOver Prod.snd tally.entries

/-- `tally[name] = tally.get(name, 0) + x` -/
def add (name : K) (x : Int) (tally : Dict K Int) : Dict K Int :=
  tally.put name (amount tally name + x)

theorem amount_eq_zero_of_not_mem
    {tally : Dict K Int} {name : K}
    (h : name ∉ tally.keys) :
    amount tally name = 0 := by
  rw [amount, Dict.get_eq_none_iff.2 h]
  rfl

/-- The total is the sum of what the names of the tally have. -/
theorem total_eq_sumOver (tally : Dict K Int) :
    total tally = sumOver (amount tally) tally.keys := by
  rw [total, Dict.keys, sumOver_map]
  exact sumOver_congr fun entry hentry => by
    rw [Function.comp_apply, amount, Dict.get_of_mem hentry, Option.getD_some]

theorem amount_put (tally : Dict K Int) (name : K) (x : Int) (other : K) :
    amount (tally.put name x) other = if other = name then x else amount tally other := by
  rw [amount, Dict.get_put]
  split
  · rfl
  · rfl

theorem total_put (tally : Dict K Int) (name : K) (x : Int) :
    total (tally.put name x) = total tally + (x - amount tally name) := by
  rw [total_eq_sumOver, total_eq_sumOver,
    sumOver_congr fun other _ => amount_put tally name x other, Dict.keys_put]
  split
  · rename_i hmem
    exact sumOver_update _ _ tally.nodup hmem
  · rename_i hfresh
    have hold : sumOver (fun k => if k = name then x else amount tally k) tally.keys =
        sumOver (amount tally) tally.keys :=
      sumOver_congr fun k hk => if_neg (ne_of_mem_of_not_mem hk hfresh)
    rw [sumOver_append, hold, amount_eq_zero_of_not_mem hfresh]
    simp [sumOver]

theorem amount_add (name : K) (x : Int) (tally : Dict K Int) (other : K) :
    amount (add name x tally) other =
      if other = name then amount tally other + x else amount tally other := by
  rw [add, amount_put]
  split
  · rename_i heq
    rw [heq]
  · rfl

@[simp]
theorem total_add (name : K) (x : Int) (tally : Dict K Int) :
    total (add name x tally) = total tally + x := by
  rw [add, total_put]
  omega

theorem keys_add_of_mem
    {name : K} {tally : Dict K Int}
    (h : name ∈ tally.keys)
    (x : Int) :
    (add name x tally).keys = tally.keys := by
  rw [add, Dict.keys_put, if_pos h]

end Tally
end Lib
end Vesta
