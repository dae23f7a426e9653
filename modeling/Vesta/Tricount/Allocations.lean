import Mathlib.Algebra.BigOperators.Group.List.Basic
import Mathlib.Tactic.Linarith
import Mathlib.Tactic.Ring
import Vesta.Lib.Decimal

/-!
# Splitting an expense among members

An expense is posted with one allocation for each member, the value of which is printed
with a minus sign before it.  An equal split and one by ratios print the shares rounded to
cents, and a re-pricing scales the allocations that are there.  The last member takes what
rounding has left over, so the allocations come to the posted amount; but the others can
have been rounded up by more than the last member's share, and then the sign that is put
before a negative value makes no number of it, or the value comes out positive.
-/

namespace Vesta
namespace Tricount

open Lib
open Lib.Decimal

/-- An allocation of the type `AMOUNT`. -/
structure Allocation where
  membershipUuid : Text
  value : Text
  currency : Text
deriving DecidableEq

/-- An allocation that is there: its value is a decimal. -/
structure Existing where
  membershipUuid : Text
  value : Text
  number : ℚ
  reads : read value = some number

def total (numbers : List ℚ) : ℚ := numbers.foldr (· + ·) 0

def minus (x : ℚ) : Text := '-' :: fixed x

/-- Write another value to the last allocation. -/
def setLast (value : Text) : List Allocation → List Allocation
  | [] => []
  | [allocation] => [{ allocation with value := value }]
  | allocation :: more => allocation :: setLast value more

/-- The share of each member is rounded, and the last one absorbs the remainder. -/
def buildEqualAllocations (splitUuids : List Text) (amount : ℚ) (currency : Text) :
    List Allocation :=
  let n := splitUuids.length
  let share := round2 (amount / n)
  let allocations := splitUuids.map fun uuid => ⟨uuid, minus share, currency⟩
  let totalAllocated := round2 (share * n)
  if totalAllocated ≠ round2 amount then
    let diff := round2 (amount - totalAllocated)
    setLast (minus (share + diff)) allocations
  else allocations

def addToLast (diff : ℚ) : List ℚ → List ℚ
  | [] => []
  | [x] => [round2 (x + diff)]
  | x :: more => x :: addToLast diff more

/-- The shares in proportion to the ratios. -/
def buildRatioAllocations (ratioSplits : List (Text × ℚ)) (amount : ℚ) (currency : Text) :
    List Allocation :=
  let totalRatio := total (ratioSplits.map Prod.snd)
  let rawAmounts := ratioSplits.map fun split => round2 (amount * split.2 / totalRatio)
  let totalAllocated := round2 (total rawAmounts)
  let rawAmounts :=
    if totalAllocated ≠ round2 amount then addToLast (round2 (amount - totalAllocated)) rawAmounts
    else rawAmounts
  (ratioSplits.zip rawAmounts).map fun split => ⟨split.1.1, minus split.2, currency⟩

/-- `edit_expense`, for a new amount and the split that is there. -/
def repriceAllocations (existing : List Existing) (newAmount : ℚ) (currency : Text) :
    List Allocation :=
  let existingTotal := total (existing.map fun a => |a.number|)
  if 0 < existingTotal then
    let allocations := existing.map fun a =>
      ⟨a.membershipUuid, minus (round2 (newAmount * |a.number| / existingTotal)), currency⟩
    let totalAlloc := total (allocations.map fun a => (read a.value).getD 0)
    let diff := round2 (-newAmount - totalAlloc)
    if diff ≠ 0 then
      let cur := (allocations.getLast?.bind fun last => read last.value).getD 0
      setLast (fixed (cur + diff)) allocations
    else allocations
  else existing.map fun a => ⟨a.membershipUuid, a.value, currency⟩

/-! ## What is asked of a split -/

/-- The values are decimals, none of them positive, that come to minus the amount. -/
def WellFormed (amount : ℚ) (allocations : List Allocation) : Prop :=
  ∃ numbers : List ℚ,
    (allocations.map fun a => read a.value) = numbers.map some ∧
      (∀ x ∈ numbers, x ≤ 0) ∧ total numbers = -amount

/-- What rounding adds to the shares before the last one is no more than the last one. -/
def LastAbsorbs (shares : List ℚ) : Prop :=
  total (shares.dropLast.map fun x => round2 x - x) ≤ shares.getLast?.getD 0

instance (shares : List ℚ) : Decidable (LastAbsorbs shares) :=
  inferInstanceAs (Decidable (_ ≤ _))

/-! ## Totals -/

@[simp] theorem total_nil : total [] = 0 := rfl

@[simp] theorem total_cons (x : ℚ) (numbers : List ℚ) : total (x :: numbers) = x + total numbers :=
  rfl

@[simp] theorem total_append (xs ys : List ℚ) : total (xs ++ ys) = total xs + total ys := by
  induction xs with
  | nil => simp
  | cons x xs ih =>
      rw [List.cons_append, total_cons, total_cons, ih, add_assoc]

theorem total_hundredths (ks : List ℤ) : total (ks.map hundredths) = hundredths ks.sum := by
  induction ks with
  | nil => simp
  | cons k ks ih => rw [List.map_cons, total_cons, ih, List.sum_cons, hundredths_add]

theorem total_sub (xs : List ℚ) (f : ℚ → ℚ) :
    total (xs.map fun x => f x - x) = total (xs.map f) - total xs := by
  induction xs with
  | nil => simp
  | cons x xs ih =>
      rw [List.map_cons, List.map_cons, total_cons, total_cons, total_cons, ih, add_sub_add_comm]

theorem total_scale (amount divisor : ℚ) (weights : List ℚ) :
    total (weights.map fun w => amount * w / divisor) = amount * total weights / divisor := by
  induction weights with
  | nil => simp
  | cons w weights ih => rw [List.map_cons, total_cons, ih, total_cons, mul_add, add_div]

/-- Shares in proportion come to the amount. -/
theorem total_shares
    (amount : ℚ) {weights : List ℚ}
    (hweights : 0 < total weights) :
    total (weights.map fun w => amount * w / total weights) = amount := by
  rw [total_scale, mul_div_assoc, div_self hweights.ne', mul_one]

theorem total_nonneg
    {xs : List ℚ}
    (h : ∀ x ∈ xs, 0 ≤ x) :
    0 ≤ total xs := by
  induction xs with
  | nil => exact le_rfl
  | cons x xs ih =>
      obtain ⟨hx, hxs⟩ := List.forall_mem_cons.1 h
      exact add_nonneg hx (ih hxs)

theorem total_pos
    {xs : List ℚ}
    (hne : xs ≠ [])
    (h : ∀ x ∈ xs, 0 < x) :
    0 < total xs := by
  cases xs with
  | nil => exact absurd rfl hne
  | cons x xs =>
      obtain ⟨hx, hxs⟩ := List.forall_mem_cons.1 h
      exact add_pos_of_pos_of_nonneg hx (total_nonneg fun y hy => (hxs y hy).le)

/-- Nonnegative numbers that come to nothing are all zero. -/
theorem eq_zero_of_total
    {xs : List ℚ}
    (hnonneg : ∀ x ∈ xs, 0 ≤ x)
    (h : total xs = 0) :
    ∀ x ∈ xs, x = 0 := by
  induction xs with
  | nil => exact fun x hx => absurd hx List.not_mem_nil
  | cons x xs ih =>
      obtain ⟨hx, hxs⟩ := List.forall_mem_cons.1 hnonneg
      rw [total_cons, add_eq_zero_iff_of_nonneg hx (total_nonneg hxs)] at h
      exact List.forall_mem_cons.2 ⟨h.1, ih hxs h.2⟩

/-! ## Cents -/

/-- A share in cents. -/
def cents (x : ℚ) : ℤ := roundEven (x * 100)

theorem round2_cents (x : ℚ) : round2 x = hundredths (cents x) := rfl

theorem cents_nonneg
    {x : ℚ}
    (h : 0 ≤ x) :
    0 ≤ cents x :=
  roundEven_nonneg (mul_nonneg h (by norm_num))

/-- The last share absorbs what rounding adds if the others, rounded, are within the amount. -/
theorem lastAbsorbs_iff
    {shares : List ℚ} {c : ℤ}
    (hne : shares ≠ [])
    (htotal : total shares = hundredths c) :
    LastAbsorbs shares ↔ (shares.dropLast.map cents).sum ≤ c := by
  have hsplit : total shares.dropLast + shares.getLast?.getD 0 = hundredths c := by
    rw [← htotal]
    conv => rhs; rw [← List.dropLast_append_getLast hne]
    rw [total_append, total_cons, total_nil, add_zero, List.getLast?_eq_some_getLast hne,
      Option.getD_some]
  have hrounded : total (shares.dropLast.map round2) =
      hundredths (shares.dropLast.map cents).sum := by
    rw [← total_hundredths, List.map_map]
    rfl
  rw [LastAbsorbs, total_sub, hrounded, sub_le_iff_le_add, add_comm, hsplit, hundredths_le]

theorem values_setLast
    (value : Text) {allocations : List Allocation}
    (hne : allocations ≠ []) :
    (setLast value allocations).map Allocation.value =
      (allocations.map Allocation.value).dropLast ++ [value] := by
  induction allocations with
  | nil => exact absurd rfl hne
  | cons first more ih =>
      cases more with
      | nil => rfl
      | cons second more =>
          rw [setLast, List.map_cons, ih (List.cons_ne_nil _ _)]
          · rfl
          · exact fun h => absurd h (List.cons_ne_nil _ _)

theorem read_minus_hundredths
    {k : ℤ}
    (h : 0 ≤ k) :
    read (minus (hundredths k)) = some (-hundredths k) := by
  rw [minus, read_minus_fixed, if_neg (not_lt.2 h), hundredths_neg]

theorem total_neg_hundredths (ks : List ℤ) :
    total (ks.map fun k => -hundredths k) = -hundredths ks.sum := by
  induction ks with
  | nil => simp
  | cons k ks ih =>
      rw [List.map_cons, total_cons, ih, List.sum_cons, ← hundredths_add, neg_add]

/-- Where all values but the last print cents, the last one has to be what is left. -/
theorem wellFormed_iff
    {allocations : List Allocation} {others : List ℤ} {last : Text} {c : ℤ}
    (hvalues : allocations.map Allocation.value =
      others.map (fun k => minus (hundredths k)) ++ [last])
    (hothers : ∀ k ∈ others, 0 ≤ k) :
    WellFormed (hundredths c) allocations ↔
      others.sum ≤ c ∧ read last = some (hundredths (others.sum - c)) := by
  have hread : (others.map fun k => read (minus (hundredths k))) =
      (others.map fun k => -hundredths k).map some := by
    rw [List.map_map]
    exact List.map_congr_left fun k hk => read_minus_hundredths (hothers k hk)
  have hall : (allocations.map fun a => read a.value) =
      (others.map fun k => -hundredths k).map some ++ [read last] := by
    have hmap := congrArg (List.map read) hvalues
    rw [List.map_map, List.map_append, List.map_map] at hmap
    exact hmap.trans (congrArg (· ++ [read last]) hread)
  constructor
  · rintro ⟨numbers, hnumbers, hnonpos, htotal⟩
    rw [hall] at hnumbers
    obtain ⟨before, after, rfl, hbefore, hafter⟩ := List.map_eq_append_iff.1 hnumbers.symm
    cases List.map_injective_iff.2 (Option.some_injective ℚ) hbefore
    obtain ⟨y, rfl, hy⟩ := List.map_eq_singleton_iff.1 hafter
    rw [total_append, total_neg_hundredths, total_cons, total_nil, add_zero] at htotal
    have hrest : y = hundredths (others.sum - c) := by
      rw [← hundredths_sub]
      linarith
    have hle : y ≤ 0 := hnonpos y (by simp)
    rw [hrest, ← hundredths_zero, hundredths_le] at hle
    exact ⟨by omega, by rw [← hy, hrest]⟩
  · rintro ⟨hle, hlast⟩
    refine ⟨others.map (fun k => -hundredths k) ++ [hundredths (others.sum - c)], ?_, ?_, ?_⟩
    · rw [hall, hlast, List.map_append]
      rfl
    · rw [List.forall_mem_append]
      constructor
      · rw [List.forall_mem_map]
        intro k hk
        rw [hundredths_neg, ← hundredths_zero, hundredths_le]
        have hnonneg := hothers k hk
        omega
      · rw [List.forall_mem_singleton, ← hundredths_zero, hundredths_le]
        omega
    · rw [total_append, total_neg_hundredths, total_cons, total_nil, add_zero, ← hundredths_sub]
      ring

/-- A last value behind a sign of its own has to be negative. -/
theorem wellFormed_minus_iff
    {allocations : List Allocation} {others : List ℤ} {c : ℤ}
    (hvalues : allocations.map Allocation.value =
      others.map (fun k => minus (hundredths k)) ++ [minus (hundredths (c - others.sum))])
    (hothers : ∀ k ∈ others, 0 ≤ k) :
    WellFormed (hundredths c) allocations ↔ others.sum ≤ c := by
  rw [wellFormed_iff hvalues hothers, and_iff_left_iff_imp]
  intro hle
  rw [read_minus_hundredths (by omega), hundredths_neg, neg_sub]

/-! ## The three splits -/

theorem sum_dropLast
    {ks : List ℤ}
    (hne : ks ≠ []) :
    ks.dropLast.sum + ks.getLast hne = ks.sum := by
  have hsplit := congrArg List.sum (List.dropLast_append_getLast hne)
  rwa [List.sum_append, List.sum_singleton] at hsplit

/-- Shares that come to the amount leave nothing to absorb. -/
theorem eq_of_sum
    {rounded : List ℤ} {c : ℤ}
    (hne : rounded ≠ [])
    (hsum : rounded.sum = c) :
    rounded.dropLast ++ [c - rounded.dropLast.sum] = rounded := by
  have hlast : c - rounded.dropLast.sum = rounded.getLast hne := by
    have hsplit := sum_dropLast hne
    omega
  rw [hlast, List.dropLast_append_getLast hne]

/-- A split whose last member takes what is left of the rounded shares. -/
theorem wellFormed_shares_iff
    {allocations : List Allocation} {shares : List ℚ} {c : ℤ}
    (hne : shares ≠ [])
    (hnonneg : ∀ x ∈ shares, 0 ≤ x)
    (htotal : total shares = hundredths c)
    (hvalues : allocations.map Allocation.value =
      ((shares.map cents).dropLast ++ [c - (shares.map cents).dropLast.sum]).map
        fun k => minus (hundredths k)) :
    WellFormed (hundredths c) allocations ↔ LastAbsorbs shares := by
  rw [List.map_append] at hvalues
  rw [wellFormed_minus_iff hvalues, lastAbsorbs_iff hne htotal, List.map_dropLast]
  intro k hk
  obtain ⟨x, hx, rfl⟩ := List.mem_map.1 ((List.dropLast_sublist _).subset hk)
  exact cents_nonneg (hnonneg x hx)

theorem total_const (n : Nat) (x : ℚ) : total (List.replicate n x) = n * x := by
  induction n with
  | zero => simp
  | succ n ih =>
      rw [List.replicate_succ, total_cons, ih, Nat.cast_succ]
      ring

/-- An equal split is well formed just if the last member's share absorbs the remainder. -/
theorem equal_wellFormed_iff
    {splitUuids : List Text} {c : ℤ} (currency : Text)
    (hne : splitUuids ≠ [])
    (hamount : 0 ≤ hundredths c) :
    WellFormed (hundredths c) (buildEqualAllocations splitUuids (hundredths c) currency) ↔
      LastAbsorbs (splitUuids.map fun _ => hundredths c / splitUuids.length) := by
  have hlength : (0 : ℚ) < splitUuids.length := by
    exact_mod_cast List.length_pos_iff.2 hne
  generalize hx : hundredths c / (splitUuids.length : ℚ) = x
  have hxnonneg : 0 ≤ x := hx ▸ div_nonneg hamount hlength.le
  have hmap : (splitUuids.map fun _ => x) = List.replicate splitUuids.length x := List.map_const'
  have htotal : total (splitUuids.map fun _ => x) = hundredths c := by
    rw [hmap, total_const, ← hx, mul_div_cancel₀ _ hlength.ne']
  have hrounded : (splitUuids.map fun _ => x).map cents ≠ [] := by simpa using hne
  have hsum : ((splitUuids.map fun _ => x).map cents).sum = splitUuids.length * cents x := by
    rw [hmap, List.map_replicate, List.sum_replicate, nsmul_eq_mul]
  have hlast : ((splitUuids.map fun _ => x).map cents).getLast hrounded = cents x := by
    obtain ⟨y, hy, heq⟩ := List.mem_map.1 (List.getLast_mem hrounded)
    obtain ⟨uuid, -, rfl⟩ := List.mem_map.1 hy
    exact heq.symm
  have hallocated : round2 (round2 x * splitUuids.length) =
      hundredths (splitUuids.length * cents x) := by
    have hmul : round2 x * splitUuids.length = hundredths (splitUuids.length * cents x) := by
      rw [round2_cents, hundredths, hundredths]
      push_cast
      ring
    rw [hmul, round2_hundredths]
  refine wellFormed_shares_iff (by simpa using hne) (List.forall_mem_map.2 fun _ _ => hxnonneg)
    htotal ?_
  rw [buildEqualAllocations]
  simp only [hx, hallocated, round2_hundredths]
  split
  · have hleft : round2 x + round2 (hundredths c - hundredths (splitUuids.length * cents x)) =
        hundredths (c - ((splitUuids.map fun _ => x).map cents).dropLast.sum) := by
      have hsplit := sum_dropLast hrounded
      rw [hlast, hsum] at hsplit
      rw [hundredths_sub, round2_hundredths, round2_cents, hundredths_add]
      congr 1
      omega
    rw [values_setLast _ (by simpa using hne), hleft, List.map_append, List.map_map,
      ← List.map_dropLast, ← List.map_dropLast, ← List.map_dropLast, List.map_map, List.map_map]
    rfl
  · rename_i hsame
    rw [not_not, hundredths_inj] at hsame
    rw [eq_of_sum hrounded (hsum.trans hsame), List.map_map, List.map_map, List.map_map]
    rfl

theorem addToLast_hundredths
    {ks : List ℤ}
    (hne : ks ≠ [])
    (d : ℤ) :
    addToLast (hundredths d) (ks.map hundredths) =
      (ks.dropLast ++ [ks.getLast hne + d]).map hundredths := by
  induction ks with
  | nil => exact absurd rfl hne
  | cons k ks ih =>
      cases ks with
      | nil => simp [addToLast, hundredths_add]
      | cons next ks =>
          rw [List.map_cons, List.map_cons, addToLast, ← List.map_cons,
            ih (List.cons_ne_nil _ _)]
          · rfl
          · exact fun h => absurd h (List.cons_ne_nil _ _)

/-- A split by ratios is well formed just if the last member's share absorbs the remainder. -/
theorem ratio_wellFormed_iff
    {ratioSplits : List (Text × ℚ)} {c : ℤ} (currency : Text)
    (hne : ratioSplits ≠ [])
    (hratios : ∀ split ∈ ratioSplits, 0 < split.2)
    (hamount : 0 ≤ hundredths c) :
    WellFormed (hundredths c) (buildRatioAllocations ratioSplits (hundredths c) currency) ↔
      LastAbsorbs (ratioSplits.map fun split =>
        hundredths c * split.2 / total (ratioSplits.map Prod.snd)) := by
  have hpos : 0 < total (ratioSplits.map Prod.snd) :=
    total_pos (by simpa using hne) (List.forall_mem_map.2 hratios)
  have htotal : total (ratioSplits.map fun split =>
      hundredths c * split.2 / total (ratioSplits.map Prod.snd)) = hundredths c := by
    have hshares := total_shares (hundredths c) hpos
    rwa [List.map_map] at hshares
  generalize hshares : (ratioSplits.map fun split =>
    hundredths c * split.2 / total (ratioSplits.map Prod.snd)) = shares at htotal ⊢
  have hlength : shares.length = ratioSplits.length := by rw [← hshares, List.length_map]
  have hsome : shares ≠ [] := by
    rw [← hshares]
    simpa using hne
  have hrounded : shares.map cents ≠ [] := by simpa using hsome
  have hnonneg : ∀ x ∈ shares, 0 ≤ x := by
    rw [← hshares, List.forall_mem_map]
    exact fun split hsplit =>
      div_nonneg (mul_nonneg hamount (hratios split hsplit).le) hpos.le
  have hraw : (ratioSplits.map fun split =>
      round2 (hundredths c * split.2 / total (ratioSplits.map Prod.snd))) =
        (shares.map cents).map hundredths := by
    rw [← hshares, List.map_map, List.map_map]
    rfl
  refine wellFormed_shares_iff hsome hnonneg htotal ?_
  rw [buildRatioAllocations]
  simp only [hraw, total_hundredths, round2_hundredths, hundredths_sub]
  have hadjusted : (if hundredths (shares.map cents).sum ≠ hundredths c then
        addToLast (hundredths (c - (shares.map cents).sum)) ((shares.map cents).map hundredths)
      else (shares.map cents).map hundredths) =
        ((shares.map cents).dropLast ++ [c - (shares.map cents).dropLast.sum]).map hundredths := by
    split
    · rw [addToLast_hundredths hrounded]
      have hsplit := sum_dropLast hrounded
      congr 3
      omega
    · rename_i hsame
      rw [not_not, hundredths_inj] at hsame
      rw [eq_of_sum hrounded hsame]
  rw [hadjusted]
  -- One value for each member.
  have hsame : (((shares.map cents).dropLast ++ [c - (shares.map cents).dropLast.sum]).map
      hundredths).length = ratioSplits.length := by
    have hpositive := List.length_pos_iff.2 hsome
    simp only [List.length_map, List.length_append, List.length_dropLast, List.length_singleton]
    omega
  have hzip := List.map_snd_zip hsame.le
  have hvalues := congrArg (List.map minus) hzip
  rw [List.map_map, List.map_map] at hvalues
  rw [List.map_map]
  exact hvalues

theorem reads_existing (existing : List Existing) :
    (existing.map fun a => read a.value) = (existing.map Existing.number).map some := by
  rw [List.map_map]
  exact List.map_congr_left fun a _ => a.reads

/-- A re-pricing is well formed just if something is allocated already and the last member's
share absorbs the remainder. -/
theorem reprice_wellFormed_iff
    (existing : List Existing) {c : ℤ} (currency : Text)
    (hamount : 0 < hundredths c) :
    WellFormed (hundredths c) (repriceAllocations existing (hundredths c) currency) ↔
      0 < total (existing.map fun a => |a.number|) ∧
        LastAbsorbs (existing.map fun a =>
          hundredths c * |a.number| / total (existing.map fun a => |a.number|)) := by
  rw [repriceAllocations]
  split
  · rename_i hpos
    rw [and_iff_right hpos]
    have htotal : total (existing.map fun a =>
        hundredths c * |a.number| / total (existing.map fun a => |a.number|)) = hundredths c := by
      have hshares := total_shares (hundredths c) hpos
      rwa [List.map_map] at hshares
    have hne : existing ≠ [] := by
      rintro rfl
      exact lt_irrefl _ hpos
    generalize hshares : (existing.map fun a =>
      hundredths c * |a.number| / total (existing.map fun a => |a.number|)) = shares at htotal ⊢
    have hsome : shares ≠ [] := by
      rw [← hshares]
      simpa using hne
    have hrounded : shares.map cents ≠ [] := by simpa using hsome
    have hnonneg : ∀ x ∈ shares, 0 ≤ x := by
      rw [← hshares, List.forall_mem_map]
      exact fun a _ => div_nonneg (mul_nonneg hamount.le (abs_nonneg _)) hpos.le
    have hcents : ∀ k ∈ shares.map cents, 0 ≤ k :=
      List.forall_mem_map.2 fun x hx => cents_nonneg (hnonneg x hx)
    generalize hallocations : (existing.map fun a => (⟨a.membershipUuid,
      minus (round2 (hundredths c * |a.number| / total (existing.map fun a => |a.number|))),
      currency⟩ : Allocation)) = allocations
    have hvalues : allocations.map Allocation.value =
        (shares.map cents).map fun k => minus (hundredths k) := by
      rw [← hallocations, ← hshares, List.map_map, List.map_map, List.map_map]
      rfl
    have hread : (allocations.map fun a => (read a.value).getD 0) =
        (shares.map cents).map fun k => -hundredths k := by
      have hmap := congrArg (List.map fun text => (read text).getD 0) hvalues
      rw [List.map_map, List.map_map] at hmap
      refine hmap.trans (List.map_congr_left fun k hk => ?_)
      rw [Function.comp_apply, read_minus_hundredths (hcents k hk), Option.getD_some]
    have hdiff : round2 (-hundredths c - total (allocations.map fun a => (read a.value).getD 0)) =
        hundredths ((shares.map cents).sum - c) := by
      rw [hread, total_neg_hundredths, neg_sub_neg, hundredths_sub, round2_hundredths]
    have hcur : ((allocations.getLast?.bind fun last => read last.value).getD 0) =
        -hundredths ((shares.map cents).getLast hrounded) := by
      have hlast := congrArg List.getLast? hvalues
      rw [List.getLast?_map, List.getLast?_map, List.getLast?_eq_some_getLast hrounded,
        Option.map_some, Option.map_eq_some_iff] at hlast
      obtain ⟨last, hlast, hvalue⟩ := hlast
      rw [hlast, Option.bind_some, hvalue,
        read_minus_hundredths (hcents _ (List.getLast_mem hrounded)), Option.getD_some]
    have hsplit := sum_dropLast hrounded
    simp only [hdiff, hcur]
    split
    · have hleft : -hundredths ((shares.map cents).getLast hrounded) +
          hundredths ((shares.map cents).sum - c) =
            hundredths ((shares.map cents).dropLast.sum - c) := by
        rw [hundredths_neg, hundredths_add]
        congr 1
        omega
      have hallocated : allocations ≠ [] := by
        rw [← hallocations]
        simpa using hne
      have hlist := values_setLast (fixed (hundredths ((shares.map cents).dropLast.sum - c)))
        hallocated
      rw [hvalues, ← List.map_dropLast (f := fun k => minus (hundredths k))] at hlist
      rw [hleft, wellFormed_iff hlist fun k hk => hcents k ((List.dropLast_sublist _).subset hk),
        read_fixed, and_iff_left rfl, lastAbsorbs_iff hsome htotal, List.map_dropLast]
    · rename_i hsame
      rw [not_not, ← hundredths_zero, hundredths_inj] at hsame
      refine wellFormed_shares_iff hsome hnonneg htotal ?_
      rw [eq_of_sum hrounded (by omega), hvalues]
  · rename_i hzero
    rw [iff_false_intro (mt And.left hzero), iff_false]
    rintro ⟨numbers, hnumbers, -, htotal⟩
    have habs : total (existing.map fun a => |a.number|) = 0 :=
      le_antisymm (not_lt.1 hzero) (total_nonneg (List.forall_mem_map.2 fun a _ => abs_nonneg _))
    have hnumber : ∀ a ∈ existing, |a.number| = 0 :=
      List.forall_mem_map.1
        (eq_zero_of_total (List.forall_mem_map.2 fun a _ => abs_nonneg _) habs)
    rw [List.map_map] at hnumbers
    cases List.map_injective_iff.2 (Option.some_injective ℚ)
      ((reads_existing existing).symm.trans hnumbers)
    have hnone : existing.map Existing.number = List.replicate existing.length 0 := by
      rw [List.eq_replicate_iff, List.length_map]
      exact ⟨rfl, List.forall_mem_map.2 fun a ha => abs_eq_zero.1 (hnumber a ha)⟩
    rw [hnone, total_const, mul_zero] at htotal
    linarith

/-! ## What holds of a split -/

/-- The allocations of the three splits are decimals, none of them positive, that come to minus
the amount, just where the last share absorbs what rounding adds to the others, and, when a split
that is there is priced anew, something is allocated in it. -/
theorem allocations_wellFormed_iff
    {amount : ℚ} (currency : Text)
    (hpositive : 0 < amount)
    (hplaces : ∃ c : ℤ, amount = hundredths c) :
    (∀ splitUuids : List Text, splitUuids ≠ [] →
      (WellFormed amount (buildEqualAllocations splitUuids amount currency) ↔
        LastAbsorbs (splitUuids.map fun _ => amount / splitUuids.length))) ∧
    (∀ ratioSplits : List (Text × ℚ), ratioSplits ≠ [] → (∀ split ∈ ratioSplits, 0 < split.2) →
      (WellFormed amount (buildRatioAllocations ratioSplits amount currency) ↔
        LastAbsorbs (ratioSplits.map fun split =>
          amount * split.2 / total (ratioSplits.map Prod.snd)))) ∧
    (∀ existing : List Existing,
      (WellFormed amount (repriceAllocations existing amount currency) ↔
        0 < total (existing.map fun a => |a.number|) ∧
          LastAbsorbs (existing.map fun a =>
            amount * |a.number| / total (existing.map fun a => |a.number|)))) := by
  obtain ⟨c, rfl⟩ := hplaces
  refine ⟨fun splitUuids hne => ?_, fun ratioSplits hne hratios => ?_, fun existing => ?_⟩
  · exact equal_wellFormed_iff currency hne hpositive.le
  · exact ratio_wellFormed_iff currency hne hratios hpositive.le
  · exact reprice_wellFormed_iff existing currency hpositive

/-- Ten in three equal parts. -/
theorem ten_wellFormed :
    WellFormed 10 (buildEqualAllocations [['a'], ['b'], ['c']] 10 ['E', 'U', 'R']) := by
  have hplaces : ∃ c : ℤ, (10 : ℚ) = hundredths c := ⟨1000, by norm_num [hundredths]⟩
  refine ((allocations_wellFormed_iff _ (by norm_num) hplaces).1 _ (by decide)).2 ?_
  decide +kernel

/-- Six cents for ten members: nine shares are rounded up, and three cents are too much. -/
theorem six_cents_malformed :
    ¬WellFormed (6 / 100)
        (buildEqualAllocations (List.replicate 10 ['a']) (6 / 100) ['E', 'U', 'R']) ∧
      (buildEqualAllocations (List.replicate 10 ['a']) (6 / 100) ['E', 'U', 'R']).getLast?.map
        Allocation.value = some ['-', '-', '0', '.', '0', '3'] := by
  have hlast : (buildEqualAllocations (List.replicate 10 ['a']) (6 / 100)
      ['E', 'U', 'R']).getLast?.map Allocation.value = some ['-', '-', '0', '.', '0', '3'] := by
    decide +kernel
  refine ⟨?_, hlast⟩
  rintro ⟨numbers, hnumbers, -⟩
  obtain ⟨last, hmem, hvalue⟩ := Option.map_eq_some_iff.1 hlast
  have hread : read last.value ∈ numbers.map some := by
    rw [← hnumbers]
    exact List.mem_map_of_mem (f := fun a : Allocation => read a.value)
      (List.mem_of_getLast? hmem)
  obtain ⟨x, -, hx⟩ := List.mem_map.1 hread
  have hnone : read ['-', '-', '0', '.', '0', '3'] = none := by decide +kernel
  rw [hvalue, hnone] at hx
  cases hx

end Tricount
end Vesta
