import Mathlib.Data.List.Basic
import Vesta.Lib.Rounding
import Vesta.Lib.Text

/-!
# How a client compares release versions

A client reads a version as numbers between dots, up to a hyphen, and compares them part by
part.  A part that one version does not have counts as zero.  Numbers are doubles, so parts
of more than 53 bits are rounded.
-/

namespace Vesta
namespace Core
namespace ReleaseVersion

open Lib Lib.Rounding

/-- A number that is no fraction and not negative; the greatest stands for infinity. -/
abbrev JsNumber := WithTop Nat

def zero : JsNumber := WithTop.some 0

/-- The number of a part, which is all digits. -/
def number (part : Text) : Option JsNumber :=
  if part ≠ [] ∧ part.all Char.isDigit then some (toDouble (Nat.ofDigitChars 10 part 0)) else none

def parseParts (version : Text) : Option (List JsNumber) :=
  let core := version.takeWhile (· ≠ '-')
  ((core.splitOn '.').mapM number).filter fun nums => !nums.isEmpty

/-- What one pair of parts decides: nothing when their difference is zero, which it is not for
two infinities. -/
def decided (left right : JsNumber) : Option Int :=
  if left = right ∧ left ≠ ⊤ then none else some (if right < left then 1 else -1)

def compareParts (left right : List JsNumber) : Int :=
  let len := max left.length right.length
  ((List.range len).findSome? fun index =>
    decided (left.getD index zero) (right.getD index zero)).getD 0

/-- One when the first version is newer, minus one when it is older. -/
def compareReleaseVersions (a b : Text) : Option Int :=
  match parseParts a, parseParts b with
  | some left, some right => some (compareParts left right)
  | _, _ => none

example : compareReleaseVersions "1.10-beta".toList "1.9.3".toList = some 1 := by decide +kernel

/-! ## The order of the parts -/

/-- The part of a version as a double. -/
def partAt (parts : List Nat) (index : Nat) : Nat := roundTo 53 (parts.getD index 0)

/-- Some part is less, and those before it are equal, as doubles and with zeros for parts that
are missing. -/
def Below (left right : List Nat) : Prop :=
  ∃ index, (∀ earlier < index, partAt left earlier = partAt right earlier) ∧
    partAt left index < partAt right index

section Below

variable {left right : List Nat}

@[simp] theorem partAt_nil (index : Nat) : partAt [] index = 0 := by simp [partAt]

@[simp] theorem partAt_cons_zero (part : Nat) (parts : List Nat) :
    partAt (part :: parts) 0 = roundTo 53 part := rfl

theorem partAt_succ (parts : List Nat) (index : Nat) :
    partAt parts (index + 1) = partAt parts.tail index := by
  cases parts with
  | nil => simp
  | cons part parts => rfl

/-- The first parts decide unless they are equal. -/
theorem below_iff :
    Below left right ↔
      partAt left 0 < partAt right 0 ∨
        (partAt left 0 = partAt right 0 ∧ Below left.tail right.tail) := by
  constructor
  · rintro ⟨index, hbefore, hless⟩
    cases index with
    | zero => exact .inl hless
    | succ index =>
        refine .inr ⟨hbefore 0 (Nat.succ_pos index), index, fun earlier hearlier => ?_, ?_⟩
        · rw [← partAt_succ, ← partAt_succ]
          exact hbefore (earlier + 1) (Nat.succ_lt_succ hearlier)
        · rw [← partAt_succ, ← partAt_succ]
          exact hless
  · rintro (hless | ⟨hequal, index, hbefore, hless⟩)
    · exact ⟨0, fun earlier hearlier => absurd hearlier (Nat.not_lt_zero earlier), hless⟩
    · refine ⟨index + 1, fun earlier hearlier => ?_, ?_⟩
      · cases earlier with
        | zero => exact hequal
        | succ earlier =>
            rw [partAt_succ, partAt_succ]
            exact hbefore earlier (Nat.lt_of_succ_lt_succ hearlier)
      · rw [partAt_succ, partAt_succ]
        exact hless

theorem not_below_self : ¬ Below left left := by
  rintro ⟨index, -, hless⟩
  exact Nat.lt_irrefl _ hless

theorem Below.trans
    {middle : List Nat}
    (h : Below left middle)
    (h' : Below middle right) :
    Below left right := by
  obtain ⟨i, hi, hless⟩ := h
  obtain ⟨j, hj, hless'⟩ := h'
  refine ⟨min i j, fun earlier hearlier => ?_, ?_⟩
  · rw [Nat.lt_min] at hearlier
    exact (hi earlier hearlier.1).trans (hj earlier hearlier.2)
  · rcases Nat.lt_trichotomy i j with hlt | rfl | hgt
    · rw [Nat.min_eq_left hlt.le, ← hj i hlt]
      exact hless
    · rw [Nat.min_self]
      exact hless.trans hless'
    · rw [Nat.min_eq_right hgt.le, hi j hgt]
      exact hless'

/-- A version without parts is below those that have one other than zero. -/
theorem nil_below_iff : Below [] right ↔ ∃ part ∈ right, part ≠ 0 := by
  induction right with
  | nil => simp [not_below_self]
  | cons part parts ih =>
      rw [below_iff, partAt_nil, partAt_cons_zero, List.tail_nil, List.tail_cons, ih]
      have hzero := @roundTo_eq_zero_iff 53 part (by decide)
      by_cases hpart : part = 0
      · subst hpart
        simp
      · have hpos : 0 < roundTo 53 part := Nat.pos_of_ne_zero fun h => hpart (hzero.1 h)
        simp [hpart, hpos]

theorem not_below_nil : ¬ Below left [] := by
  rintro ⟨index, -, hless⟩
  rw [partAt_nil] at hless
  exact Nat.not_lt_zero _ hless

theorem Below.asymm
    (h : Below left right) :
    ¬ Below right left :=
  fun h' => not_below_self (h.trans h')

/-- Of two versions neither of which is below the other all parts are equal. -/
theorem partAt_eq_of_not_below
    (hold : ¬ Below left right)
    (hnew : ¬ Below right left)
    (index : Nat) :
    partAt left index = partAt right index := by
  induction index using Nat.strongRecOn with
  | ind index ih =>
      rcases Nat.lt_trichotomy (partAt left index) (partAt right index) with hlt | heq | hgt
      · exact absurd ⟨index, ih, hlt⟩ hold
      · exact heq
      · exact absurd ⟨index, fun earlier hearlier => (ih earlier hearlier).symm, hgt⟩ hnew

/-- What is below goes by the parts alone. -/
theorem below_congr
    {left' right' : List Nat}
    (hleft : ∀ index, partAt left index = partAt left' index)
    (hright : ∀ index, partAt right index = partAt right' index) :
    Below left right ↔ Below left' right' := by
  simp only [Below, hleft, hright]

end Below

/-! ## What a comparison comes to -/

section Compare

/-- Every part is a 64-bit integer. -/
def Bounded (parts : List Nat) : Prop := ∀ part ∈ parts, part < 2 ^ 64

theorem Bounded.tail
    {parts : List Nat}
    (h : Bounded parts) :
    Bounded parts.tail :=
  fun part hpart => h part (List.mem_of_mem_tail hpart)

theorem toDouble_of_lt
    {n : Nat}
    (h : n < 2 ^ 64) :
    toDouble n = WithTop.some (roundTo 53 n) :=
  if_pos (h.trans (by decide +kernel))

theorem getD_map_toDouble
    {parts : List Nat}
    (h : Bounded parts)
    (index : Nat) :
    (parts.map toDouble).getD index zero = WithTop.some (partAt parts index) := by
  rw [partAt]
  cases hpart : parts[index]? with
  | none => simp [List.getD_eq_getElem?_getD, hpart, zero]
  | some part =>
      have hlt := h part (List.mem_of_getElem? hpart)
      simp [List.getD_eq_getElem?_getD, hpart, toDouble_of_lt hlt]

/-- Finite numbers decide unless they are equal. -/
theorem decided_coe (x y : Nat) :
    decided (WithTop.some x) (WithTop.some y) =
      if x = y then none else some (if y < x then 1 else -1) := by
  rw [decided]
  by_cases heq : x = y
  · simp [heq]
  · have hne : (WithTop.some x : JsNumber) ≠ WithTop.some y := fun h => heq (WithTop.coe_inj.1 h)
    rw [if_neg fun h => hne h.1, if_neg heq]
    simp only [WithTop.coe_lt_coe]

theorem compareParts_of_ne_nil
    {left right : List JsNumber}
    (h : left ≠ [] ∨ right ≠ []) :
    compareParts left right =
      (decided (left.getD 0 zero) (right.getD 0 zero)).getD
        (compareParts left.tail right.tail) := by
  have hlength : max left.length right.length =
      max left.tail.length right.tail.length + 1 := by
    cases left with
    | nil =>
        cases right with
        | nil => simp at h
        | cons y right => simp
    | cons x left =>
        cases right with
        | nil => simp
        | cons y right => simp [Nat.succ_max_succ]
  have hsucc (parts : List JsNumber) (index : Nat) :
      parts.getD (index + 1) zero = parts.tail.getD index zero := by
    cases parts <;> simp
  rw [compareParts, compareParts, hlength, List.range_succ_eq_map, List.findSome?_cons]
  cases decided (left.getD 0 zero) (right.getD 0 zero) with
  | none =>
      rw [List.findSome?_map]
      simp only [Function.comp_def, Nat.succ_eq_add_one, hsucc]
      rfl
  | some order => rfl

/-- What comparing some parts comes to. -/
inductive Compared (left right : List Nat) : Int → Prop
  | older
      (h : Below left right) :
      Compared left right (-1)
  | newer
      (h : Below right left) :
      Compared left right 1
  | equal
      (hold : ¬ Below left right)
      (hnew : ¬ Below right left) :
      Compared left right 0

theorem compared
    {left right : List Nat}
    (hleft : Bounded left)
    (hright : Bounded right) :
    Compared left right (compareParts (left.map toDouble) (right.map toDouble)) := by
  -- by induction on the longer of the two
  obtain ⟨len, hlen⟩ : ∃ len, max left.length right.length = len := ⟨_, rfl⟩
  induction len generalizing left right with
  | zero =>
      have hnil : left = [] ∧ right = [] := by
        constructor <;> apply List.eq_nil_of_length_eq_zero <;> omega
      rw [hnil.1, hnil.2]
      exact .equal not_below_self not_below_self
  | succ len ih =>
      have hsome : left.map toDouble ≠ [] ∨ right.map toDouble ≠ [] := by
        by_contra hnone
        rw [not_or, not_not, not_not, List.map_eq_nil_iff, List.map_eq_nil_iff] at hnone
        rw [hnone.1, hnone.2] at hlen
        simp at hlen
      have hrest := ih hleft.tail hright.tail (by simp only [List.length_tail]; omega)
      rw [List.map_tail, List.map_tail] at hrest
      generalize hcompare : compareParts (left.map toDouble).tail (right.map toDouble).tail =
        order at hrest
      rw [compareParts_of_ne_nil hsome, getD_map_toDouble hleft, getD_map_toDouble hright,
        decided_coe, hcompare]
      rcases Nat.lt_trichotomy (partAt left 0) (partAt right 0) with hlt | heq | hgt
      · rw [if_neg hlt.ne, if_neg hlt.not_gt]
        exact .older (below_iff.2 (.inl hlt))
      · rw [if_pos heq]
        cases hrest with
        | older h => exact .older (below_iff.2 (.inr ⟨heq, h⟩))
        | newer h => exact .newer (below_iff.2 (.inr ⟨heq.symm, h⟩))
        | equal hold hnew =>
            refine .equal (fun h => ?_) fun h => ?_
            · rcases below_iff.1 h with hlt | ⟨-, htail⟩
              · exact hlt.ne heq
              · exact hold htail
            · rcases below_iff.1 h with hlt | ⟨-, htail⟩
              · exact hlt.ne heq.symm
              · exact hnew htail
      · rw [if_neg hgt.ne', if_pos hgt]
        exact .newer (below_iff.2 (.inl hgt))

end Compare

end ReleaseVersion
end Core
end Vesta
