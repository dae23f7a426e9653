import Mathlib.Data.List.Basic

/-!
# Backtracking patterns

A pattern is tried at a place of a text, between what is before it, nearest first, and
what is after it.  It gives the numbers of characters that it can take there, in the
order in which a backtracking matcher tries them, so that its match is the first one.
A scan goes over the text from the left, takes the match where there is one and goes on
behind it.
-/

namespace Vesta
namespace Lib

/-- A pattern; a repeated one takes at least one character. -/
inductive Regex (α : Type)
  | empty
  | one (p : α → Bool)
  | many (p : α → Bool)
  | seq (r s : Regex α)
  | alt (r s : Regex α)
  | upTo (most : Nat) (r : Regex α)
  | ahead (r : Regex α)
  | notAhead (r : Regex α)
  | notBehind (p : α → Bool)
  | boundary (word : α → Bool)

namespace Regex

variable {α : Type}

def times (r : Regex α) : Nat → Regex α
  | 0 => .empty
  | n + 1 => .seq r (times r n)

def optional (r : Regex α) : Regex α := .alt r .empty

/-- So many of a class, or more. -/
def atLeast (n : Nat) (p : α → Bool) : Regex α := .seq (times (.one p) n) (.many p)

/-! ## Where a pattern ends -/

def downTo : Nat → List Nat
  | 0 => [0]
  | n + 1 => (n + 1) :: downTo n

/-- The ends of a step that is taken behind so many characters. -/
def behind (step : List α → List α → List Nat) (before after : List α) (n : Nat) : List Nat :=
  (step ((after.take n).reverse ++ before) (after.drop n)).map (n + ·)

def upToEnds (step : List α → List α → List Nat) : Nat → List α → List α → List Nat
  | 0, _, _ => [0]
  | most + 1, before, after =>
      (step before after).flatMap (behind (upToEnds step most) before after) ++ [0]

def atBoundary (word : α → Bool) (before after : List α) : Bool :=
  before.head?.any word != after.head?.any word

/-- The numbers of characters that a pattern can take, the preferred one first. -/
def ends : Regex α → List α → List α → List Nat
  | .empty, _, _ => [0]
  | .one p, _, after => if after.head?.any p then [1] else []
  | .many p, _, after => downTo (after.takeWhile p).length
  | .seq r s, before, after => (ends r before after).flatMap (behind (ends s) before after)
  | .alt r s, before, after => ends r before after ++ ends s before after
  | .upTo most r, before, after => upToEnds (ends r) most before after
  | .ahead r, before, after => if (ends r before after).isEmpty then [] else [0]
  | .notAhead r, before, after => if (ends r before after).isEmpty then [0] else []
  | .notBehind p, before, _ => if before.head?.any p then [] else [0]
  | .boundary word, before, after => if atBoundary word before after then [0] else []

/-- How many characters the match takes. -/
def first (r : Regex α) (before after : List α) : Option Nat := (ends r before after).head?

/-- How many characters each match takes at least. -/
def least : Regex α → Nat
  | .one _ => 1
  | .seq r s => r.least + s.least
  | .alt r s => min r.least s.least
  | _ => 0

/-! ## Scans -/

/-- A character that no match takes, or a match. -/
inductive Piece (α : Type)
  | kept (a : α)
  | found (text : List α)

def Piece.text : Piece α → List α
  | .kept a => [a]
  | .found text => text

/-- The pieces behind so many characters of a match. -/
def scanFrom (r : Regex α) : List α → Nat → List α → List (Piece α)
  | _, _, [] => []
  | before, skip + 1, a :: after => scanFrom r (a :: before) skip after
  | before, 0, a :: after =>
      match first r before (a :: after) with
      | some (n + 1) => .found (a :: after.take n) :: scanFrom r (a :: before) n after
      | _ => .kept a :: scanFrom r (a :: before) 0 after

def scan (r : Regex α) (text : List α) : List (Piece α) := scanFrom r [] 0 text

/-- `re.sub`. -/
def Piece.rewritten (f : List α → List α) : Piece α → List α
  | .kept a => [a]
  | .found text => f text

def sub (r : Regex α) (f : List α → List α) (text : List α) : List α :=
  (scan r text).flatMap (Piece.rewritten f)

/-- `re.finditer`: the matches, each with the place where it begins. -/
def findFrom (start : Nat) : List (Piece α) → List (Nat × List α)
  | [] => []
  | .kept _ :: pieces => findFrom (start + 1) pieces
  | .found text :: pieces => (start, text) :: findFrom (start + text.length) pieces

def find (r : Regex α) (text : List α) : List (Nat × List α) := findFrom 0 (scan r text)

/-! ## The pieces of a scan -/

theorem text_scanFrom
    (r : Regex α) (before : List α) (skip : Nat) (after : List α) :
    (scanFrom r before skip after).flatMap Piece.text = after.drop skip := by
  induction after generalizing before skip with
  | nil => simp [scanFrom]
  | cons a after ih =>
      cases skip with
      | succ skip => rw [scanFrom, ih, List.drop_succ_cons]
      | zero =>
          rw [scanFrom]
          split
          · rw [List.flatMap_cons, ih, Piece.text, List.cons_append, List.take_append_drop,
              List.drop_zero]
          · rw [List.flatMap_cons, ih, Piece.text, List.drop_zero, List.drop_zero,
              List.singleton_append]

/-- The pieces of a scan are the text. -/
theorem text_scan (r : Regex α) (text : List α) : (scan r text).flatMap Piece.text = text := by
  rw [scan, text_scanFrom, List.drop_zero]

end Regex
end Lib
end Vesta
