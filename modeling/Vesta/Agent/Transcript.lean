import Vesta.Lib.Utf8Stream

/-!
# Reading a transcript from its end

The session's transcript is read backwards, a block of fixed size at a time, since the
newest entries are the ones that are asked for.  What is before the first line feed of a
block may go on to the left, so it is carried over to the next block; the lines behind
it are complete.  The lines come out as those of the whole file do in reverse, whatever
the size of the blocks.
-/

namespace Vesta
namespace Agent
namespace Transcript

open Lib
open Lib.Utf8Stream

abbrev Bytes := List UInt8

def lineFeed : UInt8 := 10

/-- The whitespace that `bytes.strip` takes off. -/
def isSpace (b : UInt8) : Bool := (9 ≤ b.toNat && b.toNat ≤ 13) || b == 32

/-- Whether a line is left when it is stripped. -/
def nonBlank (raw : Bytes) : Bool := raw.any fun b => !isSpace b

/-- The lines of a block that are yielded, last first. -/
def yielded (lines : List Bytes) : List (List Nat) :=
  (lines.reverse.filter nonBlank).map points

/-- The reader at a place of the file, with what it carries, for so many blocks at most. -/
def readFrom (content : Bytes) (chunkSize : Nat) : Nat → Nat → Bytes → Option (List (List Nat))
  | _, 0, tail => some (yielded [tail])
  | 0, _ + 1, _ => none
  | fuel + 1, pos + 1, tail =>
      let step := min chunkSize (pos + 1)
      let start := pos + 1 - step
      let lines := ((content.drop start).take step ++ tail).splitOn lineFeed
      (readFrom content chunkSize fuel start (lines.headD [])).map (yielded lines.tail ++ ·)

/-- `_reverse_lines`: what it yields, if it comes to an end within so many blocks. -/
def reverseLines (content : Bytes) (chunkSize fuel : Nat) : Option (List (List Nat)) :=
  readFrom content chunkSize fuel content.length []

/-! ## The lines behind the carry -/

theorem splitOn_cases
    {text first : Bytes} {rest : List Bytes}
    (h : text.splitOn lineFeed = first :: rest) :
    lineFeed ∉ first ∧
      ((text = first ∧ rest = []) ∨
        ∃ after, text = first ++ lineFeed :: after ∧ rest = after.splitOn lineFeed) := by
  by_cases hmem : lineFeed ∈ text
  · obtain ⟨before, after, rfl, hbefore⟩ := List.eq_append_cons_of_mem hmem
    rw [List.splitOn_append_cons_self, List.splitOn_eq_singleton hbefore] at h
    cases h
    exact ⟨hbefore, .inr ⟨after, rfl, rfl⟩⟩
  · rw [List.splitOn_eq_singleton hmem] at h
    cases h
    exact ⟨hmem, .inl ⟨rfl, rfl⟩⟩

/-- What stands before a text can only lengthen its first line. -/
theorem splitOn_append
    {text first : Bytes} {rest : List Bytes}
    (h : text.splitOn lineFeed = first :: rest)
    (before : Bytes) :
    (before ++ text).splitOn lineFeed = (before ++ first).splitOn lineFeed ++ rest := by
  rcases (splitOn_cases h).2 with ⟨rfl, rfl⟩ | ⟨after, rfl, rfl⟩
  · rw [List.append_nil]
  · rw [← List.append_assoc, List.splitOn_append_cons_self]

theorem yielded_append (lines more : List Bytes) :
    yielded (lines ++ more) = yielded more ++ yielded lines := by
  rw [yielded, List.reverse_append, List.filter_append, List.map_append]
  rfl

/-- The reader yields the lines of what it has not read, with the carry behind it. -/
theorem readFrom_eq
    {content : Bytes} {chunkSize : Nat}
    (hchunk : 1 ≤ chunkSize)
    {fuel pos : Nat} {tail : Bytes}
    (hfuel : pos ≤ fuel)
    (hpos : pos ≤ content.length)
    (htail : lineFeed ∉ tail) :
    readFrom content chunkSize fuel pos tail =
      some (yielded ((content.take pos ++ tail).splitOn lineFeed)) := by
  induction fuel generalizing pos tail with
  | zero =>
      cases Nat.le_zero.1 hfuel
      rw [List.take_zero, List.nil_append, List.splitOn_eq_singleton htail, readFrom]
  | succ fuel ih =>
      cases pos with
      | zero =>
          rw [List.take_zero, List.nil_append, List.splitOn_eq_singleton htail, readFrom]
      | succ pos =>
          have hstep : 1 ≤ min chunkSize (pos + 1) := by omega
          generalize hblock : min chunkSize (pos + 1) = step at hstep
          have hle : step ≤ pos + 1 := by omega
          -- The block is what lies between its start and the place reached so far.
          have htaken : content.take (pos + 1) =
              content.take (pos + 1 - step) ++ (content.drop (pos + 1 - step)).take step := by
            rw [← List.take_add, Nat.sub_add_cancel hle]
          obtain ⟨first, rest, hlines⟩ := List.exists_cons_of_ne_nil
            (List.splitOn_ne_nil lineFeed ((content.drop (pos + 1 - step)).take step ++ tail))
          have hrest : readFrom content chunkSize fuel (pos + 1 - step) first =
              some (yielded ((content.take (pos + 1 - step) ++ first).splitOn lineFeed)) :=
            ih (by omega) (by omega) (splitOn_cases hlines).1
          rw [readFrom, hblock]
          simp only [hlines, List.headD_cons, List.tail_cons]
          rw [hrest, Option.map_some, ← yielded_append, htaken, List.append_assoc,
            splitOn_append hlines]

/-- Whatever the size of its blocks, the reader yields the lines of the whole file that are not
blank, in reverse. -/
theorem reverseLines_eq
    (content : Bytes)
    {chunkSize fuel : Nat}
    (hchunk : 1 ≤ chunkSize)
    (hfuel : content.length ≤ fuel) :
    reverseLines content chunkSize fuel =
      some ((((content.splitOn lineFeed).filter nonBlank).map points).reverse) := by
  rw [reverseLines, readFrom_eq hchunk hfuel le_rfl List.not_mem_nil, List.take_length,
    List.append_nil, yielded, List.filter_reverse, List.map_reverse]

/-- Blocks of two bytes, with a line over three of them and a blank one. -/
theorem reverseLines_blocks :
    reverseLines [97, 98, 99, 100, 10, 32, 10, 101] 2 8 = some [[101], [97, 98, 99, 100]] := by
  rw [reverseLines_eq _ (by decide) (by decide)]
  decide

/-! ## The lines of the decoded file -/

end Transcript
end Agent
end Vesta
