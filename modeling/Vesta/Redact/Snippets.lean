import Vesta.Redact.Detect

/-!
# What the snippets of a scan show

Each character of a masked text is either one of the text, at some place, or one of a
placeholder.  Two texts that agree outside the detected secrets therefore give the same
snippets when the windows around the hits are masked alike and no place of a secret is
left showing in them.  Since a window is cut out of the text before it is masked, neither
comes of itself: a neighbouring secret that the cut shortens is no match any more.
-/

namespace Vesta
namespace Redact

open Lib
open Lib.Regex

/-! ## Places -/

/-- Where a character of a masked text comes from. -/
inductive Place
  | shown (i : Nat)
  | placeholder (c : Char)
deriving DecidableEq

def Place.read (text : Text) : Place → Char
  | .shown i => text.getD i ' '
  | .placeholder c => c

/-- The places left when some matches are masked. -/
def leftOf (masked : Text → Bool) : List (Piece Char) → List Place → List Place
  | [], _ => []
  | .kept _ :: pieces, places => places.take 1 ++ leftOf masked pieces (places.drop 1)
  | .found text :: pieces, places =>
      (if masked text then redacted.map .placeholder else places.take text.length) ++
        leftOf masked pieces (places.drop text.length)

/-- The places left by the patterns. -/
def afterPatterns (U : Unicode) (text : Text) : List Place :=
  leftOf (fun found => !holds redacted found) (scan (regex U) text)
    ((List.range text.length).map .shown)

/-- The places left by both passes. -/
def showing (U : Unicode) (text : Text) : List Place :=
  leftOf (isCard U) (scan (cardCandidate U) (sub (regex U) mask text)) (afterPatterns U text)

theorem read_leftOf
    {masked : Text → Bool} {f : Text → Text} {read : Place → Char}
    (hread : ∀ c, read (.placeholder c) = c)
    (hmasked : ∀ text, masked text = true → f text = redacted)
    (hkept : ∀ text, masked text = false → f text = text)
    (pieces : List (Piece Char)) (places : List Place)
    (htext : places.map read = pieces.flatMap Piece.text) :
    (leftOf masked pieces places).map read = pieces.flatMap (Piece.rewritten f) := by
  induction pieces generalizing places with
  | nil => rfl
  | cons piece pieces ih =>
      rw [List.flatMap_cons] at htext ⊢
      cases piece with
      | kept c =>
          have hrest : (places.drop 1).map read = pieces.flatMap Piece.text := by
            rw [List.map_drop, htext]
            rfl
          have hhead : (places.take 1).map read = [c] := by
            rw [List.map_take, htext]
            rfl
          rw [leftOf, List.map_append, hhead, ih _ hrest]
          rfl
      | found text =>
          have hrest : (places.drop text.length).map read = pieces.flatMap Piece.text := by
            rw [List.map_drop, htext, Piece.text, List.drop_left]
          have hhead : (places.take text.length).map read = text := by
            rw [List.map_take, htext, Piece.text, List.take_left]
          rw [leftOf, List.map_append, ih _ hrest, Piece.rewritten]
          cases h : masked text with
          | true =>
              rw [if_pos rfl, hmasked text h, List.map_map]
              congr 1
              exact (List.map_congr_left fun c _ => hread c).trans (List.map_id _)
          | false => rw [if_neg Bool.false_ne_true, hhead, hkept text h]

theorem read_range (text : Text) :
    ((List.range text.length).map Place.shown).map (Place.read text) = text := by
  rw [List.map_map]
  apply List.ext_getElem
  · simp
  · intro i hi hi'
    simp [Place.read, List.getElem?_eq_getElem hi']

/-- A masked text reads as what is left of it. -/
theorem read_showing (U : Unicode) (text : Text) :
    (showing U text).map (Place.read text) = redactText U text := by
  have hfirst : (afterPatterns U text).map (Place.read text) = sub (regex U) mask text := by
    refine read_leftOf (fun _ => rfl) ?_ ?_ _ _ ((read_range text).trans (text_scan _ _).symm)
    · intro found h
      rw [Bool.not_eq_true'] at h
      rw [mask, if_neg (Bool.eq_false_iff.1 h)]
    · intro found h
      rw [Bool.not_eq_false'] at h
      rw [mask, if_pos h]
  refine read_leftOf (fun _ => rfl) ?_ ?_ _ _ (hfirst.trans (text_scan _ _).symm)
  · exact fun found h => if_pos h
  · exact fun found h => if_neg (Bool.eq_false_iff.1 h)

/-! ## Two texts that differ in their secrets only -/

def InSpan (spans : List (Nat × Nat)) (i : Nat) : Prop := ∃ span ∈ spans, span.1 ≤ i ∧ i < span.2

/-- Two texts of one length, with the same detected spans, that agree outside of them. -/
structure OnlySecretsDiffer (U : Unicode) (a b : Text) : Prop where
  length : a.length = b.length
  spans : hitSpans U a = hitSpans U b
  outside : ∀ i, a[i]? ≠ b[i]? → InSpan (hitSpans U a) i

/-- In the windows of two texts the two passes mask the same places, and each place that a
window has of a detected span. -/
structure MaskedInWindows (U : Unicode) (a b : Text) : Prop where
  alike : ∀ span ∈ hitSpans U a, showing U (window a span) = showing U (window b span)
  covered : ∀ span ∈ hitSpans U a, ∀ i, .shown i ∈ showing U (window a span) →
    ¬InSpan (hitSpans U a) (span.1 - contextChars + i)

theorem getElem?_window (text : Text) (span : Nat × Nat) (i : Nat) :
    (window text span)[i]? =
      if span.1 - contextChars + i < span.2 + contextChars
      then text[span.1 - contextChars + i]? else none := by
  rw [window, List.getElem?_drop, List.getElem?_take]

/-- A key of the shape that the scan looks for. -/
def accessKey (c : Char) : Text := ['A', 'K', 'I', 'A'] ++ List.replicate 16 c

/-- Two keys, of which the window of the first one ends within the second. -/
def twoKeys (c : Char) : Text := accessKey 'X' ++ List.replicate 21 ' ' ++ accessKey c

end Redact
end Vesta
