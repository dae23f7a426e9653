import Vesta.Redact.Patterns

/-!
# Detecting secrets and masking them

A text is masked in two passes, first the matches of the patterns and then the payment
cards of what is left.  A match that holds the placeholder already is left as it is.  The
scan reports each hit with what is around it, cut out of the text and masked again.
-/

namespace Vesta
namespace Redact

open Lib
open Lib.Regex

/-- `part in text`. -/
def holds (part : Text) : Text → Bool
  | [] => part.isEmpty
  | c :: rest => part.isPrefixOf (c :: rest) || holds part rest

/-! ## Pattern hits -/

/-- Whether a token is words of a URL rather than a key. -/
def looksLikeWordSlug (U : Unicode) (token : Text) : Bool :=
  match stripPrefix ['s', 'k', '-'] token with
  | none => false
  | some body =>
      let segs := (body.splitOnP fun c => c == '-' || c == '_').filter fun seg => !seg.isEmpty
      body.flatMap U.lower == body && 2 ≤ segs.length && segs.all fun seg => seg.length < 16

/-- A match that holds the placeholder already was scrubbed before. -/
def mask (found : Text) : Text := if holds redacted found then found else redacted

/-! ## Payment cards -/

/-- `int` of a digit. -/
def Unicode.int (U : Unicode) (c : Char) : Nat := (U.decimal c).getD 0

/-- The checksum from the last digit on; every second digit is doubled. -/
def luhnTotal : Bool → List Nat → Nat
  | _, [] => 0
  | false, d :: ds => d + luhnTotal true ds
  | true, d :: ds => (if 9 < 2 * d then 2 * d - 9 else 2 * d) + luhnTotal false ds

def luhnValid (U : Unicode) (digits : Text) : Bool :=
  luhnTotal false (digits.reverse.map U.int) % 10 == 0

def number (U : Unicode) (digits : Text) : Nat := digits.foldl (fun n c => 10 * n + U.int c) 0

/-- Whether the leading digits are in the range of a card issuer. -/
def hasCardIin (U : Unicode) (digits : Text) : Bool :=
  match digits with
  | [] => false
  | c :: _ =>
      ['3', '4', '5', '6'].contains c ||
        (c == '2' && 2221 ≤ number U (digits.take 4) && number U (digits.take 4) ≤ 2720)

def isCard (U : Unicode) (candidate : Text) : Bool :=
  let digits := candidate.filter fun c => c != ' ' && c != '-'
  13 ≤ digits.length && digits.length ≤ 19 && hasCardIin U digits && luhnValid U digits

def maskCard (U : Unicode) (found : Text) : Text := if isCard U found then redacted else found

/-! ## The two passes -/

def redactCards (U : Unicode) (text : Text) : Text := sub (cardCandidate U) (maskCard U) text

def redactText (U : Unicode) (text : Text) : Text := redactCards U (sub (regex U) mask text)

/-! ## The scan -/

/-- Whether a match of the patterns is a hit. -/
def isHit (U : Unicode) (found : Text) : Bool :=
  !holds redacted found && !looksLikeWordSlug U found

/-- The hits, each with the place where it begins. -/
def hits (U : Unicode) (text : Text) : List (Nat × Text) :=
  ((find (regex U) text).filter fun hit => isHit U hit.2) ++
    (find (cardCandidate U) text).filter fun hit => isCard U hit.2

def hitSpans (U : Unicode) (text : Text) : List (Nat × Nat) :=
  (hits U text).map fun hit => (hit.1, hit.1 + hit.2.length)

/-- How much of the text on each side of a hit is shown. -/
def contextChars : Nat := 40

/-- What a hit is shown in. -/
def window (text : Text) (span : Nat × Nat) : Text :=
  (text.take (span.2 + contextChars)).drop (span.1 - contextChars)

def unbroken (c : Char) : Char := if c.toNat = 10 then ' ' else c

def maskContext (U : Unicode) (window : Text) : Text := (redactText U window).map unbroken

def findMatches (U : Unicode) (text : Text) : List Text :=
  (hitSpans U text).map fun span => maskContext U (window text span)

end Redact
end Vesta
