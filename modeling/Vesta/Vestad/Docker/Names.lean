import Mathlib.Data.List.Basic
import Mathlib.Data.String.Basic

/-!
# Agent names and the Docker names built from them

The gateway stores agents under a normalized name of at most 32 characters
over `[a-z0-9-]`.  A name is handled here as its list of characters; the
string functions of the source act on it character by character.
-/

namespace Vesta
namespace Vestad

/-- The longest agent name. -/
def nameMaxLen : Nat := 32

/-- The Unicode `White_Space` property. -/
def isWhitespace (c : Char) : Bool :=
  let n := c.toNat
  (9 ≤ n && n ≤ 13) || n == 0x20 || n == 0x85 || n == 0xA0 || n == 0x1680 ||
    (0x2000 ≤ n && n ≤ 0x200A) || n == 0x2028 || n == 0x2029 || n == 0x202F ||
    n == 0x205F || n == 0x3000

/-- The lowercase of a character.  Outside ASCII only the two characters whose lowercase
has an ASCII letter are mapped: every other one is dropped by the filter that follows. -/
def toLowercase (c : Char) : List Char :=
  if c.toNat = 0x130 then ['i', Char.ofNat 0x307]
  else if c.toNat = 0x212A then ['k']
  else [c.toLower]

def isAsciiLowercase (c : Char) : Bool := 'a' ≤ c && c ≤ 'z'

def isAsciiDigit (c : Char) : Bool := '0' ≤ c && c ≤ '9'

/-- The characters of a stored name. -/
def isNameChar (c : Char) : Bool :=
  isAsciiLowercase c || isAsciiDigit c || c == '-'

def trimEndMatches (p : Char → Bool) (cs : List Char) : List Char :=
  (cs.reverse.dropWhile p).reverse

def trimMatches (p : Char → Bool) (cs : List Char) : List Char :=
  trimEndMatches p (cs.dropWhile p)

/-- Keep the first hyphen of every run of hyphens. -/
def collapseHyphens (prevHyphen : Bool) : List Char → List Char
  | [] => []
  | c :: cs =>
      if c = '-' then
        if prevHyphen then collapseHyphens true cs
        else c :: collapseHyphens true cs
      else
        c :: collapseHyphens false cs

def normalizeName (raw : String) : String :=
  let s := ((trimMatches isWhitespace raw.toList).flatMap toLowercase).map
    fun c => if isWhitespace c || c == '_' then '-' else c
  let s := trimMatches (· == '-') (s.filter isNameChar)
  let result := collapseHyphens false s
  String.ofList <|
    if result.length > nameMaxLen then
      trimEndMatches (· == '-') (result.take nameMaxLen)
    else
      result

example : normalizeName "  My_Agent--Two " = "my-agent-two" := by decide

/-- A letter or digit, as a name starts and ends. -/
def isEdgeChar (c : Char) : Bool := isAsciiLowercase c || isAsciiDigit c

def validateName (name : String) : Except String Unit :=
  if name = "" ∨ nameMaxLen < name.utf8ByteSize then
    .error "agent name must be 1-32 characters"
  else if
      name.toList.all isNameChar && name.toList.head?.all isEdgeChar &&
        name.toList.getLast?.all isEdgeChar then
    .ok ()
  else
    .error "agent name must match [a-z0-9][a-z0-9-]*[a-z0-9]"

theorem ne_empty_of_validateName
    {name : String}
    (h : validateName name = .ok ()) :
    name ≠ "" := by
  rintro rfl
  simp [validateName] at h

end Vestad
end Vesta
