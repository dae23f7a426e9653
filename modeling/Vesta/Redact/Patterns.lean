import Vesta.Lib.Regex
import Vesta.Lib.Text

/-!
# What the secret scan looks for

The shapes of credentials, as one list of patterns, and payment cards, whose digits are
checked after a pattern has found them.  The patterns ignore case but for the parts that
are anchored to one.
-/

namespace Vesta
namespace Redact

open Lib
open Lib.Regex

/-- The interpreter's Unicode: its decimal digits, the characters of a word, and the lower case. -/
structure Unicode where
  decimal : Char → Option Nat
  word : Char → Bool
  lower : Char → Text
  decimal_digit : ∀ c, c.isDigit = true → decimal c = some (c.toNat - 48)
  decimal_other : ∀ c, c.toNat < 128 → c.isDigit = false → decimal c = none
  decimal_lt : ∀ c d, decimal c = some d → d < 10
  word_ascii : ∀ c, c.toNat < 128 → word c = (c.isAlphanum || c == '_')
  word_decimal : ∀ c, (decimal c).isSome = true → word c = true
  lower_ascii : ∀ c, c.toNat < 128 → lower c = [c.toLower]

/-- ASCII alone. -/
def Unicode.ascii : Unicode where
  decimal c := if c.isDigit then some (c.toNat - 48) else none
  word c := c.isAlphanum || c == '_'
  lower c := [c.toLower]
  decimal_digit _ h := if_pos h
  decimal_other _ _ h := if_neg (Bool.eq_false_iff.1 h)
  decimal_lt c d h := by
    by_cases hdigit : c.isDigit = true
    · rw [if_pos hdigit] at h
      cases h
      have hrange := isDigit_iff.1 hdigit
      omega
    · rw [if_neg hdigit] at h
      cases h
  word_ascii _ _ := rfl
  word_decimal c h := by
    by_cases hdigit : c.isDigit = true
    · rw [isAlphanum_iff.2 (.inr hdigit), Bool.true_or]
    · rw [if_neg hdigit] at h
      cases h
  lower_ascii _ _ := rfl

def quote : Char := Char.ofNat 34

def apostrophe : Char := Char.ofNat 39

def backslash : Char := Char.ofNat 92

def redacted : Text := ['[', 'R', 'E', 'D', 'A', 'C', 'T', 'E', 'D', ']']

/-! ## Characters -/

/-- A character as `IGNORECASE` compares it with ASCII: four others fold to letters, the dotted
capital and the dotless small `i`, the long `s` and the Kelvin sign. -/
def fold (c : Char) : Char :=
  if c.toNat = 0x130 ∨ c.toNat = 0x131 then 'i'
  else if c.toNat = 0x17F then 's'
  else if c.toNat = 0x212A then 'k'
  else c.toLower

def caseless (p : Char → Bool) (c : Char) : Bool := p (fold c)

/-- `[A-Za-z0-9]` and some more. -/
def token (more : Text) (c : Char) : Bool := c.isAlphanum || more.contains c

def hexDigit (c : Char) : Bool := c.isDigit || (97 ≤ c.toNat && c.toNat ≤ 102)

def isQuote (c : Char) : Bool := c == quote || c == apostrophe

def separator (c : Char) : Bool := c == ':' || c == '='

/-- A character of a value that no quotation marks are needed for. -/
def bare (c : Char) : Bool := c != ' ' && !isQuote c && c != backslash

def Unicode.isDecimal (U : Unicode) (c : Char) : Bool := (U.decimal c).isSome

/-! ## Building patterns -/

def inTurn (rs : List (Regex Char)) : Regex Char := rs.foldr .seq .empty

def oneOf : List (Regex Char) → Regex Char
  | [] => .one fun _ => false
  | [r] => r
  | r :: rs => .alt r (oneOf rs)

/-- A text as it stands there. -/
def exactly (text : Text) : Regex Char := inTurn (text.map fun c => .one (· == c))

/-- A text in any case, given in lower case. -/
def literal (text : Text) : Regex Char := inTurn (text.map fun c => .one (caseless (· == c)))

def spaces : Regex Char := .many (· == ' ')

def someSpaces : Regex Char := atLeast 1 (· == ' ')

def maybe (c : Char) : Regex Char := optional (.one (· == c))

/-- An opening quotation mark, as it stands there or escaped. -/
def maybeQuote : Regex Char := inTurn [maybe backslash, optional (.one isQuote)]

def separators : Regex Char := atLeast 1 separator

/-- So many characters of a token, or more. -/
def tokens (n : Nat) (more : Text) : Regex Char := atLeast n (caseless (token more))

/-- The same with at least one digit among them, or right behind them. -/
def digitTokens (U : Unicode) (n : Nat) (more : Text) : Regex Char :=
  .seq (.ahead (.seq (.many (caseless (token more))) (.one U.isDecimal))) (tokens n more)

/-! ## The patterns -/

/-- Keys that start with the name of their vendor. -/
def vendorKeys : List (Regex Char) :=
  [inTurn [literal ['s', 'k', '-'], tokens 20 ['_', '-']],
    inTurn [.one (caseless fun c => c == 's' || c == 'r'), literal ['k', '_'],
      oneOf [literal ['l', 'i', 'v', 'e'], literal ['t', 'e', 's', 't']], literal ['_'],
      tokens 20 []],
    inTurn [literal ['x', 'o', 'x'], .one (caseless fun c => c == 'b' || c == 'p'), literal ['-'],
      tokens 1 ['-']],
    inTurn [literal ['g', 'h'],
      .one (caseless fun c => c == 'p' || c == 'o' || c == 's' || c == 'r' || c == 'u'),
      literal ['_'], tokens 36 ['_', '.', '-']],
    inTurn [literal ['g', 'i', 't', 'h', 'u', 'b', '_', 'p', 'a', 't', '_'], tokens 20 ['_']],
    inTurn [literal ['g', 'l', 'p', 'a', 't', '-'], tokens 20 ['_', '-']],
    inTurn [exactly ['A', 'K', 'I', 'A'], times (.one fun c => c.isDigit || c.isUpper) 16],
    inTurn [literal ['p', 'm', 'a', 'k', '-'], tokens 20 ['-']],
    inTurn [exactly ['h', 'f', '_'], atLeast 30 (token [])],
    inTurn [exactly ['t', 'f', 'p', '_'], atLeast 40 (token ['.', '_', '-'])],
    inTurn [exactly ['n', 'a', 'p', 'i', '_'], atLeast 20 fun c => c.isLower || c.isDigit],
    inTurn [exactly ['d', 'c', 'k', 'r', '_', 'p', 'a', 't', '_'], atLeast 20 (token ['_', '-'])],
    inTurn [exactly ['s', 'b', 'p', '_'], atLeast 40 hexDigit],
    inTurn [exactly ['s', 'h', 'p', 'a', 't', '_'], times (.one hexDigit) 32],
    inTurn [exactly ['l', 'i', 'n', '_', 'a', 'p', 'i', '_'], atLeast 20 (token [])],
    inTurn [exactly ['w', 'a', 'k', '_'], atLeast 20 (token ['.', '_', '-'])],
    inTurn [exactly ['s', 'k', '_'], atLeast 40 hexDigit],
    inTurn [literal ['e', 'y', 'j'], tokens 20 ['_', '-'], literal ['.'], tokens 20 ['_', '-']],
    inTurn [literal ['b', 'e', 'g', 'i', 'n', ' '],
      atLeast 1 (caseless fun c => c.isLower || c == ' '),
      literal [' ', 'p', 'r', 'i', 'v', 'a', 't', 'e', ' ', 'k', 'e', 'y']]]

/-- A name that is given a value of at least four characters. -/
def assignment : Regex Char :=
  inTurn
    [oneOf
      [literal ['p', 'a', 's', 's', 'w', 'o', 'r', 'd'], literal ['s', 'e', 'c', 'r', 'e', 't'],
        inTurn [literal ['a', 'p', 'i'], optional (.one fun c => c == '_' || c == '-'),
          literal ['k', 'e', 'y']]],
      oneOf
        [inTurn [spaces, maybeQuote, spaces, separators, spaces, maybeQuote, atLeast 4 bare],
          inTurn [spaces, maybe backslash, .one isQuote, atLeast 4 bare],
          inTurn [maybeQuote, oneOf [inTurn [spaces, separators, spaces], someSpaces],
            maybe backslash, .one isQuote, someSpaces, atLeast 4 bare, maybe backslash,
            .one isQuote]]]

/-- A name that ends in a word for a secret and is given a token with a digit. -/
def namedToken (U : Unicode) : Regex Char :=
  inTurn
    [oneOf
      [literal ['k', 'e', 'y'], literal ['t', 'o', 'k', 'e', 'n'],
        literal ['s', 'e', 'c', 'r', 'e', 't'],
        inTurn [literal ['p', 'a', 's', 's', 'w'], optional (literal ['o', 'r']), literal ['d']]],
      maybeQuote, spaces, maybe backslash, separators, spaces, maybeQuote,
      digitTokens U 16 ['_', '-']]

def bearer (U : Unicode) : Regex Char :=
  inTurn
    [literal ['b', 'e', 'a', 'r', 'e', 'r'], someSpaces, digitTokens U 16 ['_', '-', '.']]

def fourLetters : Regex Char := times (.one Char.isLower) 4

/-- Four groups of four small letters. -/
def fourGroups : Regex Char :=
  inTurn
    [fourLetters, exactly ['-'], fourLetters, exactly ['-'], fourLetters, exactly ['-'],
      fourLetters]

/-- An app-specific password, which stands there with nothing to name it. -/
def appPassword (U : Unicode) : Regex Char :=
  .seq (.boundary U.word) (.seq fourGroups (.boundary U.word))

def connectionUrl : Regex Char :=
  inTurn
    [oneOf
      [inTurn [literal ['m', 'o', 'n', 'g', 'o', 'd', 'b'],
          optional (literal ['+', 's', 'r', 'v'])],
        inTurn [literal ['p', 'o', 's', 't', 'g', 'r', 'e', 's'], optional (literal ['q', 'l'])],
        literal ['m', 'y', 's', 'q', 'l'], literal ['r', 'e', 'd', 'i', 's']],
      literal [':', '/', '/'], atLeast 1 fun c => c != ' ' && !isQuote c]

/-- Tokens within a URL. -/
def urlTokens (U : Unicode) : List (Regex Char) :=
  [inTurn [.one fun c => c == '?' || c == '&',
      oneOf [literal ['a', 'u', 't', 'h'], literal ['s', 'i', 'g'],
        literal ['s', 'i', 'g', 'n', 'a', 't', 'u', 'r', 'e']],
      literal ['='], tokens 16 ['_', '-']],
    inTurn [literal ['/', 'a', 'p', 'i', '/'], digitTokens U 25 []],
    inTurn [literal ['m', 'a', 'g', 'i', 'c'], optional (.one fun c => c == '_' || c == '-'),
      literal ['l', 'i', 'n', 'k'], .one fun c => c == '#' || c == '/',
      digitTokens U 16 ['_', '-', ':', '.', '=', '%', '+']]]

def patterns (U : Unicode) : List (Regex Char) :=
  vendorKeys ++
    [assignment, namedToken U, bearer U, appPassword U, connectionUrl] ++ urlTokens U

def regex (U : Unicode) : Regex Char := oneOf (patterns U)

/-! ## Payment cards -/

/-- A run of 13 to 19 digits, single spaces or hyphens between them. -/
def digitRun (U : Unicode) : Regex Char :=
  .seq (.one U.isDecimal)
    (.seq (times (.seq (optional (.one fun c => c == ' ' || c == '-')) (.one U.isDecimal)) 12)
      (.upTo 6 (.seq (optional (.one fun c => c == ' ' || c == '-')) (.one U.isDecimal))))

/-- What the number of a chat is followed by. -/
def messagingSuffixes : List Text :=
  [['@', 'l', 'i', 'd'],
    ['@', 's', '.', 'w', 'h', 'a', 't', 's', 'a', 'p', 'p', '.', 'n', 'e', 't'],
    ['@', 'c', '.', 'u', 's'],
    ['@', 'g', '.', 'u', 's']]

def cardCandidate (U : Unicode) : Regex Char :=
  .seq (.notBehind fun c => U.isDecimal c || c == '.')
    (.seq (digitRun U)
      (.seq (.notAhead (.one U.isDecimal))
        (.notAhead (.seq (oneOf (messagingSuffixes.map exactly)) (.boundary U.word)))))

end Redact
end Vesta
