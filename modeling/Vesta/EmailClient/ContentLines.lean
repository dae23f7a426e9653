import Mathlib.Data.List.DropRight
import Mathlib.Data.List.MinMax
import Vesta.Agent.Notification
import Vesta.Agent.SignIn
import Vesta.Lib.Dict
import Vesta.Lib.Quoted

/-!
# Content lines of a calendar

A content line holds the name of a property, its parameters and its value, cut at the first
colon and the semicolons outside of double quotes.  The parameters are kept as they were
read, quotes included, and are written back in the same way; only a value that does not
start with a quote and holds a separator is put in quotes, since it could not have been read
outside of them.  It could: the quotes may stand in its middle, and a comma separates nothing.
-/

namespace Vesta
namespace EmailClient

open Lib
open Lib.Quoted
open Agent (isSpace strip)

/-- `str.upper`, character by character. -/
structure Upper where
  char : Char → Text
  ascii : ∀ c, c.toNat < 128 → char c = [c.toUpper]
  foreign : ∀ c, 128 ≤ c.toNat → ∀ d ∈ char c, d.toNat < 128 → d.isUpper = true
  again : ∀ c, ∀ d ∈ char c, char d = [d]
  ne_nil : ∀ c, char c ≠ []
  unspaced : ∀ c, isSpace c = false → ∀ d ∈ char c, isSpace d = false

namespace Upper

variable (up : Upper)

def text (t : Text) : Text := t.flatMap up.char

end Upper

/-! ## Properties -/

/-- `Prop`: the parameters and the value are kept raw. -/
structure Property where
  name : Text
  params : Dict Text Text
  value : Text

/-- `str.partition("=")`, less the separator. -/
def partition (part : Text) : Text × Text :=
  (part.takeWhile (· != '='), (part.dropWhile (· != '=')).tail)

/-- One part of the head, behind the name. -/
def readParam (up : Upper) (params : Dict Text Text) (part : Text) : Dict Text Text :=
  if (partition part).1 = [] then params
  else params.put (up.text (partition part).1) (partition part).2

/-- `_split_name_value` -/
def splitNameValue (line : Text) : Option (Text × Text) := cut ':' false line

/-- `_split_params` -/
def splitParams (up : Upper) (head : Text) : Text × Dict Text Text :=
  let parts := split ';' false head
  (up.text (parts.headD []), parts.tail.foldl (readParam up) ⟨[], List.nodup_nil⟩)

/-- What a line says, if there is a colon outside of quotes. -/
def readLine (up : Upper) (line : Text) : Option Property :=
  (splitNameValue line).map fun (head, value) =>
    let (name, params) := splitParams up head
    ⟨name, params, value⟩

/-- The characters that `_param_text` looks for. -/
def isSeparator (c : Char) : Bool := c == ';' || c == ':' || c == ','

/-- A value that is written as it is. -/
def isPlain (value : Text) : Bool := value.head? == some '"' || !value.any isSeparator

/-- `_param_text` -/
def paramText (value : Text) : Text :=
  if isPlain value then value else '"' :: (value ++ ['"'])

/-- A parameter behind its semicolon. -/
def paramField (key value : Text) : Text :=
  if value = [] then key else key ++ '=' :: paramText value

/-- The head of a line, for some parameters. -/
def headText (name : Text) (params : List (Text × Text)) : Text :=
  name ++ params.flatMap fun param => ';' :: paramField param.1 param.2

namespace Property

/-- The line of a property before it is folded. -/
def line (p : Property) : Text := headText p.name p.params.entries ++ ':' :: p.value

/-- The parameters are all written as they are. -/
def plainParams (p : Property) : Bool := p.params.entries.all fun param => isPlain param.2

end Property

/-! ## Folding -/

def crlf : Text := ['\r', '\n']

def foldWidth : Nat := 74

/-- What is left of a line, on lines that start with a blank. -/
def continuation : Nat → Text → List Text
  | 0, _ => []
  | _ + 1, [] => []
  | fuel + 1, c :: rest =>
      (' ' :: (c :: rest).take (foldWidth - 1)) ::
        continuation fuel ((c :: rest).drop (foldWidth - 1))

def chunks (line : Text) : List Text :=
  if line.length ≤ foldWidth then [line]
  else line.take foldWidth :: continuation line.length (line.drop foldWidth)

/-- `_fold` -/
def fold (line : Text) : Text := crlf.intercalate (chunks line)

/-- One raw line; the lines before it are listed last first. -/
def unfoldStep : List Text → Text → List Text
  | lines, [] => lines
  | [], c :: rest => [c :: rest]
  | last :: before, c :: rest =>
      if c = ' ' ∨ c = '\t' then (last ++ rest) :: before else (c :: rest) :: last :: before

/-- `_unfold` -/
def unfold (text : Text) : List Text :=
  (((Agent.SignIn.newlines text).splitOn '\n').foldl unfoldStep []).reverse

/-! ## Escapes -/

/-- `str.replace` of a single character. -/
def replaceChar (c : Char) (by' : Text) (text : Text) : Text :=
  text.flatMap fun d => if d = c then by' else [d]

/-- `escape_text` -/
def escapeText (value : Text) : Text :=
  replaceChar '\n' ['\\', 'n']
    (replaceChar ',' ['\\', ',']
      (replaceChar ';' ['\\', ';'] (replaceChar '\\' ['\\', '\\'] value)))

/-- `unescape_text` -/
def unescapeText : Text → Text
  | [] => []
  | [c] => [c]
  | c :: d :: rest =>
      if c = '\\' then (if d = 'n' ∨ d = 'N' then '\n' else d) :: unescapeText rest
      else c :: unescapeText (d :: rest)

end EmailClient
end Vesta
