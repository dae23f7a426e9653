import Mathlib.Data.List.Basic
import Vesta.Lib.Text

/-!
# The shell: lists of simple commands

The part of the POSIX shell that reads a list of simple commands joined by `&&`.  The
lexer goes over the command character by character and keeps what it is inside of: quotes,
an escape, the name of a parameter, a command substitution.  The interpreter runs the
commands one after another until one fails, over utilities that act on a state.

Outside of this part (pathname and tilde expansion, field splitting, pipelines, compound
commands) reading or running a command gives nothing.  Every command of a list finds the
whole standard input.
-/

namespace Vesta
namespace Lib
namespace Shell

def singleQuote : Char := Char.ofNat 39

def doubleQuote : Char := Char.ofNat 34

def backslash : Char := Char.ofNat 92

/-! ## Tokens -/

mutual

/-- What a word is made of. -/
inductive Piece
  | char (c : Char) (quoted : Bool)
  | param (name : Text)
  | subst (tokens : List Token)

inductive Token
  | word (pieces : List Piece)
  | andIf
  | redirect (fd : Nat)

end

/-- The characters of a text in quotes. -/
def quotedText (text : Text) : List Piece := text.map fun c => .char c true

/-- The characters of a text outside of quotes. -/
def plainText (text : Text) : List Piece := text.map fun c => .char c false

def plainWord (text : Text) : Token := .word (plainText text)

inductive Mode
  | plain
  | single
  | double
  | escape
  | dollar
  | doubleDollar
  | doubleName (name : Text)
  | ampersand
  | failed

/-- The lexer: the tokens read so far, the word under way, and the same of each command that
the substitution it is in stands in. -/
structure Lexer where
  mode : Mode := .plain
  finished : List Token := []
  word : Option (List Piece) := none
  outer : List (List Token × List Piece) := []

namespace Lexer

variable (l : Lexer)

def emit (pieces : List Piece) : Lexer :=
  { l with word := some (l.word.getD [] ++ pieces) }

/-- End the word under way. -/
def flush : Lexer :=
  { l with finished := l.finished ++ l.word.toList.map Token.word, word := none }

def push (token : Token) : Lexer :=
  { l with mode := .plain, finished := l.finished ++ [token] }

/-- A word that is one digit right before the operator is the number of its descriptor. -/
def redirect : Lexer :=
  match l.word with
  | some [.char c false] =>
      if c.isDigit then { l with word := none }.push (.redirect (c.toNat - '0'.toNat))
      else l.flush.push (.redirect 1)
  | _ => l.flush.push (.redirect 1)

/-- Begin a command substitution. -/
def openSubst : Lexer where
  outer := (l.finished, l.word.getD []) :: l.outer

def closeSubst : Lexer :=
  match l.outer with
  | [] => { l with mode := .failed }
  | (finished, pieces) :: outer =>
      { finished := finished, word := some (pieces ++ [.subst l.flush.finished]), outer := outer }

def isNameStart (c : Char) : Bool := c.isAlpha || c == '_'

def isNameChar (c : Char) : Bool := c.isAlphanum || c == '_'

/-- Characters that begin an operator or an expansion outside of this part of the language. -/
def isForeign (c : Char) : Bool :=
  c == '\n' || c == ';' || c == '|' || c == '<' || c == '(' || c == '*' || c == '?' ||
    c == '~' || c == '#' || c == Char.ofNat 96

/-- Characters that stand for themselves outside of quotes. -/
def isOrdinary (c : Char) : Bool :=
  !(c == ' ' || c == '\t' || c == singleQuote || c == doubleQuote || c == backslash ||
    c == '$' || c == '&' || c == '>' || c == ')' || isForeign c)

def stepPlain (c : Char) : Lexer :=
  if c = ' ' ∨ c = '\t' then l.flush
  else if c = singleQuote then { l.emit [] with mode := .single }
  else if c = doubleQuote then { l.emit [] with mode := .double }
  else if c = backslash then { l with mode := .escape }
  else if c = '$' then { l with mode := .dollar }
  else if c = '&' then { l.flush with mode := .ampersand }
  else if c = '>' then l.redirect
  else if c = ')' then l.closeSubst
  else if isForeign c then { l with mode := .failed }
  else l.emit [.char c false]

def stepDouble (c : Char) : Lexer :=
  if c = doubleQuote then { l with mode := .plain }
  else if c = '$' then { l with mode := .doubleDollar }
  else if c = backslash ∨ c = Char.ofNat 96 then { l with mode := .failed }
  else { l.emit [.char c true] with mode := .double }

def step (c : Char) : Lexer :=
  match l.mode with
  | .plain => l.stepPlain c
  | .single =>
      if c = singleQuote then { l with mode := .plain } else l.emit [.char c true]
  | .double => l.stepDouble c
  | .escape =>
      if c = '\n' then { l with mode := .plain }
      else { l.emit [.char c true] with mode := .plain }
  | .dollar => if c = '(' then l.openSubst else { l with mode := .failed }
  | .doubleDollar =>
      if isNameStart c then { l with mode := .doubleName [c] } else { l with mode := .failed }
  | .doubleName name =>
      if isNameChar c then { l with mode := .doubleName (name ++ [c]) }
      else (l.emit [.param name]).stepDouble c
  | .ampersand => if c = '&' then l.push .andIf else { l with mode := .failed }
  | .failed => l

def run (text : Text) : Lexer := text.foldl step l

def finish : Option (List Token) :=
  match l.mode, l.outer with
  | .plain, [] => some l.flush.finished
  | _, _ => none

end Lexer

/-- The tokens of a command. -/
def lex (command : Text) : Option (List Token) := (Lexer.run {} command).finish

/-! ## Quoting -/

/-- A text in single quotes, each of its own single quotes outside of them and escaped. -/
def quote (text : Text) : Text :=
  singleQuote :: (text.flatMap fun c =>
    if c = singleQuote then [singleQuote, backslash, singleQuote, singleQuote] else [c]) ++
    [singleQuote]

section Quoting

variable {l : Lexer}

theorem Lexer.run_append (l : Lexer) (first second : Text) :
    l.run (first ++ second) = (l.run first).run second :=
  List.foldl_append

/-- Inside of single quotes, a text and its closing quote. -/
theorem Lexer.run_quoted
    (text : Text)
    (hmode : l.mode = .single) :
    l.run ((text.flatMap fun c =>
        if c = singleQuote then [singleQuote, backslash, singleQuote, singleQuote] else [c]) ++
        [singleQuote]) =
      { l with mode := .plain
               word := if text = [] then l.word else some (l.word.getD [] ++ quotedText text) } := by
  induction text generalizing l with
  | nil =>
      rw [List.flatMap_nil, List.nil_append, if_pos rfl]
      simp [Lexer.run, Lexer.step, hmode]
  | cons c text ih =>
      rw [List.flatMap_cons, List.append_assoc, Lexer.run_append, if_neg (List.cons_ne_nil c text)]
      have hchar : l.run (if c = singleQuote
            then [singleQuote, backslash, singleQuote, singleQuote] else [c]) =
          l.emit [.char c true] := by
        split
        · rename_i hc
          have hquote : ¬ (singleQuote = ' ' ∨ singleQuote = '\t') := by decide
          have hescape : ¬ (backslash = ' ' ∨ backslash = '\t') := by decide
          have hother : backslash ≠ singleQuote := by decide
          have hdouble : backslash ≠ doubleQuote := by decide
          have hnewline : singleQuote ≠ '\n' := by decide
          simp [Lexer.run, Lexer.step, Lexer.stepPlain, Lexer.emit, hmode, hc, hquote, hescape,
            hother, hdouble, hnewline]
        · rename_i hc
          simp [Lexer.run, Lexer.step, hmode, hc]
      have hsingle : (l.emit [.char c true]).mode = .single := hmode
      rw [hchar, ih hsingle]
      cases text with
      | nil => simp [Lexer.emit, quotedText]
      | cons next text => simp [Lexer.emit, quotedText]

/-- A quoted text goes on with the word under way, character by character. -/
theorem Lexer.run_quote
    (text : Text)
    (hmode : l.mode = .plain) :
    l.run (quote text) = l.emit (quotedText text) := by
  have hquote : ¬ (singleQuote = ' ' ∨ singleQuote = '\t') := by decide
  have hopen : l.step singleQuote = { l.emit [] with mode := .single } := by
    simp [Lexer.step, Lexer.stepPlain, hmode, hquote]
  have hrun : l.run (quote text) = ({ l.emit [] with mode := .single } : Lexer).run
      ((text.flatMap fun c =>
        if c = singleQuote then [singleQuote, backslash, singleQuote, singleQuote] else [c]) ++
        [singleQuote]) := by
    rw [quote, List.cons_append, ← hopen]
    rfl
  rw [hrun, Lexer.run_quoted text rfl]
  cases text with
  | nil => simp [Lexer.emit, quotedText, hmode]
  | cons c text => simp [Lexer.emit, hmode]

/-- The shell reads a quoted text as one word that is the text. -/
theorem lex_quote (text : Text) :
    lex (quote text) = some [.word (quotedText text)] := by
  rw [lex, Lexer.run_quote text rfl]
  rfl

end Quoting

/-! ## Reading a command -/

namespace Lexer

section Reading

variable {l : Lexer}
variable {text name rest : Text}

@[simp] theorem run_nil (l : Lexer) : l.run [] = l := rfl

theorem run_cons (c : Char) : l.run (c :: rest) = (l.step c).run rest := rfl

theorem step_ordinary
    {c : Char}
    (hmode : l.mode = .plain)
    (hc : isOrdinary c = true) :
    l.step c = l.emit [.char c false] := by
  simp only [isOrdinary, Bool.not_eq_true', Bool.or_eq_false_iff, beq_eq_false_iff_ne] at hc
  obtain ⟨⟨⟨⟨⟨⟨⟨⟨⟨hspace, htab⟩, hsingle⟩, hdouble⟩, hescape⟩, hdollar⟩, hand⟩, hgreater⟩,
    hclose⟩, hforeign⟩ := hc
  simp [step, stepPlain, hmode, hspace, htab, hsingle, hdouble, hescape, hdollar, hand, hgreater,
    hclose, hforeign]

/-- Ordinary characters go on with the word under way. -/
theorem run_ordinary
    (hmode : l.mode = .plain)
    (hne : text ≠ [])
    (htext : text.all isOrdinary = true) :
    l.run (text ++ rest) = (l.emit (plainText text)).run rest := by
  induction text generalizing l with
  | nil => exact absurd rfl hne
  | cons c text ih =>
      rw [List.all_cons, Bool.and_eq_true] at htext
      rw [List.cons_append, run_cons, step_ordinary hmode htext.1]
      cases text with
      | nil => rfl
      | cons next text =>
          have hnext : (l.emit [.char c false]).mode = .plain := hmode
          rw [ih hnext (List.cons_ne_nil _ _) htext.2]
          simp [emit, plainText]

theorem run_space
    (hmode : l.mode = .plain) :
    l.run (' ' :: rest) = l.flush.run rest := by
  simp [run_cons, step, stepPlain, hmode]

theorem run_openSubst
    (hmode : l.mode = .plain) :
    l.run ('$' :: '(' :: rest) = l.openSubst.run rest := by
  have hplain : ¬ ('$' = singleQuote ∨ '$' = doubleQuote ∨ '$' = backslash) := by decide
  simp only [not_or] at hplain
  simp [run_cons, step, stepPlain, hmode, hplain, openSubst]

theorem run_closeSubst
    (hmode : l.mode = .plain) :
    l.run (')' :: rest) = l.closeSubst.run rest := by
  have hplain : ¬ (')' = singleQuote ∨ ')' = doubleQuote ∨ ')' = backslash) := by decide
  simp only [not_or] at hplain
  simp [run_cons, step, stepPlain, hmode, hplain]

theorem run_andIf
    (hmode : l.mode = .plain) :
    l.run ('&' :: '&' :: rest) = (l.flush.push .andIf).run rest := by
  have hplain : ¬ ('&' = singleQuote ∨ '&' = doubleQuote ∨ '&' = backslash) := by decide
  simp only [not_or] at hplain
  simp [run_cons, step, stepPlain, hmode, hplain, push]

theorem run_redirect
    (hmode : l.mode = .plain)
    (hword : l.word = none) :
    l.run ('>' :: rest) = (l.push (.redirect 1)).run rest := by
  have hplain : ¬ ('>' = singleQuote ∨ '>' = doubleQuote ∨ '>' = backslash) := by decide
  simp only [not_or] at hplain
  simp [run_cons, step, stepPlain, hmode, hplain, redirect, hword, flush, push]

/-- The digit two right before the operator is the standard error. -/
theorem run_redirectError
    (hmode : l.mode = .plain)
    (hword : l.word = none) :
    l.run ('2' :: '>' :: rest) = (l.push (.redirect 2)).run rest := by
  have hplain : ¬ ('>' = singleQuote ∨ '>' = doubleQuote ∨ '>' = backslash) := by decide
  simp only [not_or] at hplain
  rw [run_cons, step_ordinary hmode (by decide)]
  simp [run_cons, step, stepPlain, hmode, hplain, redirect, hword, emit, push]

theorem run_name
    {begun : Text}
    (hmode : l.mode = .doubleName begun)
    (hname : name.all isNameChar = true) :
    l.run (name ++ rest) = ({ l with mode := .doubleName (begun ++ name) } : Lexer).run rest := by
  induction name generalizing l begun with
  | nil =>
      rw [List.append_nil, ← hmode]
      rfl
  | cons c name ih =>
      rw [List.all_cons, Bool.and_eq_true] at hname
      have hstep : l.step c = { l with mode := .doubleName (begun ++ [c]) } := by
        simp [step, hmode, hname.1]
      rw [List.cons_append, run_cons, hstep, ih rfl hname.2]
      simp

/-- A parameter in double quotes. -/
theorem run_param
    {c : Char}
    (hmode : l.mode = .plain)
    (hc : isNameStart c = true)
    (hname : name.all isNameChar = true) :
    l.run (doubleQuote :: '$' :: c :: (name ++ doubleQuote :: rest)) =
      (l.emit [.param (c :: name)]).run rest := by
  have hopen : l.step doubleQuote = { l.emit [] with mode := .double } := by
    have hspace : ¬ (doubleQuote = ' ' ∨ doubleQuote = '\t') := by decide
    have hsingle : doubleQuote ≠ singleQuote := by decide
    simp [step, stepPlain, hmode, hspace, hsingle]
  have hdollar : ({ l.emit [] with mode := .double } : Lexer).step '$' =
      { l.emit [] with mode := .doubleDollar } := by
    have hdouble : '$' ≠ doubleQuote := by decide
    simp [step, stepDouble, hdouble]
  have hfirst : ({ l.emit [] with mode := .doubleDollar } : Lexer).step c =
      { l.emit [] with mode := .doubleName [c] } := by
    simp [step, hc]
  have hclose : isNameChar doubleQuote = false := by decide
  rw [run_cons, hopen, run_cons, hdollar, run_cons, hfirst, run_name rfl hname, run_cons]
  simp [step, stepDouble, hclose, emit, hmode]

end Reading

end Lexer

/-! ## Commands -/

/-- A simple command, or the assignment of a parameter. -/
structure Command where
  assign : Option (Text × List Piece) := none
  args : List (List Piece) := []
  redirects : List (Nat × List Piece) := []

/-- The name and the value of a word that assigns a parameter. -/
def splitAssign : Text → List Piece → Option (Text × List Piece)
  | name, .char c false :: pieces =>
      if c = '=' then if name = [] then none else some (name, pieces)
      else if Lexer.isNameChar c then splitAssign (name ++ [c]) pieces
      else none
  | _, _ => none

/-- The arguments and redirections that follow in a command. -/
def parseArgs (command : Command) : List Token → Option Command
  | [] => some command
  | .word pieces :: tokens =>
      parseArgs { command with args := command.args ++ [pieces] } tokens
  | .redirect fd :: .word pieces :: tokens =>
      parseArgs { command with redirects := command.redirects ++ [(fd, pieces)] } tokens
  | _ => none

def parseCommand (tokens : List Token) : Option Command :=
  match tokens with
  | .word pieces :: rest =>
      match splitAssign [] pieces with
      | some assign => if rest.isEmpty then some { assign := some assign } else none
      | none => parseArgs {} tokens
  | _ => none

def isAndIf : Token → Bool
  | .andIf => true
  | _ => false

def parse (tokens : List Token) : Option (List Command) :=
  (tokens.splitOnP isAndIf).mapM parseCommand

section Parsing

variable {text name begun : Text}
variable {tokens rest : List Token}

theorem splitAssign_plainText
    {value : List Piece}
    (hname : name.all Lexer.isNameChar = true)
    (hne : begun ++ name ≠ []) :
    splitAssign begun (plainText name ++ .char '=' false :: value) =
      some (begun ++ name, value) := by
  induction name generalizing begun with
  | nil =>
      rw [List.append_nil] at hne ⊢
      simp [plainText, splitAssign, hne]
  | cons c name ih =>
      rw [List.all_cons, Bool.and_eq_true] at hname
      have hc : c ≠ '=' := by
        rintro rfl
        exact absurd hname.1 (by decide)
      have hrest := @ih (begun ++ [c]) hname.2 (by simp)
      have hstep : splitAssign begun (plainText (c :: name) ++ .char '=' false :: value) =
          splitAssign (begun ++ [c]) (plainText name ++ .char '=' false :: value) := by
        simp [plainText, splitAssign, hc, hname.1]
      rw [hstep, hrest]
      simp

theorem splitAssign_eq_none
    (htext : '=' ∉ text) :
    splitAssign begun (plainText text) = none := by
  induction text generalizing begun with
  | nil => rfl
  | cons c text ih =>
      rw [List.mem_cons, not_or] at htext
      have hc : c ≠ '=' := fun h => htext.1 h.symm
      have hrest := @ih (begun ++ [c]) htext.2
      simp only [plainText, List.map_cons, splitAssign, hc, if_false]
      split
      · exact hrest
      · rfl

/-- The first command of a list and the others. -/
theorem parse_andIf
    (hfirst : ∀ token ∈ tokens, isAndIf token = false) :
    parse (tokens ++ .andIf :: rest) = (parseCommand tokens).bind fun command =>
      (parse rest).map (command :: ·) := by
  rw [parse, List.splitOnP_append_cons_of_forall_mem hfirst .andIf rfl, List.mapM_cons]
  cases parseCommand tokens with
  | none => rfl
  | some command =>
      rw [parse]
      cases (rest.splitOnP isAndIf).mapM parseCommand <;> rfl

theorem parse_command
    (htokens : ∀ token ∈ tokens, isAndIf token = false) :
    parse tokens = (parseCommand tokens).map ([·]) := by
  rw [parse, List.splitOnP_eq_singleton htokens, List.mapM_cons]
  cases parseCommand tokens <;> rfl

end Parsing

/-! ## Running commands -/

/-- What running a command gives, and the state after it. -/
structure Output (σ : Type) where
  status : Nat
  stdout : List UInt8
  stderr : List UInt8
  state : σ

/-- The utilities: what one does for its arguments and its standard input, and where output
goes that is redirected to a path. -/
structure Utilities (σ : Type) where
  invoke : List (List UInt8) → List UInt8 → σ → Output σ
  write : List UInt8 → List UInt8 → σ → Option σ

abbrev Env := Text → List UInt8

/-- The text of a word, the status of its last command substitution, and what these wrote to
the standard error. -/
structure Expansion (σ : Type) where
  text : List UInt8
  status : Option Nat
  stderr : List UInt8
  state : σ

/-- The output of a command substitution without the newlines at its end. -/
def chomp (bytes : List UInt8) : List UInt8 := (bytes.reverse.dropWhile (· == 10)).reverse

section Run

variable {σ : Type}
variable (utilities : Utilities σ)
variable (sub : List Token → Env → σ → Option (Output σ))
variable (stdin : List UInt8)

def expandPiece (env : Env) (s : σ) : Piece → Option (Expansion σ)
  | .char c _ => some ⟨String.utf8EncodeChar c, none, [], s⟩
  | .param name => some ⟨env name, none, [], s⟩
  | .subst tokens => (sub tokens env s).map fun out =>
      ⟨chomp out.stdout, some out.status, out.stderr, out.state⟩

def expand (env : Env) : σ → List Piece → Option (Expansion σ)
  | s, [] => some ⟨[], none, [], s⟩
  | s, piece :: pieces => do
      let first ← expandPiece sub env s piece
      let rest ← expand env first.state pieces
      some ⟨first.text ++ rest.text, rest.status.or first.status, first.stderr ++ rest.stderr,
        rest.state⟩

/-- The texts of words, one for each. -/
def expandAll (env : Env) : σ → List (List Piece) → Option (List (List UInt8) × List UInt8 × σ)
  | s, [] => some ([], [], s)
  | s, word :: words => do
      let first ← expand sub env s word
      let (texts, stderr, s) ← expandAll env first.state words
      some (first.text :: texts, first.stderr ++ stderr, s)

/-- Send the output of a descriptor to a path. -/
def redirectOutput (out : Output σ) (fd : Nat) (path : List UInt8) : Output σ :=
  if fd = 1 then
    match utilities.write path out.stdout out.state with
    | some s => { out with stdout := [], state := s }
    | none => { out with status := 1, stdout := [] }
  else if fd = 2 then
    match utilities.write path out.stderr out.state with
    | some s => { out with stderr := [], state := s }
    | none => { out with status := 1, stderr := [] }
  else { out with status := 1 }

/-- Run one command: the parameters after it and its output. -/
def runCommand (env : Env) (s : σ) (command : Command) : Option (Env × Output σ) :=
  match command.assign with
  | some (name, value) => do
      let value ← expand sub env s value
      some (Function.update env name value.text,
        ⟨value.status.getD 0, [], value.stderr, value.state⟩)
  | none => do
      let (argv, stderr, s) ← expandAll sub env s command.args
      let (paths, stderr', s) ← expandAll sub env s (command.redirects.map Prod.snd)
      let out := utilities.invoke argv stdin s
      let out := ((command.redirects.map Prod.fst).zip paths).foldl
        (fun out target => redirectOutput utilities out target.1 target.2) out
      some (env, { out with stderr := stderr ++ stderr' ++ out.stderr })

/-- Run commands until one fails. -/
def runAll (env : Env) : σ → List Command → Option (Output σ)
  | s, [] => some ⟨0, [], [], s⟩
  | s, command :: commands => do
      let (env, out) ← runCommand utilities sub stdin env s command
      if out.status = 0 then
        let rest ← runAll env out.state commands
        some { rest with stdout := out.stdout ++ rest.stdout, stderr := out.stderr ++ rest.stderr }
      else some out

theorem expand_chars
    (env : Env) (s : σ) (text : Text) (quoted : Bool) :
    expand sub env s (text.map fun c => .char c quoted) = some ⟨utf8 text, none, [], s⟩ := by
  induction text with
  | nil => rfl
  | cons c text ih => simp [expand, expandPiece, ih, utf8]

@[simp] theorem expand_plainText (env : Env) (s : σ) (text : Text) :
    expand sub env s (plainText text) = some ⟨utf8 text, none, [], s⟩ :=
  expand_chars sub env s text false

@[simp] theorem expand_quotedText (env : Env) (s : σ) (text : Text) :
    expand sub env s (quotedText text) = some ⟨utf8 text, none, [], s⟩ :=
  expand_chars sub env s text true

@[simp] theorem expand_param (env : Env) (s : σ) (name : Text) :
    expand sub env s [.param name] = some ⟨env name, none, [], s⟩ := by
  simp [expand, expandPiece]

theorem expand_subst
    {env : Env} {s : σ} {tokens : List Token} {out : Output σ}
    (h : sub tokens env s = some out) :
    expand sub env s [.subst tokens] =
      some ⟨chomp out.stdout, some out.status, out.stderr, out.state⟩ := by
  simp [expand, expandPiece, h]

section Commands

variable {utilities sub stdin}
variable {env next : Env}
variable {s : σ}
variable {command : Command}
variable {commands : List Command}
variable {out : Output σ}

theorem runCommand_invoke
    {args : List (List Piece)} {argv : List (List UInt8)}
    (hargs : expandAll sub env s args = some (argv, [], s)) :
    runCommand utilities sub stdin env s { args := args } =
      some (env, utilities.invoke argv stdin s) := by
  simp [runCommand, hargs, expandAll]

/-- A command whose output of one descriptor goes to a path. -/
theorem runCommand_redirect
    {args : List (List Piece)} {argv : List (List UInt8)}
    {fd : Nat} {target : List Piece} {path : List UInt8}
    (hargs : expandAll sub env s args = some (argv, [], s))
    (htarget : expand sub env s target = some ⟨path, none, [], s⟩) :
    runCommand utilities sub stdin env s { args := args, redirects := [(fd, target)] } =
      some (env, redirectOutput utilities (utilities.invoke argv stdin s) fd path) := by
  simp [runCommand, hargs, expandAll, htarget]

theorem runCommand_assign
    {name : Text} {tokens : List Token}
    (h : sub tokens env s = some out) :
    runCommand utilities sub stdin env s { assign := some (name, [.subst tokens]) } =
      some (Function.update env name (chomp out.stdout), { out with stdout := [] }) := by
  simp [runCommand, expand_subst sub h]

/-- A command that succeeds without output goes before the others. -/
theorem runAll_next
    (h : runCommand utilities sub stdin env s command = some (next, out))
    (hstatus : out.status = 0)
    (hstdout : out.stdout = [])
    (hstderr : out.stderr = []) :
    runAll utilities sub stdin env s (command :: commands) =
      runAll utilities sub stdin next out.state commands := by
  simp only [runAll, h, Option.bind_eq_bind, Option.bind_some, hstatus, if_true, hstdout, hstderr,
    List.nil_append]
  cases runAll utilities sub stdin next out.state commands <;> rfl

/-- A command that fails is the last. -/
theorem runAll_stop
    (h : runCommand utilities sub stdin env s command = some (next, out))
    (hstatus : out.status ≠ 0) :
    runAll utilities sub stdin env s (command :: commands) = some out := by
  simp only [runAll, h, Option.bind_eq_bind, Option.bind_some, hstatus, if_false]

theorem runAll_last
    (h : runCommand utilities sub stdin env s command = some (next, out)) :
    runAll utilities sub stdin env s [command] = some out := by
  simp only [runAll, h, Option.bind_eq_bind, Option.bind_some, List.append_nil]
  split
  · rename_i hstatus
    rw [← hstatus]
  · rfl

end Commands

end Run

section Interpreter

variable {σ : Type}
variable (utilities : Utilities σ)

/-- Run a list of tokens, with substitutions nested at most so deep. -/
def runTokens (stdin : List UInt8) : Nat → List Token → Env → σ → Option (Output σ)
  | 0, _, _, _ => none
  | depth + 1, tokens, env, s => (parse tokens).bind fun commands =>
      runAll utilities (runTokens stdin depth) stdin env s commands

/-- `sh -c command` -/
def sh (command : Text) (stdin : List UInt8) (s : σ) : Option (Output σ) :=
  (lex command).bind fun tokens =>
    runTokens utilities stdin (command.length + 1) tokens (fun _ => []) s

end Interpreter

end Shell
end Lib
end Vesta
