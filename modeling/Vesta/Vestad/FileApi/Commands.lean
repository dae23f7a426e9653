import Vesta.Lib.FileTree
import Vesta.Lib.Shell

/-!
# The commands of the file API

A file is read and written by commands that the shell of the container runs.  Both begin with
the same test: the canonical path of the file, as a command substitution gives it, is the
requested one.

The utilities act on a file tree.  What depends on the container otherwise (how many links a
walk follows, the name that `mktemp` draws, what cannot be replaced and what a utility says
when it fails) is the container's environment.
-/

namespace Vesta
namespace Vestad
namespace FileApi

open Lib
open Lib.FileTree
open Lib.Shell (Output Utilities Piece Token Command quote quotedText sh chomp)

/-- What a container does that its file tree does not say. -/
structure Environment where
  /-- How many links `realpath` follows, and how many the kernel does. -/
  realpathLinks : Nat
  openLinks : Nat
  /-- The characters that `mktemp` draws. -/
  suffix : {s : Bytes // ∀ b ∈ s, b ≠ slash ∧ b ≠ 10}
  immovable : Location → Bool
  complaint : List Bytes → Text

def lit (s : String) : Bytes := utf8 s.toList

/-! ## Utilities -/

section Utilities

variable (env : Environment)
variable (tree : Tree)

def failed (argv : List Bytes) : Output Tree := ⟨1, [], utf8 (env.complaint argv), tree⟩

/-- `realpath -e` -/
def realpath (argv : List Bytes) (path : Bytes) : Output Tree :=
  match resolve tree env.realpathLinks path with
  | some loc => ⟨0, text loc ++ [10], [], tree⟩
  | none => failed env tree argv

/-- `[ a = b ]` -/
def test (a b : Bytes) : Output Tree := ⟨if a = b then 0 else 1, [], [], tree⟩

def emptyFileKind : Text := "regular empty file".toList

def fileKind : Text := "regular file".toList

def directoryKind : Text := "directory".toList

def linkKind : Text := "symbolic link".toList

/-- The kind of a node, as the format `%F` prints it. -/
def kind : Node → Text
  | .file _ content => if content = [] then emptyFileKind else fileKind
  | .dir _ _ => directoryKind
  | .link _ => linkKind

def modeBits : Node → Nat
  | .file mode _ => mode
  | .dir mode _ => mode
  | .link _ => 0o777

def size : Node → Nat
  | .file _ content => content.length
  | .dir _ size => size
  | .link target => target.length

/-- The mode, the size and the kind. -/
def statFormat : Text := "%a %s %F".toList

/-- The line that `stat` prints for this format. -/
def statLine (node : Node) : Text :=
  Nat.toDigits 8 (modeBits node) ++ ' ' :: (Nat.toDigits 10 (size node) ++ ' ' :: kind node)

/-- `stat` does not follow a link at the end of a path. -/
def stat (argv : List Bytes) (path : Bytes) : Output Tree :=
  match (place tree env.openLinks path).bind tree with
  | some node => ⟨0, utf8 (statLine node) ++ [10], [], tree⟩
  | none => failed env tree argv

def cat (argv : List Bytes) (path : Bytes) : Output Tree :=
  match (resolve tree env.openLinks path).bind tree with
  | some (.file _ content) => ⟨0, content, [], tree⟩
  | _ => failed env tree argv

/-- The path that `mktemp` makes of a template that ends in six `X`. -/
def tempPath (template : Bytes) : Bytes :=
  template.take (template.length - 6) ++ env.suffix.val

def mktemp (argv : List Bytes) (template : Bytes) : Output Tree :=
  match place tree env.openLinks (tempPath env template) with
  | some temp =>
      match tree temp with
      | none => ⟨0, tempPath env template ++ [10], [], set tree temp (.file 0o600 [])⟩
      | some _ => failed env tree argv
  | none => failed env tree argv

def basename (path : Bytes) : Bytes := (components path).getLast?.getD []

/-- Where `mv` moves a file to: into its target, when that is a directory. -/
def moveTarget (source target : Bytes) : Option Location :=
  match resolve tree env.openLinks target with
  | some loc =>
      if isDir tree loc then place tree env.openLinks (target ++ slash :: basename source)
      else place tree env.openLinks target
  | none => place tree env.openLinks target

/-- `mv -f` -/
def mv (argv : List Bytes) (source target : Bytes) : Output Tree :=
  match (place tree env.openLinks source), moveTarget env tree source target with
  | some temp, some loc =>
      match tree temp with
      | some node =>
          if isDir tree loc || env.immovable loc then failed env tree argv
          else ⟨0, [], [], set (remove tree temp) loc node⟩
      | none => failed env tree argv
  | _, _ => failed env tree argv

/-- Write to the file that a path names, or make it. -/
def write (path content : Bytes) : Option Tree :=
  if path = lit "/dev/null" then some tree
  else
    match place tree env.openLinks path with
    | none => none
    | some loc =>
        match tree loc with
        | none => some (set tree loc (.file 0o644 content))
        | some (.file mode _) => some (set tree loc (.file mode content))
        | some (.dir _ _) => none
        | some (.link _) =>
            match resolve tree env.openLinks path with
            | none => none
            | some target =>
                match tree target with
                | some (.file mode _) => some (set tree target (.file mode content))
                | _ => none

def unknown : Output Tree := ⟨127, [], [], tree⟩

def invoke (argv : List Bytes) (stdin : Bytes) : Output Tree :=
  match argv with
  | [name, a, operator, b, bracket] =>
      if name = lit "[" ∧ operator = lit "=" ∧ bracket = lit "]" then test tree a b
      else unknown tree
  | [name, a, b, c] =>
      if name = lit "realpath" ∧ a = lit "-e" ∧ b = lit "--" then realpath env tree argv c
      else if name = lit "stat" ∧ a = lit "-c" ∧ b = utf8 statFormat then stat env tree argv c
      else if name = lit "mv" ∧ a = lit "-f" then mv env tree argv b c
      else unknown tree
  | [name, a] =>
      if name = lit "cat" then cat env tree argv a
      else if name = lit "mktemp" then mktemp env tree argv a
      else unknown tree
  | [name] => if name = lit "cat" then ⟨0, stdin, [], tree⟩ else unknown tree
  | _ => unknown tree

end Utilities

def utilities (env : Environment) : Utilities Tree where
  invoke argv stdin tree := invoke env tree argv stdin
  write path content tree := write env tree path content

section Invocations

variable (env : Environment)
variable (tree : Tree)
variable (stdin path : Bytes)

theorem invoke_realpath :
    (utilities env).invoke [lit "realpath", lit "-e", lit "--", path] stdin tree =
      realpath env tree [lit "realpath", lit "-e", lit "--", path] path := by
  simp [utilities, invoke]

theorem invoke_test (other : Bytes) :
    (utilities env).invoke [lit "[", path, lit "=", other, lit "]"] stdin tree =
      test tree path other := by
  simp [utilities, invoke]

theorem invoke_stat :
    (utilities env).invoke [lit "stat", lit "-c", utf8 statFormat, path] stdin tree =
      stat env tree [lit "stat", lit "-c", utf8 statFormat, path] path := by
  have hrealpath : lit "stat" ≠ lit "realpath" := by decide +kernel
  simp [utilities, invoke, hrealpath]

theorem invoke_cat :
    (utilities env).invoke [lit "cat", path] stdin tree =
      cat env tree [lit "cat", path] path := by
  simp [utilities, invoke]

theorem invoke_mktemp :
    (utilities env).invoke [lit "mktemp", path] stdin tree =
      mktemp env tree [lit "mktemp", path] path := by
  have hcat : lit "mktemp" ≠ lit "cat" := by decide +kernel
  simp [utilities, invoke, hcat]

theorem invoke_catInput :
    (utilities env).invoke [lit "cat"] stdin tree = ⟨0, stdin, [], tree⟩ := by
  simp [utilities, invoke]

theorem invoke_mv (source : Bytes) :
    (utilities env).invoke [lit "mv", lit "-f", source, path] stdin tree =
      mv env tree [lit "mv", lit "-f", source, path] source path := by
  have hrealpath : lit "mv" ≠ lit "realpath" := by decide +kernel
  have hstat : lit "mv" ≠ lit "stat" := by decide +kernel
  simp [utilities, invoke, hrealpath, hstat]

theorem write_null (content : Bytes) :
    (utilities env).write (utf8 "/dev/null".toList) content tree = some tree := by
  simp [utilities, write, lit]

end Invocations

/-! ## Commands -/

def shellEscape (s : Text) : Text := quote s

def openingText : Text := "real=$(realpath -e -- ".toList

def comparisonText : Text := " 2>/dev/null) && [ \"$real\" = ".toList

def statText : Text := " ] && stat -c '%a %s %F' ".toList

def catText : Text := "cat ".toList

def editText : Text :=
  " ] && tmp=$(mktemp /tmp/.vesta-edit.XXXXXX) && cat > \"$tmp\" && mv -f \"$tmp\" ".toList

section Texts

variable (path : Text)

/-- The test that both commands begin with. -/
def guardCommand : Text :=
  openingText ++ (shellEscape path ++ (comparisonText ++ shellEscape path))

def statCommand : Text := guardCommand path ++ (statText ++ shellEscape path)

def catCommand : Text := catText ++ shellEscape path

def writeCommand : Text := guardCommand path ++ (editText ++ shellEscape path)

end Texts

/-! ## Tokens -/

section Tokens

open Shell (Lexer plainText plainWord)

variable (path : Text)

def guardTokens : List Token :=
  [.word (plainText "real=".toList ++ [.subst
      [plainWord "realpath".toList, plainWord "-e".toList, plainWord "--".toList,
        .word (quotedText path), .redirect 2, plainWord "/dev/null".toList]]),
    .andIf, plainWord "[".toList, .word [.param "real".toList], plainWord "=".toList,
    .word (quotedText path)]

/-- Words that the commands write without quotes. -/
def unquoted : List String :=
  ["real=", "realpath", "-e", "--", "/dev/null", "[", "=", "]", "stat", "-c", "tmp=", "mktemp",
    "/tmp/.vesta-edit.XXXXXX", "cat", "mv", "-f"]

theorem ordinary_unquoted :
    ∀ s ∈ unquoted, s.toList ≠ [] ∧ s.toList.all Lexer.isOrdinary = true := by
  decide +kernel

theorem run_unquoted
    {l : Lexer} {s : String} {rest : Text}
    (hmode : l.mode = .plain)
    (hs : s ∈ unquoted) :
    l.run (s.toList ++ rest) = (l.emit (plainText s.toList)).run rest :=
  Lexer.run_ordinary hmode (ordinary_unquoted s hs).1 (ordinary_unquoted s hs).2

theorem run_openingText :
    ({} : Lexer).run openingText =
      { finished := [plainWord "realpath".toList, plainWord "-e".toList, plainWord "--".toList]
        outer := [([], plainText "real=".toList)] } := by
  have hwords : openingText = "real=".toList ++ '$' :: '(' :: ("realpath".toList ++ ' ' ::
      ("-e".toList ++ ' ' :: ("--".toList ++ [' ']))) := by
    decide +kernel
  rw [hwords, run_unquoted rfl (by decide), Lexer.run_openSubst rfl, run_unquoted rfl (by decide),
    Lexer.run_space rfl, run_unquoted rfl (by decide), Lexer.run_space rfl,
    run_unquoted rfl (by decide), Lexer.run_space rfl]
  rfl

theorem run_comparisonText
    {tokens : List Token} {pieces value : List Piece} :
    ({ finished := tokens, word := some pieces, outer := [([], value)] } : Lexer).run
        comparisonText =
      { finished := [.word (value ++ [.subst (tokens ++ [.word pieces, .redirect 2,
          plainWord "/dev/null".toList])]),
          .andIf, plainWord "[".toList, .word [.param "real".toList], plainWord "=".toList] } := by
  have hwords : comparisonText = ' ' :: '2' :: '>' :: ("/dev/null".toList ++ ')' :: ' ' :: '&' ::
      '&' :: ' ' :: ("[".toList ++ ' ' :: Shell.doubleQuote :: '$' :: 'r' :: ("eal".toList ++
        Shell.doubleQuote :: ' ' :: ("=".toList ++ [' '])))) := by
    decide +kernel
  have hreal : "real".toList = 'r' :: "eal".toList := by decide +kernel
  have hclose : ({ finished := tokens, word := some pieces, outer := [([], value)] } : Lexer).run
      comparisonText = ({ word := some (value ++ [.subst (tokens ++ [.word pieces, .redirect 2,
        plainWord "/dev/null".toList])]) } : Lexer).run (' ' :: '&' :: '&' :: ' ' ::
        ("[".toList ++ ' ' :: Shell.doubleQuote :: '$' :: 'r' :: ("eal".toList ++
          Shell.doubleQuote :: ' ' :: ("=".toList ++ [' '])))) := by
    rw [hwords, Lexer.run_space rfl, Lexer.run_redirectError rfl rfl,
      run_unquoted rfl (by decide), Lexer.run_closeSubst rfl]
    simp [Lexer.closeSubst, Lexer.flush, Lexer.push, Lexer.emit, plainWord]
  rw [hclose, Lexer.run_space rfl, Lexer.run_andIf rfl, Lexer.run_space rfl,
    run_unquoted rfl (by decide), Lexer.run_space rfl, Lexer.run_param rfl (by decide) (by decide),
    Lexer.run_space rfl, run_unquoted rfl (by decide), Lexer.run_space rfl, hreal]
  rfl

/-- The lexer behind the test, with the last word of it under way. -/
theorem run_guardCommand :
    ({} : Lexer).run (guardCommand path) =
      { finished := (guardTokens path).dropLast, word := some (quotedText path) } := by
  rw [guardCommand, shellEscape, Lexer.run_append, run_openingText, Lexer.run_append,
    Lexer.run_quote path rfl]
  simp only [Lexer.emit, Option.getD_none, List.nil_append]
  rw [Lexer.run_append, run_comparisonText, Lexer.run_quote path rfl]
  rfl

theorem run_statText
    {tokens : List Token} {pieces : List Piece} :
    ({ finished := tokens, word := some pieces } : Lexer).run statText =
      { finished := tokens ++ [.word pieces, plainWord "]".toList, .andIf,
          plainWord "stat".toList, plainWord "-c".toList, .word (quotedText statFormat)] } := by
  have hwords : statText = ' ' :: ("]".toList ++ ' ' :: '&' :: '&' :: ' ' :: ("stat".toList ++
      ' ' :: ("-c".toList ++ ' ' :: (quote statFormat ++ [' '])))) := by
    decide +kernel
  rw [hwords, Lexer.run_space rfl, run_unquoted rfl (by decide), Lexer.run_space rfl,
    Lexer.run_andIf rfl, Lexer.run_space rfl, run_unquoted rfl (by decide), Lexer.run_space rfl,
    run_unquoted rfl (by decide), Lexer.run_space rfl, Lexer.run_append,
    Lexer.run_quote statFormat rfl, Lexer.run_space rfl]
  simp [Lexer.run, Lexer.flush, Lexer.push, Lexer.emit, plainWord]

/-- The end of the command substitution that makes the temporary file. -/
theorem run_made
    {tokens : List Token} {pieces : List Piece} {rest : Text} :
    ({ finished := tokens, word := some pieces } : Lexer).run
        (' ' :: ("]".toList ++ ' ' :: '&' :: '&' :: ' ' :: ("tmp=".toList ++ '$' :: '(' ::
          ("mktemp".toList ++ ' ' :: ("/tmp/.vesta-edit.XXXXXX".toList ++ ')' :: rest))))) =
      ({ finished := tokens ++ [.word pieces, plainWord "]".toList, .andIf]
         word := some (plainText "tmp=".toList ++ [.subst [plainWord "mktemp".toList,
          plainWord "/tmp/.vesta-edit.XXXXXX".toList]]) } : Lexer).run rest := by
  rw [Lexer.run_space rfl, run_unquoted rfl (by decide), Lexer.run_space rfl,
    Lexer.run_andIf rfl, Lexer.run_space rfl, run_unquoted rfl (by decide),
    Lexer.run_openSubst rfl, run_unquoted rfl (by decide), Lexer.run_space rfl,
    run_unquoted rfl (by decide), Lexer.run_closeSubst rfl]
  simp [Lexer.closeSubst, Lexer.openSubst, Lexer.flush, Lexer.push, Lexer.emit, plainWord]

theorem run_editText
    {tokens : List Token} {pieces : List Piece} :
    ({ finished := tokens, word := some pieces } : Lexer).run editText =
      { finished := tokens ++ [.word pieces, plainWord "]".toList, .andIf,
          .word (plainText "tmp=".toList ++ [.subst [plainWord "mktemp".toList,
            plainWord "/tmp/.vesta-edit.XXXXXX".toList]]),
          .andIf, plainWord "cat".toList, .redirect 1, .word [.param "tmp".toList],
          .andIf, plainWord "mv".toList, plainWord "-f".toList, .word [.param "tmp".toList]] } := by
  have hwords : editText = ' ' :: ("]".toList ++ ' ' :: '&' :: '&' :: ' ' :: ("tmp=".toList ++
      '$' :: '(' :: ("mktemp".toList ++ ' ' :: ("/tmp/.vesta-edit.XXXXXX".toList ++ ')' ::
        ' ' :: '&' :: '&' :: ' ' :: ("cat".toList ++ ' ' :: '>' :: ' ' :: Shell.doubleQuote ::
          '$' :: 't' :: ("mp".toList ++ Shell.doubleQuote :: ' ' :: '&' :: '&' :: ' ' ::
            ("mv".toList ++ ' ' :: ("-f".toList ++ ' ' :: Shell.doubleQuote :: '$' :: 't' ::
              ("mp".toList ++ Shell.doubleQuote :: [' ']))))))))) := by
    decide +kernel
  have htmp : "tmp".toList = 't' :: "mp".toList := by decide +kernel
  rw [hwords, run_made, Lexer.run_space rfl, Lexer.run_andIf rfl, Lexer.run_space rfl,
    run_unquoted rfl (by decide), Lexer.run_space rfl, Lexer.run_redirect rfl rfl,
    Lexer.run_space rfl, Lexer.run_param rfl (by decide) (by decide), Lexer.run_space rfl,
    Lexer.run_andIf rfl, Lexer.run_space rfl, run_unquoted rfl (by decide), Lexer.run_space rfl,
    run_unquoted rfl (by decide), Lexer.run_space rfl,
    Lexer.run_param rfl (by decide) (by decide), Lexer.run_space rfl, htmp]
  simp [Lexer.run, Lexer.flush, Lexer.push, Lexer.emit, plainWord]

theorem lex_statCommand :
    Shell.lex (statCommand path) = some (guardTokens path ++ [plainWord "]".toList, .andIf,
      plainWord "stat".toList, plainWord "-c".toList, .word (quotedText statFormat),
      .word (quotedText path)]) := by
  rw [Shell.lex, statCommand, shellEscape, Lexer.run_append, run_guardCommand, Lexer.run_append,
    run_statText, Lexer.run_quote path rfl]
  rfl

theorem lex_catCommand :
    Shell.lex (catCommand path) =
      some [plainWord "cat".toList, .word (quotedText path)] := by
  have hwords : catText = "cat".toList ++ [' '] := by decide +kernel
  rw [Shell.lex, catCommand, shellEscape, hwords, Lexer.run_append, run_unquoted rfl (by decide),
    Lexer.run_space rfl, Lexer.run_nil, Lexer.run_quote path rfl]
  rfl

theorem lex_writeCommand :
    Shell.lex (writeCommand path) = some (guardTokens path ++ [plainWord "]".toList, .andIf,
      .word (plainText "tmp=".toList ++ [.subst [plainWord "mktemp".toList,
        plainWord "/tmp/.vesta-edit.XXXXXX".toList]]),
      .andIf, plainWord "cat".toList, .redirect 1, .word [.param "tmp".toList],
      .andIf, plainWord "mv".toList, plainWord "-f".toList, .word [.param "tmp".toList],
      .word (quotedText path)]) := by
  rw [Shell.lex, writeCommand, shellEscape, Lexer.run_append, run_guardCommand, Lexer.run_append,
    run_editText, Lexer.run_quote path rfl]
  rfl

end Tokens

/-! ## What the commands do -/

section Run

open Shell (plainText plainWord parseCommand)

variable (env : Environment)
variable (path : Text)
variable {tree : Tree}
variable {stdin : Bytes}
variable {vars : Shell.Env}
variable {depth : Nat}

theorem parse_simple
    {tokens : List Token} {command : Command}
    (htokens : (tokens.all fun token => !Shell.isAndIf token) = true)
    (hcommand : parseCommand tokens = some command) :
    Shell.parse tokens = some [command] := by
  rw [Shell.parse_command fun token htoken => by simpa using List.all_eq_true.1 htokens token htoken,
    hcommand]
  rfl

theorem parse_more
    {tokens rest : List Token} {command : Command} {commands : List Command}
    (htokens : (tokens.all fun token => !Shell.isAndIf token) = true)
    (hcommand : parseCommand tokens = some command)
    (hrest : Shell.parse rest = some commands) :
    Shell.parse (tokens ++ .andIf :: rest) = some (command :: commands) := by
  rw [Shell.parse_andIf fun token htoken => by simpa using List.all_eq_true.1 htokens token htoken,
    hcommand, hrest]
  rfl

theorem chomp_newline (bytes : Bytes) : chomp (bytes ++ [10]) = chomp bytes := by
  simp [chomp]

/-- The command substitution of the test. -/
def realpathTokens : List Token :=
  [plainWord "realpath".toList, plainWord "-e".toList, plainWord "--".toList,
    .word (quotedText path), .redirect 2, plainWord "/dev/null".toList]

theorem run_realpathTokens :
    Shell.runTokens (utilities env) stdin (depth + 1) (realpathTokens path) vars tree =
      some { realpath env tree [lit "realpath", lit "-e", lit "--", utf8 path] (utf8 path) with
        stderr := [] } := by
  have hparse : Shell.parse (realpathTokens path) =
      some [{ args := [plainText "realpath".toList, plainText "-e".toList, plainText "--".toList,
                quotedText path]
              redirects := [(2, plainText "/dev/null".toList)] }] := by
    refine parse_simple rfl ?_
    rw [realpathTokens, plainWord, parseCommand, Shell.splitAssign_eq_none (by decide +kernel)]
    rfl
  have hstate : (realpath env tree [lit "realpath", lit "-e", lit "--", utf8 path]
      (utf8 path)).state = tree := by
    rw [realpath]
    split <;> rfl
  have hargs : Shell.expandAll (Shell.runTokens (utilities env) stdin depth) vars tree
      [plainText "realpath".toList, plainText "-e".toList, plainText "--".toList,
        quotedText path] =
      some ([lit "realpath", lit "-e", lit "--", utf8 path], [], tree) := by
    simp [Shell.expandAll, lit]
  rw [Shell.runTokens, hparse, Option.bind_some,
    Shell.runAll_last (Shell.runCommand_redirect hargs (Shell.expand_plainText _ _ _ _)),
    invoke_realpath, Shell.redirectOutput, if_neg (by decide), if_pos rfl, write_null]

def guardCommands : List Command :=
  [{ assign := some ("real".toList, [.subst (realpathTokens path)]) },
    { args := [plainText "[".toList, [.param "real".toList], plainText "=".toList,
        quotedText path, plainText "]".toList] }]

theorem parse_guardTokens
    {rest : List Token} {commands : List Command}
    (hrest : Shell.parse rest = some commands) :
    Shell.parse (guardTokens path ++ plainWord "]".toList :: .andIf :: rest) =
      some (guardCommands path ++ commands) := by
  have hreal : "real=".toList = "real".toList ++ ['='] := by decide +kernel
  have hassign : parseCommand [.word (plainText "real=".toList ++ [.subst (realpathTokens path)])] =
      some { assign := some ("real".toList, [.subst (realpathTokens path)]) } := by
    have hsplit := @Shell.splitAssign_plainText "real".toList [] [.subst (realpathTokens path)]
      (by decide +kernel) (by decide +kernel)
    have hword : plainText "real=".toList ++ [.subst (realpathTokens path)] =
        plainText "real".toList ++ .char '=' false :: [.subst (realpathTokens path)] := by
      rw [hreal]
      simp [plainText]
    rw [parseCommand, hword, hsplit]
    rfl
  have htest : parseCommand [plainWord "[".toList, .word [.param "real".toList],
      plainWord "=".toList, .word (quotedText path), plainWord "]".toList] =
    some { args := [plainText "[".toList, [.param "real".toList], plainText "=".toList,
      quotedText path, plainText "]".toList] } := by
    rw [plainWord, parseCommand, Shell.splitAssign_eq_none (by decide +kernel)]
    rfl
  exact parse_more rfl hassign (parse_more rfl htest hrest)

/-- What a command gives behind the test. -/
def guarded (tree : Tree) (out : Output Tree) : Output Tree :=
  match resolve tree env.realpathLinks (utf8 path) with
  | some loc => if chomp (text loc) = utf8 path then out else ⟨1, [], [], tree⟩
  | none => ⟨1, [], [], tree⟩

theorem runAll_guardCommands
    {commands : List Command} {out : Output Tree}
    (hrest : ∀ vars, Shell.runAll (utilities env) (Shell.runTokens (utilities env) stdin (depth + 1))
      stdin vars tree commands = some out) :
    Shell.runAll (utilities env) (Shell.runTokens (utilities env) stdin (depth + 1)) stdin vars
        tree (guardCommands path ++ commands) =
      some (guarded env path tree out) := by
  have hassign := @Shell.runCommand_assign _ (utilities env)
    (Shell.runTokens (utilities env) stdin (depth + 1)) stdin vars tree _ "real".toList _
    (run_realpathTokens env path)
  rw [guarded, guardCommands]
  cases hresolve : resolve tree env.realpathLinks (utf8 path) with
  | none =>
      have hfails : realpath env tree [lit "realpath", lit "-e", lit "--", utf8 path]
          (utf8 path) = failed env tree [lit "realpath", lit "-e", lit "--", utf8 path] := by
        rw [realpath, hresolve]
      rw [hfails] at hassign
      exact Shell.runAll_stop hassign (Nat.one_ne_zero)
  | some loc =>
      have hprints : realpath env tree [lit "realpath", lit "-e", lit "--", utf8 path]
          (utf8 path) = ⟨0, text loc ++ [10], [], tree⟩ := by
        rw [realpath, hresolve]
      rw [hprints] at hassign
      rw [List.cons_append, Shell.runAll_next hassign rfl rfl rfl]
      have htest := @Shell.runCommand_invoke _ (utilities env)
        (Shell.runTokens (utilities env) stdin (depth + 1)) stdin
        (Function.update vars "real".toList (chomp (text loc ++ [10]))) tree
        [plainText "[".toList, [.param "real".toList], plainText "=".toList,
          quotedText path, plainText "]".toList]
        [lit "[", chomp (text loc), lit "=", utf8 path, lit "]"]
        (by simp [Shell.expandAll, lit, chomp_newline])
      rw [invoke_test, test] at htest
      by_cases hsame : chomp (text loc) = utf8 path
      · rw [if_pos hsame] at htest
        rw [List.singleton_append, Shell.runAll_next htest rfl rfl rfl, hrest]
        simp [hsame]
      · rw [if_neg hsame] at htest
        rw [List.singleton_append, Shell.runAll_stop htest Nat.one_ne_zero]
        simp [hsame]

theorem exists_length_succ
    {command : Text}
    (h : command ≠ []) :
    ∃ depth, command.length = depth + 1 :=
  Nat.exists_eq_succ_of_ne_zero fun hzero => h (List.eq_nil_of_length_eq_zero hzero)

theorem sh_statCommand :
    sh (utilities env) (statCommand path) stdin tree =
      some (guarded env path tree
        (stat env tree [lit "stat", lit "-c", utf8 statFormat, utf8 path] (utf8 path))) := by
  have hne : statCommand path ≠ [] := by simp [statCommand, shellEscape, quote]
  obtain ⟨depth, hdepth⟩ := exists_length_succ hne
  have hparse : Shell.parse [plainWord "stat".toList, plainWord "-c".toList,
      .word (quotedText statFormat), .word (quotedText path)] =
    some [{ args := [plainText "stat".toList, plainText "-c".toList, quotedText statFormat,
      quotedText path] }] := by
    refine parse_simple rfl ?_
    rw [plainWord, parseCommand, Shell.splitAssign_eq_none (by decide +kernel)]
    rfl
  rw [sh, lex_statCommand, Option.bind_some, hdepth, Shell.runTokens,
    parse_guardTokens path hparse, Option.bind_some]
  refine runAll_guardCommands env path fun vars => ?_
  rw [← invoke_stat env tree stdin]
  exact Shell.runAll_last (Shell.runCommand_invoke (by simp [Shell.expandAll, lit]))

theorem sh_catCommand :
    sh (utilities env) (catCommand path) stdin tree =
      some (cat env tree [lit "cat", utf8 path] (utf8 path)) := by
  have hparse : Shell.parse [plainWord "cat".toList, .word (quotedText path)] =
      some [{ args := [plainText "cat".toList, quotedText path] }] := by
    refine parse_simple rfl ?_
    rw [plainWord, parseCommand, Shell.splitAssign_eq_none (by decide +kernel)]
    rfl
  rw [sh, lex_catCommand, Option.bind_some, Shell.runTokens, hparse, Option.bind_some,
    ← invoke_cat env tree stdin]
  exact Shell.runAll_last (Shell.runCommand_invoke (by simp [Shell.expandAll, lit]))

/-- The commands behind the test of a write. -/
def edit (tree : Tree) (content : Bytes) : Output Tree :=
  let template := lit "/tmp/.vesta-edit.XXXXXX"
  let made := mktemp env tree [lit "mktemp", template] template
  if made.status = 0 then
    let temp := chomp made.stdout
    match write env made.state temp content with
    | some tree => mv env tree [lit "mv", lit "-f", temp, utf8 path] temp (utf8 path)
    | none => ⟨1, [], [], made.state⟩
  else { made with stdout := [] }

theorem stderr_mktemp
    {argv : List Bytes} {template : Bytes}
    (h : (mktemp env tree argv template).status = 0) :
    (mktemp env tree argv template).stderr = [] := by
  rw [mktemp] at h ⊢
  split
  · rename_i temp hplace
    rw [hplace] at h
    cases hnode : tree temp with
    | none => rfl
    | some node => simp [hnode, failed] at h
  · rename_i hplace
    simp [hplace, failed] at h

def editTokens : List Token :=
  [.word (plainText "tmp=".toList ++ [.subst [plainWord "mktemp".toList,
      plainWord "/tmp/.vesta-edit.XXXXXX".toList]]),
    .andIf, plainWord "cat".toList, .redirect 1, .word [.param "tmp".toList],
    .andIf, plainWord "mv".toList, plainWord "-f".toList, .word [.param "tmp".toList],
    .word (quotedText path)]

def editCommands : List Command :=
  [{ assign := some ("tmp".toList, [.subst [plainWord "mktemp".toList,
      plainWord "/tmp/.vesta-edit.XXXXXX".toList]]) },
    { args := [plainText "cat".toList], redirects := [(1, [.param "tmp".toList])] },
    { args := [plainText "mv".toList, plainText "-f".toList, [.param "tmp".toList],
        quotedText path] }]

theorem parse_editTokens : Shell.parse (editTokens path) = some (editCommands path) := by
  have htmp : "tmp=".toList = "tmp".toList ++ ['='] := by decide +kernel
  have hassign : parseCommand [.word (plainText "tmp=".toList ++ [.subst
      [plainWord "mktemp".toList, plainWord "/tmp/.vesta-edit.XXXXXX".toList]])] =
    some { assign := some ("tmp".toList, [.subst [plainWord "mktemp".toList,
      plainWord "/tmp/.vesta-edit.XXXXXX".toList]]) } := by
    have hsplit := @Shell.splitAssign_plainText "tmp".toList [] [.subst
      [plainWord "mktemp".toList, plainWord "/tmp/.vesta-edit.XXXXXX".toList]]
      (by decide +kernel) (by decide +kernel)
    have hword : plainText "tmp=".toList ++ [.subst [plainWord "mktemp".toList,
          plainWord "/tmp/.vesta-edit.XXXXXX".toList]] =
        plainText "tmp".toList ++ .char '=' false :: [.subst [plainWord "mktemp".toList,
          plainWord "/tmp/.vesta-edit.XXXXXX".toList]] := by
      rw [htmp]
      simp [plainText]
    rw [parseCommand, hword, hsplit]
    rfl
  have hcat : parseCommand [plainWord "cat".toList, .redirect 1, .word [.param "tmp".toList]] =
      some { args := [plainText "cat".toList], redirects := [(1, [.param "tmp".toList])] } := by
    rw [plainWord, parseCommand, Shell.splitAssign_eq_none (by decide +kernel)]
    rfl
  have hmv : parseCommand [plainWord "mv".toList, plainWord "-f".toList,
      .word [.param "tmp".toList], .word (quotedText path)] =
    some { args := [plainText "mv".toList, plainText "-f".toList, [.param "tmp".toList],
      quotedText path] } := by
    rw [plainWord, parseCommand, Shell.splitAssign_eq_none (by decide +kernel)]
    rfl
  exact parse_more rfl hassign (parse_more rfl hcat (parse_simple rfl hmv))

theorem runAll_editCommands :
    Shell.runAll (utilities env) (Shell.runTokens (utilities env) stdin (depth + 1)) stdin vars
        tree (editCommands path) =
      some (edit env path tree stdin) := by
  have hparse : Shell.parse [plainWord "mktemp".toList,
      plainWord "/tmp/.vesta-edit.XXXXXX".toList] =
    some [{ args := [plainText "mktemp".toList, plainText "/tmp/.vesta-edit.XXXXXX".toList] }] := by
    refine parse_simple rfl ?_
    rw [plainWord, parseCommand, Shell.splitAssign_eq_none (by decide +kernel)]
    rfl
  have hmktemp : Shell.runTokens (utilities env) stdin (depth + 1) [plainWord "mktemp".toList,
      plainWord "/tmp/.vesta-edit.XXXXXX".toList] vars tree =
    some (mktemp env tree [lit "mktemp", lit "/tmp/.vesta-edit.XXXXXX"]
      (lit "/tmp/.vesta-edit.XXXXXX")) := by
    rw [Shell.runTokens, hparse, Option.bind_some, ← invoke_mktemp env tree stdin]
    exact Shell.runAll_last (Shell.runCommand_invoke (by simp [Shell.expandAll, lit]))
  have hassign := @Shell.runCommand_assign _ (utilities env)
    (Shell.runTokens (utilities env) stdin (depth + 1)) stdin vars tree _ "tmp".toList _ hmktemp
  simp only [edit, editCommands]
  have hstderr := @stderr_mktemp env tree [lit "mktemp", lit "/tmp/.vesta-edit.XXXXXX"]
    (lit "/tmp/.vesta-edit.XXXXXX")
  generalize mktemp env tree [lit "mktemp", lit "/tmp/.vesta-edit.XXXXXX"]
    (lit "/tmp/.vesta-edit.XXXXXX") = made at hassign hstderr ⊢
  by_cases hstatus : made.status = 0
  · rw [Shell.runAll_next hassign hstatus rfl (hstderr hstatus), if_pos hstatus]
    have hcat := @Shell.runCommand_redirect _ (utilities env)
      (Shell.runTokens (utilities env) stdin (depth + 1)) stdin
      (Function.update vars "tmp".toList (chomp made.stdout)) made.state
      [plainText "cat".toList] [lit "cat"] 1 [.param "tmp".toList] (chomp made.stdout)
      (by simp [Shell.expandAll, lit]) (by simp)
    rw [invoke_catInput, Shell.redirectOutput, if_pos rfl] at hcat
    have hwrite : (utilities env).write (chomp made.stdout) stdin made.state =
        write env made.state (chomp made.stdout) stdin := rfl
    simp only [hwrite] at hcat
    cases hwritten : write env made.state (chomp made.stdout) stdin with
    | none =>
        rw [hwritten] at hcat
        exact Shell.runAll_stop hcat Nat.one_ne_zero
    | some written =>
        rw [hwritten] at hcat
        rw [Shell.runAll_next hcat rfl rfl rfl]
        simp only
        rw [← invoke_mv env written stdin]
        exact Shell.runAll_last (Shell.runCommand_invoke (by simp [Shell.expandAll, lit]))
  · rw [Shell.runAll_stop hassign hstatus, if_neg hstatus]

theorem sh_writeCommand :
    sh (utilities env) (writeCommand path) stdin tree =
      some (guarded env path tree (edit env path tree stdin)) := by
  have hne : writeCommand path ≠ [] := by simp [writeCommand, shellEscape, quote]
  obtain ⟨depth, hdepth⟩ := exists_length_succ hne
  have htokens : Shell.lex (writeCommand path) =
      some (guardTokens path ++ plainWord "]".toList :: .andIf :: editTokens path) :=
    lex_writeCommand path
  rw [sh, htokens, Option.bind_some, hdepth, Shell.runTokens,
    parse_guardTokens path (parse_editTokens path), Option.bind_some]
  exact runAll_guardCommands env path fun vars => runAll_editCommands env path

end Run

end FileApi
end Vestad
end Vesta
