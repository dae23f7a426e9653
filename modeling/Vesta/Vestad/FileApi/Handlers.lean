import Vesta.Vestad.Docker.Names
import Vesta.Vestad.FileApi.Commands
import Vesta.Vestad.Reconcile

/-!
# The handlers of the file API

A request is checked by the text of its path, the constitution goes to the file on the host,
and every other path to the commands that the shell of the container runs.
-/

namespace Vesta
namespace Vestad
namespace FileApi

open Lib
open Lib.FileTree
open Lib.Shell (Output sh)
open Reconcile (mountDests constitutionMountDest)

/-! ## Paths -/

def fileSizeLimit : Nat := 2 * 1024 * 1024

def sensitivePaths : List Text :=
  ["/root/agent/data/events.db".toList, "/root/agent/data/session_id".toList,
    "/root/agent/data/config.json".toList, "/root/.claude/.credentials.json".toList,
    "/run/vestad-env".toList]

def sensitivePathPrefixes : List Text := ["/root/agent/data/claude-code-proxy".toList]

/-- A path or one below it. -/
def isUnder (lead p : Text) : Bool := p == lead || (lead ++ ['/']).isPrefixOf p

def isSensitivePath (p : Text) : Bool :=
  sensitivePaths.contains p || sensitivePathPrefixes.any fun lead => isUnder lead p

/-- `str::contains` -/
def contains (part p : Text) : Bool := p.tails.any part.isPrefixOf

structure ErrResponse where
  status : Nat
  message : Text
  size : Option Nat := none
  limit : Option Nat := none
deriving DecidableEq

def errResponse (status : Nat) (message : String) : ErrResponse where
  status := status
  message := message.toList

def validateFilePath (p : Text) : Except ErrResponse Unit :=
  if !"/root/".toList.isPrefixOf p || contains "/../".toList p || p.contains (Char.ofNat 0) ||
      "/..".toList.isSuffixOf p || p == "/root".toList then
    .error (errResponse 400 "invalid path")
  else .ok ()

def isReadonlyPath (p : Text) : Bool :=
  (mountDests.any fun lead => isUnder lead p) || isSensitivePath p

/-! ## What `stat` prints -/

/-- Split at the first space. -/
def splitOnce (line : Text) : Text × Option Text :=
  (line.takeWhile (· != ' '), (line.dropWhile (· != ' ')).tail?)

/-- `from_str_radix`, for a radix of at most ten -/
def parseUnsigned (radix bound : Nat) (word : Text) : Option Nat :=
  let digits := (stripPrefix ['+'] word).getD word
  if digits ≠ [] ∧ (digits.all fun c => c.isDigit && decide (c.toNat - '0'.toNat < radix)) then
    let value := Nat.ofDigitChars radix digits 0
    if value < bound then some value else none
  else none

structure Stat where
  mode : Nat
  size : Nat
  isDir : Bool
deriving DecidableEq

def trimmed (bytes : Bytes) : Text := trimMatches isWhitespace ((fromUtf8 bytes).getD [])

def parseStat (stdout : Bytes) : Stat :=
  let (modeStr, rest) := splitOnce (trimmed stdout)
  let (sizeStr, kind) := ((rest.map splitOnce).getD ("0".toList, none))
  { mode := (parseUnsigned 8 (2 ^ 32) modeStr).getD 0
    size := (parseUnsigned 10 (2 ^ 64) sizeStr).getD 0
    isDir := contains "directory".toList (kind.getD []) }

/-! ## Handlers -/

/-- An agent: its container's environment, the checks before a request reaches the container,
and the error of the file on the host that holds its constitution, if there is one. -/
structure Agent where
  environment : Environment
  validName : Except ErrResponse Unit
  running : Except ErrResponse Unit
  constitutionError : Option Text

/-- The files of an agent. -/
structure World where
  tree : Tree
  constitution : Text

/-- The content of a file as the response carries it. -/
inductive Content
  | utf8 (text : Text)
  | base64 (bytes : Bytes)

def Content.bytes : Content → Bytes
  | .utf8 text => Lib.utf8 text
  | .base64 bytes => bytes

def contentOf (bytes : Bytes) : Content :=
  match fromUtf8 bytes with
  | some text => .utf8 text
  | none => .base64 bytes

structure FileRead where
  path : Text
  content : Content
  isReadonly : Bool
  mode : Nat
  size : Nat

section Handlers

variable (agent : Agent)

def dockerExecCapture (tree : Tree) (command : Text) (stdin : Bytes) :
    Except ErrResponse (Output Tree) :=
  match sh (utilities agent.environment) command stdin tree with
  | some out => .ok out
  | none => .error (errResponse 500 "")

/-- What a read does behind its checks. -/
def readFile (tree : Tree) (path : Text) : Except ErrResponse FileRead := do
  let stat ← dockerExecCapture agent tree (statCommand path) []
  if stat.status ≠ 0 then
    if trimmed stat.stderr = [] then
      .error (errResponse 404 "file not found or resolves through a symlink")
    else .error ⟨404, "stat failed: ".toList ++ trimmed stat.stderr, none, none⟩
  else
    let line := parseStat stat.stdout
    if line.isDir then .error (errResponse 400 "path is a directory")
    else if fileSizeLimit < line.size then
      .error ⟨413, "file too large".toList, some line.size, some fileSizeLimit⟩
    else
      let cat ← dockerExecCapture agent tree (catCommand path) []
      if cat.status ≠ 0 then
        .error ⟨500, "read failed: ".toList ++ trimmed cat.stderr, none, none⟩
      else
        .ok { path := path
              content := contentOf cat.stdout
              isReadonly := isReadonlyPath path || line.mode &&& 0o200 == 0
              mode := line.mode
              size := line.size }

def readFileHandler (world : World) (path : Text) : Except ErrResponse FileRead := do
  agent.validName
  validateFilePath path
  if isSensitivePath path then .error (errResponse 403 "file is not readable")
  else
    agent.running
    if path = constitutionMountDest then
      match agent.constitutionError with
      | some error => .error ⟨500, error, none, none⟩
      | none =>
          .ok { path := path
                content := .utf8 world.constitution
                isReadonly := false
                mode := 0o644
                size := (utf8 world.constitution).length }
    else readFile agent world.tree path

/-- What a write does behind its checks. -/
def writeFile (tree : Tree) (path content : Text) : Except ErrResponse Unit × Tree :=
  match dockerExecCapture agent tree (writeCommand path) (utf8 content) with
  | .error error => (.error error, tree)
  | .ok out =>
      if out.status ≠ 0 then
        if contains "Read-only file system".toList (trimmed out.stderr) then
          (.error (errResponse 403 "file is on a read-only filesystem"), out.state)
        else
          (.error ⟨500, "write failed: ".toList ++ trimmed out.stderr, none, none⟩, out.state)
      else (.ok (), out.state)

def writeFileHandler (world : World) (path content : Text) : Except ErrResponse Unit × World :=
  match (do agent.validName; validateFilePath path; agent.running) with
  | .error error => (.error error, world)
  | .ok () =>
      if path = constitutionMountDest then
        match agent.constitutionError with
        | some error => (.error ⟨500, error, none, none⟩, world)
        | none => (.ok (), { world with constitution := content })
      else if isReadonlyPath path then (.error (errResponse 403 "file is read-only"), world)
      else
        let (result, tree) := writeFile agent world.tree path content
        (result, { world with tree := tree })

end Handlers

/-! ## What the checks of a path say of an entry -/

/-- An entry that may be read. -/
structure Readable (loc : Location) : Prop where
  under : location (lit "/root") <+: loc
  below : loc ≠ location (lit "/root")
  notSensitive : ∀ p ∈ sensitivePaths, loc ≠ location (utf8 p)
  notBelow : ∀ p ∈ sensitivePathPrefixes, ¬ location (utf8 p) <+: loc

/-- An entry that may be written. -/
structure Writable (loc : Location) : Prop extends Readable loc where
  notMounted : ∀ p ∈ mountDests, ¬ location (utf8 p) <+: loc

section Guards

variable {path : Text}
variable {loc : Location}

theorem ne_nil_of_text
    (hvalid : validateFilePath path = .ok ())
    (htext : text loc = utf8 path) :
    loc ≠ [] := by
  rintro rfl
  have hroot : utf8 path = utf8 ['/'] := htext.symm
  rw [utf8_injective hroot] at hvalid
  exact absurd hvalid (by decide +kernel)

theorem spell_of_text
    (hvalid : validateFilePath path = .ok ())
    (htext : text loc = utf8 path) :
    spell loc = utf8 path := by
  rw [← htext, text_of_ne_nil (ne_nil_of_text hvalid htext)]

/-- What lies at or below an entry has a path at or below the path of the entry. -/
theorem isUnder_of_prefix
    {lead : Text}
    (hspell : spell (location (utf8 lead)) = utf8 lead)
    (hpath : spell loc = utf8 path)
    (h : location (utf8 lead) <+: loc) :
    isUnder lead path = true := by
  obtain ⟨rest, rfl⟩ := h
  rw [spell_append, hspell] at hpath
  rw [isUnder, Bool.or_eq_true]
  cases rest with
  | nil =>
      left
      rw [spell, List.flatMap_nil, List.append_nil] at hpath
      exact beq_iff_eq.2 (utf8_injective hpath.symm)
  | cons name rest =>
      right
      rw [List.isPrefixOf_iff_prefix]
      apply prefix_of_utf8_prefix
      refine ⟨name.val ++ spell rest, ?_⟩
      rw [← hpath, utf8_append]
      simp [spell, utf8, slash, String.utf8EncodeChar]

theorem spell_location_sensitivePaths :
    ∀ p ∈ sensitivePaths, spell (location (utf8 p)) = utf8 p := by
  decide +kernel

theorem spell_location_prefixes :
    ∀ p ∈ sensitivePathPrefixes, spell (location (utf8 p)) = utf8 p := by
  decide +kernel

theorem spell_location_mountDests :
    ∀ p ∈ mountDests, spell (location (utf8 p)) = utf8 p := by
  decide +kernel

theorem readable_of_text
    (hvalid : validateFilePath path = .ok ())
    (hsensitive : isSensitivePath path = false)
    (htext : text loc = utf8 path) :
    Readable loc := by
  have hspell := spell_of_text hvalid htext
  rw [isSensitivePath, Bool.or_eq_false_iff] at hsensitive
  obtain ⟨rest, hrest⟩ : ∃ rest, "/root/".toList ++ rest = path := by
    rw [validateFilePath] at hvalid
    split at hvalid
    · cases hvalid
    · rename_i hchecks
      simp only [Bool.or_eq_true, not_or, Bool.not_eq_true', Bool.not_eq_false] at hchecks
      exact List.isPrefixOf_iff_prefix.1 hchecks.1.1.1.1
  have hnames : [] :: loc.map Subtype.val = components (lit "/root") ++ components (utf8 rest) := by
    have hlead : utf8 "/root/".toList = lit "/root" ++ [slash] := by decide +kernel
    rw [← components_spell, hspell, ← hrest, utf8_append, hlead, List.append_assoc,
      List.singleton_append, components_append_slash]
  have hroot : components (lit "/root") = [[], lit "root"] := by decide +kernel
  have hlocation : location (lit "/root") = [⟨lit "root", by decide +kernel⟩] := by decide +kernel
  rw [hroot] at hnames
  obtain ⟨-, hnames⟩ := List.cons.inj hnames
  cases loc with
  | nil => cases hnames
  | cons first loc =>
      obtain ⟨hfirst, hmore⟩ := List.cons.inj hnames
      constructor
      · rw [hlocation]
        exact ⟨loc, by rw [List.singleton_append]; congr 1; exact Subtype.ext hfirst.symm⟩
      · rw [hlocation]
        intro heq
        obtain ⟨-, hnil⟩ := List.cons.inj heq
        rw [hnil] at hmore
        exact List.splitOn_ne_nil _ _ hmore.symm
      · rintro p hp heq
        rw [heq, spell_location_sensitivePaths p hp] at hspell
        rw [← utf8_injective hspell] at hsensitive
        simp [hp] at hsensitive
      · intro p hp hbelow
        have hunder := isUnder_of_prefix (spell_location_prefixes p hp) hspell hbelow
        exact absurd hunder (by simpa using List.any_eq_false.1 hsensitive.2 p hp)

theorem writable_of_text
    (hvalid : validateFilePath path = .ok ())
    (hreadonly : isReadonlyPath path = false)
    (htext : text loc = utf8 path) :
    Writable loc := by
  rw [isReadonlyPath, Bool.or_eq_false_iff] at hreadonly
  refine ⟨readable_of_text hvalid hreadonly.2 htext, fun p hp hbelow => ?_⟩
  have hunder := isUnder_of_prefix (spell_location_mountDests p hp)
    (spell_of_text hvalid htext) hbelow
  exact absurd hunder (by simpa using List.any_eq_false.1 hreadonly.1 p hp)

end Guards

end FileApi
end Vestad
end Vesta
