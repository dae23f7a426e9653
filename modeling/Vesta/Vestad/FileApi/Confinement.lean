import Vesta.Vestad.FileApi.Handlers

/-!
# What the file API reads and writes

A read should return the content of the entry whose canonical path is the requested one, and
a write replace it.  The test of the commands compares with the output of a command
substitution, which has no newlines at its end; so a path with a link to an entry whose
canonical path goes on with newlines passes, and a directory passes that a write moves its
file into.
-/

namespace Vesta
namespace Vestad
namespace FileApi

open Lib
open Lib.FileTree
open Lib.Shell (Output sh chomp quotedText)
open Reconcile (constitutionMountDest)

/-! ## Confinement -/

section Definitions

variable (agent : Agent)
variable (world : World)
variable (path content : Text)

/-- The entry that a request is for: the one whose canonical path is the requested one. -/
def Requested (loc : Location) : Prop :=
  resolve world.tree agent.environment.realpathLinks (utf8 path) = some loc ∧
    text loc = utf8 path

/-- A read returns the content of the requested entry, which may be read. -/
def ReadConfined : Prop :=
  ∀ response, readFileHandler agent world path = .ok response →
    if path = constitutionMountDest then response.content.bytes = utf8 world.constitution
    else ∃ loc mode, Requested agent world path loc ∧ Readable loc ∧
      world.tree loc = some (.file mode response.content.bytes)

/-- A write replaces the requested entry, which may be written, and a failed one no entry. -/
def WriteConfined : Prop :=
  let (result, after) := writeFileHandler agent world path content
  if path = constitutionMountDest then
    after.tree = world.tree ∧
      after.constitution = if result.isOk then content else world.constitution
  else
    after.constitution = world.constitution ∧
      if result.isOk then
        ∃ loc mode old, Requested agent world path loc ∧ Writable loc ∧
          world.tree loc = some (.file mode old) ∧
          after.tree = set world.tree loc (.file 0o600 (utf8 content))
      else Grows world.tree after.tree

/-- The checks that a read passes before its commands. -/
structure ReadAdmitted : Prop where
  name : agent.validName = .ok ()
  valid : validateFilePath path = .ok ()
  notSensitive : isSensitivePath path = false
  running : agent.running = .ok ()
  other : path ≠ constitutionMountDest

structure WriteAdmitted : Prop where
  name : agent.validName = .ok ()
  valid : validateFilePath path = .ok ()
  running : agent.running = .ok ()
  other : path ≠ constitutionMountDest
  notReadonly : isReadonlyPath path = false

/-- The size that a read takes a node to have. -/
def parsedSize (node : Node) : Nat := if size node < 2 ^ 64 then size node else 0

/-- The file that an admitted path leads to, if it is small, is not one whose canonical path is
the requested one with newlines after it. -/
def ReadStraight : Prop :=
  ReadAdmitted agent path → ∀ loc mode content,
    resolve world.tree agent.environment.realpathLinks (utf8 path) = some loc →
    resolve world.tree agent.environment.openLinks (utf8 path) = some loc →
    world.tree loc = some (.file mode content) →
    (∀ named node, place world.tree agent.environment.openLinks (utf8 path) = some named →
      world.tree named = some node → parsedSize node ≤ fileSizeLimit) →
    chomp (text loc) = utf8 path → text loc = utf8 path

/-- The temporary file of a write. -/
def tempFile (env : Environment) : Bytes := tempPath env (lit "/tmp/.vesta-edit.XXXXXX")

/-- The temporary file can be made and moved to a location. -/
def Moves (env : Environment) (tree : Tree) (path content : Bytes) (target : Location) : Prop :=
  ∃ temp, place tree env.openLinks (tempFile env) = some temp ∧ tree temp = none ∧
    moveTarget env (set tree temp (.file 0o600 content)) (tempFile env) path = some target ∧
    isDir (set tree temp (.file 0o600 content)) target = false ∧ env.immovable target = false

/-- What an admitted path leads to, if a file can be moved there, has no canonical path with
newlines after the requested one and is no directory. -/
def WriteStraight : Prop :=
  WriteAdmitted agent path → ∀ loc target,
    resolve world.tree agent.environment.realpathLinks (utf8 path) = some loc →
    Moves agent.environment world.tree (utf8 path) (utf8 content) target →
    chomp (text loc) = utf8 path → text loc = utf8 path ∧ isDir world.tree loc = false

end Definitions

/-! ## The line of `stat` -/

section StatLine

theorem not_isWhitespace_of_isDigit
    {c : Char}
    (h : c.isDigit = true) :
    isWhitespace c = false := by
  simp only [Char.isDigit, Bool.and_eq_true, decide_eq_true_eq, UInt32.le_iff_toNat_le] at h
  have hlow : 48 ≤ c.toNat := h.1
  have hhigh : c.toNat ≤ 57 := h.2
  simp only [isWhitespace, Bool.or_eq_false_iff, Bool.and_eq_false_iff, decide_eq_false_iff_not,
    beq_eq_false_iff_ne]
  omega

theorem splitOnce_append
    {first rest : Text}
    (h : ' ' ∉ first) :
    splitOnce (first ++ ' ' :: rest) = (first, some rest) := by
  have hall : ∀ c ∈ first, (c != ' ') = true := by
    intro c hc
    simpa using fun heq : c = ' ' => h (heq ▸ hc)
  rw [splitOnce, List.takeWhile_append_of_pos hall, List.dropWhile_append_of_pos hall]
  simp

theorem parseUnsigned_toDigits
    {n bound : Nat} :
    parseUnsigned 10 bound (Nat.toDigits 10 n) = if n < bound then some n else none := by
  have hdigit : ∀ c ∈ Nat.toDigits 10 n, c.isDigit = true := fun c hc =>
    Nat.isDigit_of_mem_toDigits (by decide) (by decide) hc
  have hne : Nat.toDigits 10 n ≠ [] := by
    intro hnil
    have hpos := Nat.length_toDigits_pos (b := 10) (n := n)
    simp [hnil] at hpos
  have hsign : stripPrefix ['+'] (Nat.toDigits 10 n) = none := by
    cases hdigits : Nat.toDigits 10 n with
    | nil => exact absurd hdigits hne
    | cons c cs =>
        have hc := hdigit c (by simp [hdigits])
        have hplus : '+' ≠ c := by
          rintro rfl
          exact absurd hc (by decide)
        simp [stripPrefix, hplus]
  have hall : ((Nat.toDigits 10 n).all fun c =>
      c.isDigit && decide (c.toNat - '0'.toNat < 10)) = true := by
    refine List.all_eq_true.2 fun c hc => ?_
    have hisDigit := hdigit c hc
    rw [hisDigit, Bool.true_and, decide_eq_true_eq]
    simp only [Char.isDigit, Bool.and_eq_true, decide_eq_true_eq, UInt32.le_iff_toNat_le] at hisDigit
    have hnine : c.toNat ≤ 57 := hisDigit.2
    have hzero : '0'.toNat = 48 := rfl
    omega
  rw [parseUnsigned, hsign]
  simp only [Option.getD_none, ne_eq, hne, not_false_eq_true, hall, and_self, if_true,
    Nat.ofDigitChars_ten_toDigits]

theorem not_space_of_mem_toDigits
    {radix n : Nat}
    (hpos : 0 < radix)
    (hle : radix ≤ 10) :
    ' ' ∉ Nat.toDigits radix n := by
  intro h
  have hdigit := Nat.isDigit_of_mem_toDigits hpos hle h
  exact absurd hdigit (by decide)

/-- A line is what is left of its bytes, a newline behind it. -/
theorem trimmed_newline
    {line : Text}
    (hhead : ∀ c ∈ line.head?, isWhitespace c = false)
    (hlast : ∀ c ∈ line.getLast?, isWhitespace c = false) :
    trimmed (utf8 line ++ [10]) = line := by
  have hbytes : utf8 line ++ [10] = utf8 (line ++ ['\n']) := by
    rw [utf8_append]
    rfl
  rw [trimmed, hbytes, fromUtf8_utf8, Option.getD_some, trimMatches]
  cases line with
  | nil => decide
  | cons c line =>
      have hc : isWhitespace c = false := hhead c rfl
      obtain ⟨init, last, hconcat⟩ : ∃ init last, c :: line = init ++ [last] := by
        rcases List.eq_nil_or_concat (c :: line) with hnil | ⟨init, last, heq⟩
        · cases hnil
        · exact ⟨init, last, heq.trans List.concat_eq_append⟩
      have hend : isWhitespace last = false := hlast last (by rw [hconcat]; simp)
      have hnewline : isWhitespace '\n' = true := by decide
      rw [List.cons_append, List.dropWhile_cons_of_neg (by simp [hc]), ← List.cons_append, hconcat,
        trimEndMatches]
      simp [hnewline, hend]

/-- A kind ends with a letter. -/
theorem kind_getLast (node : Node) :
    ∃ c, (kind node).getLast? = some c ∧ isWhitespace c = false := by
  have hempty : emptyFileKind.getLast? = some 'e' := by decide +kernel
  have hfile : fileKind.getLast? = some 'e' := by decide +kernel
  have hdirectory : directoryKind.getLast? = some 'y' := by decide +kernel
  have hlink : linkKind.getLast? = some 'k' := by decide +kernel
  cases node with
  | file mode content =>
      rw [kind]
      split
      · exact ⟨'e', hempty, by decide⟩
      · exact ⟨'e', hfile, by decide⟩
  | dir mode size => exact ⟨'y', hdirectory, by decide⟩
  | link target => exact ⟨'k', hlink, by decide⟩

theorem kind_ends (node : Node) :
    kind node ≠ [] ∧ ∀ c ∈ (kind node).getLast?, isWhitespace c = false := by
  obtain ⟨last, hlast, hletter⟩ := kind_getLast node
  constructor
  · rintro hnil
    simp [hnil] at hlast
  · simp [hlast, hletter]

theorem contains_directory (node : Node) :
    contains "directory".toList (kind node) = true ↔ ∃ mode size, node = .dir mode size := by
  have hempty : contains "directory".toList emptyFileKind = false := by decide +kernel
  have hfile : contains "directory".toList fileKind = false := by decide +kernel
  have hlink : contains "directory".toList linkKind = false := by decide +kernel
  have hdirectory : contains "directory".toList directoryKind = true := by decide +kernel
  cases node with
  | file mode content =>
      have hnot : contains "directory".toList (kind (.file mode content)) = false := by
        rw [kind]
        split
        · exact hempty
        · exact hfile
      exact iff_of_false (Bool.eq_false_iff.1 hnot) (by simp)
  | dir mode size => exact iff_of_true hdirectory ⟨mode, size, rfl⟩
  | link target => exact iff_of_false (Bool.eq_false_iff.1 hlink) (by simp)

/-- What a read takes from the line of a node. -/
theorem parseStat_statLine (node : Node) :
    (parseStat (utf8 (statLine node) ++ [10])).size = parsedSize node ∧
      (parseStat (utf8 (statLine node) ++ [10])).isDir =
        contains "directory".toList (kind node) := by
  have htrim : trimmed (utf8 (statLine node) ++ [10]) = statLine node := by
    apply trimmed_newline
    · intro c hc
      have hne : Nat.toDigits 8 (modeBits node) ≠ [] := by
        intro hnil
        have hpos := Nat.length_toDigits_pos (b := 8) (n := modeBits node)
        simp [hnil] at hpos
      rw [statLine, List.head?_append_of_ne_nil _ hne] at hc
      have hdigit := Nat.isDigit_of_mem_toDigits (by decide) (by decide) (List.mem_of_head? hc)
      exact not_isWhitespace_of_isDigit hdigit
    · intro c hc
      obtain ⟨hne, hlast⟩ := kind_ends node
      rw [statLine, List.getLast?_append_of_ne_nil _ (by simp), List.getLast?_cons_of_ne_nil (by simp),
        List.getLast?_append_of_ne_nil _ (by simp), List.getLast?_cons_of_ne_nil hne] at hc
      exact hlast c hc
  have hmode : ' ' ∉ Nat.toDigits 8 (modeBits node) :=
    not_space_of_mem_toDigits (by decide) (by decide)
  have hsize : ' ' ∉ Nat.toDigits 10 (size node) :=
    not_space_of_mem_toDigits (by decide) (by decide)
  simp only [parseStat, htrim]
  rw [statLine, splitOnce_append hmode]
  simp only [Option.map_some, Option.getD_some, splitOnce_append hsize, parseUnsigned_toDigits,
    parsedSize, and_true]
  split <;> rfl

end StatLine

/-! ## Reads -/

section Read

variable {agent : Agent}
variable {world : World}
variable {tree : Tree}
variable {path : Text}
variable {loc : Location}

theorem guarded_of
    {env : Environment} {out : Output Tree}
    (hresolve : resolve tree env.realpathLinks (utf8 path) = some loc)
    (hsame : chomp (text loc) = utf8 path) :
    guarded env path tree out = out := by
  simp [guarded, hresolve, hsame]

/-- A command that succeeds behind the test has passed it. -/
theorem exists_of_guarded
    {env : Environment} {out : Output Tree}
    (h : (guarded env path tree out).status = 0) :
    ∃ loc, resolve tree env.realpathLinks (utf8 path) = some loc ∧
      chomp (text loc) = utf8 path := by
  rw [guarded] at h
  split at h
  · rename_i loc hresolve
    split at h
    · rename_i hsame
      exact ⟨loc, hresolve, hsame⟩
    · exact absurd h Nat.one_ne_zero
  · exact absurd h Nat.one_ne_zero

theorem exec_stat :
    dockerExecCapture agent tree (statCommand path) [] =
      .ok (guarded agent.environment path tree (stat agent.environment tree
        [lit "stat", lit "-c", utf8 statFormat, utf8 path] (utf8 path))) := by
  rw [dockerExecCapture, sh_statCommand]

theorem exec_cat :
    dockerExecCapture agent tree (catCommand path) [] =
      .ok (cat agent.environment tree [lit "cat", utf8 path] (utf8 path)) := by
  rw [dockerExecCapture, sh_catCommand]

theorem bytes_contentOf (bytes : Bytes) : (contentOf bytes).bytes = bytes := by
  rw [contentOf]
  split
  · rename_i text htext
    exact utf8_of_fromUtf8 htext
  · rfl

/-- What a read returns is the content of the small file that the path leads to. -/
theorem readFile_ok
    {response : FileRead}
    (h : readFile agent tree path = .ok response) :
    ∃ loc mode, resolve tree agent.environment.realpathLinks (utf8 path) = some loc ∧
      resolve tree agent.environment.openLinks (utf8 path) = some loc ∧
      tree loc = some (.file mode response.content.bytes) ∧
      (∀ named node, place tree agent.environment.openLinks (utf8 path) = some named →
        tree named = some node → parsedSize node ≤ fileSizeLimit) ∧
      chomp (text loc) = utf8 path := by
  rw [readFile, exec_stat] at h
  simp only [bind, Except.bind] at h
  split at h
  · split at h <;> cases h
  · rename_i hstatus
    obtain ⟨loc, hresolve, hsame⟩ := exists_of_guarded (not_not.1 hstatus)
    rw [guarded_of hresolve hsame] at h
    split at h
    · cases h
    · split at h
      · cases h
      · rename_i hlimit
        rw [exec_cat] at h
        simp only at h
        split at h
        · cases h
        · rename_i hcat
          obtain rfl := Except.ok.inj h
          rw [not_not, cat] at hcat
          split at hcat
          · rename_i mode content hfile
            obtain ⟨other, hopen, hnode⟩ := Option.bind_eq_some_iff.1 hfile
            obtain rfl := resolve_unique hresolve hopen
            refine ⟨loc, mode, hresolve, hopen, ?_, fun named node hplace hnamed => ?_, hsame⟩
            · simp only [bytes_contentOf, cat, hopen, Option.bind_some, hnode]
            · have hstat : stat agent.environment tree
                  [lit "stat", lit "-c", utf8 statFormat, utf8 path] (utf8 path) =
                  ⟨0, utf8 (statLine node) ++ [10], [], tree⟩ := by
                simp [stat, hplace, hnamed]
              rw [hstat, (parseStat_statLine node).1] at hlimit
              exact Nat.not_lt.1 hlimit
          · exact absurd hcat Nat.one_ne_zero

/-- A read succeeds when the path passes the test and leads to a small file. -/
theorem exists_readFile
    {mode : Nat} {content : Bytes}
    (hrealpath : resolve tree agent.environment.realpathLinks (utf8 path) = some loc)
    (hopen : resolve tree agent.environment.openLinks (utf8 path) = some loc)
    (hnode : tree loc = some (.file mode content))
    (hsmall : ∀ named node, place tree agent.environment.openLinks (utf8 path) = some named →
      tree named = some node → parsedSize node ≤ fileSizeLimit)
    (hsame : chomp (text loc) = utf8 path) :
    ∃ response, readFile agent tree path = .ok response ∧ response.content.bytes = content := by
  obtain ⟨named, found, hplace, hfound, hfile⟩ := place_of_resolve hopen hnode
  have hstat : stat agent.environment tree [lit "stat", lit "-c", utf8 statFormat, utf8 path]
      (utf8 path) = ⟨0, utf8 (statLine found) ++ [10], [], tree⟩ := by
    simp [stat, hplace, hfound]
  have hcat : cat agent.environment tree [lit "cat", utf8 path] (utf8 path) =
      ⟨0, content, [], tree⟩ := by
    simp [cat, hopen, hnode]
  have hnotdir : contains "directory".toList (kind found) = false := by
    rw [Bool.eq_false_iff, ne_eq, contains_directory]
    rintro ⟨mode', size', rfl⟩
    rcases hfile with rfl | ⟨target, htarget⟩
    · rw [hnode] at hfound
      cases hfound
    · cases htarget
  have hle := hsmall named found hplace hfound
  obtain ⟨hsize, hdir⟩ := parseStat_statLine found
  rw [readFile, exec_stat, guarded_of hrealpath hsame, hstat]
  simp only [bind, Except.bind]
  rw [if_neg (by simp), hdir, hnotdir, hsize, exec_cat, hcat]
  simp only [Bool.false_eq_true, if_false, Nat.not_lt.2 hle, ne_eq, not_true_eq_false]
  exact ⟨_, rfl, bytes_contentOf content⟩

theorem readFileHandler_of_admitted
    (h : ReadAdmitted agent path) :
    readFileHandler agent world path = readFile agent world.tree path := by
  simp [readFileHandler, bind, Except.bind, h.name, h.valid, h.notSensitive, h.running, h.other]

/-- A read that succeeds is of the constitution or was admitted. -/
theorem admitted_of_read
    {response : FileRead}
    (h : readFileHandler agent world path = .ok response)
    (hother : path ≠ constitutionMountDest) :
    ReadAdmitted agent path := by
  rw [readFileHandler] at h
  simp only [bind, Except.bind] at h
  cases hname : agent.validName with
  | error error => simp [hname] at h
  | ok _ =>
      cases hvalid : validateFilePath path with
      | error error => simp [hname, hvalid] at h
      | ok _ =>
          cases hrunning : agent.running with
          | error error =>
              simp only [hname, hvalid, hrunning] at h
              split at h <;> cases h
          | ok _ =>
              cases hsensitive : isSensitivePath path with
              | true => simp [hname, hvalid, hsensitive] at h
              | false => exact ⟨hname, hvalid, hsensitive, hrunning, hother⟩

theorem bytes_constitution
    {response : FileRead}
    (h : readFileHandler agent world constitutionMountDest = .ok response) :
    response.content.bytes = utf8 world.constitution := by
  rw [readFileHandler] at h
  simp only [bind, Except.bind] at h
  split at h
  · cases h
  · split at h
    · cases h
    · split at h
      · cases h
      · split at h
        · cases h
        · simp only [if_true] at h
          split at h
          · cases h
          · obtain rfl := Except.ok.inj h
            rfl

theorem readConfined_iff :
    ReadConfined agent world path ↔ ReadStraight agent world path := by
  constructor
  · intro hconfined hadmitted loc mode content hrealpath hopen hnode hsmall hsame
    obtain ⟨response, hok, -⟩ := exists_readFile hrealpath hopen hnode hsmall hsame
    have hentry := hconfined response ((readFileHandler_of_admitted hadmitted).trans hok)
    rw [if_neg hadmitted.other] at hentry
    obtain ⟨other, -, ⟨hresolve, htext⟩, -⟩ := hentry
    rwa [Option.some.inj (hrealpath.symm.trans hresolve)]
  · intro hstraight response hok
    split
    · rename_i hconstitution
      rw [hconstitution] at hok
      exact bytes_constitution hok
    · rename_i hother
      have hadmitted := admitted_of_read hok hother
      rw [readFileHandler_of_admitted hadmitted] at hok
      obtain ⟨loc, mode, hrealpath, hopen, hnode, hsmall, hsame⟩ := readFile_ok hok
      have htext := hstraight hadmitted loc mode _ hrealpath hopen hnode hsmall hsame
      exact ⟨loc, mode, ⟨hrealpath, htext⟩,
        readable_of_text hadmitted.valid hadmitted.notSensitive htext, hnode⟩

end Read

/-! ## Writes -/

section Write

variable {agent : Agent}
variable {world : World}
variable {env : Environment}
variable {tree : Tree}
variable {path content : Bytes}
variable {temp loc : Location}

theorem tempFile_eq : tempFile env = lit "/tmp/.vesta-edit." ++ env.suffix.val := by
  have htake : (lit "/tmp/.vesta-edit.XXXXXX").take
      ((lit "/tmp/.vesta-edit.XXXXXX").length - 6) = lit "/tmp/.vesta-edit." := by
    decide +kernel
  rw [tempFile, tempPath, htake]

theorem chomp_tempFile : chomp (tempFile env ++ [10]) = tempFile env := by
  have hlast : ∀ b ∈ (tempFile env).getLast?, b ≠ 10 := by
    intro b hb
    rw [tempFile_eq, List.getLast?_append] at hb
    cases hsuffix : env.suffix.val.getLast? with
    | none =>
        rw [hsuffix, Option.none_or] at hb
        have hdot : ∀ b ∈ (lit "/tmp/.vesta-edit.").getLast?, b ≠ 10 := by decide +kernel
        exact hdot b hb
    | some last =>
        rw [hsuffix, Option.some_or] at hb
        obtain rfl := Option.some.inj hb
        exact (env.suffix.property _ (List.mem_of_getLast? hsuffix)).2
  rw [chomp_newline, chomp]
  obtain ⟨init, last, hconcat⟩ : ∃ init last, tempFile env = init ++ [last] := by
    rcases List.eq_nil_or_concat (tempFile env) with hnil | ⟨init, last, heq⟩
    · have hne : lit "/tmp/.vesta-edit." ≠ [] := by decide +kernel
      rw [tempFile_eq] at hnil
      exact absurd (List.append_eq_nil_iff.1 hnil).1 hne
    · exact ⟨init, last, heq.trans List.concat_eq_append⟩
  have hb : last ≠ 10 := hlast last (by rw [hconcat]; simp)
  rw [hconcat]
  simp [hb]

theorem tempFile_ne_null : tempFile env ≠ lit "/dev/null" := by
  intro h
  have hfour := congrArg (List.take 4) (tempFile_eq.symm.trans h)
  rw [List.take_append_of_le_length (by decide +kernel)] at hfour
  exact absurd hfour (by decide +kernel)

/-- With the temporary file made and written, the rest of a write is its move. -/
theorem edit_of_temp
    {path : Text}
    (hplace : place tree env.openLinks (tempFile env) = some temp)
    (hfree : tree temp = none) :
    edit env path tree content =
      mv env (set tree temp (.file 0o600 content))
        [lit "mv", lit "-f", tempFile env, utf8 path] (tempFile env) (utf8 path) := by
  have hmade : mktemp env tree [lit "mktemp", lit "/tmp/.vesta-edit.XXXXXX"]
      (lit "/tmp/.vesta-edit.XXXXXX") =
      ⟨0, tempFile env ++ [10], [], set tree temp (.file 0o600 [])⟩ := by
    simp only [tempFile] at hplace
    simp only [mktemp, hplace, hfree, tempFile]
  have hgrown : place (set tree temp (.file 0o600 [])) env.openLinks (tempFile env) = some temp :=
    (grows_set hfree).place hplace
  have hwritten : write env (set tree temp (.file 0o600 [])) (tempFile env) content =
      some (set tree temp (.file 0o600 content)) := by
    rw [write, if_neg tempFile_ne_null, hgrown]
    simp only [set_self, set_set]
  simp only [edit, hmade, if_true, chomp_tempFile, hwritten]

theorem edit_without_temp
    {path : Text}
    (h : ¬ ∃ temp, place tree env.openLinks (tempFile env) = some temp ∧ tree temp = none) :
    (edit env path tree content).status ≠ 0 ∧ (edit env path tree content).state = tree := by
  have hmade : mktemp env tree [lit "mktemp", lit "/tmp/.vesta-edit.XXXXXX"]
      (lit "/tmp/.vesta-edit.XXXXXX") =
      failed env tree [lit "mktemp", lit "/tmp/.vesta-edit.XXXXXX"] := by
    rw [mktemp]
    split
    · rename_i temp hplace
      split
      · rename_i hfree
        exact absurd ⟨temp, hplace, hfree⟩ h
      · rfl
    · rfl
  simp [edit, hmade, failed]

/-- A write gets its file to where it can be moved, or fails with every entry as it was. -/
theorem edit_cases
    (path : Text) :
    (∃ target, Moves env tree (utf8 path) content target ∧
        edit env path tree content = ⟨0, [], [], set tree target (.file 0o600 content)⟩) ∨
      (¬ ∃ target, Moves env tree (utf8 path) content target) ∧
        (edit env path tree content).status ≠ 0 ∧ Grows tree (edit env path tree content).state := by
  by_cases htemp : ∃ temp, place tree env.openLinks (tempFile env) = some temp ∧ tree temp = none
  · obtain ⟨temp, hplace, hfree⟩ := htemp
    have hgrows : Grows tree (set tree temp (.file 0o600 content)) := grows_set hfree
    rw [edit_of_temp hplace hfree, mv, hgrows.place hplace]
    cases htarget : moveTarget env (set tree temp (.file 0o600 content)) (tempFile env)
        (utf8 path) with
    | none =>
        refine .inr ⟨?_, Nat.one_ne_zero, hgrows⟩
        rintro ⟨target, other, hother, -, hmoved, -⟩
        obtain rfl := Option.some.inj (hplace.symm.trans hother)
        rw [htarget] at hmoved
        cases hmoved
    | some target =>
        simp only [set_self, remove_set hfree]
        split
        · rename_i hrefused
          refine .inr ⟨?_, Nat.one_ne_zero, hgrows⟩
          rintro ⟨target', other, hother, -, hmoved, hdir, himmovable⟩
          obtain rfl := Option.some.inj (hplace.symm.trans hother)
          obtain rfl := Option.some.inj (htarget.symm.trans hmoved)
          simp [hdir, himmovable] at hrefused
        · rename_i hallowed
          rw [Bool.not_eq_true, Bool.or_eq_false_iff] at hallowed
          exact .inl ⟨target, ⟨temp, hplace, hfree, htarget, hallowed.1, hallowed.2⟩, rfl⟩
  · have hfails : (edit env path tree content).status ≠ 0 ∧
        (edit env path tree content).state = tree := edit_without_temp htemp
    rw [hfails.2]
    refine .inr ⟨?_, hfails.1, fun _ _ h => h⟩
    rintro ⟨target, temp, hplace, hfree, -⟩
    exact htemp ⟨temp, hplace, hfree⟩

theorem Moves.unique
    {target other : Location}
    (h : Moves env tree path content target)
    (hother : Moves env tree path content other) :
    target = other := by
  obtain ⟨temp, hplace, -, hmoved, -⟩ := h
  obtain ⟨temp', hplace', -, hmoved', -⟩ := hother
  obtain rfl := Option.some.inj (hplace.symm.trans hplace')
  exact Option.some.inj (hmoved.symm.trans hmoved')

theorem edit_of_moves
    {path : Text} {target : Location}
    (h : Moves env tree (utf8 path) content target) :
    edit env path tree content = ⟨0, [], [], set tree target (.file 0o600 content)⟩ := by
  rcases @edit_cases env tree content path with ⟨other, hother, hedit⟩ | ⟨hstuck, -⟩
  · rw [h.unique hother, hedit]
  · exact absurd ⟨target, h⟩ hstuck

/-- A file whose canonical path is the target is replaced in its place. -/
theorem moveTarget_of_spell
    {source : Bytes}
    (hsolid : Solid tree loc)
    (hne : loc ≠ [])
    (hnode : tree loc ≠ none)
    (hdir : isDir tree loc = false)
    {grown : Tree}
    (hgrows : Grows tree grown) :
    moveTarget env grown source (spell loc) = some loc := by
  have hnotdir : isDir grown loc = false := by
    obtain ⟨node, hsome⟩ := Option.ne_none_iff_exists'.1 hnode
    rw [isDir, hsome] at hdir
    rw [isDir, hgrows loc node hsome]
    exact hdir
  rw [moveTarget, hgrows.resolve (hsolid.resolve_spell hne)]
  simp only [hnotdir, Bool.false_eq_true, if_false]
  exact hgrows.place (hsolid.place_spell hne)

end Write

section WriteHandler

variable {agent : Agent}
variable {world : World}
variable {path content : Text}

theorem writeFileHandler_of_admitted
    (h : WriteAdmitted agent path) :
    writeFileHandler agent world path content =
      ((writeFile agent world.tree path content).1,
        { world with tree := (writeFile agent world.tree path content).2 }) := by
  simp [writeFileHandler, bind, Except.bind, h.name, h.valid, h.running, h.other, h.notReadonly]

theorem writeFileHandler_of_refused
    (h : ¬ WriteAdmitted agent path)
    (hother : path ≠ constitutionMountDest) :
    ∃ error, writeFileHandler agent world path content = (.error error, world) := by
  rw [writeFileHandler]
  cases hname : agent.validName with
  | error error => exact ⟨error, by simp [bind, Except.bind]⟩
  | ok _ =>
      cases hvalid : validateFilePath path with
      | error error => exact ⟨error, by simp [bind, Except.bind]⟩
      | ok _ =>
          cases hrunning : agent.running with
          | error error => exact ⟨error, by simp [bind, Except.bind]⟩
          | ok _ =>
              cases hreadonly : isReadonlyPath path with
              | true =>
                  exact ⟨errResponse 403 "file is read-only", by simp [bind, Except.bind, hother]⟩
              | false => exact absurd ⟨hname, hvalid, hrunning, hother, hreadonly⟩ h

/-- A write whose commands go through. -/
theorem writeFile_done
    {tree after : Tree}
    (h : guarded agent.environment path tree
      (edit agent.environment path tree (utf8 content)) = ⟨0, [], [], after⟩) :
    writeFile agent tree path content = (.ok (), after) := by
  rw [writeFile, dockerExecCapture, sh_writeCommand, h]
  simp

theorem writeFile_failed
    {tree : Tree}
    (h : (guarded agent.environment path tree
      (edit agent.environment path tree (utf8 content))).status ≠ 0) :
    ∃ error, writeFile agent tree path content = (.error error, (guarded agent.environment path
      tree (edit agent.environment path tree (utf8 content))).state) := by
  rw [writeFile, dockerExecCapture, sh_writeCommand]
  simp only [h, not_false_eq_true, ne_eq, if_true]
  split
  · exact ⟨_, rfl⟩
  · exact ⟨_, rfl⟩

theorem writeConfined_constitution : WriteConfined agent world constitutionMountDest content := by
  rw [WriteConfined, writeFileHandler]
  cases hchecks : (do agent.validName; validateFilePath constitutionMountDest; agent.running :
      Except ErrResponse Unit) with
  | error error => simp [Except.isOk, Except.toBool]
  | ok _ =>
      cases herror : agent.constitutionError with
      | none => simp [Except.isOk, Except.toBool]
      | some error => simp [Except.isOk, Except.toBool]

/-- A write that fails replaces no entry. -/
theorem writeConfined_of_failed
    {error : ErrResponse} {tree : Tree}
    (hother : path ≠ constitutionMountDest)
    (hwrite : writeFileHandler agent world path content =
      (.error error, { world with tree := tree }))
    (hgrows : Grows world.tree tree) :
    WriteConfined agent world path content := by
  rw [WriteConfined, hwrite]
  simp [hother, Except.isOk, Except.toBool, hgrows]

/-- A write whose file gets to a target is confined when that is the requested entry. -/
theorem writeConfined_of_moved
    {target : Location}
    (hadmitted : WriteAdmitted agent path)
    (hwrite : writeFile agent world.tree path content =
      (.ok (), set world.tree target (.file 0o600 (utf8 content)))) :
    WriteConfined agent world path content ↔
      ∃ loc mode old, Requested agent world path loc ∧ Writable loc ∧
        world.tree loc = some (.file mode old) ∧
        set world.tree target (.file 0o600 (utf8 content)) =
          set world.tree loc (.file 0o600 (utf8 content)) := by
  rw [WriteConfined, writeFileHandler_of_admitted hadmitted, hwrite]
  simp [hadmitted.other, Except.isOk, Except.toBool]

theorem exists_file_of_solid
    {tree : Tree} {loc : Location}
    (hsolid : Solid tree loc)
    (hne : loc ≠ [])
    (hdir : isDir tree loc = false) :
    ∃ mode old, tree loc = some (.file mode old) := by
  rcases hsolid.here with hnil | ⟨node, hnode, hlink⟩
  · exact absurd hnil hne
  · cases node with
    | file mode old => exact ⟨mode, old, hnode⟩
    | dir mode size => simp [isDir, hnode] at hdir
    | link target => exact absurd rfl (hlink target)

theorem writeConfined_iff :
    WriteConfined agent world path content ↔ WriteStraight agent world path content := by
  by_cases hconstitution : path = constitutionMountDest
  · rw [hconstitution]
    exact iff_of_true writeConfined_constitution fun hadmitted => absurd rfl hadmitted.other
  by_cases hadmitted : WriteAdmitted agent path
  swap
  · obtain ⟨error, hwrite⟩ := @writeFileHandler_of_refused agent world path content hadmitted
      hconstitution
    exact iff_of_true (writeConfined_of_failed hconstitution hwrite fun _ _ h => h)
      fun h => absurd h hadmitted
  by_cases htest : ∃ loc, resolve world.tree agent.environment.realpathLinks (utf8 path) =
      some loc ∧ chomp (text loc) = utf8 path
  swap
  · -- the test fails and nothing happens
    have hguarded : guarded agent.environment path world.tree
        (edit agent.environment path world.tree (utf8 content)) = ⟨1, [], [], world.tree⟩ := by
      rw [guarded]
      split
      · rename_i loc hresolve
        exact if_neg fun hsame => htest ⟨loc, hresolve, hsame⟩
      · rfl
    obtain ⟨error, hwrite⟩ := @writeFile_failed agent path content world.tree
      (by rw [hguarded]; exact Nat.one_ne_zero)
    have hhandler := @writeFileHandler_of_admitted agent world path content hadmitted
    rw [hwrite, hguarded] at hhandler
    exact iff_of_true (writeConfined_of_failed hconstitution hhandler fun _ _ h => h)
      fun _ loc _ hresolve _ hsame => absurd ⟨loc, hresolve, hsame⟩ htest
  obtain ⟨loc, hresolve, hsame⟩ := htest
  rcases @edit_cases agent.environment world.tree (utf8 content) path with
    ⟨target, hmoves, hedit⟩ | ⟨hstuck, hstatus, hgrows⟩
  · have hwrite := @writeFile_done agent path content world.tree _
      ((guarded_of hresolve hsame).trans hedit)
    rw [writeConfined_of_moved hadmitted hwrite]
    constructor
    · rintro ⟨other, mode, old, ⟨hother, htext⟩, -, hnode, -⟩ - loc' target' hloc' - -
      obtain rfl := Option.some.inj (hother.symm.trans hloc')
      exact ⟨htext, by simp [isDir, hnode]⟩
    · intro hstraight
      obtain ⟨htext, hdir⟩ := hstraight hadmitted loc target hresolve hmoves hsame
      have hsolid := resolve_solid hresolve
      have hne := ne_nil_of_text hadmitted.valid htext
      obtain ⟨mode, old, hnode⟩ := exists_file_of_solid hsolid hne hdir
      obtain ⟨temp, hplace, hfree, hmoved, -⟩ := hmoves
      rw [← spell_of_text hadmitted.valid htext, moveTarget_of_spell hsolid hne (by simp [hnode])
        hdir (grows_set hfree)] at hmoved
      obtain rfl := Option.some.inj hmoved
      exact ⟨loc, mode, old, ⟨hresolve, htext⟩,
        writable_of_text hadmitted.valid hadmitted.notReadonly htext, hnode, rfl⟩
  · have hguarded : guarded agent.environment path world.tree
        (edit agent.environment path world.tree (utf8 content)) =
        edit agent.environment path world.tree (utf8 content) := guarded_of hresolve hsame
    rw [← hguarded] at hstatus hgrows
    obtain ⟨error, hwrite⟩ := writeFile_failed hstatus
    have hhandler := @writeFileHandler_of_admitted agent world path content hadmitted
    rw [hwrite] at hhandler
    exact iff_of_true (writeConfined_of_failed hconstitution hhandler hgrows)
      fun _ _ target _ hmoves _ => absurd ⟨target, hmoves⟩ hstuck

/-- A write that is not straight succeeds with its file elsewhere. -/
theorem written_elsewhere
    {loc target : Location}
    (hadmitted : WriteAdmitted agent path)
    (hresolve : resolve world.tree agent.environment.realpathLinks (utf8 path) = some loc)
    (hsame : chomp (text loc) = utf8 path)
    (hmoves : Moves agent.environment world.tree (utf8 path) (utf8 content) target)
    (hnot : ¬ (text loc = utf8 path ∧ isDir world.tree loc = false)) :
    (writeFileHandler agent world path content).1 = .ok () ∧
      (writeFileHandler agent world path content).2.tree target =
        some (.file 0o600 (utf8 content)) ∧
      ¬ WriteConfined agent world path content := by
  have hwrite : writeFile agent world.tree path content =
      (.ok (), set world.tree target (.file 0o600 (utf8 content))) :=
    writeFile_done ((guarded_of hresolve hsame).trans (edit_of_moves hmoves))
  rw [writeFileHandler_of_admitted hadmitted, hwrite]
  refine ⟨rfl, set_self _ _ _, fun hconfined => hnot ?_⟩
  exact writeConfined_iff.1 hconfined hadmitted loc target hresolve hmoves hsame

end WriteHandler

/-- Reads and writes are confined to the requested entry exactly for paths that lead to no entry
whose canonical path goes on with newlines, and for a write to no directory; and the shell takes
an escaped text for one word that is the text. -/
theorem files_confined
    (agent : Agent)
    (world : World)
    (path content : Text) :
    (ReadConfined agent world path ↔ ReadStraight agent world path) ∧
      (WriteConfined agent world path content ↔ WriteStraight agent world path content) ∧
      ∃ pieces, Shell.lex (shellEscape path) = some [.word pieces] ∧
        ∀ vars : Shell.Env, Shell.expand (Shell.runTokens (utilities agent.environment) [] 0) vars
          world.tree pieces = some ⟨utf8 path, none, [], world.tree⟩ :=
  ⟨readConfined_iff, writeConfined_iff, quotedText path, Shell.lex_quote path,
    fun vars => Shell.expand_quotedText _ vars world.tree path⟩

/-! ### A link to a name with a newline, and a directory -/

def sampleAgent : Agent where
  environment :=
    { realpathLinks := 40
      openLinks := 40
      suffix := ⟨lit "Ab12Cd", by decide +kernel⟩
      immovable := fun _ => false
      complaint := fun _ => [] }
  validName := .ok ()
  running := .ok ()
  constitutionError := none

def rootName : Name := ⟨lit "root", by decide +kernel⟩

def tmpName : Name := ⟨lit "tmp", by decide +kernel⟩

def docsName : Name := ⟨lit "docs", by decide +kernel⟩

def noteName : Name := ⟨lit "note", by decide +kernel⟩

def newlineName : Name := ⟨lit "note\n", by decide +kernel⟩

def tempName : Name := ⟨lit ".vesta-edit.Ab12Cd", by decide +kernel⟩

/-- `/root/note` is a link to a file whose name goes on with a newline, and `/root/docs` is a
directory. -/
def sampleWorld : World where
  tree loc :=
    if loc ∈ [[], [rootName], [tmpName], [rootName, docsName]] then some (.dir 0o755 4096)
    else if loc = [rootName, noteName] then some (.link (lit "note\n"))
    else if loc = [rootName, newlineName] then some (.file 0o644 (lit "hidden"))
    else none
  constitution := []

theorem admitted_sample (path : Text) (h : path ∈ ["/root/note".toList, "/root/docs".toList]) :
    ReadAdmitted sampleAgent path ∧ WriteAdmitted sampleAgent path := by
  have hvalid : ∀ p ∈ ["/root/note".toList, "/root/docs".toList],
      validateFilePath p = .ok () ∧ isSensitivePath p = false ∧ p ≠ constitutionMountDest ∧
        isReadonlyPath p = false := by
    decide +kernel
  obtain ⟨hpath, hsensitive, hother, hreadonly⟩ := hvalid path h
  exact ⟨⟨rfl, hpath, hsensitive, rfl, hother⟩, ⟨rfl, hpath, rfl, hother, hreadonly⟩⟩

/-- A read of `/root/note` returns the content of the other file, and a write of `/root/docs`
succeeds with a file inside of the directory. -/
theorem newline_read_and_directory_written :
    (∃ response, readFileHandler sampleAgent sampleWorld "/root/note".toList = .ok response ∧
        response.content.bytes = lit "hidden") ∧
      ¬ ReadConfined sampleAgent sampleWorld "/root/note".toList ∧
      (writeFileHandler sampleAgent sampleWorld "/root/docs".toList "text".toList).1 = .ok () ∧
      (writeFileHandler sampleAgent sampleWorld "/root/docs".toList "text".toList).2.tree
          [rootName, docsName, tempName] = some (.file 0o600 (utf8 "text".toList)) ∧
      ¬ WriteConfined sampleAgent sampleWorld "/root/docs".toList "text".toList := by
  have hnote := (admitted_sample "/root/note".toList (by simp)).1
  have hdocs := (admitted_sample "/root/docs".toList (by simp)).2
  have hresolve : resolve sampleWorld.tree 40 (utf8 "/root/note".toList) =
      some [rootName, newlineName] := by
    decide +kernel
  have hnode : sampleWorld.tree [rootName, newlineName] = some (.file 0o644 (lit "hidden")) := by
    decide +kernel
  have hsame : chomp (text [rootName, newlineName]) = utf8 "/root/note".toList := by
    decide +kernel
  have hother : text [rootName, newlineName] ≠ utf8 "/root/note".toList := by decide +kernel
  have hsmall : ∀ named node, place sampleWorld.tree 40 (utf8 "/root/note".toList) = some named →
      sampleWorld.tree named = some node → parsedSize node ≤ fileSizeLimit := by
    intro named node hplace hnamed
    have hlink : place sampleWorld.tree 40 (utf8 "/root/note".toList) =
        some [rootName, noteName] := by
      decide +kernel
    have hfound : sampleWorld.tree [rootName, noteName] = some (.link (lit "note\n")) := by
      decide +kernel
    obtain rfl := Option.some.inj (hlink.symm.trans hplace)
    obtain rfl := Option.some.inj (hfound.symm.trans hnamed)
    decide +kernel
  have hdirectory : resolve sampleWorld.tree 40 (utf8 "/root/docs".toList) =
      some [rootName, docsName] := by
    decide +kernel
  have hexact : chomp (text [rootName, docsName]) = utf8 "/root/docs".toList := by
    decide +kernel
  have hisDir : isDir sampleWorld.tree [rootName, docsName] = true := by decide +kernel
  have hmoves : Moves sampleAgent.environment sampleWorld.tree (utf8 "/root/docs".toList)
      (utf8 "text".toList) [rootName, docsName, tempName] := by
    refine ⟨[tmpName, tempName], ?_, ?_, ?_, ?_, rfl⟩ <;> decide +kernel
  obtain ⟨response, hok, hbytes⟩ :=
    @exists_readFile sampleAgent sampleWorld.tree _ _ _ _ hresolve hresolve hnode hsmall hsame
  refine ⟨⟨response, (readFileHandler_of_admitted hnote).trans hok, hbytes⟩, fun hconfined => ?_,
    written_elsewhere hdocs hdirectory hexact hmoves fun h => ?_⟩
  · exact hother
      (readConfined_iff.1 hconfined hnote _ _ _ hresolve hresolve hnode hsmall hsame)
  · exact Bool.false_ne_true (h.2.symm.trans hisDir)

end FileApi
end Vestad
end Vesta
