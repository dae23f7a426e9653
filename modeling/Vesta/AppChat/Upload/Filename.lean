import Mathlib.Data.List.DropRight
import Vesta.AppChat.Upload.Store

/-!
# The file name of an upload

The client names its file, and the store keeps the blob under a name made from the
last part of that.  The sanitizer strips leading dots before it strips spaces, so a
space in front of a dot leaves a hidden name, such as that of the meta record; and
it caps the characters of a name, where a directory entry caps its bytes.

A name is a list of code points, and may hold surrogates.  `isprintable` is the
interpreter's, with what is documented of it.
-/

namespace Vesta
namespace AppChat
namespace Upload

open Lib

/-! ## Code points -/

/-- `'.'` -/
def dot : Nat := 0x2E

/-- `' '` -/
def space : Nat := 0x20

/-- `'/'` -/
def slash : Nat := 0x2F

/-- `'\\'` -/
def backslash : Nat := 0x5C

/-- The code points that `str.strip` removes. -/
def isspace (c : Nat) : Bool :=
  (9 ≤ c && c ≤ 13) || (0x1C ≤ c && c ≤ 0x20) || c == 0x85 || c == 0xA0 || c == 0x1680 ||
    (0x2000 ≤ c && c ≤ 0x200A) || c == 0x2028 || c == 0x2029 || c == 0x202F || c == 0x205F ||
    c == 0x3000

/-- The general category `Cc`. -/
def isControl (c : Nat) : Bool := c < 0x20 || (0x7F ≤ c && c ≤ 0x9F)

/-- What is documented of `str.isprintable`: surrogates and controls are not printable, and of
the separators only the ASCII space is. -/
structure Printable (isprintable : Nat → Bool) : Prop where
  scalar : ∀ c, isprintable c = true → c.isValidChar
  control : ∀ c, isprintable c = true → isControl c = false
  separator : ∀ c, isprintable c = true → isspace c = true → c = space

/-- The name of the entry, as the file system has it. -/
def entryName (name : List Nat) : Text := name.map Char.ofNat

/-! ## The sanitizer -/

section Sanitizer

variable (isprintable : Nat → Bool)

/-- `_FILENAME_MAX_CHARS` -/
def filenameMaxChars : Nat := 120

/-- `"file"` -/
def fallbackName : List Nat := [0x66, 0x69, 0x6C, 0x65]

/-- What is printable in the basename. -/
def cleaned (name : List Nat) : List Nat :=
  let base := (name.map fun c => if c = backslash then slash else c).rtakeWhile (· != slash)
  base.filter fun c => isprintable c && c != 0x7F

def strip (s : List Nat) : List Nat := (s.dropWhile isspace).rdropWhile isspace

def sanitizeFilename (name : List Nat) : List Nat :=
  let cleaned := strip ((cleaned isprintable name).dropWhile (· == dot))
  if cleaned = [] then fallbackName
  else cleaned.take filenameMaxChars

/-! ## Finalizing on its own -/

/-- What the file system takes as the name of an entry. -/
def isEntryName (name : Text) : Bool :=
  name != [] && !name.contains '/' && !name.contains (Char.ofNat 0) && name != ['.'] &&
    name != ['.', '.'] && (utf8 name).length ≤ 255

/-- The temporary file that a record is written to. -/
def temporary (name : Text) : Text := name ++ ".tmp".toList

variable (loads : Bytes → Option Record)

/-- A file operation of `finalize`.  The rename raises on a name that is none of an entry, and
writing the meta record overwrites what its temporary file was. -/
def finalizeOp (directory : Directory) :
    FinalizeOp → Directory × Next FinalizeOp FinalizeResponse
  | .replace session =>
      if isEntryName session.name then finalize loads directory (.replace session)
      else (directory, .answer .serverError)
  | .writeMeta session =>
      let next := finalize loads directory (.writeMeta session)
      (next.1.unlink (temporary metaFile), next.2)
  | op => finalize loads directory op

/-- File operations until the answer, or until there were so many. -/
def finalizeFrom : Nat → Directory → FinalizeOp → Directory × Option FinalizeResponse
  | 0, directory, _ => (directory, none)
  | n + 1, directory, op =>
      match finalizeOp loads directory op with
      | (next, .answer response) => (next, some response)
      | (next, .go op) => finalizeFrom n next op

/-- `finalize` has six file operations. -/
def finalizeAlone (directory : Directory) : Directory × Option FinalizeResponse :=
  finalizeFrom loads 6 directory .readMeta

/-- What is read at `blob_path`. -/
def blob (directory : Directory) : Option Bytes :=
  match directory.readJson loads metaFile with
  | .record record => (directory.fileAt record.name).map directory.content
  | _ => none

/-- An upload of which all bytes are staged. -/
structure Staged (name : Text) (bytes : Bytes) (directory : Directory) : Prop where
  unpublished : directory.entry metaFile = none
  session : directory.entry sessionFile = some (.json ⟨name, bytes.length⟩)
  part : ∃ file, directory.entry partFile = some (.file file) ∧ directory.content file = bytes

/-- `finalize` answers with the record, and the staged bytes are at `blob_path`. -/
def Publishes (name : Text) : Prop :=
  ∀ bytes directory, Staged name bytes directory →
    (finalizeAlone loads directory).2 = some (.attachment ⟨name, bytes.length⟩) ∧
      blob loads (finalizeAlone loads directory).1 = some bytes

end Sanitizer

/-! ## Safe names -/

structure SafeName (name : List Nat) : Prop where
  nonempty : name ≠ []
  separators : ∀ c ∈ name, c ≠ slash ∧ c ≠ backslash
  controls : ∀ c ∈ name, isControl c = false
  unhidden : name.head? ≠ some dot
  short : (utf8 (entryName name)).length ≤ 255

/-- Behind its leading dots, a printable basename goes on with spaces and a dot. -/
def HiddenDot (s : List Nat) : Prop :=
  ∃ dots spaces rest, s = dots ++ spaces ++ dot :: rest ∧
    (∀ c ∈ dots, c = dot) ∧ spaces ≠ [] ∧ ∀ c ∈ spaces, c = space

/-- What is left of a printable basename between its leading dots and spaces and the spaces at
its end. -/
structure IsStem (s stem : List Nat) : Prop where
  split : ∃ dots spaces after, s = dots ++ spaces ++ stem ++ after ∧
    (∀ c ∈ dots, c = dot) ∧ (∀ c ∈ spaces, c = space) ∧ ∀ c ∈ after, c = space
  first : stem.head? ≠ some dot ∧ stem.head? ≠ some space
  last : stem.getLast? ≠ some space

/-- No space hides a dot, and 120 characters of the stem fit into a directory entry. -/
structure Nameable (s : List Nat) : Prop where
  unhidden : ¬ HiddenDot s
  fits : ∀ stem, IsStem s stem → (utf8 (entryName (stem.take filenameMaxChars))).length ≤ 255

section Safe

variable {isprintable : Nat → Bool}
variable {name s : List Nat}

/-! ### The pieces of a basename -/

theorem dropWhile_append_eq
    {p : Nat → Bool} {before rest : List Nat}
    (hbefore : ∀ c ∈ before, p c = true)
    (hrest : ∀ c, rest.head? = some c → p c = false) :
    (before ++ rest).dropWhile p = rest := by
  rw [List.dropWhile_append_of_pos hbefore]
  cases rest with
  | nil => rfl
  | cons c rest => rw [List.dropWhile_cons_of_neg (by simp [hrest c rfl])]

theorem rdropWhile_append_eq
    {p : Nat → Bool} {kept after : List Nat}
    (hafter : ∀ c ∈ after, p c = true)
    (hkept : ∀ c, kept.getLast? = some c → p c = false) :
    (kept ++ after).rdropWhile p = kept := by
  have hreverse : (after.reverse ++ kept.reverse).dropWhile p = kept.reverse := by
    apply dropWhile_append_eq
    · simpa using hafter
    · simpa using hkept
  rw [List.rdropWhile, List.reverse_append, hreverse, List.reverse_reverse]

/-- Dropping at the end keeps a head that is not dropped. -/
theorem head?_rdropWhile
    {p : Nat → Bool} {c : Nat} {rest : List Nat}
    (h : p c = false) :
    ((c :: rest).rdropWhile p).head? = some c := by
  obtain ⟨after, hafter⟩ := List.rdropWhile_prefix p (c :: rest)
  have hne : (c :: rest).rdropWhile p ≠ [] := by
    intro hnil
    have hc := (List.rdropWhile_eq_nil_iff.1 hnil) c List.mem_cons_self
    simp [h] at hc
  cases hdrop : (c :: rest).rdropWhile p with
  | nil => exact absurd hdrop hne
  | cons d kept =>
      rw [hdrop] at hafter
      rw [(List.cons.inj hafter).1]
      rfl

theorem mem_cleaned
    {c : Nat}
    (h : c ∈ cleaned isprintable name) :
    c ≠ slash ∧ c ≠ backslash ∧ isprintable c = true := by
  rw [cleaned, List.mem_filter, Bool.and_eq_true] at h
  obtain ⟨hbase, hprintable, -⟩ := h
  have hne : c ≠ slash := by simpa using List.mem_rtakeWhile_imp hbase
  refine ⟨hne, ?_, hprintable⟩
  rintro rfl
  obtain ⟨d, -, hd⟩ := List.mem_map.1 ((List.rtakeWhile_suffix _ _).mem hbase)
  by_cases hslash : d = backslash
  · rw [if_pos hslash] at hd
    exact absurd hd (by decide)
  · rw [if_neg hslash] at hd
    exact hslash hd

/-- The only space in what is printable is the ASCII one. -/
def OnlySpace (s : List Nat) : Prop := ∀ c ∈ s, isspace c = true → c = space

theorem onlySpace_cleaned (h : Printable isprintable) : OnlySpace (cleaned isprintable name) :=
  fun c hc => h.separator c (mem_cleaned hc).2.2

theorem isspace_space : isspace space = true := by decide

theorem isspace_dot : isspace dot = false := by decide

/-- The sanitizer strips to the stem. -/
theorem IsStem.strip_eq
    (honly : OnlySpace s)
    {stem : List Nat}
    (h : IsStem s stem) :
    strip (s.dropWhile (· == dot)) = stem := by
  obtain ⟨dots, spaces, after, hs, hdots, hspaces, hafter⟩ := h.split
  have hspace {t : List Nat} (ht : ∀ c ∈ t, c = space) : ∀ c ∈ t, isspace c = true :=
    fun c hc => ht c hc ▸ isspace_space
  have hedge {c : Nat} (hc : c ∈ stem) (hne : c ≠ space) : isspace c = false := by
    rw [Bool.eq_false_iff]
    exact fun hc' => hne (honly c (by rw [hs]; simp [hc]) hc')
  have hundotted : s.dropWhile (· == dot) = spaces ++ (stem ++ after) := by
    rw [hs, List.append_assoc, List.append_assoc]
    apply dropWhile_append_eq
    · simpa using hdots
    · intro c hc
      have hspacedot : (space == dot) = false := by decide
      cases hsp : spaces with
      | cons d ds =>
          have heq : c = d := by simpa [hsp] using hc.symm
          rw [heq, hspaces d (by simp [hsp]), hspacedot]
      | nil =>
          cases hst : stem with
          | cons d ds =>
              have heq : c = d := by simpa [hsp, hst] using hc.symm
              have hne := h.first.1
              rw [hst] at hne
              simpa [heq] using hne
          | nil =>
              have hmem : c ∈ after := List.mem_of_head? (by simpa [hsp, hst] using hc)
              rw [hafter c hmem, hspacedot]
  have hunspaced : (spaces ++ (stem ++ after)).dropWhile isspace = stem ++ after ∨
      stem = [] ∧ (spaces ++ (stem ++ after)).dropWhile isspace = [] := by
    cases hst : stem with
    | nil =>
        refine .inr ⟨rfl, ?_⟩
        rw [List.dropWhile_eq_nil_iff]
        intro c hc
        rcases List.mem_append.1 hc with hc | hc
        · exact hspace hspaces c hc
        · exact hspace hafter c hc
    | cons d ds =>
        refine .inl (dropWhile_append_eq (hspace hspaces) fun c hc => ?_)
        have heq : d = c := by simpa using hc
        subst heq
        have hne := h.first.2
        rw [hst] at hne
        exact hedge (by simp [hst]) (by simpa using hne)
  rw [hundotted, strip]
  rcases hunspaced with hunspaced | ⟨hnil, hunspaced⟩
  · rw [hunspaced]
    apply rdropWhile_append_eq (hspace hafter)
    intro c hc
    refine hedge (List.mem_of_getLast? hc) ?_
    rintro rfl
    exact h.last hc
  · rw [hunspaced, hnil]
    rfl

/-- A basename without a hidden dot has a stem. -/
theorem isStem_strip
    (honly : OnlySpace s)
    (hhidden : ¬ HiddenDot s) :
    IsStem s (strip (s.dropWhile (· == dot))) := by
  set undotted := s.dropWhile (· == dot) with hundotted
  set unspaced := undotted.dropWhile isspace with hunspaced
  have hdots : s.takeWhile (· == dot) ++ undotted = s := List.takeWhile_append_dropWhile
  have hspaces : undotted.takeWhile isspace ++ unspaced = undotted :=
    List.takeWhile_append_dropWhile
  have hafter : unspaced.rdropWhile isspace ++ unspaced.rtakeWhile isspace = unspaced :=
    List.rdropWhile_append_rtakeWhile
  have halldots : ∀ c ∈ s.takeWhile (· == dot), c = dot := by
    intro c hc
    simpa using List.mem_takeWhile_imp hc
  have hallspaces : ∀ c ∈ undotted.takeWhile isspace, c = space := by
    intro c hc
    refine honly c ?_ (List.mem_takeWhile_imp hc)
    rw [← hdots, ← hspaces]
    simp [hc]
  have hfirst {c : Nat} (hc : (unspaced.rdropWhile isspace).head? = some c) :
      unspaced.head? = some c := by
    rw [← hafter, List.head?_append, hc]
    rfl
  have hnotspace {c : Nat} (hc : unspaced.head? = some c) : isspace c = false := by
    have hnot := List.head?_dropWhile_not isspace undotted
    rw [← hunspaced, hc] at hnot
    exact hnot
  constructor
  · refine ⟨s.takeWhile (· == dot), undotted.takeWhile isspace, unspaced.rtakeWhile isspace,
      ?_, halldots, hallspaces, ?_⟩
    · rw [strip, List.append_assoc, List.append_assoc, hafter, hspaces, hdots]
    · intro c hc
      refine honly c ?_ (List.mem_rtakeWhile_imp hc)
      have hunspaced : c ∈ unspaced := (List.rtakeWhile_suffix _ _).mem hc
      rw [← hdots, ← hspaces]
      simp [hunspaced]
  · constructor
    · intro hdot
      obtain ⟨rest, hrest⟩ : ∃ rest, unspaced = dot :: rest := by
        cases hu : unspaced with
        | nil =>
            rw [strip, ← hunspaced, hu] at hdot
            cases hdot
        | cons c rest =>
            have hc := hfirst hdot
            rw [hu] at hc
            exact ⟨rest, by rw [Option.some.inj hc]⟩
      apply hhidden
      refine ⟨s.takeWhile (· == dot), undotted.takeWhile isspace, rest, ?_, halldots, ?_,
        hallspaces⟩
      · rw [List.append_assoc, ← hrest, hspaces, hdots]
      · intro hnil
        rw [hnil, hrest] at hspaces
        have hnot := List.head?_dropWhile_not (· == dot) s
        rw [← hundotted, ← hspaces] at hnot
        simp at hnot
    · intro hspace
      have hnot := hnotspace (hfirst hspace)
      rw [isspace_space] at hnot
      cases hnot
  · intro hspace
    have hne : unspaced.rdropWhile isspace ≠ [] := by
      intro hnil
      rw [strip, ← hunspaced, hnil] at hspace
      cases hspace
    have hnot := List.rdropWhile_last_not isspace unspaced hne
    have hlast : (unspaced.rdropWhile isspace).getLast hne = space := by
      rw [strip, ← hunspaced, List.getLast?_eq_some_getLast hne] at hspace
      exact Option.some.inj hspace
    rw [hlast] at hnot
    exact hnot isspace_space

/-- A hidden dot is what the sanitized name starts with. -/
theorem HiddenDot.head?_strip
    (h : HiddenDot s) :
    (strip (s.dropWhile (· == dot))).head? = some dot := by
  obtain ⟨dots, spaces, rest, rfl, hdots, hne, hspaces⟩ := h
  have hundotted : (dots ++ spaces ++ dot :: rest).dropWhile (· == dot) =
      spaces ++ dot :: rest := by
    rw [List.append_assoc]
    apply dropWhile_append_eq
    · simpa using hdots
    · intro c hc
      obtain ⟨d, ds, rfl⟩ := List.exists_cons_of_ne_nil hne
      have heq : d = c := by simpa using hc
      rw [← heq, hspaces d List.mem_cons_self]
      decide
  have hunspaced : (spaces ++ dot :: rest).dropWhile isspace = dot :: rest := by
    apply dropWhile_append_eq
    · exact fun c hc => hspaces c hc ▸ isspace_space
    · intro c hc
      have heq : dot = c := by simpa using hc
      exact heq ▸ isspace_dot
  rw [hundotted, strip, hunspaced]
  exact head?_rdropWhile isspace_dot

/-! ### Sanitized names -/

theorem fallbackName_spec :
    ∀ c ∈ fallbackName,
      c.isValidChar ∧ c ≠ slash ∧ c ≠ backslash ∧ isControl c = false := by
  decide

theorem mem_sanitizeFilename
    {c : Nat}
    (h : c ∈ sanitizeFilename isprintable name) :
    c ∈ fallbackName ∨ c ∈ cleaned isprintable name := by
  rw [sanitizeFilename] at h
  split at h
  · exact .inl h
  · have hstripped := (List.rdropWhile_prefix _ _).mem (List.mem_of_mem_take h)
    have hundotted := (List.dropWhile_sublist _).mem hstripped
    exact .inr ((List.dropWhile_sublist _).mem hundotted)

theorem isValidChar_of_mem
    (hprintable : Printable isprintable)
    {c : Nat}
    (h : c ∈ sanitizeFilename isprintable name) :
    c.isValidChar := by
  rcases mem_sanitizeFilename h with h | h
  · exact (fallbackName_spec c h).1
  · exact hprintable.scalar c (mem_cleaned h).2.2

theorem head?_take_filenameMaxChars : (s.take filenameMaxChars).head? = s.head? := by
  cases s <;> rfl

/-- The sanitized name is safe if and only if the printable basename is nameable. -/
theorem safeName_sanitizeFilename_iff
    (hprintable : Printable isprintable) :
    SafeName (sanitizeFilename isprintable name) ↔ Nameable (cleaned isprintable name) := by
  have honly : OnlySpace (cleaned isprintable name) := onlySpace_cleaned hprintable
  constructor
  · intro h
    constructor
    · intro hhidden
      have hhead := hhidden.head?_strip
      apply h.unhidden
      rw [sanitizeFilename]
      split
      · rename_i hnil
        rw [hnil] at hhead
        cases hhead
      · rwa [head?_take_filenameMaxChars]
    · intro stem hstem
      have hshort := h.short
      rw [sanitizeFilename, hstem.strip_eq honly] at hshort
      split at hshort
      · rename_i hnil
        rw [hnil]
        decide
      · exact hshort
  · intro h
    have hstem := isStem_strip honly h.unhidden
    have hmem {c : Nat} (hc : c ∈ sanitizeFilename isprintable name) :
        c ≠ slash ∧ c ≠ backslash ∧ isControl c = false := by
      rcases mem_sanitizeFilename hc with hc | hc
      · exact (fallbackName_spec c hc).2
      · obtain ⟨hslash, hbackslash, hc⟩ := mem_cleaned hc
        exact ⟨hslash, hbackslash, hprintable.control c hc⟩
    constructor
    · rw [sanitizeFilename]
      split
      · exact List.cons_ne_nil _ _
      · rename_i hne
        simp [hne, filenameMaxChars]
    · exact fun c hc => ⟨(hmem hc).1, (hmem hc).2.1⟩
    · exact fun c hc => (hmem hc).2.2
    · rw [sanitizeFilename]
      split
      · decide
      · rw [head?_take_filenameMaxChars]
        exact hstem.first.1
    · rw [sanitizeFilename]
      split
      · decide
      · exact h.fits _ hstem

end Safe

/-! ## Publishing under a safe name -/

section Published

variable {loads : Bytes → Option Record}
variable {isprintable : Nat → Bool}
variable {name : List Nat}

theorem toNat_ofNat
    {c : Nat}
    (h : c.isValidChar) :
    (Char.ofNat c).toNat = c := by
  rw [Char.ofNat, dif_pos h]
  rfl

theorem SafeName.head?_entryName
    (h : SafeName name)
    (hvalid : ∀ c ∈ name, c.isValidChar) :
    (entryName name).head? ≠ some '.' := by
  intro hhead
  cases hname : name with
  | nil => exact h.nonempty hname
  | cons c rest =>
      rw [hname] at hhead
      have hc : Char.ofNat c = '.' := Option.some.inj hhead
      apply h.unhidden
      rw [hname, List.head?_cons, ← toNat_ofNat (hvalid c (by simp [hname])), hc]
      rfl

theorem SafeName.isEntryName_entryName
    (h : SafeName name)
    (hvalid : ∀ c ∈ name, c.isValidChar) :
    isEntryName (entryName name) = true := by
  have hne (d : Char) (hd : d.toNat ∉ name) : d ∉ entryName name := by
    intro hmem
    obtain ⟨c, hc, rfl⟩ := List.mem_map.1 hmem
    rw [toNat_ofNat (hvalid c hc)] at hd
    exact hd hc
  have hslash : '/' ∉ entryName name := hne '/' fun hmem => (h.separators _ hmem).1 rfl
  have hnul : Char.ofNat 0 ∉ entryName name := by
    apply hne
    intro hmem
    exact absurd (h.controls _ hmem) (by decide)
  have hdot := h.head?_entryName hvalid
  have hnil : entryName name ≠ [] := by simpa [entryName] using h.nonempty
  have hone : entryName name ≠ ['.'] := fun heq => hdot (by rw [heq]; rfl)
  have htwo : entryName name ≠ ['.', '.'] := fun heq => hdot (by rw [heq]; rfl)
  simp [isEntryName, hslash, hnul, hnil, hone, htwo, h.short]

/-- A name that starts with no dot is none of the store's own. -/
theorem publishes_of_isEntryName
    {name : Text}
    (hentry : isEntryName name = true)
    (hdot : name.head? ≠ some '.') :
    Publishes loads name := by
  rintro bytes directory ⟨hmeta, hsession, file, hpart, hcontent⟩
  have hne (control : Text) (hcontrol : control.head? = some '.') : control ≠ name := by
    rintro rfl
    exact hdot hcontrol
  have hmetaname : metaFile ≠ name := hne metaFile rfl
  have hsessionname : sessionFile ≠ name := hne sessionFile rfl
  have htmpname : temporary metaFile ≠ name := hne (temporary metaFile) rfl
  set record : Record := ⟨name, bytes.length⟩ with hrecord
  set renamed := directory.rename partFile name file with hrenamed
  set written := (renamed.writeJson metaFile record).unlink (temporary metaFile) with hwritten
  have hreadMeta : finalizeOp loads directory .readMeta = (directory, .go .readSession) := by
    simp [finalizeOp, finalize, Directory.readJson, hmeta]
  have hreadSession :
      finalizeOp loads directory .readSession = (directory, .go (.readPart record)) := by
    simp [finalizeOp, finalize, Directory.readJson, hsession]
  have hreadPart :
      finalizeOp loads directory (.readPart record) = (directory, .go (.replace record)) := by
    have hsize : directory.partSize = bytes.length := by
      simp [Directory.partSize, Directory.fileAt, hpart, hcontent]
    simp [finalizeOp, finalize, hrecord, hsize]
  have hreplace :
      finalizeOp loads directory (.replace record) = (renamed, .go (.writeMeta record)) := by
    simp [finalizeOp, finalize, hrecord, hentry, Directory.fileAt, hpart, hrenamed]
  have hsessionkept : written.entry sessionFile = some (.json record) := by
    have hpartne : sessionFile ≠ partFile := by decide
    have hmetane : sessionFile ≠ metaFile := by decide
    have htmpne : sessionFile ≠ temporary metaFile := by decide
    simp [hwritten, hrenamed, Directory.unlink, Directory.writeJson, Directory.rename,
      Function.update, hpartne, hmetane, htmpne, hsessionname, hsession]
  have hunlink : finalizeOp loads written (.unlink record) =
      (written.unlink sessionFile, .answer (.attachment record)) := by
    simp [finalizeOp, finalize, hsessionkept]
  have hrun : finalizeAlone loads directory =
      (written.unlink sessionFile, some (.attachment record)) := by
    have hwriteMeta :
        finalizeOp loads renamed (.writeMeta record) = (written, .go (.unlink record)) := rfl
    simp only [finalizeAlone, finalizeFrom, hreadMeta, hreadSession, hreadPart, hreplace,
      hwriteMeta, hunlink]
  have hmetaread : (written.unlink sessionFile).readJson loads metaFile = .record record := by
    have hsessionne : metaFile ≠ sessionFile := by decide
    have htmpne : metaFile ≠ temporary metaFile := by decide
    simp [Directory.readJson, hwritten, Directory.unlink, Directory.writeJson, Function.update,
      hsessionne, htmpne]
  have hblob : (written.unlink sessionFile).fileAt name = some file := by
    simp [Directory.fileAt, hwritten, hrenamed, Directory.unlink, Directory.writeJson,
      Directory.rename, Function.update, Ne.symm hmetaname, Ne.symm hsessionname,
      Ne.symm htmpname]
  have hkept : (written.unlink sessionFile).content = directory.content := rfl
  rw [hrun]
  refine ⟨rfl, ?_⟩
  simp only [blob, hmetaread, hrecord, hblob, hkept, Option.map_some, hcontent]

theorem SafeName.publishes
    (h : SafeName name)
    (hvalid : ∀ c ∈ name, c.isValidChar) :
    Publishes loads (entryName name) :=
  publishes_of_isEntryName (h.isEntryName_entryName hvalid) (h.head?_entryName hvalid)

/-- The sanitized name is safe and an upload is published under it if and only if no space of
the printable basename hides a dot and its first 120 characters fit into an entry. -/
theorem sanitizeFilename_exact
    (hprintable : Printable isprintable) :
    (SafeName (sanitizeFilename isprintable name) ∧
        Publishes loads (entryName (sanitizeFilename isprintable name))) ↔
      Nameable (cleaned isprintable name) := by
  rw [← safeName_sanitizeFilename_iff hprintable]
  constructor
  · exact fun h => h.1
  · exact fun h => ⟨h, h.publishes fun c hc => isValidChar_of_mem hprintable hc⟩

end Published

/-! ### A hidden meta record -/

/-- The printable characters of ASCII, and the ideographs of the first block. -/
def sampleIsprintable (c : Nat) : Bool := (0x20 ≤ c && c ≤ 0x7E) || (0x4E00 ≤ c && c ≤ 0x9FFC)

theorem printable_sampleIsprintable : Printable sampleIsprintable := by
  constructor
  · intro c hc
    simp [sampleIsprintable] at hc
    simp [Nat.isValidChar]
    omega
  · intro c hc
    simp [sampleIsprintable] at hc
    simp [isControl]
    omega
  · intro c hc hspace
    simp [sampleIsprintable] at hc
    simp [isspace] at hspace
    simp only [space]
    omega

/-- A directory with one staged byte for the file of that name. -/
def stagedByte (name : List Nat) : Directory where
  entry := Function.update (Function.update (fun _ => none)
    sessionFile (some (.json ⟨entryName (sanitizeFilename sampleIsprintable name), 1⟩)))
    partFile (some (.file 0))
  content := fun _ => [7]
  files := 1

/-- `" .meta.json"` -/
def hiddenMeta : List Nat := (" .meta.json".toList).map Char.toNat

/-- The name ` .meta.json` becomes that of the meta record, which is written over the blob, and
120 ideographs become a name of 360 bytes, which the rename refuses. -/
theorem hidden_meta_unpublished :
    sanitizeFilename sampleIsprintable hiddenMeta = ".meta.json".toList.map Char.toNat ∧
      (finalizeAlone (fun _ => none) (stagedByte hiddenMeta)).2 =
        some (.attachment ⟨metaFile, 1⟩) ∧
      blob (fun _ => none) (finalizeAlone (fun _ => none) (stagedByte hiddenMeta)).1 = none ∧
      (utf8 (entryName
        (sanitizeFilename sampleIsprintable (List.replicate 120 0x6F22)))).length = 360 ∧
      (finalizeAlone (fun _ => none) (stagedByte (List.replicate 120 0x6F22))).2 =
        some .serverError := by
  decide +kernel

/-- The exact condition at `report.pdf`, which is nameable. -/
theorem sanitizeFilename_exact_report :
    (SafeName (sanitizeFilename sampleIsprintable ("report.pdf".toList.map Char.toNat)) ∧
        Publishes (fun _ => none) (entryName
          (sanitizeFilename sampleIsprintable ("report.pdf".toList.map Char.toNat)))) ↔
      Nameable (cleaned sampleIsprintable ("report.pdf".toList.map Char.toNat)) :=
  sanitizeFilename_exact printable_sampleIsprintable

end Upload
end AppChat
end Vesta
