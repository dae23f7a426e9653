import Mathlib.Data.List.Basic
import Mathlib.Logic.Function.Basic
import Vesta.Lib.Text

/-!
# The store of an upload

The server keeps an upload in a directory: the session, the part that the chunks
are appended to, and at last the blob under its own name and the meta record.
`append_at`, `upload_status` and `finalize` run on a thread each, one file
operation after the other, and stop where a crash takes them.

`Stored` is what holds of the directory between two file operations and `CallOk`
is what a request has read.  `served` says that a file operation keeps both when
it finds what `fitsOp` asks for.
-/

namespace Vesta
namespace AppChat
namespace Upload

open Lib

abbrev Bytes := List UInt8

/-! ## The directory -/

def sessionFile : Text := ".session.json".toList

def metaFile : Text := ".meta.json".toList

def partFile : Text := ".part".toList

/-- The files of the store's own in a directory. -/
def controlFiles : List Text := [sessionFile, metaFile, partFile]

/-- What an upload reads of a session and of a meta record. -/
structure Record where
  name : Text
  size : Nat
deriving DecidableEq, Repr

/-- What a name stands for.  A record is written whole, so it is its value; the bytes of another
file stay where a thread can write to them when its name is gone. -/
inductive Entry
  | file (file : Nat)
  | json (record : Record)
deriving DecidableEq, Repr

structure Directory where
  entry : Text → Option Entry
  content : Nat → Bytes
  files : Nat

/-- What reading a record finds; a malformed one raises. -/
inductive ReadJson
  | missing
  | malformed
  | record (record : Record)
deriving DecidableEq, Repr

namespace Directory

def fileAt (directory : Directory) (name : Text) : Option Nat :=
  match directory.entry name with
  | some (.file file) => some file
  | _ => none

def partSize (directory : Directory) : Nat :=
  match directory.fileAt partFile with
  | some file => (directory.content file).length
  | none => 0

/-- `loads` reads a record from bytes that are not the store's own. -/
def readJson (loads : Bytes → Option Record) (directory : Directory) (name : Text) : ReadJson :=
  match directory.entry name with
  | none => .missing
  | some (.json record) => .record record
  | some (.file file) =>
      match loads (directory.content file) with
      | some record => .record record
      | none => .malformed

def writeJson (directory : Directory) (name : Text) (record : Record) : Directory :=
  { directory with entry := Function.update directory.entry name (some (.json record)) }

/-- An empty file under the name. -/
def create (directory : Directory) (name : Text) : Directory where
  entry := Function.update directory.entry name (some (.file directory.files))
  content := Function.update directory.content directory.files []
  files := directory.files + 1

def append (directory : Directory) (file : Nat) (data : Bytes) : Directory :=
  { directory with
    content := Function.update directory.content file (directory.content file ++ data) }

/-- A file takes another name, and the name that it had is gone. -/
def rename (directory : Directory) (source target : Text) (file : Nat) : Directory :=
  { directory with
    entry :=
      Function.update (Function.update directory.entry source none) target (some (.file file)) }

def unlink (directory : Directory) (name : Text) : Directory :=
  { directory with entry := Function.update directory.entry name none }

end Directory

/-- Where a thread of the server goes on, or its response. -/
inductive Next (Op R : Type)
  | go (op : Op)
  | answer (response : R)
deriving DecidableEq, Repr

section Operations

variable (loads : Bytes → Option Record)

/-! ### append_at -/

/-- The next file operation of an append, with what it read so far. -/
inductive AppendOp
  | readSession
  | readPart (size : Nat)
  | openPart (current : Nat)
  | write (file current : Nat)
deriving DecidableEq, Repr

inductive AppendResponse
  | received (received : Nat)
  | offsetMismatch (received : Nat)
  | tooLarge
  | unknown
  | serverError
deriving DecidableEq, Repr

def appendAt (directory : Directory) (offset : Nat) (data : Bytes) :
    AppendOp → Directory × Next AppendOp AppendResponse
  | .readSession =>
      match directory.readJson loads sessionFile with
      | .record session => (directory, .go (.readPart session.size))
      | .missing => (directory, .answer .unknown)
      | .malformed => (directory, .answer .serverError)
  | .readPart size =>
      if offset ≠ directory.partSize then
        (directory, .answer (.offsetMismatch directory.partSize))
      else if size < offset + data.length then
        (directory, .answer .tooLarge)
      else
        (directory, .go (.openPart directory.partSize))
  | .openPart current =>
      match directory.fileAt partFile with
      | some file => (directory, .go (.write file current))
      | none => (directory.create partFile, .go (.write directory.files current))
  | .write file current =>
      (directory.append file data, .answer (.received (current + data.length)))

/-! ### upload_status -/

inductive StatusOp
  | readMeta
  | readSession
  | readStaged
  | readPart
deriving DecidableEq, Repr

inductive StatusResponse
  | status (received : Nat) (finalized : Bool)
  | unknown
  | serverError
deriving DecidableEq, Repr

def uploadStatus (directory : Directory) : StatusOp → Next StatusOp StatusResponse
  | .readMeta =>
      match directory.readJson loads metaFile with
      | .record record => .answer (.status record.size true)
      | .missing => .go .readSession
      | .malformed => .answer .serverError
  | .readSession =>
      match directory.readJson loads sessionFile with
      | .record _ => .go .readStaged
      | .missing => .answer .unknown
      | .malformed => .answer .serverError
  | .readStaged =>
      match directory.readJson loads sessionFile with
      | .record _ => .go .readPart
      | .missing => .answer .unknown
      | .malformed => .answer .serverError
  | .readPart => .answer (.status directory.partSize false)

/-! ### finalize -/

inductive FinalizeOp
  | readMeta
  | readSession
  | readPart (session : Record)
  | replace (session : Record)
  | writeMeta (session : Record)
  | unlink (session : Record)
deriving DecidableEq, Repr

inductive FinalizeResponse
  | attachment (record : Record)
  | sizeMismatch
  | unknown
  | serverError
deriving DecidableEq, Repr

def finalize (directory : Directory) :
    FinalizeOp → Directory × Next FinalizeOp FinalizeResponse
  | .readMeta =>
      match directory.readJson loads metaFile with
      | .record already => (directory, .answer (.attachment already))
      | .missing => (directory, .go .readSession)
      | .malformed => (directory, .answer .serverError)
  | .readSession =>
      match directory.readJson loads sessionFile with
      | .record session => (directory, .go (.readPart session))
      | .missing => (directory, .answer .unknown)
      | .malformed => (directory, .answer .serverError)
  | .readPart session =>
      if directory.partSize = session.size then (directory, .go (.replace session))
      else (directory, .answer .sizeMismatch)
  | .replace session =>
      match directory.fileAt partFile with
      | some file => (directory.rename partFile session.name file, .go (.writeMeta session))
      | none => (directory, .answer .serverError)
  | .writeMeta session => (directory.writeJson metaFile session, .go (.unlink session))
  | .unlink session =>
      if (directory.entry sessionFile).isSome then
        (directory.unlink sessionFile, .answer (.attachment session))
      else (directory, .answer .serverError)

end Operations

/-! ## Requests -/

/-- A request on its way, on its thread, or answered; a crash loses those on a thread. -/
inductive Stage (Op R : Type)
  | sent
  | working (op : Op)
  | answered (response : R)
  | lost
deriving DecidableEq, Repr

def Next.stage {Op R : Type} : Next Op R → Stage Op R
  | .go op => .working op
  | .answer response => .answered response

inductive Call
  | data (offset : Nat) (chunk : Bytes) (stage : Stage AppendOp AppendResponse)
  | status (stage : Stage StatusOp StatusResponse)
  | complete (stage : Stage FinalizeOp FinalizeResponse)
deriving DecidableEq, Repr

namespace Call

/-- A request reaches the server, and its thread begins. -/
def arrive : Call → Option Call
  | .data offset chunk .sent => some (.data offset chunk (.working .readSession))
  | .status .sent => some (.status (.working .readMeta))
  | .complete .sent => some (.complete (.working .readMeta))
  | _ => none

/-- The next file operation of a thread. -/
def serve (loads : Bytes → Option Record) (directory : Directory) :
    Call → Option (Directory × Call)
  | .data offset chunk (.working op) =>
      let next := appendAt loads directory offset chunk op
      some (next.1, .data offset chunk next.2.stage)
  | .status (.working op) => some (directory, .status (uploadStatus loads directory op).stage)
  | .complete (.working op) =>
      let next := finalize loads directory op
      some (next.1, .complete next.2.stage)
  | _ => none

/-- What a crash leaves of a request. -/
def crash : Call → Call
  | .data offset chunk (.working _) => .data offset chunk .lost
  | .status (.working _) => .status .lost
  | .complete (.working _) => .complete .lost
  | call => call

/-- A thread that renamed the part and comes to write the meta record. -/
def publishes : Call → Bool
  | .complete (.working (.writeMeta _)) => true
  | _ => false

/-- What a request asked, without how far it came. -/
def erase : Call → Call
  | .data offset chunk _ => .data offset chunk .sent
  | .status _ => .status .sent
  | .complete _ => .complete .sent

end Call

/-- What a file operation finds.  A chunk is written to the part, at the size that it was checked
at.  A finalize renames no part but a whole one, and while the client waits for it, its checks
find the session and the whole part. -/
def fitsOp (directory : Directory) (awaited : Bool) : Call → Bool
  | .data _ _ (.working (.write file current)) =>
      directory.fileAt partFile = some file && (directory.content file).length = current
  | .complete (.working .readSession) => !awaited || (directory.entry sessionFile).isSome
  | .complete (.working (.readPart session)) => !awaited || directory.partSize = session.size
  | .complete (.working (.replace session)) =>
      (directory.fileAt partFile).isNone || directory.partSize = session.size
  | _ => true

/-! ## What every admitted file operation keeps -/

/-- A chunk is the bytes of the file at its offset. -/
def Holds (file : Bytes) (offset : Nat) (chunk : Bytes) : Prop :=
  ∃ before after, file = before ++ chunk ++ after ∧ before.length = offset

/-- How many bytes of the file the store has. -/
def progress (name : Text) (file : Bytes) (directory : Directory) : Nat :=
  if (directory.fileAt name).isSome then file.length else directory.partSize

/-- What holds of the directory between two file operations. -/
structure Stored (name : Text) (file : Bytes) (directory : Directory) (filled : Bool) :
    Prop where
  apart : name ∉ controlFiles
  session :
    ∀ entry, directory.entry sessionFile = some entry → entry = .json ⟨name, file.length⟩
  record : ∀ entry, directory.entry metaFile = some entry → entry = .json ⟨name, file.length⟩
  ended : directory.entry sessionFile = none → (directory.entry metaFile).isSome = true
  published : (directory.entry metaFile).isSome = true → (directory.fileAt name).isSome = true
  staging : directory.fileAt name = none → (directory.fileAt partFile).isSome = true
  staged : ∀ part, directory.fileAt partFile = some part → directory.content part <+: file
  whole : ∀ blob, directory.fileAt name = some blob → directory.content blob = file
  distinct : ∀ part, directory.fileAt partFile = some part → directory.fileAt name ≠ some part
  part : ∀ part, directory.fileAt partFile = some part → part < directory.files
  blob : ∀ blob, directory.fileAt name = some blob → blob < directory.files
  full : filled = true → directory.fileAt name = none → directory.partSize = file.length

/-- What a file operation never takes back. -/
structure Advance (name : Text) (file : Bytes) (directory next : Directory) : Prop where
  progress : progress name file directory ≤ progress name file next
  blob : (directory.fileAt name).isSome = true → (next.fileAt name).isSome = true
  record : (directory.entry metaFile).isSome = true → (next.entry metaFile).isSome = true

theorem Advance.refl
    {name : Text} {file : Bytes} {directory : Directory} :
    Advance name file directory directory :=
  ⟨Nat.le_refl _, id, id⟩

/-! ### What a request has read -/

section Ok

variable (name : Text)
variable (file : Bytes)
variable (directory : Directory)

def AppendOk (offset : Nat) (chunk : Bytes) : Stage AppendOp AppendResponse → Prop
  | .working (.readPart size) => size = file.length
  | .working (.openPart current) => current = offset
  | .working (.write _ current) => current = offset
  | .answered (.received _) => offset + chunk.length ≤ progress name file directory
  | .answered .tooLarge => False
  | .answered .unknown => (directory.fileAt name).isSome = true
  | _ => True

def StatusOk : Stage StatusOp StatusResponse → Prop
  | .answered (.status received finalized) =>
      received ≤ progress name file directory ∧
        (finalized = true → (directory.fileAt name).isSome = true)
  | .answered .unknown => (directory.fileAt name).isSome = true
  | _ => True

def FinalizeOk : Stage FinalizeOp FinalizeResponse → Prop
  | .working (.readPart session) => session = ⟨name, file.length⟩
  | .working (.replace session) => session = ⟨name, file.length⟩
  | .working (.writeMeta session) =>
      session = ⟨name, file.length⟩ ∧ (directory.fileAt name).isSome = true
  | .working (.unlink _) => (directory.entry metaFile).isSome = true
  | _ => True

def CallOk : Call → Prop
  | .data offset chunk stage =>
      Holds file offset chunk ∧ AppendOk name file directory offset chunk stage
  | .status stage => StatusOk name file directory stage
  | .complete stage => FinalizeOk name file directory stage

end Ok

section Kept

variable {loads : Bytes → Option Record}
variable {name : Text}
variable {file : Bytes}
variable {directory next : Directory}
variable {filled : Bool}

theorem CallOk.mono
    (h : Advance name file directory next)
    {call : Call}
    (hcall : CallOk name file directory call) :
    CallOk name file next call := by
  cases call with
  | data offset chunk stage =>
      refine ⟨hcall.1, ?_⟩
      have hok := hcall.2
      cases stage with
      | working op => cases op <;> exact hok
      | answered response =>
          cases response with
          | received received => exact Nat.le_trans hok h.progress
          | unknown => exact h.blob hok
          | _ => exact hok
      | _ => trivial
  | status stage =>
      cases stage with
      | answered response =>
          cases response with
          | status received finalized =>
              exact ⟨Nat.le_trans hcall.1 h.progress, fun hfinal => h.blob (hcall.2 hfinal)⟩
          | unknown => exact h.blob hcall
          | serverError => trivial
      | _ => trivial
  | complete stage =>
      cases stage with
      | working op =>
          cases op with
          | writeMeta session => exact ⟨hcall.1, h.blob hcall.2⟩
          | unlink session => exact h.record hcall
          | _ => exact hcall
      | _ => trivial

/-! ### The names of a directory -/

theorem meta_ne_session : metaFile ≠ sessionFile := by decide

theorem part_ne_session : partFile ≠ sessionFile := by decide

theorem part_ne_meta : partFile ≠ metaFile := by decide

theorem ne_of_apart
    (h : name ∉ controlFiles) :
    name ≠ sessionFile ∧ name ≠ metaFile ∧ name ≠ partFile := by
  simpa [controlFiles] using h

theorem fileAt_congr
    {name : Text}
    (h : next.entry name = directory.entry name) :
    next.fileAt name = directory.fileAt name := by
  unfold Directory.fileAt
  rw [h]

namespace Directory

theorem entry_writeJson_of_ne
    (directory : Directory)
    (record : Record)
    {source target : Text}
    (h : source ≠ target) :
    (directory.writeJson target record).entry source = directory.entry source :=
  Function.update_of_ne h _ _

theorem entry_create_of_ne
    (directory : Directory)
    {source target : Text}
    (h : source ≠ target) :
    (directory.create target).entry source = directory.entry source :=
  Function.update_of_ne h _ _

theorem entry_unlink_of_ne
    (directory : Directory)
    {source target : Text}
    (h : source ≠ target) :
    (directory.unlink target).entry source = directory.entry source :=
  Function.update_of_ne h _ _

theorem entry_rename_of_ne
    (directory : Directory)
    (file : Nat)
    {other source target : Text}
    (hsource : other ≠ source)
    (htarget : other ≠ target) :
    (directory.rename source target file).entry other = directory.entry other := by
  simp [rename, Function.update_of_ne htarget, Function.update_of_ne hsource]

theorem fileAt_create
    (directory : Directory)
    (name : Text) :
    (directory.create name).fileAt name = some directory.files := by
  simp [fileAt, create]

theorem fileAt_rename_target
    (directory : Directory)
    (source target : Text)
    (file : Nat) :
    (directory.rename source target file).fileAt target = some file := by
  simp [fileAt, rename]

theorem fileAt_rename_source
    (directory : Directory)
    (file : Nat)
    {source target : Text}
    (h : source ≠ target) :
    (directory.rename source target file).fileAt source = none := by
  simp [fileAt, rename, Function.update_of_ne h]

end Directory

theorem partSize_of_part
    {part : Nat}
    (hpart : directory.fileAt partFile = some part) :
    directory.partSize = (directory.content part).length := by
  simp [Directory.partSize, hpart]

/-- Reading a record that is there, or is not. -/
theorem readJson_cases
    (loads : Bytes → Option Record)
    {source : Text} {record : Record}
    (h : ∀ entry, directory.entry source = some entry → entry = .json record) :
    (directory.entry source = none ∧ directory.readJson loads source = .missing) ∨
      ((directory.entry source).isSome = true ∧
        directory.readJson loads source = .record record) := by
  cases hentry : directory.entry source with
  | none => exact Or.inl ⟨rfl, by simp [Directory.readJson, hentry]⟩
  | some entry =>
      obtain rfl := h entry hentry
      exact Or.inr ⟨rfl, by simp [Directory.readJson, hentry]⟩

namespace Stored

theorem partSize_le
    (h : Stored name file directory filled) :
    directory.partSize ≤ file.length := by
  cases hpart : directory.fileAt partFile with
  | none => simp [Directory.partSize, hpart]
  | some part =>
      rw [partSize_of_part hpart]
      exact (h.staged part hpart).length_le

theorem partSize_le_progress
    (h : Stored name file directory filled) :
    directory.partSize ≤ progress name file directory := by
  unfold progress
  split
  · exact h.partSize_le
  · exact Nat.le_refl _

theorem progress_le
    (h : Stored name file directory filled) :
    progress name file directory ≤ file.length := by
  unfold progress
  split
  · exact Nat.le_refl _
  · exact h.partSize_le

/-- A part as long as the file is the file. -/
theorem content_of_size
    (h : Stored name file directory filled)
    {part : Nat}
    (hpart : directory.fileAt partFile = some part)
    (hsize : directory.partSize = file.length) :
    directory.content part = file :=
  (h.staged part hpart).eq_of_length (by rw [← partSize_of_part hpart, hsize])

theorem blob_of_ended
    (h : Stored name file directory filled)
    (hsession : directory.entry sessionFile = none) :
    (directory.fileAt name).isSome = true :=
  h.published (h.ended hsession)

theorem blob_of_no_part
    (h : Stored name file directory filled)
    (hpart : directory.fileAt partFile = none) :
    (directory.fileAt name).isSome = true := by
  cases hblob : directory.fileAt name with
  | none =>
      have hsome := h.staging hblob
      rw [hpart] at hsome
      cases hsome
  | some blob => rfl

end Stored

theorem progress_of_blob
    (hblob : (directory.fileAt name).isSome = true) :
    progress name file directory = file.length := by
  simp [progress, hblob]

def Directory.isFull (directory : Directory) (file : Bytes) : Bool :=
  match directory.fileAt partFile with
  | some part => directory.content part == file
  | none => false

theorem isFull_iff :
    directory.isFull file = true ↔
      ∃ part, directory.fileAt partFile = some part ∧ directory.content part = file := by
  unfold Directory.isFull
  split
  · next part hpart => simp [hpart]
  · next hpart => simp [hpart]

theorem Stored.fill
    (h : Stored name file directory filled) :
    Stored name file directory (filled || directory.isFull file) := by
  refine { h with full := ?_ }
  intro hfilled hblob
  rcases Bool.or_eq_true_iff.1 hfilled with hfilled | hfull
  · exact h.full hfilled hblob
  · obtain ⟨part, hpart, hcontent⟩ := isFull_iff.1 hfull
    rw [partSize_of_part hpart, hcontent]

/-! ### Appends -/

/-- A new part is empty, and only a finalized upload gets one. -/
theorem Stored.create
    (h : Stored name file directory filled)
    (hpart : directory.fileAt partFile = none) :
    Stored name file (directory.create partFile) filled := by
  obtain ⟨-, -, hname⟩ := ne_of_apart h.apart
  have hsession := Directory.entry_create_of_ne directory part_ne_session.symm
  have hrecord := Directory.entry_create_of_ne directory part_ne_meta.symm
  have hblob :=
    fileAt_congr (Directory.entry_create_of_ne directory hname)
  have hpart' := Directory.fileAt_create directory partFile
  constructor
  · exact h.apart
  · rw [hsession]
    exact h.session
  · rw [hrecord]
    exact h.record
  · rw [hsession, hrecord]
    exact h.ended
  · rw [hrecord, hblob]
    exact h.published
  · rw [hpart']
    exact fun _ => rfl
  · intro part hfile
    obtain rfl : directory.files = part := Option.some.inj (hpart'.symm.trans hfile)
    simp [Directory.create]
  · intro blob hfile
    rw [hblob] at hfile
    have hne : blob ≠ directory.files := Nat.ne_of_lt (h.blob blob hfile)
    simp [Directory.create, Function.update_of_ne hne, h.whole blob hfile]
  · intro part hfile hsame
    obtain rfl : directory.files = part := Option.some.inj (hpart'.symm.trans hfile)
    rw [hblob] at hsame
    exact Nat.lt_irrefl _ (h.blob _ hsame)
  · intro part hfile
    obtain rfl : directory.files = part := Option.some.inj (hpart'.symm.trans hfile)
    exact Nat.lt_succ_self _
  · intro blob hfile
    rw [hblob] at hfile
    exact Nat.lt_succ_of_lt (h.blob blob hfile)
  · intro _ hnone
    rw [hblob] at hnone
    have hsome := h.blob_of_no_part hpart
    rw [hnone] at hsome
    cases hsome

/-- The part that holds the file up to the offset, and the chunk at the offset. -/
theorem Holds.prefix_append
    {offset : Nat} {chunk content : Bytes}
    (h : Holds file offset chunk)
    (hpre : content <+: file)
    (hlength : content.length = offset) :
    content ++ chunk <+: file := by
  obtain ⟨before, after, rfl, hbefore⟩ := h
  obtain ⟨rest, hrest⟩ := hpre
  rw [List.append_assoc] at hrest
  obtain ⟨rfl, -⟩ := List.append_inj hrest (by rw [hlength, hbefore])
  exact ⟨after, rfl⟩

theorem partSize_append
    {part : Nat} {chunk : Bytes}
    (hpart : directory.fileAt partFile = some part) :
    (directory.append part chunk).partSize = directory.partSize + chunk.length := by
  have hpart' : (directory.append part chunk).fileAt partFile = some part := hpart
  rw [partSize_of_part hpart, partSize_of_part hpart']
  simp [Directory.append]

theorem Stored.append
    (h : Stored name file directory filled)
    {offset part : Nat} {chunk : Bytes}
    (hholds : Holds file offset chunk)
    (hpart : directory.fileAt partFile = some part)
    (hlength : (directory.content part).length = offset) :
    Stored name file (directory.append part chunk) filled where
  apart := h.apart
  session := h.session
  record := h.record
  ended := h.ended
  published := h.published
  staging := h.staging
  staged := by
    intro part' hpart'
    obtain rfl : part = part' := Option.some.inj (hpart.symm.trans hpart')
    simpa [Directory.append] using hholds.prefix_append (h.staged part hpart) hlength
  whole := by
    intro blob hblob
    have hne : blob ≠ part := by
      rintro rfl
      exact h.distinct blob hpart hblob
    simp [Directory.append, Function.update_of_ne hne, h.whole blob hblob]
  distinct := h.distinct
  part := h.part
  blob := h.blob
  full := by
    intro hfilled hblob
    have hsize := h.full hfilled hblob
    have hle := (hholds.prefix_append (h.staged part hpart) hlength).length_le
    rw [List.length_append, ← partSize_of_part hpart] at hle
    rw [partSize_append hpart]
    omega

theorem progress_append
    {part : Nat} {chunk : Bytes}
    (hpart : directory.fileAt partFile = some part) :
    progress name file directory ≤ progress name file (directory.append part chunk) := by
  have hblob : (directory.append part chunk).fileAt name = directory.fileAt name := rfl
  simp only [progress, hblob, partSize_append hpart]
  split <;> omega

/-! ### Finalizes -/

theorem Stored.rename
    (h : Stored name file directory filled)
    {part : Nat}
    (hpart : directory.fileAt partFile = some part)
    (hsize : directory.partSize = file.length) :
    Stored name file (directory.rename partFile name part) filled := by
  obtain ⟨hns, hnm, hnp⟩ := ne_of_apart h.apart
  have hsession :=
    Directory.entry_rename_of_ne directory part
      part_ne_session.symm hns.symm
  have hrecord :=
    Directory.entry_rename_of_ne directory part
      part_ne_meta.symm hnm.symm
  have hblob :=
    Directory.fileAt_rename_target directory partFile name part
  have hnone :=
    Directory.fileAt_rename_source directory part hnp.symm
  constructor
  · exact h.apart
  · rw [hsession]
    exact h.session
  · rw [hrecord]
    exact h.record
  · rw [hsession, hrecord]
    exact h.ended
  · rw [hblob]
    exact fun _ => rfl
  · simp [hblob]
  · simp [hnone]
  · intro blob hfile
    obtain rfl : part = blob := Option.some.inj (hblob.symm.trans hfile)
    exact h.content_of_size hpart hsize
  · simp [hnone]
  · simp [hnone]
  · intro blob hfile
    obtain rfl : part = blob := Option.some.inj (hblob.symm.trans hfile)
    exact h.part part hpart
  · simp [hblob]

/-- A record that is written or unlinked leaves part and blob. -/
theorem Stored.congr
    (h : Stored name file directory filled)
    (hsession :
      ∀ entry, next.entry sessionFile = some entry → entry = .json ⟨name, file.length⟩)
    (hrecord : ∀ entry, next.entry metaFile = some entry → entry = .json ⟨name, file.length⟩)
    (hended : next.entry sessionFile = none → (next.entry metaFile).isSome = true)
    (hpublished :
      (next.entry metaFile).isSome = true → (directory.fileAt name).isSome = true)
    (hpart : next.entry partFile = directory.entry partFile)
    (hblob : next.entry name = directory.entry name)
    (hcontent : next.content = directory.content)
    (hfiles : next.files = directory.files) :
    Stored name file next filled := by
  have hpart := fileAt_congr hpart
  have hblob := fileAt_congr hblob
  have hsize : next.partSize = directory.partSize := by
    simp [Directory.partSize, hpart, hcontent]
  constructor
  · exact h.apart
  · exact hsession
  · exact hrecord
  · exact hended
  · rw [hblob]
    exact hpublished
  · rw [hpart, hblob]
    exact h.staging
  · rw [hpart, hcontent]
    exact h.staged
  · rw [hblob, hcontent]
    exact h.whole
  · rw [hpart, hblob]
    exact h.distinct
  · rw [hpart, hfiles]
    exact h.part
  · rw [hblob, hfiles]
    exact h.blob
  · rw [hblob, hsize]
    exact h.full

theorem Stored.writeMeta
    (h : Stored name file directory filled)
    (hblob : (directory.fileAt name).isSome = true) :
    Stored name file (directory.writeJson metaFile ⟨name, file.length⟩) filled := by
  obtain ⟨-, hnm, -⟩ := ne_of_apart h.apart
  refine h.congr ?_ ?_ ?_ (fun _ => hblob) ?_ ?_ rfl rfl
  · rw [Directory.entry_writeJson_of_ne _ _ meta_ne_session.symm]
    exact h.session
  · intro entry hentry
    simpa [Directory.writeJson, eq_comm] using hentry
  · simp [Directory.writeJson]
  · exact Directory.entry_writeJson_of_ne _ _ part_ne_meta
  · exact Directory.entry_writeJson_of_ne _ _ hnm

theorem Stored.unlink
    (h : Stored name file directory filled)
    (hrecord : (directory.entry metaFile).isSome = true) :
    Stored name file (directory.unlink sessionFile) filled := by
  obtain ⟨hns, -, -⟩ := ne_of_apart h.apart
  have hmeta := Directory.entry_unlink_of_ne directory meta_ne_session
  refine h.congr ?_ ?_ ?_ (fun _ => h.published hrecord) ?_ ?_ rfl rfl
  · simp [Directory.unlink]
  · rw [hmeta]
    exact h.record
  · rw [hmeta]
    exact fun _ => hrecord
  · exact Directory.entry_unlink_of_ne _ part_ne_session
  · exact Directory.entry_unlink_of_ne _ hns

/-! ### One file operation -/

/-- What a file operation of a request keeps, and what it leaves of the request. -/
structure Served (name : Text) (file : Bytes) (directory : Directory) (call : Call)
    (filled : Bool) (next : Directory × Call) : Prop where
  stored : Stored name file next.1 filled
  advance : Advance name file directory next.1
  ok : CallOk name file next.1 next.2
  renamed :
    (next.1.fileAt name).isSome = true →
      (directory.fileAt name).isSome = true ∨ next.2.publishes = true
  published : call.publishes = true → (next.1.entry metaFile).isSome = true

/-- A file operation that leaves the directory. -/
theorem Stored.served
    (h : Stored name file directory filled)
    {call moved : Call}
    (hcall : call.publishes = false)
    (hok : CallOk name file directory moved) :
    Served name file directory call filled (directory, moved) :=
  ⟨h, .refl, hok, Or.inl, by simp [hcall]⟩

theorem served_append
    (h : Stored name file directory filled)
    {offset : Nat} {chunk : Bytes} {op : AppendOp} {awaited : Bool}
    (hok : CallOk name file directory (.data offset chunk (.working op)))
    (hfits : fitsOp directory awaited (.data offset chunk (.working op)) = true) :
    Served name file directory (.data offset chunk (.working op)) filled
      ((appendAt loads directory offset chunk op).1,
        .data offset chunk (appendAt loads directory offset chunk op).2.stage) := by
  obtain ⟨hholds, hop⟩ := hok
  cases op with
  | readSession =>
      rcases readJson_cases loads h.session with ⟨hnone, hread⟩ | ⟨-, hread⟩
      · simp only [appendAt, hread]
        exact h.served rfl ⟨hholds, h.blob_of_ended hnone⟩
      · simp only [appendAt, hread]
        exact h.served rfl ⟨hholds, rfl⟩
  | readPart size =>
      simp only [appendAt]
      split
      · exact h.served rfl ⟨hholds, trivial⟩
      · next hoffset =>
          split
          · next hlarge =>
              obtain ⟨before, after, hfile, hbefore⟩ := hholds
              have hsize : size = file.length := hop
              rw [hfile] at hsize
              simp only [List.length_append] at hsize
              omega
          · have hcurrent : directory.partSize = offset := (Decidable.not_not.1 hoffset).symm
            exact h.served rfl ⟨hholds, hcurrent⟩
  | openPart current =>
      simp only [appendAt]
      split
      · exact h.served rfl ⟨hholds, hop⟩
      · next hpart =>
          obtain ⟨-, -, hnp⟩ := ne_of_apart h.apart
          have hblob := h.blob_of_no_part hpart
          have hblob' :=
            fileAt_congr (Directory.entry_create_of_ne directory hnp)
          have hmeta := Directory.entry_create_of_ne directory part_ne_meta.symm
          refine ⟨h.create hpart, ⟨?_, ?_, ?_⟩, ⟨hholds, hop⟩, fun _ => Or.inl hblob,
            by simp [Call.publishes]⟩
          · simp [progress, hblob', hblob]
          · rw [hblob']
            exact id
          · rw [hmeta]
            exact id
  | write part current =>
      have hcurrent : current = offset := hop
      simp only [fitsOp, Bool.and_eq_true, decide_eq_true_eq] at hfits
      obtain ⟨hpart, hlength⟩ := hfits
      rw [hcurrent] at hlength
      have hstored := h.append hholds hpart hlength
      refine ⟨hstored, ⟨progress_append hpart, id, id⟩, ⟨hholds, ?_⟩, Or.inl,
        by simp [Call.publishes]⟩
      have hsize : offset + chunk.length = (directory.append part chunk).partSize := by
        rw [partSize_append hpart, partSize_of_part hpart, hlength]
      exact Nat.le_trans (Nat.le_of_eq hsize) hstored.partSize_le_progress

theorem served_status
    (h : Stored name file directory filled)
    (op : StatusOp) :
    Served name file directory (.status (.working op)) filled
      (directory, .status (uploadStatus loads directory op).stage) := by
  refine h.served rfl ?_
  cases op with
  | readMeta =>
      rcases readJson_cases loads h.record with ⟨-, hread⟩ | ⟨hrecord, hread⟩
      · simp only [uploadStatus, hread]
        trivial
      · simp only [uploadStatus, hread]
        have hblob := h.published hrecord
        exact ⟨Nat.le_of_eq (progress_of_blob hblob).symm, fun _ => hblob⟩
  | readSession =>
      rcases readJson_cases loads h.session with ⟨hnone, hread⟩ | ⟨-, hread⟩
      · simp only [uploadStatus, hread]
        exact h.blob_of_ended hnone
      · simp only [uploadStatus, hread]
        trivial
  | readStaged =>
      rcases readJson_cases loads h.session with ⟨hnone, hread⟩ | ⟨-, hread⟩
      · simp only [uploadStatus, hread]
        exact h.blob_of_ended hnone
      · simp only [uploadStatus, hread]
        trivial
  | readPart => exact ⟨h.partSize_le_progress, by simp⟩

theorem served_finalize
    (h : Stored name file directory filled)
    {op : FinalizeOp} {awaited : Bool}
    (hok : CallOk name file directory (.complete (.working op)))
    (hfits : fitsOp directory awaited (.complete (.working op)) = true) :
    Served name file directory (.complete (.working op)) filled
      ((finalize loads directory op).1, .complete (finalize loads directory op).2.stage) := by
  cases op with
  | readMeta =>
      rcases readJson_cases loads h.record with ⟨-, hread⟩ | ⟨-, hread⟩
      · simp only [finalize, hread]
        exact h.served rfl trivial
      · simp only [finalize, hread]
        exact h.served rfl trivial
  | readSession =>
      rcases readJson_cases loads h.session with ⟨-, hread⟩ | ⟨-, hread⟩
      · simp only [finalize, hread]
        exact h.served rfl trivial
      · simp only [finalize, hread]
        exact h.served rfl rfl
  | readPart session =>
      simp only [finalize]
      split
      · exact h.served rfl hok
      · exact h.served rfl trivial
  | replace session =>
      obtain rfl : session = ⟨name, file.length⟩ := hok
      simp only [finalize]
      split
      · next part hpart =>
          have hwhole : directory.partSize = file.length := by
            simpa [fitsOp, hpart] using hfits
          obtain ⟨-, hnm, -⟩ := ne_of_apart h.apart
          have hblob : ((directory.rename partFile name part).fileAt name).isSome = true := by
            rw [Directory.fileAt_rename_target]
            rfl
          refine ⟨h.rename hpart hwhole, ⟨?_, fun _ => hblob, ?_⟩, ⟨rfl, hblob⟩,
            fun _ => Or.inr rfl, by simp [Call.publishes]⟩
          · rw [progress_of_blob hblob]
            exact h.progress_le
          · rw [Directory.entry_rename_of_ne _ _ part_ne_meta.symm hnm.symm]
            exact id
      · exact h.served rfl trivial
  | writeMeta session =>
      obtain ⟨rfl, hblob⟩ := hok
      obtain ⟨-, hnm, -⟩ := ne_of_apart h.apart
      have hrecord :
          ((directory.writeJson metaFile ⟨name, file.length⟩).entry metaFile).isSome = true := by
        simp [Directory.writeJson]
      have hblob' :=
        fileAt_congr (Directory.entry_writeJson_of_ne directory ⟨name, file.length⟩ hnm)
      refine ⟨h.writeMeta hblob, ⟨?_, ?_, fun _ => hrecord⟩, hrecord, fun _ => Or.inl hblob,
        fun _ => hrecord⟩
      · refine Nat.le_of_eq ((progress_of_blob hblob).trans (progress_of_blob ?_).symm)
        exact (congrArg Option.isSome hblob').trans hblob
      · rw [finalize, hblob']
        exact id
  | unlink session =>
      simp only [finalize]
      split
      · have hrecord : (directory.entry metaFile).isSome = true := hok
        have hblob := h.published hrecord
        obtain ⟨hns, -, -⟩ := ne_of_apart h.apart
        have hblob' := fileAt_congr (Directory.entry_unlink_of_ne directory hns)
        refine ⟨h.unlink hrecord, ⟨?_, ?_, ?_⟩, trivial, fun _ => Or.inl hblob,
          by simp [Call.publishes]⟩
        · refine Nat.le_of_eq ((progress_of_blob hblob).trans (progress_of_blob ?_).symm)
          exact (congrArg Option.isSome hblob').trans hblob
        · rw [hblob']
          exact id
        · rw [Directory.entry_unlink_of_ne _ meta_ne_session]
          exact id
      · exact h.served rfl trivial

theorem served
    (h : Stored name file directory filled)
    {call : Call} {awaited : Bool} {next : Directory × Call}
    (hok : CallOk name file directory call)
    (hfits : fitsOp directory awaited call = true)
    (hserve : call.serve loads directory = some next) :
    Served name file directory call filled next := by
  cases call with
  | data offset chunk stage =>
      cases stage with
      | working op =>
          cases hserve
          exact served_append h hok hfits
      | _ => cases hserve
  | status stage =>
      cases stage with
      | working op =>
          cases hserve
          exact served_status h op
      | _ => cases hserve
  | complete stage =>
      cases stage with
      | working op =>
          cases hserve
          exact served_finalize h hok hfits
      | _ => cases hserve

theorem erase_serve
    {call : Call} {next : Directory × Call}
    (hserve : call.serve loads directory = some next) :
    next.2.erase = call.erase := by
  unfold Call.serve at hserve
  split at hserve
  all_goals cases hserve
  all_goals rfl

/-- A finalize that the client waits for answers no failure. -/
theorem heard_serve
    {call : Call} {next : Directory × Call}
    (hfits : fitsOp directory true call = true)
    (hserve : call.serve loads directory = some next)
    {response : FinalizeResponse}
    (hnext : next.2 = .complete (.answered response)) :
    response ≠ .sizeMismatch ∧ response ≠ .unknown := by
  unfold Call.serve at hserve
  split at hserve
  · cases hserve
    cases hnext
  · cases hserve
    cases hnext
  · next op =>
      cases hserve
      have hanswer : (finalize loads directory op).2 = .answer response := by
        cases hcase : (finalize loads directory op).2 with
        | go op' => simp [hcase, Next.stage] at hnext
        | answer response' => simpa [hcase, Next.stage] using hnext
      cases op with
      | readSession =>
          have hsession : (directory.entry sessionFile).isSome = true := by
            simpa [fitsOp] using hfits
          simp only [finalize] at hanswer
          split at hanswer
          · cases hanswer
          · next hread =>
              obtain ⟨entry, hentry⟩ := Option.isSome_iff_exists.1 hsession
              cases entry with
              | json record => simp [Directory.readJson, hentry] at hread
              | file part =>
                  simp only [Directory.readJson, hentry] at hread
                  split at hread <;> cases hread
          · simp [← Next.answer.inj hanswer]
      | readPart session =>
          have hsize : directory.partSize = session.size := by simpa [fitsOp] using hfits
          simp [finalize, hsize] at hanswer
      | _ =>
          simp only [finalize] at hanswer
          try split at hanswer
          all_goals cases hanswer
          all_goals simp
  · cases hserve

end Kept

end Upload
end AppChat
end Vesta
