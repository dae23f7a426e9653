import Mathlib.Data.List.Forall2
import Vesta.Lib.Text
import Vesta.Lib.Json
import Vesta.Lib.Program
import Vesta.Vestad.Mounts

/-!
# Portable agent bundles

A bundle is a gzipped tar of three entries in a fixed order: a JSON manifest, the agent's
constitution and the tar of its filesystem.  The writer appends all three; the readers
walk the entries from the first again each time.

The archive format and the JSON codec are library code and parameters.  `Lawful` says what
is relied on: a written archive reads back as its entries, each entry in some non-empty
reads, and an encoded manifest decodes to itself.
-/

namespace Vesta
namespace Vestad
namespace AgentBundle

open Lib
open Mounts (HostMount)

def bundleFormatVersion : UInt32 := 1

def manifestEntry : Text := "vesta-manifest.json".toList

def constitutionEntry : Text := "constitution.md".toList

def imageEntry : Text := "image.tar".toList

/-- Cap on the manifest and constitution entries, which are read whole. -/
def maxHeadEntryBytes : Nat := 256 * 1024

def corruptBundleMessage : Text := "bundle is corrupt or was modified".toList

def notABundleMessage : Text := "not a vesta export file".toList

inductive UserDesired
  | running
  | stopped
deriving DecidableEq

structure BundleManifest where
  formatVersion : UInt32
  agentName : Text
  vestadVersion : Text
  createdAt : Text
  userDesired : UserDesired
  mounts : List HostMount
deriving DecidableEq

inductive BundleKind
  | bundle
  | legacy
deriving DecidableEq

inductive DockerError
  | failed (message : Text)
deriving DecidableEq

/-- An entry as it is read: its normalised path, the size in its header and its reads. -/
structure TarEntry where
  path : Except Text Text
  size : Nat
  reads : List (Except Text (List UInt8))

structure Library (File : Type) where
  toVec : BundleManifest → Except Text (List UInt8)
  fromSlice : List UInt8 → Except Text BundleManifest
  archive : List (Text × List UInt8) → File
  entries : File → Except Text (List (Except Text TarEntry))

/-- The entry reads back the bytes that were appended under its name. -/
def ReadsBack (written : Text × List UInt8) (read : Except Text TarEntry) : Prop :=
  ∃ chunks : List (List UInt8),
    read = .ok ⟨.ok written.1, written.2.length, chunks.map .ok⟩ ∧
    chunks.flatten = written.2 ∧ [] ∉ chunks

structure Library.Lawful {File : Type} (lib : Library File) : Prop where
  manifest : ∀ manifest bytes, lib.toVec manifest = .ok bytes → lib.fromSlice bytes = .ok manifest
  archive : ∀ written, ∃ read,
    lib.entries (lib.archive written) = .ok read ∧ List.Forall₂ ReadsBack written read

/-- What the file calls of a write answer. -/
structure Disk where
  create : Except Text Unit
  append : Text → Except Text Unit
  imageMetadata : Except Text Unit
  openImage : Except Text Unit
  appendImage : Except Text Unit
  finishTar : Except Text Unit
  finishGzip : Except Text Unit

/-- `docker_failed` on an error. -/
def orFailed {α : Type} (context : Text) : Except Text α → Except DockerError α
  | .ok a => .ok a
  | .error err => .error (.failed (context ++ ": ".toList ++ err))

section Bundle

variable {File : Type}
variable (lib : Library File)

/-- The manifest of an export, by the vestad of the given version. -/
def buildManifest (vestadVersion name : Text) (userDesired : UserDesired)
    (mounts : List HostMount) (nowRfc3339 : Text) : BundleManifest where
  formatVersion := bundleFormatVersion
  agentName := name
  vestadVersion := vestadVersion
  createdAt := nowRfc3339
  userDesired := userDesired
  mounts := mounts

def appendEntry (disk : Disk) (name : Text) : Except DockerError Unit :=
  orFailed ("appending ".toList ++ name ++ " entry".toList) (disk.append name)

def writeBundleInner
    (disk : Disk) (manifest : BundleManifest) (constitution : Text) (image : List UInt8) :
    Except DockerError File := do
  orFailed "creating bundle file".toList disk.create
  let manifestBytes ← orFailed "encoding bundle manifest".toList (lib.toVec manifest)
  appendEntry disk manifestEntry
  appendEntry disk constitutionEntry
  orFailed "reading image tar metadata".toList disk.imageMetadata
  orFailed "opening image tar".toList disk.openImage
  orFailed "appending image tar entry".toList disk.appendImage
  orFailed "finishing bundle tar".toList disk.finishTar
  orFailed "finishing bundle gzip".toList disk.finishGzip
  return lib.archive
    [(manifestEntry, manifestBytes), (constitutionEntry, utf8 constitution), (imageEntry, image)]

/-- The output file and the answer; a failed write removes the output. -/
def writeBundle
    (disk : Disk) (manifest : BundleManifest) (constitution : Text) (image : List UInt8) :
    Option File × Except DockerError Unit :=
  match writeBundleInner lib disk manifest constitution image with
  | .ok file => (some file, .ok ())
  | .error err => (none, .error err)

/-- The next entry, and the ones after it. -/
def nextEntry (message : Text) :
    List (Except Text TarEntry) → Except DockerError (TarEntry × List (Except Text TarEntry))
  | [] => .error (.failed message)
  | entry :: entries => do
      let entry ← orFailed message entry
      return (entry, entries)

def sniffBundle (file : Except Text File) : Except DockerError BundleKind := do
  let file ← orFailed notABundleMessage file
  let entries ← orFailed notABundleMessage (lib.entries file)
  let (first, _) ← nextEntry notABundleMessage entries
  let entryPath ← orFailed notABundleMessage first.path
  if entryPath = manifestEntry then
    return .bundle
  else
    return .legacy

/-- All the bytes of an entry. -/
def readToEnd : List (Except Text (List UInt8)) → Except Text (List UInt8)
  | [] => .ok []
  | read :: reads => do
      let bytes ← read
      let rest ← readToEnd reads
      return bytes ++ rest

/-- The bytes of the next entry, if it has the expected name and is not too long. -/
def readNamedEntry (entries : List (Except Text TarEntry)) (expectedName : Text) :
    Except DockerError (List UInt8 × List (Except Text TarEntry)) := do
  let (entry, entries) ← nextEntry corruptBundleMessage entries
  let entryPath ← orFailed corruptBundleMessage entry.path
  if entryPath ≠ expectedName ∨ maxHeadEntryBytes < entry.size then
    .error (.failed corruptBundleMessage)
  else
    let data ← orFailed corruptBundleMessage (readToEnd entry.reads)
    return (data, entries)

/-- The refusal of a manifest written by a newer vestad. -/
def newerMessage (formatVersion : UInt32) : Text :=
  "bundle format v".toList ++ Json.printNat formatVersion.toNat ++
    " is newer than this vestad supports; update vestad".toList

def openBundle (file : Except Text File) : Except DockerError (BundleManifest × Text) := do
  let file ← orFailed corruptBundleMessage file
  let entries ← orFailed corruptBundleMessage (lib.entries file)
  let (manifestBytes, entries) ← readNamedEntry entries manifestEntry
  let manifest ← orFailed corruptBundleMessage (lib.fromSlice manifestBytes)
  if bundleFormatVersion < manifest.formatVersion then
    .error (.failed (newerMessage manifest.formatVersion))
  else
    let (constitutionBytes, _) ← readNamedEntry entries constitutionEntry
    match fromUtf8 constitutionBytes with
    | some constitution => return (manifest, constitution)
    | none => .error (.failed (corruptBundleMessage ++ ": invalid utf-8".toList))

/-- Feed the reads to the sink until one gives no bytes. -/
def pump {σ : Type} (sink : σ → List UInt8 → Except DockerError σ) :
    List (Except Text (List UInt8)) → σ → Except DockerError σ
  | [], s => .ok s
  | read :: reads, s => do
      let bytes ← orFailed corruptBundleMessage read
      if bytes = [] then
        return s
      else
        let s ← sink s bytes
        pump sink reads s

def readBundleImage {σ : Type}
    (file : Except Text File) (sink : σ → List UInt8 → Except DockerError σ) (s : σ) :
    Except DockerError σ := do
  let file ← orFailed corruptBundleMessage file
  let entries ← orFailed corruptBundleMessage (lib.entries file)
  let (_, entries) ← readNamedEntry entries manifestEntry
  let (_, entries) ← readNamedEntry entries constitutionEntry
  let (entry, _) ← nextEntry corruptBundleMessage entries
  let entryPath ← orFailed corruptBundleMessage entry.path
  if entryPath ≠ imageEntry then
    .error (.failed corruptBundleMessage)
  else
    pump sink entry.reads s

/-- The sink that collects the bytes. -/
def collect (received bytes : List UInt8) : Except DockerError (List UInt8) :=
  .ok (received ++ bytes)

end Bundle

/-! ## Reading what was written -/

theorem of_orFailed
    {α : Type} {context : Text} {x : Except Text α} {a : α}
    (h : orFailed context x = .ok a) :
    x = .ok a := by
  cases x with
  | error err => exact nomatch h
  | ok a' => rw [Except.ok.inj h]

theorem readToEnd_ok (chunks : List (List UInt8)) :
    readToEnd (chunks.map .ok) = .ok chunks.flatten := by
  induction chunks with
  | nil => rfl
  | cons chunk chunks ih =>
      rw [List.map_cons, readToEnd, ih]
      rfl

/-- A written entry is read whole when it has the expected name and is within the cap. -/
theorem readNamedEntry_readsBack
    {name : Text} {data : List UInt8} {read : Except Text TarEntry}
    (h : ReadsBack (name, data) read)
    (rest : List (Except Text TarEntry)) (expectedName : Text) :
    readNamedEntry (read :: rest) expectedName =
      if name ≠ expectedName ∨ maxHeadEntryBytes < data.length then
        .error (.failed corruptBundleMessage)
      else
        .ok (data, rest) := by
  obtain ⟨chunks, rfl, hflatten, -⟩ := h
  change (if name ≠ expectedName ∨ maxHeadEntryBytes < data.length then
      Except.error (DockerError.failed corruptBundleMessage)
    else do
      let bytes ← orFailed corruptBundleMessage (readToEnd (chunks.map .ok))
      return (bytes, rest)) = _
  rw [readToEnd_ok, hflatten]
  rfl

/-- Non-empty reads are handed to the sink one by one. -/
theorem pump_ok
    {σ : Type} {chunks : List (List UInt8)}
    (hne : [] ∉ chunks)
    (sink : σ → List UInt8 → Except DockerError σ) (s : σ) :
    pump sink (chunks.map .ok) s = chunks.foldlM sink s := by
  induction chunks generalizing s with
  | nil => rfl
  | cons chunk chunks ih =>
      obtain ⟨hchunk, hrest⟩ := not_or.1 (mt List.mem_cons.2 hne)
      have hpump : pump sink ((chunk :: chunks).map .ok) s =
          (sink s chunk >>= pump sink (chunks.map .ok)) := by
        change (if chunk = [] then Except.ok s
          else sink s chunk >>= pump sink (chunks.map .ok)) = _
        rw [if_neg fun hnil => hchunk hnil.symm]
      rw [hpump, List.foldlM_cons, funext (ih hrest)]

theorem foldlM_collect (chunks : List (List UInt8)) (received : List UInt8) :
    chunks.foldlM collect received = .ok (received ++ chunks.flatten) := by
  induction chunks generalizing received with
  | nil =>
      rw [List.flatten_nil, List.append_nil]
      rfl
  | cons chunk chunks ih =>
      rw [List.flatten_cons, ← List.append_assoc, ← ih]
      rfl

section Written

variable {File : Type}
variable {lib : Library File}
variable {disk : Disk}
variable {manifest : BundleManifest} {constitution : Text} {image : List UInt8}

/-- The archive of a bundle. -/
def bundleOf (lib : Library File) (manifestBytes : List UInt8) (constitution : Text)
    (image : List UInt8) : File :=
  lib.archive
    [(manifestEntry, manifestBytes), (constitutionEntry, utf8 constitution), (imageEntry, image)]

/-- A write that succeeds leaves the archive of the three entries. -/
theorem of_writeBundle
    (h : (writeBundle lib disk manifest constitution image).2 = .ok ()) :
    ∃ manifestBytes, lib.toVec manifest = .ok manifestBytes ∧
      (writeBundle lib disk manifest constitution image).1 =
        some (bundleOf lib manifestBytes constitution image) := by
  cases hinner : writeBundleInner lib disk manifest constitution image with
  | error err => simp [writeBundle, hinner] at h
  | ok written =>
      have hwritten : (writeBundle lib disk manifest constitution image).1 = some written := by
        simp [writeBundle, hinner]
      obtain ⟨-, -, hinner⟩ := ok_of_bind hinner
      obtain ⟨manifestBytes, hbytes, hinner⟩ := ok_of_bind hinner
      obtain ⟨-, -, hinner⟩ := ok_of_bind hinner
      obtain ⟨-, -, hinner⟩ := ok_of_bind hinner
      obtain ⟨-, -, hinner⟩ := ok_of_bind hinner
      obtain ⟨-, -, hinner⟩ := ok_of_bind hinner
      obtain ⟨-, -, hinner⟩ := ok_of_bind hinner
      obtain ⟨-, -, hinner⟩ := ok_of_bind hinner
      obtain ⟨-, -, hinner⟩ := ok_of_bind hinner
      exact ⟨manifestBytes, of_orFailed hbytes, by rw [hwritten, ← Except.ok.inj hinner]; rfl⟩

variable (constitution image) in
/-- The entries of a bundle as its readers see them. -/
theorem Library.Lawful.entries_bundleOf
    (hlib : lib.Lawful)
    (manifestBytes : List UInt8) :
    ∃ first second third,
      lib.entries (bundleOf lib manifestBytes constitution image) = .ok [first, second, third] ∧
      ReadsBack (manifestEntry, manifestBytes) first ∧
      ReadsBack (constitutionEntry, utf8 constitution) second ∧
      ReadsBack (imageEntry, image) third := by
  obtain ⟨read, hread, hall⟩ := hlib.archive
    [(manifestEntry, manifestBytes), (constitutionEntry, utf8 constitution), (imageEntry, image)]
  obtain ⟨first, rest₁, hfirst, hall₁, rfl⟩ := List.forall₂_cons_left_iff.1 hall
  obtain ⟨second, rest₂, hsecond, hall₂, rfl⟩ := List.forall₂_cons_left_iff.1 hall₁
  obtain ⟨third, rest₃, hthird, hall₃, rfl⟩ := List.forall₂_cons_left_iff.1 hall₂
  obtain rfl := List.forall₂_nil_left_iff.1 hall₃
  exact ⟨first, second, third, hread, hfirst, hsecond, hthird⟩

theorem sniffBundle_bundleOf
    (hlib : lib.Lawful)
    (manifestBytes : List UInt8) :
    sniffBundle lib (.ok (bundleOf lib manifestBytes constitution image)) = .ok .bundle := by
  obtain ⟨first, second, third, hentries, ⟨chunks, rfl, -⟩, -⟩ :=
    hlib.entries_bundleOf constitution image manifestBytes
  change (orFailed notABundleMessage (lib.entries _) >>= _) = _
  rw [hentries]
  rfl

/-- What opening a bundle gives: the length of each head entry and the version are checked. -/
theorem openBundle_bundleOf
    (hlib : lib.Lawful)
    {manifestBytes : List UInt8}
    (hbytes : lib.toVec manifest = .ok manifestBytes) :
    openBundle lib (.ok (bundleOf lib manifestBytes constitution image)) =
      if maxHeadEntryBytes < manifestBytes.length then
        .error (.failed corruptBundleMessage)
      else if bundleFormatVersion < manifest.formatVersion then
        .error (.failed (newerMessage manifest.formatVersion))
      else if maxHeadEntryBytes < (utf8 constitution).length then
        .error (.failed corruptBundleMessage)
      else
        .ok (manifest, constitution) := by
  obtain ⟨first, second, third, hentries, hfirst, hsecond, -⟩ :=
    hlib.entries_bundleOf constitution image manifestBytes
  change (orFailed corruptBundleMessage (lib.entries _) >>= _) = _
  rw [hentries]
  change (readNamedEntry [first, second, third] manifestEntry >>= _) = _
  rw [readNamedEntry_readsBack hfirst]
  by_cases hmanifest : maxHeadEntryBytes < manifestBytes.length
  · simp only [hmanifest, ne_eq, not_true_eq_false, false_or, if_true]
    rfl
  · simp only [hmanifest, ne_eq, not_true_eq_false, false_or, if_false]
    change (orFailed corruptBundleMessage (lib.fromSlice manifestBytes) >>= _) = _
    rw [hlib.manifest manifest manifestBytes hbytes]
    change (if bundleFormatVersion < manifest.formatVersion then _
      else readNamedEntry [second, third] constitutionEntry >>= _) = _
    rw [readNamedEntry_readsBack hsecond]
    by_cases hconstitution : maxHeadEntryBytes < (utf8 constitution).length
    · simp only [hconstitution, ne_eq, not_true_eq_false, false_or, if_true]
      rfl
    · simp only [hconstitution, ne_eq, not_true_eq_false, false_or, if_false]
      change (if bundleFormatVersion < manifest.formatVersion then _
        else match fromUtf8 (utf8 constitution) with
          | some constitution => Except.ok (manifest, constitution)
          | none => _) = _
      rw [fromUtf8_utf8]

variable (constitution image) in
/--
What reading the image gives: the head entries are read over, their lengths checked, and
the sink is handed the image in pieces.
-/
theorem readBundleImage_bundleOf
    (hlib : lib.Lawful)
    (manifestBytes : List UInt8) :
    ∃ chunks : List (List UInt8), chunks.flatten = image ∧
      ∀ {σ : Type} (sink : σ → List UInt8 → Except DockerError σ) (s : σ),
        readBundleImage lib (.ok (bundleOf lib manifestBytes constitution image)) sink s =
          if maxHeadEntryBytes < manifestBytes.length ∨
              maxHeadEntryBytes < (utf8 constitution).length then
            .error (.failed corruptBundleMessage)
          else
            chunks.foldlM sink s := by
  obtain ⟨first, second, third, hentries, hfirst, hsecond, ⟨chunks, rfl, himage, hne⟩⟩ :=
    hlib.entries_bundleOf constitution image manifestBytes
  refine ⟨chunks, himage, fun sink s => ?_⟩
  change (orFailed corruptBundleMessage (lib.entries _) >>= _) = _
  rw [hentries]
  change (readNamedEntry [first, second, _] manifestEntry >>= _) = _
  rw [readNamedEntry_readsBack hfirst]
  by_cases hmanifest : maxHeadEntryBytes < manifestBytes.length
  · simp only [hmanifest, ne_eq, not_true_eq_false, false_or, true_or, if_true]
    rfl
  · simp only [hmanifest, ne_eq, not_true_eq_false, false_or, if_false]
    change (readNamedEntry [second, _] constitutionEntry >>= _) = _
    rw [readNamedEntry_readsBack hsecond]
    by_cases hconstitution : maxHeadEntryBytes < (utf8 constitution).length
    · simp only [hconstitution, ne_eq, not_true_eq_false, false_or, if_true]
      rfl
    · simp only [hconstitution, ne_eq, not_true_eq_false, false_or, if_false]
      change pump sink (chunks.map .ok) s = _
      rw [pump_ok hne]

variable (lib manifest constitution) in
/-- Both entries that are read whole are as short as the readers ask. -/
def HeadWithinCap : Prop :=
  (∀ manifestBytes, lib.toVec manifest = .ok manifestBytes →
    manifestBytes.length ≤ maxHeadEntryBytes) ∧
  (utf8 constitution).length ≤ maxHeadEntryBytes

/-- A head within the cap is opened, unless the format is newer. -/
theorem openBundle_of_headWithinCap
    (hlib : lib.Lawful)
    {manifestBytes : List UInt8}
    (hbytes : lib.toVec manifest = .ok manifestBytes)
    (hcap : HeadWithinCap lib manifest constitution) :
    openBundle lib (.ok (bundleOf lib manifestBytes constitution image)) =
      if bundleFormatVersion < manifest.formatVersion then
        .error (.failed (newerMessage manifest.formatVersion))
      else
        .ok (manifest, constitution) := by
  rw [openBundle_bundleOf hlib hbytes, if_neg (Nat.not_lt.2 (hcap.1 manifestBytes hbytes)),
    if_neg (Nat.not_lt.2 hcap.2)]

/-- What an export writes is never newer, so a head within the cap is opened. -/
theorem openBundle_buildManifest
    {name vestadVersion now : Text} {userDesired : UserDesired} {mounts : List HostMount}
    (hlib : lib.Lawful)
    (hmanifest : manifest = buildManifest vestadVersion name userDesired mounts now)
    {manifestBytes : List UInt8}
    (hbytes : lib.toVec manifest = .ok manifestBytes)
    (hcap : HeadWithinCap lib manifest constitution) :
    openBundle lib (.ok (bundleOf lib manifestBytes constitution image)) =
      .ok (manifest, constitution) := by
  have hversion : ¬bundleFormatVersion < manifest.formatVersion := by
    rw [hmanifest]
    exact UInt32.lt_irrefl bundleFormatVersion
  rw [openBundle_of_headWithinCap hlib hbytes hcap, if_neg hversion]

/-- A head within the cap does not stand before the image. -/
theorem readBundleImage_of_headWithinCap
    (hlib : lib.Lawful)
    {manifestBytes : List UInt8}
    (hbytes : lib.toVec manifest = .ok manifestBytes)
    (hcap : HeadWithinCap lib manifest constitution) :
    readBundleImage lib (.ok (bundleOf lib manifestBytes constitution image)) collect [] =
      .ok image := by
  obtain ⟨chunks, himage, hread⟩ :=
    readBundleImage_bundleOf constitution image hlib manifestBytes
  have hwithin : ¬(maxHeadEntryBytes < manifestBytes.length ∨
      maxHeadEntryBytes < (utf8 constitution).length) :=
    not_or.2 ⟨Nat.not_lt.2 (hcap.1 manifestBytes hbytes), Nat.not_lt.2 hcap.2⟩
  rw [hread, if_neg hwithin, foldlM_collect, himage, List.nil_append]

/--
A bundle that was written is told to be one.  With both head entries within the cap its
image reads back, and so do its manifest and constitution, unless the format is newer.
-/
theorem bundle_round_trip
    (hlib : lib.Lawful)
    (hwrite : (writeBundle lib disk manifest constitution image).2 = .ok ()) :
    ∃ file, (writeBundle lib disk manifest constitution image).1 = some file ∧
      sniffBundle lib (.ok file) = .ok .bundle ∧
      (HeadWithinCap lib manifest constitution →
        readBundleImage lib (.ok file) collect [] = .ok image ∧
        openBundle lib (.ok file) =
          if bundleFormatVersion < manifest.formatVersion then
            .error (.failed (newerMessage manifest.formatVersion))
          else
            .ok (manifest, constitution)) := by
  obtain ⟨manifestBytes, hbytes, hfile⟩ := of_writeBundle hwrite
  refine ⟨_, hfile, sniffBundle_bundleOf hlib manifestBytes, fun hcap => ?_⟩
  constructor
  · exact readBundleImage_of_headWithinCap hlib hbytes hcap
  · exact openBundle_of_headWithinCap hlib hbytes hcap

end Written

/-! ## A library with two manifests -/

def Disk.sound : Disk :=
  ⟨.ok (), fun _ => .ok (), .ok (), .ok (), .ok (), .ok (), .ok ()⟩

def sampleManifest (formatVersion : UInt32) : BundleManifest where
  formatVersion := formatVersion
  agentName := "ada".toList
  vestadVersion := "0.1.0".toList
  createdAt := "2026-01-01T00:00:00Z".toList
  userDesired := .running
  mounts := []

def sampleBytes (formatVersion : UInt32) : List UInt8 :=
  utf8 ("\x7b\"format_version\":".toList ++ Json.printNat formatVersion.toNat ++
    (",\"agent_name\":\"ada\",\"vestad_version\":\"0.1.0\"," ++
      "\"created_at\":\"2026-01-01T00:00:00Z\"," ++
      "\"user_desired\":\"running\",\"mounts\":[]\x7d").toList)

/-- Archives are their entries, and the codec knows the sample manifests of two versions. -/
def sampleLibrary : Library (List (Text × List UInt8)) where
  toVec manifest :=
    if manifest = sampleManifest 1 then .ok (sampleBytes 1)
    else if manifest = sampleManifest 2 then .ok (sampleBytes 2)
    else .error "unknown manifest".toList
  fromSlice bytes :=
    if bytes = sampleBytes 1 then .ok (sampleManifest 1)
    else if bytes = sampleBytes 2 then .ok (sampleManifest 2)
    else .error "unknown bytes".toList
  archive written := written
  entries file := .ok (file.map fun written =>
    .ok ⟨.ok written.1, written.2.length, ([written.2].filter (· ≠ [])).map .ok⟩)

theorem toVec_sampleManifest_one :
    sampleLibrary.toVec (sampleManifest 1) = .ok (sampleBytes 1) := by
  simp only [sampleLibrary, if_true]

theorem toVec_sampleManifest_two :
    sampleLibrary.toVec (sampleManifest 2) = .ok (sampleBytes 2) := by
  have hne : sampleManifest 2 ≠ sampleManifest 1 := by decide
  simp only [sampleLibrary, if_neg hne, if_true]

theorem sampleLibrary_lawful : sampleLibrary.Lawful where
  manifest manifest bytes h := by
    have hne : sampleBytes 2 ≠ sampleBytes 1 := by decide +kernel
    by_cases hone : manifest = sampleManifest 1
    · have hbytes : bytes = sampleBytes 1 := (Except.ok.inj ((if_pos hone).symm.trans h)).symm
      rw [hbytes, hone]
      simp only [sampleLibrary, if_true]
    · have h := (if_neg hone).symm.trans h
      by_cases htwo : manifest = sampleManifest 2
      · have hbytes : bytes = sampleBytes 2 := (Except.ok.inj ((if_pos htwo).symm.trans h)).symm
        rw [hbytes, htwo]
        simp only [sampleLibrary, if_neg hne, if_true]
      · exact nomatch (if_neg htwo).symm.trans h
  archive written := by
    refine ⟨_, rfl, ?_⟩
    induction written with
    | nil => exact .nil
    | cons entry written ih =>
        refine .cons ⟨[entry.2].filter (· ≠ []), rfl, ?_, ?_⟩ ih
        · by_cases hempty : entry.2 = [] <;> simp [hempty]
        · simp [List.mem_filter]

/-- On a sound disk the library packs either sample manifest with any constitution. -/
theorem writeBundle_sample
    {formatVersion : UInt32}
    (hbytes : sampleLibrary.toVec (sampleManifest formatVersion) =
      .ok (sampleBytes formatVersion))
    (constitution : Text) (image : List UInt8) :
    writeBundle sampleLibrary Disk.sound (sampleManifest formatVersion) constitution image =
      (some (bundleOf sampleLibrary (sampleBytes formatVersion) constitution image), .ok ()) := by
  have hinner : writeBundleInner sampleLibrary Disk.sound (sampleManifest formatVersion)
      constitution image =
        .ok (bundleOf sampleLibrary (sampleBytes formatVersion) constitution image) := by
    unfold writeBundleInner
    rw [hbytes]
    rfl
  rw [writeBundle, hinner]

theorem bundle_round_trip_sample :
    ∃ file,
      (writeBundle sampleLibrary Disk.sound (sampleManifest 1) "be kind".toList [1, 2, 3]).1 =
        some file ∧
      sniffBundle sampleLibrary (.ok file) = .ok .bundle ∧
      readBundleImage sampleLibrary (.ok file) collect [] = .ok [1, 2, 3] ∧
      openBundle sampleLibrary (.ok file) = .ok (sampleManifest 1, "be kind".toList) := by
  have hcap : HeadWithinCap sampleLibrary (sampleManifest 1) "be kind".toList := by
    constructor
    · intro manifestBytes hbytes
      rw [← Except.ok.inj (toVec_sampleManifest_one.symm.trans hbytes)]
      decide +kernel
    · decide +kernel
  obtain ⟨file, hfile, hsniff, hread⟩ :=
    bundle_round_trip sampleLibrary_lawful
      (congrArg Prod.snd (writeBundle_sample toVec_sampleManifest_one "be kind".toList [1, 2, 3]))
  obtain ⟨himage, hopen⟩ := hread hcap
  exact ⟨file, hfile, hsniff, himage, hopen.trans (if_neg (by decide))⟩

/-- One byte more than the readers accept. -/
def longConstitution : Text := List.replicate (maxHeadEntryBytes + 1) 'a'

theorem maxHeadEntryBytes_lt_longConstitution :
    maxHeadEntryBytes < (utf8 longConstitution).length := by
  have hutf8 : ∀ n, (utf8 (List.replicate n 'a')).length = n := by
    intro n
    induction n with
    | zero => rfl
    | succ n ih =>
        have hchar : (String.utf8EncodeChar 'a').length = 1 := by decide
        rw [List.replicate_succ, utf8, List.flatMap_cons, List.length_append, hchar, Nat.add_comm]
        exact congrArg (· + 1) ih
  rw [longConstitution, hutf8]
  exact Nat.lt_succ_self _

/--
Two bundles that are written and not read back: one of a newer format, and one whose
constitution is too long.
-/
theorem round_trip_refused :
    (sampleLibrary.Lawful ∧
      (writeBundle sampleLibrary Disk.sound (sampleManifest 2) "be kind".toList [1, 2, 3]).2 =
        .ok () ∧
      (writeBundle sampleLibrary Disk.sound (sampleManifest 1) longConstitution [1, 2, 3]).2 =
        .ok ()) ∧
    openBundle sampleLibrary
        (.ok (bundleOf sampleLibrary (sampleBytes 2) "be kind".toList [1, 2, 3])) =
      .error (.failed (newerMessage 2)) ∧
    openBundle sampleLibrary
        (.ok (bundleOf sampleLibrary (sampleBytes 1) longConstitution [1, 2, 3])) =
      .error (.failed corruptBundleMessage) ∧
    readBundleImage sampleLibrary
        (.ok (bundleOf sampleLibrary (sampleBytes 1) longConstitution [1, 2, 3])) collect [] =
      .error (.failed corruptBundleMessage) := by
  have hone := toVec_sampleManifest_one
  have htwo := toVec_sampleManifest_two
  refine ⟨⟨sampleLibrary_lawful, by rw [writeBundle_sample htwo], by rw [writeBundle_sample hone]⟩,
    ?_, ?_, ?_⟩
  · rw [openBundle_bundleOf sampleLibrary_lawful htwo, if_neg (by decide +kernel),
      if_pos (by decide)]
    rfl
  · rw [openBundle_bundleOf sampleLibrary_lawful hone, if_neg (by decide +kernel),
      if_neg (by decide), if_pos maxHeadEntryBytes_lt_longConstitution]
  · obtain ⟨chunks, -, hread⟩ :=
      readBundleImage_bundleOf longConstitution [1, 2, 3] sampleLibrary_lawful (sampleBytes 1)
    rw [hread, if_pos (.inr maxHeadEntryBytes_lt_longConstitution)]

end AgentBundle
end Vestad
end Vesta
