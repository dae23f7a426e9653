import Vesta.Lib.Json
import Vesta.Lib.Machine

/-!
# The user-notification log

Every delivered notification is appended to a file, one JSON line per entry, and
kept in memory.  A start of the gateway reads the file back and skips what does not
read as an entry.  The file is never rewritten.

A line is printed as the compact JSON of its fields in order.  Reading a line back is
library code and a parameter, `decode`.  An append that completes writes the whole
line; a process that dies in an append leaves some of the line's first bytes.
-/

namespace Vesta
namespace Vestad
namespace UserNotificationLog

open Lib
open Lib.Json

structure LoggedUserNotification where
  id : Nat
  at_ : Nat
  agent : Text
  kind : Text
  title : Text
  body : Text
deriving DecidableEq

/-- The arguments of an append, with the second it is made in. -/
structure Request where
  agent : Text
  kind : Text
  title : Text
  body : Text
  now : Nat

/-- `serde_json::to_string` of an entry. -/
def toJson (entry : LoggedUserNotification) : Text :=
  printObject
    [("id".toList, printNat entry.id),
      ("at".toList, printNat entry.at_),
      ("agent".toList, printString entry.agent),
      ("kind".toList, printString entry.kind),
      ("title".toList, printString entry.title),
      ("body".toList, printString entry.body)]

/-- The line of an entry. -/
def line (entry : LoggedUserNotification) : Text := toJson entry ++ ['\n']

/-- A line without the carriage return before its line feed. -/
def stripCarriageReturn (text : Text) : Text :=
  if text.getLast? = some '\r' then text.dropLast else text

/-- `str::lines`: a last piece that no line feed ends counts unless it is empty. -/
def lines (content : Text) : List Text :=
  let pieces := content.splitOn '\n'
  pieces.dropLast.map stripCarriageReturn ++
    pieces.getLast?.toList.filter fun piece => piece ≠ []

section Log

variable (decode : Text → Option LoggedUserNotification)

/-- The entries read from the file at a start; a file that is no text reads as empty. -/
def load (file : List UInt8) : List LoggedUserNotification :=
  match fromUtf8 file with
  | some content => (lines content).filterMap decode
  | none => []

/-- The entry of an append: the id after the last one's. -/
def newEntry
    (entries : List LoggedUserNotification)
    (request : Request) :
    LoggedUserNotification where
  id := match entries.getLast? with
    | none => 1
    | some last => last.id + 1
  at_ := request.now
  agent := request.agent
  kind := request.kind
  title := request.title
  body := request.body

/-- The file, the entries in memory and, of every completed append, the entry. -/
structure World where
  file : List UInt8
  entries : List LoggedUserNotification
  stored : List LoggedUserNotification
deriving DecidableEq

def initial : World where
  file := []
  entries := []
  stored := []

/-- An append that completes. -/
def append (w : World) (request : Request) : World × LoggedUserNotification :=
  let entry := newEntry w.entries request
  ({ file := w.file ++ utf8 (line entry)
     entries := w.entries ++ [entry]
     stored := w.stored ++ [entry] },
    entry)

/-- Whether an entry with this kind and title is logged. -/
def isLogged (entries : List LoggedUserNotification) (kind title : Text) : Bool :=
  entries.any fun entry => entry.kind = kind && entry.title = title

/-- Append unless an entry with this kind and title is logged. -/
def appendOnce (w : World) (request : Request) : World × Option LoggedUserNotification :=
  if isLogged w.entries request.kind request.title then
    (w, none)
  else
    let (w, entry) := append w request
    (w, some entry)

inductive Label
  | append (request : Request)
  | appendOnce (request : Request)
  /-- The process dies in an append with some bytes written, and starts again. -/
  | crash (request : Request) (bytes : Nat)
  | restart

def step (w : World) : Label → Option World
  | .append request => some (append w request).1
  | .appendOnce request => some (appendOnce w request).1
  | .crash request bytes =>
      let written := utf8 (line (newEntry w.entries request))
      if bytes < written.length then
        let file := w.file ++ written.take bytes
        some { w with file, entries := load decode file }
      else
        none
  | .restart => some { w with entries := load decode w.file }

def machine : Machine World Label where
  start w := w = initial
  step := step decode

end Log

/-- Every entry of a completed append is loaded, ids increase in the log and over all
completed appends, and an append of a logged key stores nothing. -/
structure Durable (w : World) : Prop where
  kept : ∀ entry ∈ w.stored, entry ∈ w.entries
  increasing : w.entries.Pairwise fun a b => a.id < b.id
  assigned : w.stored.Pairwise fun a b => a.id < b.id
  once :
    ∀ request : Request,
      (∃ entry ∈ w.entries, entry.kind = request.kind ∧ entry.title = request.title) →
        appendOnce w request = (w, none)

/-- The file is empty or its last line is ended. -/
def lineEnded (file : List UInt8) : Bool := file.getLast?.all fun b => b = 10

/-- `str::is_char_boundary`. -/
def isCharBoundary (text : Text) (bytes : Nat) : Bool :=
  (List.range (text.length + 1)).any fun n => (utf8 (text.take n)).length = bytes

/-- The label writes nothing to a file whose last line is torn, and cuts no character. -/
def Intact (w : World) : Label → Prop
  | .append _ => lineEnded w.file
  | .appendOnce request =>
      isLogged w.entries request.kind request.title ∨ lineEnded w.file
  | .crash request bytes =>
      bytes = 0 ∨
        lineEnded w.file ∧ isCharBoundary (line (newEntry w.entries request)) bytes
  | .restart => True

section Lines

theorem le_toNat_of_mem_toJson
    {entry : LoggedUserNotification} {c : Char}
    (h : c ∈ toJson entry) :
    32 ≤ c.toNat := by
  refine le_toNat_of_mem_printObject (fun field hfield => ?_) h
  simp only [List.mem_cons, List.not_mem_nil, or_false] at hfield
  rcases hfield with rfl | rfl | rfl | rfl | rfl | rfl
  · exact fun _ => le_toNat_of_mem_printNat
  · exact fun _ => le_toNat_of_mem_printNat
  · exact fun _ => le_toNat_of_mem_printString
  · exact fun _ => le_toNat_of_mem_printString
  · exact fun _ => le_toNat_of_mem_printString
  · exact fun _ => le_toNat_of_mem_printString

theorem lineFeed_not_mem_toJson (entry : LoggedUserNotification) : '\n' ∉ toJson entry :=
  fun h => absurd (le_toNat_of_mem_toJson h) (by decide)

theorem stripCarriageReturn_toJson (entry : LoggedUserNotification) :
    stripCarriageReturn (toJson entry) = toJson entry := by
  rw [stripCarriageReturn, if_neg]
  intro hlast
  exact absurd (le_toNat_of_mem_toJson (List.mem_of_getLast? hlast)) (by decide)

/-- Whole lines and a last piece, split at the line feeds. -/
theorem splitOn_lines
    (stored : List LoggedUserNotification) {torn : Text}
    (htorn : '\n' ∉ torn) :
    (stored.flatMap line ++ torn).splitOn '\n' = stored.map toJson ++ [torn] := by
  induction stored with
  | nil => exact List.splitOn_eq_singleton htorn
  | cons entry stored ih =>
      have hline :
          (entry :: stored).flatMap line ++ torn =
            toJson entry ++ '\n' :: (stored.flatMap line ++ torn) := by
        simp [line]
      rw [hline, List.splitOn_append_cons_self_of_not_mem (lineFeed_not_mem_toJson entry), ih]
      rfl

variable {decode : Text → Option LoggedUserNotification}

theorem load_utf8 (content : Text) :
    load decode (utf8 content) = (lines content).filterMap decode := by
  rw [load, fromUtf8_utf8]

/-- What is loaded from whole lines and a torn piece of a line. -/
theorem load_lines
    (hround : ∀ entry, decode (toJson entry) = some entry)
    (stored : List LoggedUserNotification) {torn : Text}
    (htorn : '\n' ∉ torn) :
    load decode (utf8 (stored.flatMap line ++ torn)) =
      stored ++ (if torn = [] then none else decode torn).toList := by
  have hstored : (stored.map toJson).map stripCarriageReturn = stored.map toJson := by
    rw [List.map_map]
    exact List.map_congr_left fun entry _ => stripCarriageReturn_toJson entry
  have hdecode : (stored.map toJson).filterMap decode = stored := by
    rw [List.filterMap_map]
    have hsome : (decode ∘ toJson) = some := funext hround
    rw [hsome, List.filterMap_some]
  have hlines :
      lines (stored.flatMap line ++ torn) =
        stored.map toJson ++ [torn].filter fun piece => piece ≠ [] := by
    rw [lines, splitOn_lines stored htorn, List.dropLast_concat, hstored, List.getLast?_concat]
    rfl
  rw [load_utf8, hlines, List.filterMap_append, hdecode]
  by_cases hempty : torn = []
  · simp [hempty]
  · cases hpiece : decode torn <;> simp [hempty, hpiece]

end Lines

section Reading

/-- A reader of the text that `toJson` prints, at the front of a longer one. -/
def readEntry (text : Text) : Option (LoggedUserNotification × Text) := do
  let text ← readChar openBrace text
  let (id, text) ← readField "id".toList readNat text
  let text ← readChar ',' text
  let (at_, text) ← readField "at".toList readNat text
  let text ← readChar ',' text
  let (agent, text) ← readField "agent".toList readString text
  let text ← readChar ',' text
  let (kind, text) ← readField "kind".toList readString text
  let text ← readChar ',' text
  let (title, text) ← readField "title".toList readString text
  let text ← readChar ',' text
  let (body, text) ← readField "body".toList readString text
  let text ← readChar closeBrace text
  some (⟨id, at_, agent, kind, title, body⟩, text)

/-- An entry from a whole line, when it is one that `toJson` prints. -/
def fromLine (text : Text) : Option LoggedUserNotification :=
  match readEntry text with
  | some (entry, _) => if toJson entry = text then some entry else none
  | none => none

theorem readEntry_toJson (entry : LoggedUserNotification) (rest : Text) :
    readEntry (toJson entry ++ rest) = some (entry, rest) := by
  have hcomma : ∀ rest : Text, ∀ c ∈ (',' :: rest).head?, c.isDigit = false := by
    rintro rest c ⟨⟩
    decide
  simp only [toJson, printObject, printFields, List.cons_append, List.append_assoc,
    List.nil_append, readEntry]
  simp only [readChar, List.head?_cons, if_true, List.tail_cons, Option.bind_eq_bind,
    Option.bind_some, readField_printField, readNat_printNat _ (hcomma _),
    readString_printString]

theorem fromLine_toJson (entry : LoggedUserNotification) :
    fromLine (toJson entry) = some entry := by
  have hread := readEntry_toJson entry []
  rw [List.append_nil] at hread
  rw [fromLine, hread]
  exact if_pos rfl

theorem fromLine_torn
    (entry : LoggedUserNotification) (piece : Text)
    (hfront : piece <+: toJson entry)
    (hpiece : piece ≠ toJson entry) :
    fromLine piece = none := by
  cases hread : fromLine piece with
  | none => rfl
  | some other =>
      have hother : toJson other = piece := by
        rw [fromLine] at hread
        split at hread
        · split at hread
          · rename_i heq
            cases hread
            exact heq
          · cases hread
        · cases hread
      obtain ⟨rest, hrest⟩ := hfront
      have hwhole := readEntry_toJson entry []
      have hfront := readEntry_toJson other rest
      rw [hother, hrest] at hfront
      rw [List.append_nil, hfront] at hwhole
      cases hwhole
      exact absurd (by rw [← hrest, List.append_nil]) hpiece

end Reading

/-- The file holds the stored entries' lines and a torn piece of the next line; memory
holds the stored entries and the next one when all of it but its line feed is there. -/
structure Sound
    (decode : Text → Option LoggedUserNotification)
    (w : World) :
    Prop where
  file :
    ∃ (next : LoggedUserNotification) (torn : Text),
      torn <+: toJson next ∧
        (∀ entry ∈ w.stored, entry.id < next.id) ∧
          w.file = utf8 (w.stored.flatMap line ++ torn) ∧
            w.entries = w.stored ++ (if torn = [] then none else decode torn).toList
  assigned : w.stored.Pairwise fun a b => a.id < b.id

section Runs

variable {decode : Text → Option LoggedUserNotification}
variable (hround : ∀ entry, decode (toJson entry) = some entry)
variable (htorn : ∀ entry piece, piece <+: toJson entry → piece ≠ toJson entry →
  decode piece = none)

theorem lt_newEntry_id
    {entries : List LoggedUserNotification}
    (h : entries.Pairwise fun a b => a.id < b.id)
    (request : Request) :
    ∀ entry ∈ entries, entry.id < (newEntry entries request).id := by
  rcases List.eq_nil_or_concat entries with rfl | ⟨init, last, rfl⟩
  · simp
  · rw [List.concat_eq_append] at h ⊢
    have hid : (newEntry (init ++ [last]) request).id = last.id + 1 := by
      simp [newEntry]
    intro entry hentry
    rw [hid]
    rcases List.mem_append.1 hentry with hinit | hlast
    · have hlt := (List.pairwise_append.1 h).2.2 entry hinit last (by simp)
      omega
    · rw [List.mem_singleton.1 hlast]
      omega

/-- A last line that is ended leaves no torn piece. -/
theorem torn_eq_nil
    {content torn : Text}
    (hfeed : '\n' ∉ torn)
    (hended : lineEnded (utf8 (content ++ torn)) = true) :
    torn = [] := by
  rcases List.eq_nil_or_concat torn with rfl | ⟨init, c, rfl⟩
  · rfl
  · rw [List.concat_eq_append] at hfeed hended
    have hbytes : utf8 (content ++ (init ++ [c])) =
        utf8 (content ++ init) ++ String.utf8EncodeChar c := by
      rw [← List.append_assoc, utf8_append]
      simp [utf8]
    obtain ⟨b, hb⟩ : ∃ b, (String.utf8EncodeChar c).getLast? = some b :=
      ⟨_, List.getLast?_eq_some_getLast String.utf8EncodeChar_ne_nil⟩
    rw [lineEnded, hbytes, List.getLast?_append, hb, Option.some_or, Option.all_some,
      decide_eq_true_eq] at hended
    rw [hended] at hb
    exact absurd (by simp [eq_lineFeed_of_getLast?_utf8EncodeChar hb]) hfeed

/-- A cut of a line at a character leaves some of the entry's own text. -/
theorem exists_torn_of_cut
    {entry : LoggedUserNotification} {bytes : Nat}
    (hshort : bytes < (utf8 (line entry)).length)
    (hcut : isCharBoundary (line entry) bytes = true) :
    ∃ torn, torn <+: toJson entry ∧ (utf8 (line entry)).take bytes = utf8 torn := by
  obtain ⟨n, -, hn⟩ := List.any_eq_true.1 hcut
  have hlength : (utf8 ((line entry).take n)).length = bytes := of_decide_eq_true hn
  have hn : n ≤ (toJson entry).length := by
    by_contra hlarge
    have hall : (line entry).take n = line entry :=
      List.take_of_length_le (by simp only [line, List.length_append, List.length_singleton]
                                 omega)
    rw [hall] at hlength
    omega
  refine ⟨(toJson entry).take n, List.take_prefix n _, ?_⟩
  have hline : (line entry).take n = (toJson entry).take n := by
    rw [line, List.take_append_of_le_length hn]
  rw [← hlength, ← hline, ← utf8_take_append_drop (line entry) n, List.take_left]

theorem lineFeed_not_mem_of_isPrefix
    {entry : LoggedUserNotification} {torn : Text}
    (h : torn <+: toJson entry) :
    '\n' ∉ torn :=
  fun hmem => lineFeed_not_mem_toJson entry (h.subset hmem)

include hround

/-- Reading a sound file back gives the entries in memory. -/
theorem Sound.load_file
    {w : World}
    (h : Sound decode w) :
    load decode w.file = w.entries := by
  obtain ⟨next, torn, hpiece, -, hfile, hentries⟩ := h.file
  rw [hfile, hentries, load_lines hround _ (lineFeed_not_mem_of_isPrefix hpiece)]

omit hround

/-- A sound file whose last line is ended holds the lines of the entries in memory. -/
theorem Sound.of_lineEnded
    {w : World}
    (h : Sound decode w)
    (hended : lineEnded w.file = true) :
    w.file = utf8 (w.stored.flatMap line) ∧ w.entries = w.stored := by
  obtain ⟨next, torn, hpiece, -, hfile, hentries⟩ := h.file
  rw [hfile] at hended
  have htorn : torn = [] := torn_eq_nil (lineFeed_not_mem_of_isPrefix hpiece) hended
  subst htorn
  exact ⟨by rw [hfile, List.append_nil], by simp [hentries]⟩

theorem Sound.initial : Sound decode initial where
  file :=
    ⟨newEntry [] ⟨[], [], [], [], 0⟩, [], List.nil_prefix, by simp [UserNotificationLog.initial],
      rfl, rfl⟩
  assigned := List.Pairwise.nil

/-- An append to a file whose last line is ended. -/
theorem Sound.append
    {w : World}
    (h : Sound decode w)
    (hended : lineEnded w.file = true)
    (request : Request) :
    Sound decode (append w request).1 := by
  obtain ⟨hfile, hentries⟩ := h.of_lineEnded hended
  have hassigned : (w.stored ++ [newEntry w.entries request]).Pairwise fun a b => a.id < b.id := by
    rw [hentries, List.pairwise_append]
    refine ⟨h.assigned, List.pairwise_singleton _ _, fun a ha b hb => ?_⟩
    rw [List.mem_singleton.1 hb]
    exact lt_newEntry_id h.assigned request a ha
  constructor
  · refine ⟨newEntry (w.stored ++ [newEntry w.entries request]) request, [], List.nil_prefix,
      lt_newEntry_id hassigned request, ?_, ?_⟩
    · simp [UserNotificationLog.append, hfile, utf8_append]
    · simp [UserNotificationLog.append, hentries]
  · exact hassigned

include hround

/-- Reading the file back again changes nothing. -/
theorem Sound.restart
    {w : World}
    (h : Sound decode w) :
    { w with entries := load decode w.file } = w := by
  rw [h.load_file hround]

/-- A crash in an append to a file whose last line is ended. -/
theorem Sound.crash
    {w : World}
    (h : Sound decode w)
    (hended : lineEnded w.file = true)
    {request : Request} {bytes : Nat}
    (hshort : bytes < (utf8 (line (newEntry w.entries request))).length)
    (hcut : isCharBoundary (line (newEntry w.entries request)) bytes = true) :
    Sound decode
      { w with
        file := w.file ++ (utf8 (line (newEntry w.entries request))).take bytes
        entries :=
          load decode (w.file ++ (utf8 (line (newEntry w.entries request))).take bytes) } := by
  obtain ⟨hfile, hentries⟩ := h.of_lineEnded hended
  obtain ⟨torn, hpiece, htake⟩ := exists_torn_of_cut hshort hcut
  rw [htake, hfile, ← utf8_append]
  constructor
  · refine ⟨newEntry w.entries request, torn, hpiece, ?_, rfl, ?_⟩
    · rw [hentries]
      exact lt_newEntry_id h.assigned request
    · exact load_lines hround _ (lineFeed_not_mem_of_isPrefix hpiece)
  · exact h.assigned

/-- Steps that meet the guard keep the file sound. -/
theorem Sound.step
    {w w' : World} {label : Label}
    (h : Sound decode w)
    (hintact : Intact w label)
    (hstep : step decode w label = some w') :
    Sound decode w' := by
  cases label with
  | append request =>
      cases hstep
      exact h.append hintact request
  | appendOnce request =>
      cases hstep
      rw [appendOnce]
      split
      · exact h
      · rename_i hlogged
        exact h.append (hintact.resolve_left hlogged) request
  | crash request bytes =>
      simp only [UserNotificationLog.step] at hstep
      split at hstep
      · rename_i hshort
        cases hstep
        rcases hintact with rfl | ⟨hended, hcut⟩
        · rw [List.take_zero, List.append_nil, h.restart hround]
          exact h
        · exact h.crash hround hended hshort hcut
      · cases hstep
  | restart =>
      cases hstep
      rw [h.restart hround]
      exact h

include htorn

/-- What a torn piece of a line reads as. -/
theorem decode_torn
    {next : LoggedUserNotification} {torn : Text}
    (hpiece : torn <+: toJson next) :
    decode torn = none ∨ decode torn = some next := by
  by_cases hwhole : torn = toJson next
  · exact Or.inr (by rw [hwhole, hround])
  · exact Or.inl (htorn next torn hpiece hwhole)

theorem Sound.durable
    {w : World}
    (h : Sound decode w) :
    Durable w := by
  obtain ⟨next, torn, hpiece, hnext, -, hentries⟩ := h.file
  constructor
  · intro entry hentry
    rw [hentries]
    exact List.mem_append_left _ hentry
  · rw [hentries, List.pairwise_append]
    refine ⟨h.assigned, ?_, ?_⟩
    · cases hpiece : (if torn = [] then none else decode torn) with
      | none => exact List.Pairwise.nil
      | some entry => exact List.pairwise_singleton _ _
    · intro a ha b hb
      rw [Option.mem_toList] at hb
      split at hb
      · cases hb
      · rcases decode_torn hround htorn hpiece with hnone | hsome
        · rw [hnone] at hb
          cases hb
        · rw [hsome] at hb
          cases hb
          exact hnext a ha
  · exact h.assigned
  · rintro request ⟨entry, hentry, hkind, htitle⟩
    rw [appendOnce, if_pos]
    exact List.any_eq_true.2 ⟨entry, hentry, by simp [hkind, htitle]⟩

/-- In every run that writes nothing after a torn line and cuts no character: every entry
of a completed append is loaded, ids increase in the log and over all completed appends,
and a logged key is not appended again. -/
theorem log_durable
    {w : World}
    (h : (machine decode).Reaches Intact w) :
    Durable w := by
  have hsound : Sound decode w := by
    refine h.invariant ?_ fun _ _ _ hs hok hstep => hs.step hround hok hstep
    rintro s rfl
    exact Sound.initial
  exact hsound.durable hround htorn

end Runs

/-- A request whose kind and title are one text. -/
def request (text : String) : Request where
  agent := "dash".toList
  kind := text.toList
  title := text.toList
  body := []
  now := 1

/-- A crash within the second line, and the start after it. -/
def tornRun : List Label :=
  [.append (request "a"), .crash (request "b") 9, .restart]

theorem log_durable_tornRun :
    newEntry [] (request "a") ∈ ((machine fromLine).runTo initial tornRun).entries := by
  have hadmits : (machine fromLine).Admits Intact initial tornRun := by
    simp only [tornRun, Machine.Admits, machine, Intact]
    decide
  have hreach := (Machine.Reaches.start rfl).runTo tornRun hadmits (by decide)
  exact (log_durable fromLine_toJson fromLine_torn hreach).kept _ (by decide)

/-- The file of an append after a line torn at its first byte. -/
def glued : Text := openBrace :: line (newEntry [] (request "b"))

/-- After an append to a torn line the next start drops the entry, and its id is given to
the next one. -/
theorem log_not_durable :
    ∃ w : World,
      (machine fromLine).Reaches Machine.always w ∧
        w.stored = [newEntry [] (request "b")] ∧ w.entries = [] ∧ ¬ Durable w ∧
          (append w (request "c")).1.stored.map (·.id) = [1, 1] ∧
            ¬ Durable (append w (request "c")).1 := by
  have htorn : load fromLine (utf8 [openBrace]) = [] := by
    rw [load_utf8]
    decide
  have hglued : load fromLine (utf8 glued) = [] := by
    rw [load_utf8]
    decide
  have hshort : 1 < (utf8 (line (newEntry initial.entries (request "a")))).length := by decide
  have hfile :
      initial.file ++ (utf8 (line (newEntry initial.entries (request "a")))).take 1 =
        utf8 [openBrace] := by
    decide
  have hcrash :
      (machine fromLine).step initial (.crash (request "a") 1) =
        some { file := utf8 [openBrace], entries := [], stored := [] } := by
    simp only [machine, step, if_pos hshort, hfile, htorn]
    rfl
  have happend :
      (machine fromLine).step { file := utf8 [openBrace], entries := [], stored := [] }
          (.append (request "b")) =
        some
          { file := utf8 glued
            entries := [newEntry [] (request "b")]
            stored := [newEntry [] (request "b")] } := by
    decide
  have hrestart :
      (machine fromLine).step
          { file := utf8 glued
            entries := [newEntry [] (request "b")]
            stored := [newEntry [] (request "b")] }
          .restart =
        some { file := utf8 glued, entries := [], stored := [newEntry [] (request "b")] } := by
    simp only [machine, step, hglued]
  have hstart : (machine fromLine).Reaches Machine.always initial := .start rfl
  refine ⟨_, ((hstart.step trivial hcrash).step trivial happend).step trivial hrestart,
    rfl, rfl, fun h => ?_, by decide, fun h => ?_⟩
  · exact absurd (h.kept _ (List.mem_singleton_self _)) List.not_mem_nil
  · exact absurd h.assigned (by decide)

end UserNotificationLog
end Vestad
end Vesta
