import Vesta.Core.Transport.Sse

/-!
# Streams that are read in chunks

A stream is blocks of lines, each block ended by a blank line.  A chunk may end anywhere,
between the bytes of a character too.  The reader keeps what is not decoded and what is not
ended, so it dispatches the blocks of the whole stream.  It dispatches those made of
comments as well, as empty lines.
-/

namespace Vesta
namespace Core
namespace Transport
namespace Sse

open Lib
open Lib.JsString (units trim)
open Lib.Utf8Stream (TextDecoder decodeUnits)

inductive Field
  | data
  | event
  | comment
deriving DecidableEq

def Field.mark : Field → Text
  | .data => "data:".toList
  | .event => "event:".toList
  | .comment => ":".toList

/-- A line of a stream: its field, and the bytes after the mark. -/
structure Line where
  field : Field
  content : List UInt8
  oneLine : 10 ∉ content

def Line.bytes (line : Line) : List UInt8 := utf8 line.field.mark ++ line.content

def Line.units (line : Line) : List Nat :=
  JsString.units line.field.mark ++ decodeUnits line.content

/-- The lines before a blank line. -/
structure Block where
  lines : List Line
  nonempty : lines ≠ []

/-- The lines, each with its end, and a blank line. -/
def Block.bytes (block : Block) : List UInt8 :=
  (block.lines.flatMap fun line => line.bytes ++ [10]) ++ [10]

def stream (blocks : List Block) : List UInt8 := blocks.flatMap Block.bytes

/-- Whether a block carries data or names an event. -/
def Block.carries (block : Block) : Bool :=
  block.lines.any fun line => line.field ≠ .comment

/-- The last event that a block names. -/
def Block.name (block : Block) : List Nat :=
  match (block.lines.filter (·.field = .event)).getLast? with
  | none => message
  | some line => trim (decodeUnits line.content)

def Block.data (block : Block) : List Nat :=
  [lineFeed].intercalate
    ((block.lines.filter (·.field = .data)).map fun line => dropSpace (decodeUnits line.content))

def Block.event (block : Block) : StreamEvent :=
  if errorMark.isPrefixOf block.data then .error block.data else .line block.data

/-- The events of a stream: one for each block that carries any, up to the stopped event. -/
def events (stoppedEvent : List Nat) : List Block → List StreamEvent
  | [] => [.ended]
  | block :: blocks =>
      if !block.carries then events stoppedEvent blocks
      else if block.name = stoppedEvent then [.ended]
      else block.event :: events stoppedEvent blocks

/-- The first block whose event ends a pipeline. -/
def terminal (blocks : List Block) : Option Block :=
  blocks.find? fun block => block.carries && (block.name == errorName || block.name == doneName)

/-- What the terminal event of a stream comes to. -/
def result
    {Number : Type}
    (parse : List Nat → Option (Payload Number))
    (status : Number)
    (blocks : List Block) :
    Except (ApiError Number) (List Nat) :=
  match terminal blocks with
  | none => .error ⟨status, withoutResult⟩
  | some block =>
      if block.name = errorName then .error (pipelineError parse block.data status)
      else .ok block.data

/-- A body in chunks that is read to its end. -/
def received (chunks : List (List UInt8)) : Fetched :=
  .response true (some (chunks.map (⟨false, .chunk ·⟩) ++ [⟨false, .done⟩]))

/-- What is asked of the reader and of the drain for a stream, however it is cut in chunks. -/
structure Reads
    {Number : Type}
    (stoppedEvent : List Nat)
    (parse : List Nat → Option (Payload Number))
    (status : Number)
    (blocks : List Block) : Prop where
  reader : ∀ chunks : List (List UInt8), chunks.flatten = stream blocks →
    readSse stoppedEvent false (received chunks) = events stoppedEvent blocks
  drain : drainSsePipeline parse status (stream blocks) = result parse status blocks

/-- No block of comments comes before the stopped event.  Where the stopped event has the name
that a block of comments gets, the first one may come if the next block that carries anything
stops the reader too, or there is none. -/
def Quiet (stoppedEvent : List Nat) : List Block → Prop
  | [] => True
  | block :: blocks =>
      if block.carries then block.name = stoppedEvent ∨ Quiet stoppedEvent blocks
      else
        stoppedEvent = message ∧ ∀ next ∈ blocks.find? Block.carries, next.name = message

/-! ## Lines and blocks -/

theorem Field.mark_units (field : Field) :
    (utf8 field.mark).map UInt8.toNat = JsString.units field.mark := by
  cases field <;> decide

theorem Field.mark_ascii (field : Field) :
    ∀ b ∈ utf8 field.mark, b.toNat < 0x80 := by
  cases field <;> decide +kernel

theorem Field.mark_lineFeed (field : Field) : lineFeed ∉ JsString.units field.mark := by
  cases field <;> decide +kernel

theorem Line.units_lineFeed (line : Line) : lineFeed ∉ line.units := by
  intro h
  rcases List.mem_append.1 h with h | h
  · exact line.field.mark_lineFeed h
  · exact line.oneLine (Utf8Stream.decodeUnits_lineFeed h)

theorem Line.units_ne_nil (line : Line) : line.units ≠ [] := by
  intro h
  have hmark := (List.append_eq_nil_iff.1 h).1
  cases hfield : line.field <;> rw [hfield] at hmark <;> revert hmark <;> decide

theorem flatMap_fromCodePoint_ascii
    {points : List Nat}
    (h : ∀ n ∈ points, n < 0x80) :
    points.flatMap JsString.fromCodePoint = points := by
  induction points with
  | nil => rfl
  | cons n points ih =>
      obtain ⟨hn, hrest⟩ := List.forall_mem_cons.1 h
      have hunit : JsString.fromCodePoint n = [n] := if_pos (by omega)
      rw [List.flatMap_cons, ih hrest, hunit]
      rfl

theorem Line.decodeUnits_bytes (line : Line) : decodeUnits line.bytes = line.units := by
  have hascii : ∀ n ∈ (utf8 line.field.mark).map UInt8.toNat, n < 0x80 := by
    intro n hn
    obtain ⟨b, hb, rfl⟩ := List.mem_map.1 hn
    exact line.field.mark_ascii b hb
  rw [decodeUnits, Line.bytes, Utf8Stream.points_ascii line.field.mark_ascii, List.flatMap_append,
    flatMap_fromCodePoint_ascii hascii, line.field.mark_units]
  rfl

/-- The text of a block, without the blank line. -/
def Block.units (block : Block) : List Nat := [lineFeed].intercalate (block.lines.map Line.units)

theorem run_lines
    (lines : List Line)
    (rest : List UInt8) :
    (Utf8Stream.ready.run ((lines.flatMap fun line => line.bytes ++ [10]) ++ rest)).2.flatMap
        JsString.fromCodePoint =
      (lines.flatMap fun line => line.units ++ [lineFeed]) ++
        (Utf8Stream.ready.run rest).2.flatMap JsString.fromCodePoint := by
  induction lines with
  | nil => rfl
  | cons line lines ih =>
      have hfeed : JsString.fromCodePoint 10 = [lineFeed] := rfl
      have hline : (Utf8Stream.points line.bytes).flatMap JsString.fromCodePoint = line.units :=
        line.decodeUnits_bytes
      have hcut := Utf8Stream.run_cut line.bytes
        ((lines.flatMap fun line => line.bytes ++ [10]) ++ rest) (b := 10) (by decide)
      rw [List.flatMap_cons, List.append_assoc, List.append_assoc, List.singleton_append, hcut,
        List.flatMap_append, hline, List.flatMap_cons, ih, List.flatMap_cons]
      simp [hfeed]

theorem flatMap_lineFeed
    {lines : List Line}
    (h : lines ≠ []) :
    (lines.flatMap fun line => line.units ++ [lineFeed]) =
      [lineFeed].intercalate (lines.map Line.units) ++ [lineFeed] := by
  induction lines with
  | nil => exact absurd rfl h
  | cons line lines ih =>
      cases lines with
      | nil => simp
      | cons next lines =>
          rw [List.flatMap_cons, ih (List.cons_ne_nil _ _)]
          simp [List.intercalate_cons_cons]

/-- The text of a stream from a block's start on. -/
theorem run_stream (blocks : List Block) :
    (Utf8Stream.ready.run (stream blocks)).2.flatMap JsString.fromCodePoint =
      blocks.flatMap fun block => block.units ++ blank := by
  induction blocks with
  | nil => rfl
  | cons block blocks ih =>
      have hfeed : JsString.fromCodePoint 10 = [lineFeed] := rfl
      have hend := Utf8Stream.run_cut [] (stream blocks) (b := 10) (by decide)
      have hpoints : Utf8Stream.points [] = [] := rfl
      rw [List.nil_append, hpoints, List.nil_append] at hend
      have hsplit : stream (block :: blocks) =
          (block.lines.flatMap fun line => line.bytes ++ [10]) ++ 10 :: stream blocks := by
        simp [stream, Block.bytes]
      rw [hsplit, run_lines, hend, flatMap_lineFeed block.nonempty, List.flatMap_cons, ih,
        show (10 : UInt8).toNat = 10 from rfl, hfeed, List.flatMap_cons]
      simp [Block.units, blank]

theorem decode_stream (blocks : List Block) :
    (TextDecoder.new.decode (stream blocks)).2 =
      blocks.flatMap fun block => block.units ++ blank := by
  cases blocks with
  | nil => rfl
  | cons block blocks =>
      obtain ⟨line, lines, hlines⟩ := List.exists_cons_of_ne_nil block.nonempty
      have hfirst : ∃ b bytes, utf8 line.field.mark = b :: bytes :=
        List.exists_cons_of_ne_nil (by cases line.field <;> decide)
      obtain ⟨b, bytes, hb⟩ := hfirst
      have hascii := line.field.mark_ascii b (hb ▸ List.mem_cons_self)
      have hstream : ∃ more, stream (block :: blocks) = b :: more :=
        ⟨_, by
          simp only [stream, List.flatMap_cons, Block.bytes, hlines, Line.bytes, hb,
            List.cons_append]
          rfl⟩
      obtain ⟨more, hstream⟩ := hstream
      rw [hstream, TextDecoder.decode_new_of_lt hascii, ← hstream]
      exact run_stream _

/-- A whole stream ends between two characters. -/
theorem flush_stream (blocks : List Block) :
    (TextDecoder.new.decode (stream blocks)).1.decoder.flush = [] := by
  have hrun : ∀ bytes : List UInt8, (Utf8Stream.ready.run (bytes ++ [10])).1.flush = [] := by
    intro bytes
    rw [Utf8Stream.run_cut bytes [] (by decide)]
    rfl
  change (Utf8Stream.ready.run (stream blocks)).1.flush = []
  rcases List.eq_nil_or_concat blocks with rfl | ⟨before, block, rfl⟩
  · rfl
  · have hlast : stream (before ++ [block]) =
        (stream before ++ block.lines.flatMap fun line => line.bytes ++ [10]) ++ [10] := by
      simp [stream, Block.bytes]
    rw [List.concat_eq_append, hlast]
    exact hrun _

theorem text_stream (blocks : List Block) :
    TextDecoder.text (stream blocks) = blocks.flatMap fun block => block.units ++ blank := by
  simp only [TextDecoder.text, flush_stream, decode_stream, List.flatMap_nil, List.append_nil]

theorem cuts_stream (blocks : List Block) :
    Framing.Cuts blank (blocks.flatMap fun block => block.units ++ blank)
      (blocks.map Block.units) [] := by
  induction blocks with
  | nil => exact .rest rfl
  | cons block blocks ih =>
      have hlines : block.lines.map Line.units ≠ [] := by simpa using block.nonempty
      have hpieces : ∀ piece ∈ block.lines.map Line.units, lineFeed ∉ piece ∧ piece ≠ [] := by
        intro piece hpiece
        obtain ⟨line, -, rfl⟩ := List.mem_map.1 hpiece
        exact ⟨line.units_lineFeed, line.units_ne_nil⟩
      have hcut := Framing.cut_lines hlines hpieces
        (blocks.flatMap fun block => block.units ++ blank)
      rw [List.flatMap_cons, List.append_assoc]
      exact .frame hcut ih

/-! ## What a block parses to -/

theorem takeLine_units
    (fields : Fields)
    (line : Line) :
    takeLine fields line.units =
      match line.field with
      | .comment => fields
      | .data => { fields with data := fields.data ++ [dropSpace (decodeUnits line.content)] }
      | .event => { fields with name := trim (decodeUnits line.content) } := by
  have hcolon : colon = [58] := by decide
  have hdata : dataMark = [100, 97, 116, 97, 58] := by decide
  have hevent : eventMark = [101, 118, 101, 110, 116, 58] := by decide
  have hcomment' : JsString.units Field.comment.mark = [58] := by decide
  have hdata' : JsString.units Field.data.mark = [100, 97, 116, 97, 58] := by decide
  have hevent' : JsString.units Field.event.mark = [101, 118, 101, 110, 116, 58] := by decide
  cases hfield : line.field with
  | comment => simp [takeLine, Line.units, hfield, hcolon, hcomment']
  | data => simp [takeLine, Line.units, hfield, hcolon, hdata, hdata']
  | event => simp [takeLine, Line.units, hfield, hcolon, hdata, hevent, hevent']

theorem foldl_takeLine
    (fields : Fields)
    (lines : List Line) :
    (lines.map Line.units).foldl takeLine fields =
      { name :=
          match (lines.filter (·.field = .event)).getLast? with
          | none => fields.name
          | some line => trim (decodeUnits line.content)
        data := fields.data ++
          (lines.filter (·.field = .data)).map fun line =>
            dropSpace (decodeUnits line.content) } := by
  induction lines generalizing fields with
  | nil => simp
  | cons line lines ih =>
      rw [List.map_cons, List.foldl_cons, takeLine_units, ih]
      cases hfield : line.field with
      | comment => simp [hfield]
      | data => simp [hfield]
      | event =>
          simp only [hfield, List.filter_cons, decide_true, if_true, List.getLast?_cons]
          cases (lines.filter (·.field = .event)).getLast? <;> simp

theorem parseSseBlock_units (block : Block) :
    parseSseBlock block.units = ⟨block.name, block.data⟩ := by
  have hsplit : block.units.splitOn lineFeed = block.lines.map Line.units := by
    refine List.splitOn_intercalate _ ?_ (by simpa using block.nonempty)
    intro piece hpiece
    obtain ⟨line, -, rfl⟩ := List.mem_map.1 hpiece
    exact line.units_lineFeed
  simp only [parseSseBlock, hsplit, foldl_takeLine, List.nil_append]
  rfl

/-- A block of comments is an unnamed one without data. -/
theorem Block.of_not_carries
    {block : Block}
    (h : block.carries = false) :
    block.name = message ∧ block.data = [] := by
  have hcomment : ∀ line ∈ block.lines, line.field = .comment := by
    intro line hline
    simpa using List.any_eq_false.1 h line hline
  have hnone : ∀ field ≠ Field.comment, block.lines.filter (·.field = field) = [] := by
    intro field hfield
    refine List.filter_eq_nil_iff.2 fun line hline => ?_
    simpa [hcomment line hline] using hfield.symm
  constructor
  · simp [Block.name, hnone .event (by decide)]
  · simp [Block.data, hnone .data (by decide)]

/-! ## What the reader dispatches -/

/-- The events of blocks that are dispatched one after another. -/
def dispatched (stoppedEvent : List Nat) : List (List Nat) → List StreamEvent
  | [] => [.ended]
  | block :: blocks =>
      if (dispatch stoppedEvent block).2 then [(dispatch stoppedEvent block).1]
      else (dispatch stoppedEvent block).1 :: dispatched stoppedEvent blocks

theorem blank_ne_nil : blank ≠ [] := List.cons_ne_nil _ _

/-- Draining a buffer dispatches its blocks, and stops or leaves what they leave. -/
theorem drain_spec
    (stoppedEvent : List Nat)
    {buffer left : List Nat} {blocks : List (List Nat)}
    (h : Framing.Cuts blank buffer blocks left)
    {fuel : Nat}
    (hfuel : buffer.length ≤ fuel) :
    ∃ heard,
      (drain stoppedEvent fuel buffer = (heard, none) ∧
        ∀ more, dispatched stoppedEvent (blocks ++ more) = heard) ∨
      (drain stoppedEvent fuel buffer = (heard, some left) ∧
        ∀ more, dispatched stoppedEvent (blocks ++ more) =
          heard ++ dispatched stoppedEvent more) := by
  induction h generalizing fuel with
  | rest hcut =>
      refine ⟨[], .inr ⟨?_, fun more => rfl⟩⟩
      cases fuel with
      | zero => rfl
      | succ fuel => simp [Sse.drain, hcut]
  | @frame text block rest left blocks hcut hrest ih =>
      have hless := Framing.length_lt_of_cut blank_ne_nil hcut
      cases fuel with
      | zero => omega
      | succ fuel =>
          cases hstop : (dispatch stoppedEvent block).2 with
          | true =>
              refine ⟨[(dispatch stoppedEvent block).1], .inl ⟨?_, fun more => ?_⟩⟩
              · simp [Sse.drain, hcut, hstop]
              · simp [dispatched, hstop]
          | false =>
              obtain ⟨heard, hheard⟩ := ih (show rest.length ≤ fuel by omega)
              refine ⟨(dispatch stoppedEvent block).1 :: heard, ?_⟩
              rcases hheard with ⟨hdrain, hmore⟩ | ⟨hdrain, hmore⟩
              · refine .inl ⟨?_, fun more => ?_⟩
                · simp [Sse.drain, hcut, hstop, hdrain]
                · simp [dispatched, hstop, hmore]
              · refine .inr ⟨?_, fun more => ?_⟩
                · simp [Sse.drain, hcut, hstop, hdrain]
                · simp [dispatched, hstop, hmore]

/-- However a body is cut in chunks, the reader dispatches the blocks of its text. -/
theorem readLoop_chunks
    (stoppedEvent : List Nat)
    {decoder : TextDecoder} {buffer left : List Nat} {blocks : List (List Nat)}
    {chunks : List (List UInt8)}
    (hbuffer : Framing.cut blank buffer = none)
    (h : Framing.Cuts blank (buffer ++ (decoder.decode chunks.flatten).2) blocks left) :
    readLoop stoppedEvent decoder buffer
        (chunks.map (⟨false, .chunk ·⟩) ++ [⟨false, .done⟩]) =
      dispatched stoppedEvent blocks := by
  induction chunks generalizing decoder buffer blocks with
  | nil =>
      have hnone : (decoder.decode [].flatten).2 = [] := by
        unfold TextDecoder.decode TextDecoder.dropMark
        cases decoder.bomSeen <;> rfl
      rw [hnone, List.append_nil] at h
      obtain ⟨rfl, -⟩ := h.unique (.rest hbuffer)
      rfl
  | cons chunk chunks ih =>
      obtain ⟨now, kept, hnow⟩ :=
        Framing.cuts_exists blank_ne_nil (buffer ++ (decoder.decode chunk).2)
      obtain ⟨later, last, hlater⟩ := Framing.cuts_exists blank_ne_nil
        (kept ++ ((decoder.decode chunk).1.decode chunks.flatten).2)
      have hwhole := hnow.append hlater
      rw [List.append_assoc] at hwhole
      rw [List.flatten_cons, TextDecoder.decode_append] at h
      obtain ⟨rfl, rfl⟩ := h.unique hwhole
      obtain ⟨heard, ⟨hdrain, hmore⟩ | ⟨hdrain, hmore⟩⟩ :=
        drain_spec stoppedEvent hnow (Nat.le_refl _)
      · simp only [List.map_cons, List.cons_append, readLoop, hdrain, hmore, Bool.false_eq_true,
          if_false]
      · simp only [List.map_cons, List.cons_append, readLoop, hdrain, hmore, Bool.false_eq_true,
          if_false, ih hnow.left_none hlater]

theorem readSse_received
    (stoppedEvent : List Nat)
    {blocks : List Block} {chunks : List (List UInt8)}
    (h : chunks.flatten = stream blocks) :
    readSse stoppedEvent false (received chunks) =
      dispatched stoppedEvent (blocks.map Block.units) := by
  have hcuts := cuts_stream blocks
  rw [← decode_stream, ← h] at hcuts
  exact readLoop_chunks stoppedEvent rfl hcuts

theorem dispatched_units_cons
    (stoppedEvent : List Nat)
    (block : Block)
    (blocks : List (List Nat)) :
    dispatched stoppedEvent (block.units :: blocks) =
      if block.name = stoppedEvent then [.ended]
      else block.event :: dispatched stoppedEvent blocks := by
  simp only [dispatched, dispatch, parseSseBlock_units, Block.event]
  split
  · rfl
  · split <;> rfl

theorem firstResult_units
    {Number : Type}
    (parse : List Nat → Option (Payload Number))
    (status : Number)
    (blocks : List Block) :
    firstResult parse status (blocks.map Block.units ++ [[]]) = result parse status blocks := by
  induction blocks with
  | nil =>
      have hempty : parseSseBlock [] = ⟨message, []⟩ := rfl
      have herror : message ≠ errorName := by decide
      have hdone : message ≠ doneName := by decide
      simp [firstResult, hempty, herror, hdone, result, terminal]
  | cons block blocks ih =>
      have hcarries : block.name = errorName ∨ block.name = doneName →
          block.carries = true := by
        intro hname
        by_contra hnot
        rw [(Block.of_not_carries (by simpa using hnot)).1] at hname
        revert hname
        decide
      simp only [List.map_cons, List.cons_append, firstResult, parseSseBlock_units, ih]
      split
      · rename_i herror
        simp [result, terminal, hcarries (.inl herror), herror]
      · rename_i herror
        split
        · rename_i hdone
          have hdistinct : doneName ≠ errorName := by decide
          simp [result, terminal, hcarries (.inr hdone), hdone, hdistinct]
        · rename_i hdone
          simp [result, terminal, herror, hdone]

/-- The drain finds the terminal event of every stream. -/
theorem drainSsePipeline_stream
    {Number : Type}
    (parse : List Nat → Option (Payload Number))
    (status : Number)
    (blocks : List Block) :
    drainSsePipeline parse status (stream blocks) = result parse status blocks := by
  rw [drainSsePipeline, text_stream, (cuts_stream blocks).split blank_ne_nil,
    firstResult_units]

/-! ## Blocks of comments -/

theorem Block.event_ne_ended (block : Block) : block.event ≠ .ended := by
  unfold Block.event
  split <;> exact nofun

theorem events_eq_ended_iff
    (stoppedEvent : List Nat)
    (blocks : List Block) :
    events stoppedEvent blocks = [.ended] ↔
      ∀ next ∈ blocks.find? Block.carries, next.name = stoppedEvent := by
  induction blocks with
  | nil => simp [events]
  | cons block blocks ih =>
      cases hcarries : block.carries with
      | false => simpa [events, hcarries] using ih
      | true => simp [events, hcarries, block.event_ne_ended]

/-- The reader gives no fewer events than it should. -/
theorem length_events_le
    {stoppedEvent : List Nat}
    (hstopped : stoppedEvent ≠ message)
    (blocks : List Block) :
    (events stoppedEvent blocks).length ≤
      (dispatched stoppedEvent (blocks.map Block.units)).length := by
  induction blocks with
  | nil => exact Nat.le_refl _
  | cons block blocks ih =>
      rw [List.map_cons, dispatched_units_cons]
      cases hcarries : block.carries with
      | false =>
          have hname : block.name ≠ stoppedEvent :=
            (Block.of_not_carries hcarries).1.trans_ne hstopped.symm
          simp only [events, hcarries, Bool.not_false, if_true, if_neg hname, List.length_cons]
          omega
      | true =>
          simp only [events, hcarries, Bool.not_true, Bool.false_eq_true, if_false]
          split
          · exact Nat.le_refl _
          · simpa using ih

theorem dispatched_eq_events_iff
    (stoppedEvent : List Nat)
    (blocks : List Block) :
    dispatched stoppedEvent (blocks.map Block.units) = events stoppedEvent blocks ↔
      Quiet stoppedEvent blocks := by
  induction blocks with
  | nil => exact iff_of_true rfl trivial
  | cons block blocks ih =>
      rw [List.map_cons, dispatched_units_cons]
      cases hcarries : block.carries with
      | true =>
          by_cases hname : block.name = stoppedEvent
          · simp [events, Quiet, hcarries, hname]
          · simp [events, Quiet, hcarries, hname, ih]
      | false =>
          obtain ⟨hname, -⟩ := Block.of_not_carries hcarries
          by_cases hstopped : stoppedEvent = message
          · have hended := events_eq_ended_iff stoppedEvent blocks
            rw [hstopped] at hended
            simp only [events, Quiet, hcarries, hname, hstopped, Bool.not_false, if_true,
              Bool.false_eq_true, if_false, true_and]
            exact eq_comm.trans hended
          · -- The reader's event for the comments is one too many.
            have hlength := length_events_le hstopped blocks
            refine iff_of_false (fun heq => ?_) ?_
            · have heq := congrArg List.length heq
              simp only [events, hcarries, hname, Bool.not_false, if_true, eq_comm (a := message),
                if_neg hstopped, List.length_cons] at heq
              omega
            · simp [Quiet, hcarries, hstopped]

/-- The reader and the drain give the events of a stream exactly if no block of comments comes
before the stopped event. -/
theorem reads_iff_quiet
    {Number : Type}
    (stoppedEvent : List Nat)
    (parse : List Nat → Option (Payload Number))
    (status : Number)
    (blocks : List Block) :
    Reads stoppedEvent parse status blocks ↔ Quiet stoppedEvent blocks := by
  rw [← dispatched_eq_events_iff]
  constructor
  · intro h
    have hwhole : [stream blocks].flatten = stream blocks := List.flatten_singleton
    rw [← readSse_received stoppedEvent hwhole]
    exact h.reader _ hwhole
  · intro h
    refine ⟨fun chunks hchunks => ?_, drainSsePipeline_stream parse status blocks⟩
    rw [readSse_received stoppedEvent hchunks, h]

/-- The keep-alive of the gateway. -/
def keepAlive : Block where
  lines := [⟨.comment, [], by decide⟩]
  nonempty := List.cons_ne_nil _ _

/-- A keep-alive alone is an empty line. -/
theorem keepAlive_heard :
    readSse (units "agent_stopped".toList) false (received [stream [keepAlive]]) =
        [.line [], .ended] ∧
      ¬Reads (units "agent_stopped".toList) (fun _ => (none : Option (Payload Nat))) 200
        [keepAlive] := by
  have hheard : readSse (units "agent_stopped".toList) false (received [stream [keepAlive]]) =
      [.line [], .ended] := by decide
  refine ⟨hheard, fun h => ?_⟩
  have hevents := hheard.symm.trans (h.reader [stream [keepAlive]] List.flatten_singleton)
  revert hevents
  decide

end Sse
end Transport
end Core
end Vesta
