import Vesta.Lib.Framing
import Vesta.Lib.Utf8Stream

/-!
# Server-sent events

The reader decodes the chunks of a body as they arrive, keeps the text that no blank line
has ended yet, and dispatches each block that one has.  A pipeline's body is read whole, and
its terminal event looked for in it.

Strings are lists of UTF-16 code units.  What `JSON.parse` makes of a payload is an input.
-/

namespace Vesta
namespace Core
namespace Transport
namespace Sse

open Lib
open Lib.JsString (units trim)
open Lib.Utf8Stream (TextDecoder decodeUnits)

inductive StreamEvent
  | line (text : List Nat)
  | ended
  | error (message : List Nat)
deriving DecidableEq

def lineFeed : Nat := 10

/-- The blank line that ends a block. -/
def blank : List Nat := [lineFeed, lineFeed]

def message : List Nat := units "message".toList

def colon : List Nat := units ":".toList

def dataMark : List Nat := units "data:".toList

def eventMark : List Nat := units "event:".toList

/-- The name and the data lines of a block, so far. -/
structure Fields where
  name : List Nat
  data : List (List Nat)

/-- `.replace(/^ /, "")` -/
def dropSpace (text : List Nat) : List Nat :=
  if text.head? = some 32 then text.tail else text

def takeLine (fields : Fields) (line : List Nat) : Fields :=
  if colon.isPrefixOf line then fields
  else if dataMark.isPrefixOf line then
    { fields with data := fields.data ++ [dropSpace (line.drop 5)] }
  else if eventMark.isPrefixOf line then
    { fields with name := trim (line.drop 6) }
  else fields

structure SseBlock where
  name : List Nat
  data : List Nat

def parseSseBlock (block : List Nat) : SseBlock :=
  let fields := (block.splitOn lineFeed).foldl takeLine ⟨message, []⟩
  ⟨fields.name, [lineFeed].intercalate fields.data⟩

/-! ## The reader -/

def disconnected : StreamEvent := .error (units "log stream disconnected".toList)

def errorMark : List Nat := units "error:".toList

/-- The event of a block, and whether it stops the reader. -/
def dispatch (stoppedEvent block : List Nat) : StreamEvent × Bool :=
  let parsed := parseSseBlock block
  if parsed.name = stoppedEvent then (.ended, true)
  else if errorMark.isPrefixOf parsed.data then (.error parsed.data, false)
  else (.line parsed.data, false)

/-- Dispatch the blocks in the buffer; what is left of it, unless one of them stops the
reader. -/
def drain (stoppedEvent : List Nat) : Nat → List Nat → List StreamEvent × Option (List Nat)
  | 0, buffer => ([], some buffer)
  | fuel + 1, buffer =>
      match Framing.cut blank buffer with
      | none => ([], some buffer)
      | some (block, rest) =>
          let dispatched := dispatch stoppedEvent block
          if dispatched.2 then ([dispatched.1], none)
          else
            let drained := drain stoppedEvent fuel rest
            (dispatched.1 :: drained.1, drained.2)

inductive ReadResult
  | chunk (value : List UInt8)
  | done
  | failed

/-- What a read comes to, and whether the handle was cancelled by then. -/
structure Read where
  cancelled : Bool
  result : ReadResult

def readLoop (stoppedEvent : List Nat) :
    TextDecoder → List Nat → List Read → List StreamEvent
  | _, _, [] => []
  | decoder, buffer, read :: reads =>
      if read.cancelled then []
      else
        match read.result with
        | .failed => [disconnected]
        | .done => [.ended]
        | .chunk value =>
            let decoded := decoder.decode value
            let buffer := buffer ++ decoded.2
            let drained := drain stoppedEvent buffer.length buffer
            match drained.2 with
            | none => drained.1
            | some left => drained.1 ++ readLoop stoppedEvent decoded.1 left reads

/-- What the fetch comes to: a body is the reads of it. -/
inductive Fetched
  | failed
  | response (ok : Bool) (body : Option (List Read))

/-- The events of a reader; the flag says whether its handle was cancelled before the
response. -/
def readSse (stoppedEvent : List Nat) (cancelled : Bool) (fetched : Fetched) :
    List StreamEvent :=
  if cancelled then []
  else
    match fetched with
    | .response true (some reads) => readLoop stoppedEvent TextDecoder.new [] reads
    | _ => [disconnected]

/-! ## The pipeline -/

section Pipeline

variable {Number : Type}

structure ApiError (Number : Type) where
  status : Number
  message : List Nat

/-- What is parsed of a payload: a record, with its fields of the types that are looked for. -/
inductive Payload (Number : Type)
  | record (error : Option (List Nat)) (status : Option Number)
  | other

def pipelineError
    (parse : List Nat → Option (Payload Number))
    (payload : List Nat)
    (fallbackStatus : Number) :
    ApiError Number :=
  match parse payload with
  | some (.record error status) => ⟨status.getD fallbackStatus, error.getD payload⟩
  | _ => ⟨fallbackStatus, payload⟩

def errorName : List Nat := units "error".toList

def doneName : List Nat := units "done".toList

def withoutResult : List Nat := units "pipeline ended without a result".toList

def firstResult
    (parse : List Nat → Option (Payload Number))
    (status : Number) :
    List (List Nat) → Except (ApiError Number) (List Nat)
  | [] => .error ⟨status, withoutResult⟩
  | block :: blocks =>
      let parsed := parseSseBlock block
      if parsed.name = errorName then .error (pipelineError parse parsed.data status)
      else if parsed.name = doneName then .ok parsed.data
      else firstResult parse status blocks

def drainSsePipeline
    (parse : List Nat → Option (Payload Number))
    (status : Number)
    (body : List UInt8) :
    Except (ApiError Number) (List Nat) :=
  firstResult parse status (Framing.split blank (TextDecoder.text body))

end Pipeline

end Sse
end Transport
end Core
end Vesta
