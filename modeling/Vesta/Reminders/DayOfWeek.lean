import Vesta.Agent.Notification
import Vesta.Lib.Cron

/-!
# The day-of-week field of a cron reminder

A cron expression is stored with its day-of-week field rewritten to a list of weekday
names, which the scheduler and a crontab read alike.

Which characters are decimal digits is a table of the interpreter.
-/

namespace Vesta
namespace Reminders

open Lib
open Agent (isSpace strip)

/-- The decimal digits of the interpreter's Unicode, and the characters that `str.isdigit`
accepts. -/
structure UnicodeDigits where
  decimal : Char → Option Nat
  isDigit : Char → Bool
  decimal_ascii : ∀ c, c.isDigit = true → decimal c = some (c.toNat - 48)
  decimal_other : ∀ c, c.toNat < 128 → c.isDigit = false → decimal c = none
  decimal_lt : ∀ c d, decimal c = some d → d < 10
  isDigit_decimal : ∀ c, (decimal c).isSome = true → isDigit c = true

inductive DowError
  | badValue (token : Text)
  | badStep (step : Text)
  /-- What `int` raises. -/
  | notAnInteger (text : Text)
deriving DecidableEq

inductive CronError
  | fieldCount (count : Nat) (expr : Text)
  | dow (error : DowError)
deriving DecidableEq

/-- The most digits that `int` converts. -/
def intMaxStrDigits : Nat := 4300

/-- The weekdays in the order of the scheduler, by their number in a crontab. -/
def apschedulerDowOrder : List Nat := [1, 2, 3, 4, 5, 6, 0]

def dayName (day : Nat) : Text := Cron.dayNames.getD day []

/-- `str.lower`, for a comparison with the names of days: no other character becomes one of
their letters. -/
def lower (text : Text) : Text := text.map Char.toLower

/-- The text up to a separator, and from behind it on. -/
def partition (sep : Char) (text : Text) : Text × Text :=
  (text.takeWhile (· != sep), (text.dropWhile (· != sep)).drop 1)

def isStar : Text → Bool
  | ['*'] => true
  | ['?'] => true
  | _ => false

/-- `(low + offset) % 7 for offset in range(0, span + 1, step)` -/
def dowRange (low high step : Nat) : List Nat :=
  let span := (((high : Int) - low) % 7).toNat
  (List.range (span / step + 1)).map fun j => (low + j * step) % 7

def namesText (indices : List Nat) : Text :=
  [','].intercalate ((apschedulerDowOrder.filter indices.contains).map dayName)

/-- `str.split` -/
def split (text : Text) : List Text := (text.splitOnP isSpace).filter fun field => !field.isEmpty

namespace UnicodeDigits

variable (U : UnicodeDigits)

/-- `str.isdigit` -/
def isdigit (text : Text) : Bool := !text.isEmpty && text.all U.isDigit

/-- `int`, of a text of digits. -/
def int (text : Text) : Except DowError Nat :=
  if intMaxStrDigits < text.length then .error (.notAnInteger text)
  else
    match text.foldlM (fun n c => (U.decimal c).map (10 * n + ·)) 0 with
    | none => .error (.notAnInteger text)
    | some n => .ok n

def dowSingle (token : Text) : Except DowError Nat :=
  let tok := lower (strip token)
  match Cron.dayNames.idxOf? tok with
  | some day => .ok day
  | none =>
      if !U.isdigit tok then .error (.badValue token)
      else do
        let number ← U.int tok
        if number = 7 then .ok 0
        else if number ≤ 6 then .ok number
        else .error (.badValue token)

/-- The step of an item and what stands before it. -/
def dowStep (part : Text) : Except DowError (Text × Nat) :=
  if part.contains '/' then
    let (body, stepStr) := partition '/' part
    if !U.isdigit stepStr then .error (.badStep stepStr)
    else do
      let step ← U.int stepStr
      if step = 0 then .error (.badStep stepStr) else .ok (body, step)
  else .ok (part, 1)

def dowBounds (part : Text) : Except DowError (Nat × Nat) :=
  if isStar (strip part) then .ok (0, 6)
  else if part.contains '-' then
    let (lowStr, highStr) := partition '-' part
    do
      let low ← U.dowSingle lowStr
      let high ← U.dowSingle highStr
      .ok (low, high)
  else do
    let day ← U.dowSingle part
    .ok (day, day)

def dowPartToIndices (part : Text) : Except DowError (List Nat) := do
  let (body, step) ← U.dowStep part
  let (low, high) ← U.dowBounds body
  .ok (dowRange low high step)

/-- The indices of the parts, one after the other. -/
def dowIndices : List Text → Except DowError (List Nat)
  | [] => .ok []
  | part :: parts => do
      let indices ← U.dowPartToIndices part
      let rest ← dowIndices parts
      .ok (indices ++ rest)

def normalizeDow (field : Text) : Except DowError Text :=
  if isStar (strip field) then .ok ['*']
  else do
    let indices ← U.dowIndices (field.splitOn ',')
    .ok (namesText indices)

def normalizeCronExpr (expr : Text) : Except CronError Text :=
  match split expr with
  | [minutes, hour, day, month, dow] =>
      match U.normalizeDow dow with
      | .error error => .error (.dow error)
      | .ok dow => .ok ([' '].intercalate [minutes, hour, day, month, dow])
  | fields => .error (.fieldCount fields.length expr)

end UnicodeDigits

end Reminders
end Vesta
