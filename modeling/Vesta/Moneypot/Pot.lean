import Vesta.Agent.Notification
import Vesta.Lib.Machine
import Vesta.Lib.Rounding
import Vesta.Lib.Tally

/-!
# Pots of shared expenses

A pot is a group of members with two kinds of entries: an expense, which a payer covers
and the members share, and a transfer from one member to another.  Amounts are integers in
minor units; what is entered in another currency is converted, and each share of a custom
split on its own.

The conversion is a function from integers to integers.  Parsing a decimal or a rate,
`str.upper` and the answer of the rate lookup are inputs as well.  An arithmetic exception
of the decimal context is an error without a text of its own.
-/

namespace Vesta
namespace Moneypot

open Lib
open Agent (strip)

/-- What a request is refused for. -/
inductive Error
  | noPot (id : Text)
  | potIdRequired
  | potExists (id : Text)
  | noMembers
  | membersNotUnique
  | currencyRequired
  | memberNameRequired
  | alreadyMember (name : Text)
  | payerNotMember (payer : Option Text)
  | emptyAmount
  | badAmount (raw : Text)
  | amountDecimals (raw : Text)
  | decimalContext
  | amountNotPositive
  | badRate (rate : Text)
  | rateNotFetched (orig base : Text)
  | rateMissing (orig base : Text)
  | splitEmpty
  | splitNotMember (name : Text)
  | splitSum (want got : Int) (currency : Text)
  | forEmpty
  | forNotUnique
  | forNotMember (name : Text)
  | transferNotMember (label : Text) (who : Option Text)
  | sameMember
  | noEntry (id : Int) (pot : Text)
deriving DecidableEq

/-! ## Money -/

/-- A decimal: a coefficient times a power of ten, or an infinity or NaN. -/
inductive Decimal
  | finite (coefficient : Int) (exponent : Int)
  | special
deriving DecidableEq

namespace Decimal

/-- The significant digits of the default context. -/
def precision : Nat := 28

/-- The greatest exponent of the default context. -/
def emax : Int := 999999

def digits (n : Int) : Nat := (Nat.toDigits 10 n.natAbs).length

/-- `amount * 100`, rounded half to even to the digits of the context; an overflow traps. -/
def times100 : Decimal → Option Decimal
  | special => some special
  | finite coefficient exponent =>
      let product := coefficient * 100
      if emax < exponent + digits product - 1 then none
      else
        let excess := digits product - precision
        some (finite (Rounding.divEven product (10 ^ excess)) (exponent + excess))

/-- The integer that the decimal equals. -/
def toInt? : Decimal → Option Int
  | special => none
  | finite coefficient (.ofNat n) => some (coefficient * 10 ^ n)
  | finite coefficient (.negSucc n) =>
      if coefficient % 10 ^ (n + 1) = 0 then some (coefficient / 10 ^ (n + 1)) else none

end Decimal

/-- What the interpreter and the exchange rates give. -/
structure Platform (Rate : Type) where
  /-- `Decimal(raw)`. -/
  decimal : Text → Option Decimal
  /-- `str.upper`. -/
  upper : Text → Text
  /-- `parse_rate`: a finite positive float. -/
  parseRate : Text → Option Rate
  /-- The rate 1.0. -/
  one : Rate
  convert : Int → Rate → Int

section Money

variable {Rate : Type}
variable (P : Platform Rate)

/-- Parse a money value to integer minor units. -/
def toCents (s : Text) : Except Error Int :=
  let raw := (strip s).filter (· != ',')
  if raw.isEmpty then .error .emptyAmount
  else
    match P.decimal raw with
    | none => .error (.badAmount raw)
    | some amount =>
        match amount.times100 with
        | none => .error .decimalContext
        | some cents =>
            match cents.toInt? with
            | none => .error (.amountDecimals raw)
            | some n => .ok n

/-- The rate of an entry; `fetched` is what the lookup answers. -/
def resolveRate
    (orig base : Text)
    (rate : Option Text)
    (fetch : Bool)
    (fetched : Option Rate) :
    Except Error Rate :=
  if P.upper orig = P.upper base then .ok P.one
  else
    match rate with
    | some rate =>
        match P.parseRate rate with
        | some r => .ok r
        | none => .error (.badRate rate)
    | none =>
        if fetch then
          match fetched with
          | some r => .ok r
          | none => .error (.rateNotFetched orig base)
        else
          .error (.rateMissing (P.upper orig) (P.upper base))

end Money

/-! ## Splits -/

/-- A dictionary that gives each member a share, by its place in the list. -/
def shares (share : Nat → Int) (members : List Text) : Dict Text Int :=
  members.zipIdx.foldl (fun split entry => split.put entry.1 (share entry.2)) ⟨[], List.nodup_nil⟩

/-- Split the total equally; leftover pennies go to the first members. -/
def splitEqual (total : Int) (members : List Text) : Dict Text Int :=
  let n : Int := members.length
  shares (fun i => total / n + if i < total % n then 1 else 0) members

/-- The greater of two shares, the first of equal ones. -/
def greater : Option (Text × Int) → Text × Int → Option (Text × Int)
  | none, entry => some entry
  | some best, entry => if best.2 < entry.2 then some entry else some best

/-- The first member with the greatest share. -/
def biggest (split : Dict Text Int) : Option Text :=
  (split.entries.foldl greater none).map Prod.fst

section Splits

variable {Rate : Type}
variable (P : Platform Rate)

/-- The amounts of a custom split, in the currency of the entry. -/
def originalShares
    (members : List Text) (split : Dict Text Int) :
    List (Text × Text) → Except Error (Dict Text Int)
  | [] => .ok split
  | (rawName, amount) :: rest =>
      let name := strip rawName
      if members.contains name then
        match toCents P amount with
        | .error e => .error e
        | .ok cents => originalShares members (split.put name cents) rest
      else
        .error (.splitNotMember name)

def customSplit
    (members : List Text) (origTotal baseTotal : Int) (rate : Rate) (origCurrency : Text)
    (splitMap : List (Text × Text)) :
    Except Error (Dict Text Int) :=
  if splitMap.isEmpty then .error .splitEmpty
  else
    match originalShares P members ⟨[], List.nodup_nil⟩ splitMap with
    | .error e => .error e
    | .ok origShares =>
        if Tally.total origShares = origTotal then
          let baseShares := origShares.modify fun _ cents => P.convert cents rate
          let drift := baseTotal - Tally.total baseShares
          if drift = 0 then .ok baseShares
          else
            match biggest baseShares with
            | none => .ok baseShares
            | some member => .ok (Tally.add member drift baseShares)
        else
          .error (.splitSum origTotal (Tally.total origShares) origCurrency)

/-- `len(names) != len(set(names))` -/
def hasDuplicates : List Text → Bool
  | [] => false
  | name :: names => names.contains name || hasDuplicates names

theorem nodup_iff_hasDuplicates {names : List Text} :
    names.Nodup ↔ hasDuplicates names = false := by
  induction names with
  | nil => exact iff_of_true List.nodup_nil rfl
  | cons name names ih => simp [hasDuplicates, ih]

def subsetSplit
    (members : List Text) (baseTotal : Int) (forList : List Text) :
    Except Error (Dict Text Int) :=
  if forList.isEmpty then .error .forEmpty
  else if hasDuplicates forList then .error .forNotUnique
  else
    match forList.find? (fun member => !members.contains member) with
    | some member => .error (.forNotMember member)
    | none => .ok (splitEqual baseTotal forList)

/-- Per-member shares in minor units of the base currency. -/
def resolveSplit
    (members : List Text) (origTotal baseTotal : Int) (rate : Rate) (origCurrency : Text)
    (forList : Option (List Text)) (splitMap : Option (List (Text × Text))) :
    Except Error (Dict Text Int) :=
  match splitMap, forList with
  | some splitMap, _ => customSplit P members origTotal baseTotal rate origCurrency splitMap
  | none, some forList => subsetSplit members baseTotal forList
  | none, none => .ok (splitEqual baseTotal members)

end Splits

/-! ## Pots and their operations -/

structure Expense (Rate : Type) where
  id : Int
  payer : Text
  amount : Int
  currency : Text
  rate : Rate
  origAmount : Int
  split : Dict Text Int

structure Transfer (Rate : Type) where
  id : Int
  sender : Text
  recipient : Text
  amount : Int
  currency : Text
  rate : Rate
  origAmount : Int

inductive Entry (Rate : Type)
  | expense (e : Expense Rate)
  | transfer (t : Transfer Rate)

def Entry.id {Rate : Type} : Entry Rate → Int
  | .expense e => e.id
  | .transfer t => t.id

structure Pot (Rate : Type) where
  currency : Text
  members : List Text
  entries : List (Entry Rate)

/-- The pots by their ids. -/
abbrev Data (Rate : Type) : Type := Dict Text (Pot Rate)

/-- The members that a new pot is given: a comma-separated text or a list. -/
inductive Members
  | csv (text : Text)
  | list (names : List Text)

def Members.names : Members → List Text
  | .csv text => text.splitOn ','
  | .list names => names

structure ExpenseRequest (Rate : Type) where
  payer : Option Text
  amount : Text
  currency : Option Text := none
  rate : Option Text := none
  fetch : Bool := false
  fetched : Option Rate := none
  forList : Option (List Text) := none
  splitMap : Option (List (Text × Text)) := none

structure TransferRequest (Rate : Type) where
  sender : Option Text
  recipient : Option Text
  amount : Text
  currency : Option Text := none
  rate : Option Text := none
  fetch : Bool := false
  fetched : Option Rate := none

section Operations

variable {Rate : Type}
variable (P : Platform Rate)

def getPot (data : Data Rate) (id : Text) : Except Error (Pot Rate) :=
  match data.get id with
  | some pot => .ok pot
  | none => .error (.noPot id)

def nextEntryId (pot : Pot Rate) : Int :=
  match pot.entries.map Entry.id with
  | [] => 1
  | first :: rest => rest.foldl max first + 1

/-- `request.currency or base`, in upper case. -/
def entryCurrency (currency : Option Text) (base : Text) : Text :=
  P.upper (match currency with
    | some (c :: cs) => c :: cs
    | _ => base)

def createPot
    (data : Data Rate) (id currency : Text) (members : Members) :
    Except Error (Data Rate) :=
  let id := strip id
  let names := (members.names.map strip).filter fun name => !name.isEmpty
  if id.isEmpty then .error .potIdRequired
  else if (data.get id).isSome then .error (.potExists id)
  else if names.isEmpty then .error .noMembers
  else if hasDuplicates names then .error .membersNotUnique
  else if (strip currency).isEmpty then .error .currencyRequired
  else .ok (data.put id { currency := P.upper (strip currency), members := names, entries := [] })

def addMember (data : Data Rate) (id name : Text) : Except Error (Data Rate) := do
  let pot ← getPot data id
  let name := strip name
  if name.isEmpty then .error .memberNameRequired
  else if pot.members.contains name then .error (.alreadyMember name)
  else .ok (data.put id { pot with members := pot.members ++ [name] })

/-- The entry goes at the end of the pot's entries. -/
def appendEntry (data : Data Rate) (id : Text) (pot : Pot Rate) (entry : Entry Rate) : Data Rate :=
  data.put id { pot with entries := pot.entries ++ [entry] }

def addExpense
    (data : Data Rate) (id : Text) (request : ExpenseRequest Rate) :
    Except Error (Data Rate) := do
  let pot ← getPot data id
  match request.payer.filter pot.members.contains with
  | none => .error (.payerNotMember request.payer)
  | some payer =>
      let origTotal ← toCents P request.amount
      if origTotal ≤ 0 then .error .amountNotPositive
      else
        let currency := entryCurrency P request.currency pot.currency
        let rate ← resolveRate P currency pot.currency request.rate request.fetch request.fetched
        let amount := P.convert origTotal rate
        let split ← resolveSplit P pot.members origTotal amount rate currency request.forList
          request.splitMap
        let entry := { id := nextEntryId pot, payer, amount, currency, rate,
                       origAmount := origTotal, split }
        .ok (appendEntry data id pot (.expense entry))

def addTransfer
    (data : Data Rate) (id : Text) (request : TransferRequest Rate) :
    Except Error (Data Rate) := do
  let pot ← getPot data id
  match request.sender.filter pot.members.contains,
      request.recipient.filter pot.members.contains with
  | none, _ => .error (.transferNotMember "from".toList request.sender)
  | some _, none => .error (.transferNotMember "to".toList request.recipient)
  | some sender, some recipient =>
      if sender = recipient then .error .sameMember
      else
        let origAmount ← toCents P request.amount
        if origAmount ≤ 0 then .error .amountNotPositive
        else
          let currency := entryCurrency P request.currency pot.currency
          let rate ← resolveRate P currency pot.currency request.rate request.fetch request.fetched
          let entry := { id := nextEntryId pot, sender, recipient,
                         amount := P.convert origAmount rate, currency, rate, origAmount }
          .ok (appendEntry data id pot (.transfer entry))

def removeEntry (data : Data Rate) (id : Text) (entryId : Int) : Except Error (Data Rate) := do
  let pot ← getPot data id
  let entries := pot.entries.filter fun entry => entry.id != entryId
  if entries.length = pot.entries.length then .error (.noEntry entryId id)
  else .ok (data.put id { pot with entries })

inductive Command (Rate : Type)
  | createPot (id currency : Text) (members : Members)
  | addMember (id name : Text)
  | addExpense (id : Text) (request : ExpenseRequest Rate)
  | addTransfer (id : Text) (request : TransferRequest Rate)
  | removeEntry (id : Text) (entryId : Int)

def perform (data : Data Rate) : Command Rate → Except Error (Data Rate)
  | .createPot id currency members => createPot P data id currency members
  | .addMember id name => addMember data id name
  | .addExpense id request => addExpense P data id request
  | .addTransfer id request => addTransfer P data id request
  | .removeEntry id entryId => removeEntry data id entryId

/-- Commands in turn, from no pots; one that fails saves nothing. -/
def machine : Machine (Data Rate) (Command Rate) where
  start data := data = ⟨[], List.nodup_nil⟩
  step data command :=
    match perform P data command with
    | .ok next => some next
    | .error _ => some data

end Operations

end Moneypot
end Vesta
