import Mathlib.Algebra.Order.Group.Int
import Mathlib.Data.List.Basic
import Vesta.Lib.Text

/-!
# Paging through the event history

The history is a table of rows with ascending ids, each an event as JSON text.  A page is
the newest rows below a cursor; it is cut by rows, and a row whose text is no JSON is
passed over after that, so a page can be short or empty with older ones left.  The cursor
to the next page is the id of the page's oldest row, and there is none when no row is
older.

A row that is JSON but no object, or fails to load in another way, is not passed over: it
makes every page that it is on fail.

Loading JSON and the condition on the notifications channel are libraries, so they are
parameters.  A bus without a database is left out.
-/

namespace Vesta
namespace Agent
namespace EventHistory

open Lib

/-- What `json.loads` comes to: a `JSONDecodeError`, another exception, an object or another
value. -/
inductive Loaded (O : Type)
  | malformed
  | raised
  | object (value : O)
  | other

structure Row where
  id : Int
  data : Text
deriving DecidableEq

/-- The table of events, in the order of the ids. -/
structure Table where
  rows : List Row
  ascending : rows.Pairwise fun a b => a.id < b.id

/-- An event of a page: the object of its row, with the row's id for its own. -/
structure StreamEvent (O : Type) where
  id : Int
  value : O
deriving DecidableEq

inductive PageError
  | loadsRaised
  /-- The id of a value that is no object cannot be set. -/
  | typeError
deriving DecidableEq

section Page

variable {O : Type}
variable (loads : Text → Loaded O)
variable (isNotification : Text → Bool)

/-- The loop over the rows of a page, the oldest first. -/
def readRows : List Row → Except PageError (List (StreamEvent O))
  | [] => .ok []
  | row :: rows =>
      match loads row.data with
      | .malformed => readRows rows
      | .raised => .error .loadsRaised
      | .other => .error .typeError
      | .object value => do
          let events ← readRows rows
          .ok ({ id := row.id, value } :: events)

/-- The condition of a channel. -/
def onChannel (channel : Option Text) (row : Row) : Bool :=
  if channel = some "notifications".toList then isNotification row.data else true

/-- The rows of a channel below a cursor. -/
def rowsBelow (channel : Option Text) (cursor : Option Int) (table : Table) : List Row :=
  table.rows.filter fun row =>
    onChannel isNotification channel row && cursor.all fun cursor => decide (row.id < cursor)

/-- `_page`: the events of a page, the oldest first, and the cursor to the next one. -/
def page
    (channel : Option Text)
    (cursor : Option Int)
    (limit : Int)
    (table : Table) :
    Except PageError (List (StreamEvent O) × Option Int) :=
  if limit ≤ 0 then
    .ok ([], none)
  else
    let rows := (rowsBelow isNotification channel cursor table).reverse.take (limit.toNat + 1)
    if rows = [] then
      .ok ([], none)
    else
      let hasOlder := limit.toNat < rows.length
      let rows := rows.take limit.toNat
      do
        let events ← readRows loads rows.reverse
        .ok (events, if hasOlder then rows.getLast?.map (·.id) else none)

/-- The newest page. -/
def recent (channel : Option Text) (limit : Int) (table : Table) :
    Except PageError (List (StreamEvent O) × Option Int) :=
  page loads isNotification channel none limit table

/-- The page before a cursor. -/
def before (channel : Option Text) (cursor : Int) (limit : Int) (table : Table) :
    Except PageError (List (StreamEvent O) × Option Int) :=
  page loads isNotification channel (some cursor) limit table

/-- The page that a walk fetches next. -/
def fetch (channel : Option Text) (limit : Int) (cursor : Option Int) (table : Table) :
    Except PageError (List (StreamEvent O) × Option Int) :=
  match cursor with
  | none => recent loads isNotification channel limit table
  | some cursor => before loads isNotification channel cursor limit table

/-- A walk back from a cursor until there is none, with the table as each fetch finds it: the
events of all pages, the oldest first.  `none` is a walk that takes more fetches. -/
def walk (channel : Option Text) (limit : Int) :
    Nat → Option Int → (Nat → Table) → Option (Except PageError (List (StreamEvent O)))
  | 0, _, _ => none
  | fetches + 1, cursor, tables =>
      match fetch loads isNotification channel limit cursor (tables 0) with
      | .error error => some (.error error)
      | .ok (events, none) => some (.ok events)
      | .ok (events, some older) =>
          (walk channel limit fetches (some older) fun k => tables (k + 1)).map fun result =>
            result.map (· ++ events)

end Page

/-- Rows are only appended from one fetch to the next. -/
def Appends (tables : Nat → Table) : Prop :=
  ∀ k, ∃ appended, (tables (k + 1)).rows = (tables k).rows ++ appended

section Rows

variable {O : Type}
variable (loads : Text → Loaded O)

/-- The event of a well-formed row. -/
def event (row : Row) : Option (StreamEvent O) :=
  match loads row.data with
  | .object value => some { id := row.id, value }
  | _ => none

/-- A row is passed over or read, and does not fail the page. -/
def Readable (row : Row) : Prop :=
  match loads row.data with
  | .malformed => True
  | .object _ => True
  | .raised => False
  | .other => False

variable {loads}

theorem readRows_of_readable
    {rows : List Row}
    (h : ∀ row ∈ rows, Readable loads row) :
    readRows loads rows = .ok (rows.filterMap (event loads)) := by
  induction rows with
  | nil => rfl
  | cons row rows ih =>
      have hrow := h row List.mem_cons_self
      have hrest := ih fun other hother => h other (List.mem_cons_of_mem _ hother)
      rw [Readable] at hrow
      rw [readRows, List.filterMap_cons, event]
      cases hloads : loads row.data with
      | malformed => exact hrest
      | raised => simp [hloads] at hrow
      | other => simp [hloads] at hrow
      | object value =>
          rw [hrest]
          rfl

theorem readRows_error
    {rows : List Row} {row : Row}
    (hmem : row ∈ rows)
    (h : ¬ Readable loads row) :
    ∃ error, readRows loads rows = .error error := by
  induction rows with
  | nil => cases hmem
  | cons first rows ih =>
      rw [readRows]
      cases hloads : loads first.data with
      | raised => exact ⟨_, rfl⟩
      | other => exact ⟨_, rfl⟩
      | malformed =>
          rcases List.mem_cons.1 hmem with rfl | hrest
          · exact absurd (by simp [Readable, hloads]) h
          · exact ih hrest
      | object value =>
          rcases List.mem_cons.1 hmem with rfl | hrest
          · exact absurd (by simp [Readable, hloads]) h
          · obtain ⟨error, herror⟩ := ih hrest
            exact ⟨error, by simp [herror, bind, Except.bind]⟩

end Rows

/-! ## The rows of a page and those left -/

section Cut

variable {isNotification : Text → Bool} {channel : Option Text}

theorem rowsBelow_ascending (cursor : Option Int) (table : Table) :
    (rowsBelow isNotification channel cursor table).Pairwise fun a b => a.id < b.id :=
  table.ascending.filter _

/-- The rows below the oldest row of a page are those that the page left. -/
theorem rowsBelow_of_split
    {cursor : Option Int} {table : Table} {left onPage : List Row} {oldest : Row}
    (hrows : rowsBelow isNotification channel cursor table = left ++ oldest :: onPage) :
    rowsBelow isNotification channel (some oldest.id) table = left := by
  have holdest : oldest ∈ rowsBelow isNotification channel cursor table := by
    rw [hrows]
    simp
  have hbelow : cursor.all (fun cursor => decide (oldest.id < cursor)) = true := by
    have hkept := (List.mem_filter.1 holdest).2
    rw [Bool.and_eq_true] at hkept
    exact hkept.2
  have hagain : rowsBelow isNotification channel (some oldest.id) table =
      (rowsBelow isNotification channel cursor table).filter fun row =>
        decide (row.id < oldest.id) := by
    rw [rowsBelow, rowsBelow, List.filter_filter]
    refine List.filter_congr fun row _ => ?_
    cases cursor with
    | none => simp [Bool.and_comm]
    | some cursor =>
        simp only [Option.all_some, decide_eq_true_eq] at hbelow ⊢
        by_cases hlt : row.id < oldest.id
        · have hlt' : row.id < cursor := hlt.trans hbelow
          simp [hlt, hlt']
        · simp [hlt]
  have hascending := @rowsBelow_ascending isNotification channel cursor table
  rw [hrows, List.pairwise_append, List.pairwise_cons] at hascending
  obtain ⟨-, ⟨hnewer, -⟩, hleft⟩ := hascending
  have hkept : left.filter (fun row => decide (row.id < oldest.id)) = left := by
    refine List.filter_eq_self.2 fun row hrow => decide_eq_true ?_
    exact hleft row hrow oldest List.mem_cons_self
  have hcut : (oldest :: onPage).filter (fun row => decide (row.id < oldest.id)) = [] := by
    refine List.filter_eq_nil_iff.2 fun row hrow => ?_
    rw [decide_eq_true_eq, not_lt]
    rcases List.mem_cons.1 hrow with rfl | hrow
    · exact le_rfl
    · exact (hnewer row hrow).le
  rw [hagain, hrows, List.filter_append, hkept, hcut, List.append_nil]

/-- What is appended is below no cursor of an earlier page. -/
theorem rowsBelow_append
    {table later : Table} {appended : List Row} {row : Row}
    (hlater : later.rows = table.rows ++ appended)
    (hrow : row ∈ table.rows) :
    rowsBelow isNotification channel (some row.id) later =
      rowsBelow isNotification channel (some row.id) table := by
  have hnone : appended.filter (fun other => onChannel isNotification channel other &&
      (some row.id).all fun cursor => decide (other.id < cursor)) = [] := by
    rw [List.filter_eq_nil_iff]
    intro other hother
    have hascending := later.ascending
    rw [hlater, List.pairwise_append] at hascending
    have hlt := hascending.2.2 row hrow other hother
    simp
    omega
  rw [rowsBelow, rowsBelow, hlater, List.filter_append, hnone, List.append_nil]

end Cut

section Fetch

variable {O : Type}
variable {loads : Text → Loaded O} {isNotification : Text → Bool}
variable {channel : Option Text} {limit : Int} {cursor : Option Int} {table : Table}

theorem fetch_eq_page :
    fetch loads isNotification channel limit cursor table =
      page loads isNotification channel cursor limit table := by
  cases cursor <;> rfl

/-- A page that leaves nothing has no cursor. -/
theorem fetch_last
    (hlimit : 0 < limit)
    (hshort : (rowsBelow isNotification channel cursor table).length ≤ limit.toNat) :
    fetch loads isNotification channel limit cursor table =
      (readRows loads (rowsBelow isNotification channel cursor table)).map
        fun events => (events, none) := by
  rw [fetch_eq_page, page, if_neg (not_le.2 hlimit)]
  generalize rowsBelow isNotification channel cursor table = rows at hshort ⊢
  have hall : rows.reverse.take (limit.toNat + 1) = rows.reverse :=
    List.take_of_length_le (by rw [List.length_reverse]; omega)
  have hcut : rows.reverse.take limit.toNat = rows.reverse :=
    List.take_of_length_le (by rw [List.length_reverse]; exact hshort)
  simp only [hall, hcut, List.reverse_reverse, List.length_reverse, List.reverse_eq_nil_iff]
  rw [if_neg (not_lt.2 hshort)]
  by_cases hnil : rows = []
  · rw [if_pos hnil, hnil]
    rfl
  · rw [if_neg hnil]
    cases readRows loads rows <;> rfl

/-- A page that leaves some rows ends at its oldest row. -/
theorem fetch_cut
    {left newer : List Row} {oldest : Row}
    (hlimit : 0 < limit)
    (hrows : rowsBelow isNotification channel cursor table = left ++ oldest :: newer)
    (hleft : left ≠ [])
    (hlength : newer.length + 1 = limit.toNat) :
    fetch loads isNotification channel limit cursor table =
      (readRows loads (oldest :: newer)).map fun events => (events, some oldest.id) := by
  rw [fetch_eq_page, page, if_neg (not_le.2 hlimit), hrows]
  obtain ⟨rest, last, rfl⟩ : ∃ rest last, left = rest ++ [last] :=
    ⟨_, _, (List.dropLast_concat_getLast hleft).symm⟩
  have hreverse : (rest ++ [last] ++ oldest :: newer).reverse =
      (newer.reverse ++ [oldest]) ++ (last :: rest.reverse) := by
    simp
  have hpage : (newer.reverse ++ [oldest]).length = limit.toNat := by
    rw [List.length_append, List.length_reverse]
    exact hlength
  have htaken : (rest ++ [last] ++ oldest :: newer).reverse.take (limit.toNat + 1) =
      (newer.reverse ++ [oldest]) ++ [last] := by
    rw [hreverse, ← hpage, List.take_length_add_append]
    rfl
  rw [htaken]
  have hkept : ((newer.reverse ++ [oldest]) ++ [last]).take limit.toNat =
      newer.reverse ++ [oldest] := by
    rw [← hpage]
    exact List.take_left
  have hmore : limit.toNat < ((newer.reverse ++ [oldest]) ++ [last]).length := by
    rw [List.length_append, hpage]
    exact Nat.lt_succ_self _
  have hsome : (newer.reverse ++ [oldest]) ++ [last] ≠ [] := by simp
  simp only [hkept, if_neg hsome, if_pos hmore]
  have hback : (newer.reverse ++ [oldest]).reverse = oldest :: newer := by simp
  rw [hback]
  cases readRows loads (oldest :: newer) <;> simp [Except.map, bind, Except.bind]

end Fetch

/-! ## Walks -/

section Walk

variable {O : Type}
variable {loads : Text → Loaded O} {isNotification : Text → Bool}
variable {channel : Option Text} {limit : Int} {cursor : Option Int} {tables : Nat → Table}

/-- What reading some rows comes to: their events if all are readable, else an error. -/
inductive Outcome (loads : Text → Loaded O) (rows : List Row) :
    Except PageError (List (StreamEvent O)) → Prop
  | read
      (hreadable : ∀ row ∈ rows, Readable loads row) :
      Outcome loads rows (.ok (rows.filterMap (event loads)))
  | failed
      {row : Row}
      (hrow : row ∈ rows)
      (hunreadable : ¬ Readable loads row)
      (error : PageError) :
      Outcome loads rows (.error error)

theorem outcome_readRows (rows : List Row) : Outcome loads rows (readRows loads rows) := by
  by_cases hreadable : ∀ row ∈ rows, Readable loads row
  · rw [readRows_of_readable hreadable]
    exact .read hreadable
  · simp only [not_forall] at hreadable
    obtain ⟨row, hrow, hunreadable⟩ := hreadable
    obtain ⟨error, herror⟩ := readRows_error hrow hunreadable
    rw [herror]
    exact .failed hrow hunreadable error

/-- The rows left before some that could be read. -/
theorem Outcome.append
    {left newer : List Row} {result : Except PageError (List (StreamEvent O))}
    (hleft : Outcome loads left result)
    (hnewer : ∀ row ∈ newer, Readable loads row) :
    Outcome loads (left ++ newer) (result.map (· ++ newer.filterMap (event loads))) := by
  cases hleft with
  | read hreadable =>
      have hall : ∀ row ∈ left ++ newer, Readable loads row :=
        List.forall_mem_append.2 ⟨hreadable, hnewer⟩
      have hread := Outcome.read hall
      rw [List.filterMap_append] at hread
      exact hread
  | failed hrow hunreadable error =>
      exact .failed (List.mem_append_left _ hrow) hunreadable error

/-- The rows of a page that leaves some. -/
theorem exists_page
    {rows : List Row} {count : Nat}
    (hlong : count < rows.length)
    (hpos : 0 < count) :
    ∃ left oldest newer, rows = left ++ oldest :: newer ∧ newer.length + 1 = count := by
  cases hpage : rows.drop (rows.length - count) with
  | nil =>
      rw [List.drop_eq_nil_iff] at hpage
      omega
  | cons oldest newer =>
      refine ⟨rows.take (rows.length - count), oldest, newer, ?_, ?_⟩
      · rw [← hpage, List.take_append_drop]
      · have hlength := congrArg List.length hpage
        rw [List.length_drop, List.length_cons] at hlength
        omega

/-- A walk with more fetches than rows ends, with what reading the rows comes to. -/
theorem walk_outcome
    (hlimit : 0 < limit)
    (happends : Appends tables)
    {fetches : Nat}
    (hfetches : (rowsBelow isNotification channel cursor (tables 0)).length < fetches) :
    ∃ result, walk loads isNotification channel limit fetches cursor tables = some result ∧
      Outcome loads (rowsBelow isNotification channel cursor (tables 0)) result := by
  induction fetches generalizing cursor tables with
  | zero => exact absurd hfetches (Nat.not_lt_zero _)
  | succ fetches ih =>
      by_cases hshort :
          (rowsBelow isNotification channel cursor (tables 0)).length ≤ limit.toNat
      · have hread := @outcome_readRows O loads
          (rowsBelow isNotification channel cursor (tables 0))
        rw [walk, fetch_last hlimit hshort]
        cases hrows : readRows loads (rowsBelow isNotification channel cursor (tables 0)) with
        | error error =>
            rw [hrows] at hread
            exact ⟨_, rfl, hread⟩
        | ok events =>
            rw [hrows] at hread
            exact ⟨_, rfl, hread⟩
      · obtain ⟨left, oldest, newer, hrows, hlength⟩ :=
          exists_page (Nat.lt_of_not_le hshort) (Int.pos_iff_toNat_pos.1 hlimit)
        have hleft : left ≠ [] := by
          rintro rfl
          rw [hrows, List.nil_append, List.length_cons] at hshort
          omega
        have holdest : oldest ∈ (tables 0).rows := by
          have hmem : oldest ∈ rowsBelow isNotification channel cursor (tables 0) := by
            rw [hrows]
            simp
          exact (List.mem_filter.1 hmem).1
        have hnext : rowsBelow isNotification channel (some oldest.id) (tables 1) = left := by
          obtain ⟨appended, hlater⟩ := happends 0
          rw [rowsBelow_append hlater holdest, rowsBelow_of_split hrows]
        have hread := @outcome_readRows O loads (oldest :: newer)
        rw [walk, fetch_cut hlimit hrows hleft hlength, hrows]
        cases hpage : readRows loads (oldest :: newer) with
        | error error =>
            rw [hpage] at hread
            cases hread with
            | failed hrow hunreadable =>
                exact ⟨_, rfl, .failed (List.mem_append_right _ hrow) hunreadable error⟩
        | ok events =>
            rw [hpage] at hread
            cases hread with
            | read hreadable =>
                have hfewer : left.length < fetches := by
                  rw [hrows, List.length_append, List.length_cons] at hfetches
                  omega
                rw [← hnext] at hfewer
                obtain ⟨result, hwalk, houtcome⟩ :=
                  @ih (some oldest.id) (fun k => tables (k + 1)) (fun k => happends (k + 1)) hfewer
                rw [hnext] at houtcome
                refine ⟨_, ?_, houtcome.append hreadable⟩
                simp only [Except.map, hwalk, Option.map_some]

/-- More fetches do not change what a walk comes to. -/
theorem walk_mono
    {fetches : Nat} {result : Except PageError (List (StreamEvent O))}
    (h : walk loads isNotification channel limit fetches cursor tables = some result)
    (more : Nat) :
    walk loads isNotification channel limit (fetches + more) cursor tables = some result := by
  induction fetches generalizing cursor tables result with
  | zero => cases h
  | succ fetches ih =>
      rw [Nat.succ_add, walk]
      rw [walk] at h
      cases hfetch : fetch loads isNotification channel limit cursor (tables 0) with
      | error error =>
          rw [hfetch] at h
          exact h
      | ok found =>
          obtain ⟨events, older⟩ := found
          rw [hfetch] at h
          cases older with
          | none => exact h
          | some older =>
              simp only [Option.map_eq_some_iff] at h ⊢
              obtain ⟨rest, hrest, heq⟩ := h
              exact ⟨rest, ih hrest, heq⟩

end Walk

/-- The loading of an object, of `null` and of something that is no JSON. -/
def loadsText (data : Text) : Loaded Text :=
  if data = "null".toList then .other
  else if data = "\x7bnot json".toList then .malformed
  else .object data

def chatRow (id : Int) : Row where
  id
  data := "\x7b\"type\": \"chat\"\x7d".toList

/-- Two events and a row between them. -/
def tableAround (data : Text) : Table where
  rows := [chatRow 1, { id := 2, data }, chatRow 3]
  ascending := by simp [chatRow]

end EventHistory
end Agent
end Vesta
