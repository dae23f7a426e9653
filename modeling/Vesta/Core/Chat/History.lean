import Vesta.Core.Chat.StreamModel
import Mathlib.Order.Lattice.Nat
import Mathlib.Data.List.MinMax

/-!
# The event store and the pages it answers

The store hands out ids in order and keeps every row.  A page is the newest rows
below a cursor, or the newest of all; its own cursor is its oldest row when the
store has a row below that.

`PageOf` says what a reader of a page can rely on.
-/

namespace Vesta
namespace Core
namespace Chat

inductive StoredBody
  | user
      (text : String) (inputMethod : Option InputMethod)
      (attachments : Option (List ChatAttachment)) (intentId : Option String)
  | chat (text : String) (attachments : Option (List ChatAttachment))
deriving DecidableEq, Repr

structure StoredRow where
  id : Nat
  ts : String
  body : StoredBody
deriving DecidableEq, Repr

/-- A row as it goes over the wire, live or on a page. -/
def StoredRow.message (row : StoredRow) : ChatMessage where
  id := some row.id
  ts := some row.ts
  body :=
    match row.body with
    | .user text inputMethod attachments intentId =>
        .user
          { text := text
            inputMethod := inputMethod
            attachments := attachments
            intentId := intentId
            sendState := none }
    | .chat text attachments => .chat text attachments

theorem StoredRow.unmarked (row : StoredRow) : row.message.sendState = none := by
  obtain ⟨id, ts, body⟩ := row
  cases body <;> rfl

/-- The rows in the order of their ids. -/
structure Store where
  rows : List StoredRow
  increasing : rows.Pairwise fun a b => a.id < b.id
deriving DecidableEq

namespace Store

def pageSize : Nat := 50

/-- What the store held when it had so many rows. -/
def first (store : Store) (n : Nat) : Store where
  rows := store.rows.take n
  increasing := store.increasing.sublist (List.take_sublist _ _)

/-- The store with one more row. -/
def append (store : Store) (row : StoredRow) (h : ∀ old ∈ store.rows, old.id < row.id) :
    Store where
  rows := store.rows ++ [row]
  increasing := by
    rw [List.pairwise_append]
    refine ⟨store.increasing, List.pairwise_singleton _ _, fun old hold new hnew => ?_⟩
    rw [List.mem_singleton.1 hnew]
    exact h old hold

/-- The rows below a cursor, or all. -/
def below (store : Store) (before : Option Nat) : List StoredRow :=
  store.rows.filter fun row => before.all (row.id < ·)

/-- The rows a query reads: one more than a page holds, the newest first. -/
def fetched (store : Store) (before : Option Nat) : List StoredRow :=
  (store.below before).reverse.take (pageSize + 1)

/-- Where the page after this one starts, when there are older rows. -/
def nextCursor (store : Store) (before : Option Nat) : Option Nat :=
  if pageSize < (store.fetched before).length then
    ((store.fetched before).take pageSize).getLast?.map (·.id)
  else
    none

/-- The rows of a page are the newest ones below the cursor. -/
theorem shown_eq (store : Store) (before : Option Nat) :
    ((store.fetched before).take pageSize).reverse =
      (store.below before).drop ((store.below before).length - pageSize) := by
  rw [fetched, List.take_take, List.take_reverse, List.reverse_reverse]
  rfl

theorem increasing_below (store : Store) (before : Option Nat) :
    (store.below before).Pairwise fun a b => a.id < b.id :=
  store.increasing.sublist List.filter_sublist

theorem increasing_shown (store : Store) (before : Option Nat) :
    ((store.fetched before).take pageSize).reverse.Pairwise fun a b => a.id < b.id := by
  rw [shown_eq]
  exact (store.increasing_below before).sublist (List.drop_sublist _ _)

end Store

theorem ids_map_message (rows : List StoredRow) :
    ids (rows.map StoredRow.message) = rows.map (·.id) := by
  rw [ids, List.filterMap_map, ← List.filterMap_eq_map]
  rfl

namespace Store

/-- The newest rows below a cursor, and where the next page starts. -/
def page (store : Store) (before : Option Nat) : HistoryPage where
  events := ((store.fetched before).take pageSize).reverse.map StoredRow.message
  cursor := store.nextCursor before
  distinct := by
    rw [ids_map_message]
    exact (List.pairwise_map.2 (store.increasing_shown before)).imp fun h => Nat.ne_of_lt h
  unmarked := by
    intro event hevent
    obtain ⟨row, -, rfl⟩ := List.mem_map.1 hevent
    exact row.unmarked

end Store

/-- What a page of some rows says about them. -/
structure PageOf (rows : List StoredRow) (before : Option Nat) (page : HistoryPage) : Prop where
  stored : ∀ id ∈ ids page.events, (∃ row ∈ rows, row.id = id) ∧ ∀ c ∈ before, id < c
  complete : ∀ row ∈ rows, (∀ c ∈ before, row.id < c) →
    row.id ∈ ids page.events ∨ ∃ oldest ∈ (ids page.events).min?, row.id < oldest
  cursor : ∀ c ∈ page.cursor, c ∈ (ids page.events).min?
  whole : page.cursor = none → ∀ row ∈ rows, (∀ c ∈ before, row.id < c) →
    row.id ∈ ids page.events

namespace Store

theorem mem_below
    {store : Store} {before : Option Nat} {row : StoredRow} :
    row ∈ store.below before ↔ row ∈ store.rows ∧ ∀ c ∈ before, row.id < c := by
  rw [below, List.mem_filter]
  cases before <;> simp

/-- The oldest id of rows that stand in order is that of the first. -/
theorem min?_ids_of_head?
    {rows : List StoredRow} {row : StoredRow}
    (hrows : rows.Pairwise fun a b => a.id < b.id)
    (hhead : rows.head? = some row) :
    (rows.map (·.id)).min? = some row.id := by
  cases rows with
  | nil => cases hhead
  | cons first rest =>
      cases hhead
      rw [List.min?_eq_some_iff]
      refine ⟨List.mem_cons_self, fun id hid => ?_⟩
      obtain ⟨other, hother, rfl⟩ := List.mem_map.1 hid
      rcases List.mem_cons.1 hother with rfl | hother
      · exact Nat.le_refl _
      · exact Nat.le_of_lt (List.rel_of_pairwise_cons hrows hother)

theorem nextCursor_eq (store : Store) (before : Option Nat) :
    store.nextCursor before =
      if pageSize < (store.below before).length then
        ((store.below before).drop ((store.below before).length - pageSize)).head?.map (·.id)
      else
        none := by
  have hlength : pageSize < (store.fetched before).length ↔
      pageSize < (store.below before).length := by
    rw [fetched, List.length_take, List.length_reverse]
    omega
  rw [nextCursor, ← shown_eq, List.head?_reverse]
  simp only [hlength]

/-- The newest rows of a store are not empty when there are older ones, and the first of them
is above these. -/
theorem exists_head_drop
    {rows : List StoredRow} {row : StoredRow}
    (hrows : rows.Pairwise fun a b => a.id < b.id)
    (hrow : row ∈ rows.take (rows.length - pageSize)) :
    ∃ oldest, (rows.drop (rows.length - pageSize)).head? = some oldest ∧ row.id < oldest.id := by
  have hlong : rows.length - pageSize ≠ 0 := by
    intro hzero
    rw [hzero, List.take_zero] at hrow
    cases hrow
  cases hdrop : rows.drop (rows.length - pageSize) with
  | nil =>
      have hshort := List.drop_eq_nil_iff.1 hdrop
      have : 0 < pageSize := by decide
      omega
  | cons oldest rest =>
      refine ⟨oldest, rfl, ?_⟩
      rw [← List.take_append_drop (rows.length - pageSize) rows, List.pairwise_append] at hrows
      exact hrows.2.2 row hrow oldest (hdrop ▸ List.mem_cons_self)

theorem pageOf_page (store : Store) (before : Option Nat) :
    PageOf store.rows before (store.page before) := by
  have hids : ids (store.page before).events =
      ((store.below before).drop ((store.below before).length - pageSize)).map (·.id) := by
    rw [page, ids_map_message, shown_eq]
  have hsorted := (store.increasing_below before).sublist
    (List.drop_sublist ((store.below before).length - pageSize) _)
  have hmem : ∀ row ∈ store.rows, (∀ c ∈ before, row.id < c) →
      row.id ∈ ids (store.page before).events ∨
        row ∈ (store.below before).take ((store.below before).length - pageSize) := by
    intro row hrow hbelow
    have hin := mem_below.2 ⟨hrow, hbelow⟩
    rw [← List.take_append_drop ((store.below before).length - pageSize) (store.below before),
      List.mem_append] at hin
    rw [hids]
    exact hin.symm.imp_left List.mem_map_of_mem
  constructor
  · intro id hid
    rw [hids] at hid
    obtain ⟨row, hrow, rfl⟩ := List.mem_map.1 hid
    have hin := mem_below.1 (List.mem_of_mem_drop hrow)
    exact ⟨⟨row, hin.1, rfl⟩, hin.2⟩
  · intro row hrow hbelow
    refine (hmem row hrow hbelow).imp_right fun hlower => ?_
    obtain ⟨oldest, hhead, hlt⟩ := exists_head_drop (store.increasing_below before) hlower
    exact ⟨oldest.id, hids ▸ min?_ids_of_head? hsorted hhead, hlt⟩
  · intro c hc
    have hnext : c ∈ store.nextCursor before := hc
    rw [nextCursor_eq] at hnext
    split at hnext
    · obtain ⟨oldest, hhead, rfl⟩ := Option.map_eq_some_iff.1 hnext
      exact hids ▸ min?_ids_of_head? hsorted hhead
    · cases hnext
  · intro hnone row hrow hbelow
    refine (hmem row hrow hbelow).resolve_right fun hlower => ?_
    obtain ⟨oldest, hhead, -⟩ := exists_head_drop (store.increasing_below before) hlower
    have hnext : store.nextCursor before = none := hnone
    rw [nextCursor_eq, hhead] at hnext
    split at hnext
    · cases hnext
    · rename_i hshort
      rw [Nat.sub_eq_zero_of_le (Nat.not_lt.1 hshort), List.take_zero] at hlower
      cases hlower

/-- A row below one that a snapshot holds is in the snapshot too. -/
theorem mem_first_of_lt
    {store : Store} {n : Nat} {row other : StoredRow}
    (hrow : row ∈ store.rows)
    (hother : other ∈ (store.first n).rows)
    (hlt : row.id < other.id) :
    row ∈ (store.first n).rows := by
  have hsplit := List.take_append_drop n store.rows
  have hsorted := store.increasing
  rw [← hsplit] at hrow
  rw [← hsplit, List.pairwise_append] at hsorted
  refine (List.mem_append.1 hrow).resolve_right fun hlater => ?_
  exact absurd (hsorted.2.2 other hother row hlater) (Nat.lt_asymm hlt)

end Store

end Chat
end Core
end Vesta
