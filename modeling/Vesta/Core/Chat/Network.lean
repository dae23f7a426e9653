import Vesta.Core.Chat.History
import Vesta.Core.Chat.Session
import Vesta.Lib.Machine

/-!
# A session against the event store

The store appends rows and sends each over the socket while it is open; a socket
that closes loses what is on the wire.  A fetch of a page remembers how many rows
the store held when it was asked: the store answers it from what it holds at any
time between the request and the answer.

Beside the session and what is under way, `World` keeps which rows were stored
while no socket was open, or were lost with a socket or with the pacing queue
(`missed`), how many rows there were at the last open, and whether what the open
left to be fetched has come since (`reseeded`).
-/

namespace Vesta
namespace Core
namespace Chat
namespace Network

open Lib

/-- A load of older history under way: the cursor it asked for and the rows stored then. -/
structure Load where
  cursor : Nat
  asked : Nat
deriving DecidableEq

structure World where
  session : Session
  store : Store
  wire : List StoredRow
  seeds : List Nat
  loading : Option Load
  openedAt : Nat
  missed : List Nat
  reseeded : Bool
deriving DecidableEq

inductive Label
  | stores (row : StoredRow)
  | opened
  | closed
  | deliver (natural : Bool)
  | typingTimer (natural : Bool)
  | flushPacing
  | seedArrives (i n : Nat)
  | seedFails (i : Nat)
  | retrySeed
  | loadMore
  | pageArrives (n : Nat)
  | pageFails
  | trimHistory
  | send
      (text : String) (inputMethod : InputMethod) (intentId : String)
      (attachments : Option (List ChatAttachment)) (now : String)
  | mark (intentId : String) (send : SendState)
  | remount (keepsHold : Bool)
deriving DecidableEq

/-- The rows that are lost when the pacing queue is emptied. -/
def unheld (s : Session) : List Nat :=
  (ids s.queue).filter (· ∉ ids s.chat.messages)

/-- A missed row that a page brings is missed no more, nor is one older than the page. -/
def stillMissed (page : HistoryPage) (missed : List Nat) : List Nat :=
  missed.filter fun id =>
    id ∉ ids page.events ∧ ∀ oldest ∈ ((ids page.events).min?).toList, oldest ≤ id

/-- A session of its own for a store that holds some rows. -/
def initial (store : Store) : World where
  session := Session.create initialChatState
  store := store
  wire := []
  seeds := [store.rows.length]
  loading := none
  openedAt := 0
  missed := store.rows.map (·.id)
  reseeded := false

def step (w : World) : Label → Option World
  | .stores row =>
      if h : ∀ old ∈ w.store.rows, old.id < row.id then
        some
          { w with
            store := w.store.append row h
            wire := if w.session.socketOpen then w.wire ++ [row] else w.wire
            missed := if w.session.socketOpen then w.missed else w.missed ++ [row.id] }
      else
        none
  | .opened =>
      if w.session.socketOpen then
        none
      else
        some
          { w with
            session := w.session.onOpen
            seeds := if w.session.reseeds then w.seeds ++ [w.store.rows.length] else w.seeds
            openedAt := w.store.rows.length
            missed := w.missed ++ unheld w.session
            reseeded := !w.session.reseeds }
  | .closed =>
      if w.session.socketOpen then
        some
          { w with
            session := w.session.onClosed
            wire := []
            missed := w.missed ++ w.wire.map (·.id)
            reseeded := false }
      else
        none
  | .deliver natural =>
      match w.wire with
      | [] => none
      | row :: rest =>
          some { w with session := w.session.onEvent natural row.message, wire := rest }
  | .typingTimer natural =>
      (w.session.onTypingTimer natural).map fun session => { w with session := session }
  | .flushPacing => some { w with session := w.session.flushQueue }
  | .seedArrives i n =>
      match w.seeds[i]? with
      | none => none
      | some asked =>
          if asked ≤ n ∧ n ≤ w.store.rows.length then
            some
              { w with
                session := w.session.onSeed ((w.store.first n).page none)
                seeds := w.seeds.eraseIdx i
                missed := stillMissed ((w.store.first n).page none) w.missed
                reseeded := w.reseeded || (w.session.socketOpen && w.openedAt ≤ n) }
          else
            none
  | .seedFails i =>
      if i < w.seeds.length then
        some { w with session := w.session.onSeedFailed, seeds := w.seeds.eraseIdx i }
      else
        none
  | .retrySeed =>
      if w.session.seedRetry then
        some
          { w with
            session := { w.session with seedRetry := false }
            seeds := w.seeds ++ [w.store.rows.length] }
      else
        none
  | .loadMore =>
      w.session.loadMore.map fun cursor =>
        { w with
          session := { w.session with loadingMore := true }
          loading := some { cursor := cursor, asked := w.store.rows.length } }
  | .pageArrives n =>
      match w.loading with
      | none => none
      | some load =>
          if load.asked ≤ n ∧ n ≤ w.store.rows.length then
            some
              { w with
                session := w.session.onPage ((w.store.first n).page (some load.cursor))
                loading := none }
          else
            none
  | .pageFails =>
      match w.loading with
      | none => none
      | some _ => some { w with session := w.session.onPageFailed, loading := none }
  | .trimHistory => some { w with session := w.session.trimHistory }
  | .send text inputMethod intentId attachments now =>
      some { w with session := { w.session with
        chat := beginSend w.session.chat text inputMethod intentId attachments now } }
  | .mark intentId send =>
      some { w with session := { w.session with
        chat := markSend w.session.chat intentId (some send) } }
  | .remount keepsHold =>
      some
        { w with
          session :=
            Session.create (if keepsHold then w.session.chat else initialChatState)
          wire := []
          seeds := [w.store.rows.length]
          loading := none
          missed :=
            if keepsHold then w.missed ++ unheld w.session ++ w.wire.map (·.id)
            else w.store.rows.map (·.id)
          reseeded := false }

attribute [grind =] step

/-- A run starts with any store and no conversation held. -/
def machine : Machine World Label where
  start := fun w => ∃ store, w = initial store
  step := step

/-- A row on its way into the tail: it waits for its typing delay or is on the wire, or the
client missed it and the page that a reopened socket asks for is still to come. -/
def Waiting (w : World) (id : Nat) : Prop :=
  id ∈ ids w.session.queue ∨ id ∈ w.wire.map (·.id) ∨ (w.reseeded = false ∧ id ∈ w.missed)

/-- The tail is a window on the store: nothing is missing in it from its oldest row on, and
the next page is the one right above it. -/
structure Contiguous (w : World) : Prop where
  rows : ∀ oldest ∈ (ids w.session.chat.messages).min?, ∀ row ∈ w.store.rows,
    oldest ≤ row.id → row.id ∈ ids w.session.chat.messages ∨ Waiting w row.id
  next : ∀ oldest ∈ (ids w.session.chat.messages).min?,
    match w.session.chat.cursor with
    | some cursor => cursor = oldest
    | none => ∀ row ∈ w.store.rows, row.id < oldest → Waiting w row.id

end Network
end Chat
end Core
end Vesta
