import Vesta.Core.Chat.StreamModel

/-!
# The chat session

The session joins the live socket to the pages of the history and lets the
replies wait for their typing delay.  A function below is one callback of the
session: it runs to its end before the next one.

Timers and fetches are started by one callback and end in another.  The session
holds of them what the callbacks read: whether the typing timer, the retry timer
or a load of older history is pending.  Whether replies are paced is read at each
pacing step and comes with it.  `announced` collects the calls of `onReply`.
-/

namespace Vesta
namespace Core
namespace Chat

/-- The queued replies beyond which a burst is committed at once. -/
def flushThreshold : Nat := 3

/-- The text of a reply. -/
def ChatMessage.reply (event : ChatMessage) : Option String :=
  match event.body with
  | .chat text _ => some text
  | _ => none

structure Session where
  chat : ChatState
  queue : List ChatMessage
  typing : Bool
  loadingMore : Bool
  socketOpen : Bool
  seedRetry : Bool
  mountSeedSucceeded : Bool
  sawOpen : Bool
  announced : List String
deriving DecidableEq

namespace Session

/-- A session renders what it is handed at once, and fetches the newest page. -/
def create (held : ChatState) : Session where
  chat := held
  queue := []
  typing := false
  loadingMore := false
  socketOpen := false
  seedRetry := false
  mountSeedSucceeded := false
  sawOpen := false
  announced := []

/-! ## Pacing -/

def commitReply (s : Session) (event : ChatMessage) : Session :=
  { s with
    chat := commitPacedChat s.chat event
    announced := s.announced ++ event.reply.toList }

def flushQueue (s : Session) : Session :=
  s.queue.foldl commitReply { s with queue := [], typing := false }

def resetPacing (s : Session) : Session :=
  { s with queue := [], typing := false }

def drainQueue (natural : Bool) (s : Session) : Session :=
  if s.typing || s.queue.isEmpty then
    s
  else if flushThreshold < s.queue.length || !natural then
    s.flushQueue
  else
    { s with typing := true }

/-- The typing delay of the first reply is over. -/
def onTypingTimer (natural : Bool) (s : Session) : Option Session :=
  match s.typing, s.queue with
  | true, next :: rest =>
      some (drainQueue natural (commitReply { s with typing := false, queue := rest } next))
  | _, _ => none

/-! ## The socket -/

def onEvent (natural : Bool) (s : Session) (event : ChatMessage) : Session :=
  let folded := foldLiveEvent s.chat event
  if folded.2 then
    drainQueue natural { s with chat := folded.1, queue := s.queue ++ [event] }
  else
    { s with chat := folded.1 }

/-- Each parked bubble goes back to sending; its message is posted again. -/
def repostParked (chat : ChatState) : ChatState :=
  (retryableSends chat).foldl
    (fun chat send => markSend chat send.intentId (some .sending)) chat

/-- An open skips the newest page only when it is the first and the page of the creation has
landed. -/
def reseeds (s : Session) : Bool :=
  s.sawOpen || !s.mountSeedSucceeded

def onOpen (s : Session) : Session :=
  let s := { s with socketOpen := true, seedRetry := false }.resetPacing
  { s with sawOpen := true, chat := repostParked s.chat }

def onClosed (s : Session) : Session :=
  { s with socketOpen := false, seedRetry := false }

/-! ## Pages -/

def onSeed (s : Session) (page : HistoryPage) : Session :=
  { s with chat := seedTail s.chat page, mountSeedSucceeded := true }

def onSeedFailed (s : Session) : Session :=
  if s.socketOpen then { s with seedRetry := true } else s

/-- The cursor of the page that a scroll to the top fetches. -/
def loadMore (s : Session) : Option Nat :=
  if s.loadingMore then none else s.chat.cursor

def onPage (s : Session) (page : HistoryPage) : Session :=
  { s with chat := prependPage s.chat page, loadingMore := false }

def onPageFailed (s : Session) : Session :=
  { s with loadingMore := false }

/-- A trim waits for a load to end. -/
def trimHistory (s : Session) : Session :=
  if s.loadingMore then s else { s with chat := trimTail s.chat trimHistoryKeep }

/-! ## What the pacing does -/

theorem foldl_commitReply (queue : List ChatMessage) (s : Session) :
    queue.foldl commitReply s =
      { s with
        chat := queue.foldl commitPacedChat s.chat
        announced := s.announced ++ queue.filterMap (·.reply) } := by
  induction queue generalizing s with
  | nil => simp
  | cons event queue ih =>
      rw [List.foldl_cons, ih]
      cases hreply : event.reply <;> simp [commitReply, hreply]

/-- A flush commits and announces all that wait. -/
theorem flushQueue_eq (s : Session) :
    s.flushQueue =
      { s with
        chat := s.queue.foldl commitPacedChat s.chat
        queue := []
        typing := false
        announced := s.announced ++ s.queue.filterMap (·.reply) } :=
  foldl_commitReply s.queue _

end Session

end Chat
end Core
end Vesta
