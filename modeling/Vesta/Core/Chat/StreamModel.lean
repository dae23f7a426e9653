import Mathlib.Data.Finset.Option
import Mathlib.Data.Finset.SDiff
import Mathlib.Data.List.Nodup

/-!
# The tail of a conversation as a client holds it

A client holds the newest part of a conversation as one list of rows: the rows of
the server's event store, each with its id, and the optimistic bubbles of the
messages it is sending, which have none.  Every fold below takes the state and
one input (a page of the history, a live event, a send) to the next state.

An event of the wire carries no send state: `LiveEvent` and `HistoryPage` hold
what the parser and the store promise about the rows they hand over.
-/

namespace Vesta
namespace Core
namespace Chat

inductive InputMethod
  | voice
  | typed
deriving DecidableEq, Repr

inductive SendState
  | sending
  | retry
  | failed
deriving DecidableEq, Repr

structure ChatAttachment where
  id : String
  name : String
  mime : String
  size : Nat
deriving DecidableEq, Repr

structure UserFields where
  text : String
  inputMethod : Option InputMethod
  attachments : Option (List ChatAttachment)
  intentId : Option String
  sendState : Option SendState
deriving DecidableEq, Repr

/-- The variants of a row.  The folds read no field of the last seven. -/
inductive MessageBody
  | user (fields : UserFields)
  | chat (text : String) (attachments : Option (List ChatAttachment))
  | toolStart (tool input : String) (subagent : Option Bool)
  | toolEnd (tool : String) (subagent : Option Bool)
  | status (thinking : Bool)
  | assistant (text : String)
  | thinking (text signature : String)
  | error (text : String)
  | rateLimited (text : String)
  | notification (source summary : String)
  | notificationCleared (notifId : String)
  | subagentStart (agentId agentType : String)
  | subagentStop (agentId agentType : String)
deriving DecidableEq, Repr

/-- A row of the view: an event of the store, or a bubble that has no id yet. -/
structure ChatMessage where
  id : Option Nat
  ts : Option String
  body : MessageBody
deriving DecidableEq, Repr

namespace ChatMessage

def intentId (message : ChatMessage) : Option String :=
  match message.body with
  | .user fields => fields.intentId
  | _ => none

def sendState (message : ChatMessage) : Option SendState :=
  match message.body with
  | .user fields => fields.sendState
  | _ => none

def attachments (message : ChatMessage) : Option (List ChatAttachment) :=
  match message.body with
  | .user fields => fields.attachments
  | .chat _ attachments => attachments
  | _ => none

def isChat (message : ChatMessage) : Bool :=
  match message.body with
  | .chat .. => true
  | _ => false

end ChatMessage

/-- The server ids of the rows, in the order they stand. -/
def ids (messages : List ChatMessage) : List Nat :=
  messages.filterMap (·.id)

/-- An event of the live socket. -/
structure LiveEvent where
  message : ChatMessage
  unmarked : message.sendState = none
deriving DecidableEq

/-- A page of the history: rows of the store, each of them once. -/
structure HistoryPage where
  events : List ChatMessage
  cursor : Option Nat
  distinct : (ids events).Nodup
  unmarked : ∀ event ∈ events, event.sendState = none
deriving DecidableEq

/-- The page of a store that holds no row. -/
def HistoryPage.empty : HistoryPage where
  events := []
  cursor := none
  distinct := List.nodup_nil
  unmarked := fun _ hevent => nomatch hevent

structure ChatState where
  messages : List ChatMessage
  shownIds : Finset Nat
  pendingIntents : Finset String
  cursor : Option Nat
  historyLoaded : Bool
deriving DecidableEq

def initialChatState : ChatState where
  messages := []
  shownIds := ∅
  pendingIntents := ∅
  cursor := none
  historyLoaded := false

/-- The most rows a live append leaves in the tail. -/
def maxMessages : Nat := 5000

/-- The rows a trim keeps unless it is told otherwise. -/
def trimHistoryKeep : Nat := 100

def capTail (messages : List ChatMessage) : List ChatMessage :=
  if maxMessages < messages.length then
    messages.drop (messages.length - maxMessages)
  else
    messages

/-! ## The newest page -/

structure PageIndex where
  pageIds : Finset Nat
  echoedIntents : Finset String
  oldestPageId : Option Nat

def indexPage (page : HistoryPage) : PageIndex where
  pageIds := (ids page.events).toFinset
  echoedIntents := (page.events.filterMap (·.intentId)).toFinset
  oldestPageId := (ids page.events).min?

def ChatState.isPending (state : ChatState) (message : ChatMessage) : Bool :=
  message.intentId.any (· ∈ state.pendingIntents)

/-- Where a held row goes when a page is merged. -/
inductive Placement
  | dropped
  | overlapping
  | older
  | newer
deriving DecidableEq

def placement (state : ChatState) (index : PageIndex) (message : ChatMessage) : Placement :=
  if state.isPending message && message.intentId.any (· ∈ index.echoedIntents) then
    .dropped
  else
    match message.id with
    | none => if state.isPending message then .newer else .dropped
    | some id =>
        if id ∈ index.pageIds then .overlapping
        else if index.oldestPageId.any (id < ·) then .older
        else .newer

structure HeldRows where
  older : List ChatMessage
  newer : List ChatMessage
  overlaps : Bool

def partitionHeld (state : ChatState) (index : PageIndex) : HeldRows where
  older := state.messages.filter fun message => placement state index message = .older
  newer := state.messages.filter fun message => placement state index message = .newer
  overlaps := state.messages.any fun message => placement state index message = .overlapping

/-- The held rows older than the page stay when there are none or the page overlaps what is
held. -/
def HeldRows.joined (held : HeldRows) : Bool :=
  held.older.isEmpty || held.overlaps

/-- The rows above the page that stay. -/
def HeldRows.kept (held : HeldRows) : List ChatMessage :=
  if held.joined then held.older else []

def seedTail (state : ChatState) (page : HistoryPage) : ChatState :=
  let index := indexPage page
  let held := partitionHeld state index
  { messages := capTail (held.kept ++ page.events ++ held.newer)
    shownIds := state.shownIds ∪ index.pageIds
    pendingIntents := state.pendingIntents \ index.echoedIntents
    cursor := if held.joined && state.historyLoaded then state.cursor else page.cursor
    historyLoaded := true }

/-! ## Live events -/

def isChatRow (event : ChatMessage) : Bool :=
  match event.body with
  | .toolStart .. | .toolEnd .. => false
  | _ => true

/-- The intent a live event confirms. -/
def ChatState.confirmedBy (state : ChatState) (event : ChatMessage) : Option String :=
  event.intentId.filter (· ∈ state.pendingIntents)

/-- A row after the echo of an intent: its bubble takes the id, the time and the attachments
of the echo. -/
def confirm (event : ChatMessage) (intentId : String) (message : ChatMessage) : ChatMessage :=
  match message.body with
  | .user fields =>
      if fields.intentId = some intentId then
        { id := event.id <|> message.id
          ts := event.ts <|> message.ts
          body := .user { fields with
            sendState := none
            attachments := event.attachments <|> fields.attachments } }
      else
        message
  | _ => message

/-- A row put at the end of the tail. -/
def ChatState.append (state : ChatState) (message : ChatMessage) : ChatState :=
  { state with messages := capTail (state.messages ++ [message]) }

/-- Fold a live event.  A reply is not appended but flagged as paced. -/
def foldLiveEvent (state : ChatState) (event : ChatMessage) : ChatState × Bool :=
  if !isChatRow event then
    (state, false)
  else
    match state.confirmedBy event with
    | some intentId =>
        ({ state with
            messages := state.messages.map (confirm event intentId)
            shownIds := state.shownIds ∪ event.id.toFinset
            pendingIntents := state.pendingIntents.erase intentId },
          false)
    | none =>
        match event.id with
        | some id =>
            if id ∈ state.shownIds then
              (state, false)
            else
              let state := { state with shownIds := insert id state.shownIds }
              if event.isChat then (state, true) else (state.append event, false)
        | none =>
            if event.isChat then (state, true) else (state.append event, false)

def commitPacedChat (state : ChatState) (event : ChatMessage) : ChatState :=
  if event.id.isSome && state.messages.any (fun message => message.id = event.id) then
    state
  else
    state.append event

/-! ## Sends -/

/-- The bubble of a message that is being sent. -/
def sentBubble
    (text : String) (inputMethod : InputMethod) (intentId : String)
    (attachments : Option (List ChatAttachment)) (now : String) : ChatMessage where
  id := none
  ts := some now
  body := .user
    { text := text
      inputMethod := some inputMethod
      attachments := attachments.filter fun list => !list.isEmpty
      intentId := some intentId
      sendState := some .sending }

def beginSend
    (state : ChatState)
    (text : String) (inputMethod : InputMethod) (intentId : String)
    (attachments : Option (List ChatAttachment)) (now : String) : ChatState :=
  { state with pendingIntents := insert intentId state.pendingIntents }.append
    (sentBubble text inputMethod intentId attachments now)

def setSendState
    (intentId : String) (send : Option SendState) (message : ChatMessage) : ChatMessage :=
  match message.body with
  | .user fields =>
      if fields.intentId = some intentId then
        { message with body := .user { fields with sendState := send } }
      else
        message
  | _ => message

def markSend (state : ChatState) (intentId : String) (send : Option SendState) : ChatState :=
  { state with messages := state.messages.map (setSendState intentId send) }

structure RetryableSend where
  intentId : String
  text : String
  inputMethod : InputMethod
  attachments : Option (List ChatAttachment)
deriving DecidableEq, Repr

def retryableSends (state : ChatState) : List RetryableSend :=
  state.messages.filterMap fun message =>
    match message.body with
    | .user fields =>
        match fields.intentId with
        | some intentId =>
            if fields.sendState = some .retry then
              some
                { intentId := intentId
                  text := fields.text
                  inputMethod := fields.inputMethod.getD .typed
                  attachments := fields.attachments }
            else
              none
        | none => none
    | _ => none

/-! ## Older history -/

/-- The rows that `slice(-keep)` leaves; a negative zero cuts nothing off. -/
def newest (keep : Nat) (messages : List ChatMessage) : List ChatMessage :=
  if keep = 0 then messages else messages.drop (messages.length - keep)

def trimTail (state : ChatState) (keep : Nat) : ChatState :=
  if state.messages.length ≤ keep then
    state
  else
    match (newest keep state.messages).findSome? (·.id) with
    | none => state
    | some oldestKeptId =>
        { state with
          messages := newest keep state.messages
          shownIds := state.shownIds.filter (oldestKeptId ≤ ·)
          cursor := some oldestKeptId }

def prependPage (state : ChatState) (page : HistoryPage) : ChatState :=
  { state with
    shownIds := state.shownIds ∪ (ids page.events).toFinset
    messages := page.events ++ state.messages
    cursor := page.cursor }

/-- The row the store made of a message the user sent. -/
def sentRow (id : Nat) (intentId : Option String) : ChatMessage where
  id := some id
  ts := none
  body := .user
    { text := "hello"
      inputMethod := some .typed
      attachments := none
      intentId := intentId
      sendState := none }

/-! ## Sequences of operations -/

/-- One operation of the model with its input, as the session makes it. -/
inductive Operation
  | seedTail (page : HistoryPage)
  | foldLiveEvent (event : LiveEvent)
  | commitPacedChat (event : LiveEvent)
  | beginSend
      (text : String) (inputMethod : InputMethod) (intentId : String)
      (attachments : Option (List ChatAttachment)) (now : String)
  | markSend (intentId : String) (send : SendState)
  | trimTail (keep : Nat)
  | prependPage (page : HistoryPage)
deriving DecidableEq

def ChatState.apply (state : ChatState) : Operation → ChatState
  | .seedTail page => Chat.seedTail state page
  | .foldLiveEvent event => (Chat.foldLiveEvent state event.message).1
  | .commitPacedChat event => Chat.commitPacedChat state event.message
  | .beginSend text inputMethod intentId attachments now =>
      Chat.beginSend state text inputMethod intentId attachments now
  | .markSend intentId send => Chat.markSend state intentId (some send)
  | .trimTail keep => Chat.trimTail state keep
  | .prependPage page => Chat.prependPage state page

/-! ## What the folds do to the rows -/

section Rows

variable {state : ChatState} {message event : ChatMessage} {messages : List ChatMessage}

theorem ids_append (a b : List ChatMessage) : ids (a ++ b) = ids a ++ ids b :=
  List.filterMap_append

theorem mem_ids {id : Nat} : id ∈ ids messages ↔ ∃ message ∈ messages, message.id = some id :=
  List.mem_filterMap

theorem ids_sublist
    {a b : List ChatMessage}
    (h : List.Sublist a b) :
    List.Sublist (ids a) (ids b) :=
  h.filterMap _

/-- Capping the tail drops its first rows. -/
theorem capTail_eq_drop (messages : List ChatMessage) :
    capTail messages = messages.drop (messages.length - maxMessages) := by
  rw [capTail]
  split
  · rfl
  · rename_i h
    rw [Nat.sub_eq_zero_of_le (Nat.not_lt.1 h), List.drop_zero]

/-- A row put at the end of the tail stands after the newest of the rows before it. -/
theorem messages_append :
    (state.append message).messages =
      state.messages.drop (state.messages.length + 1 - maxMessages) ++ [message] := by
  rw [ChatState.append, capTail_eq_drop, List.length_append, List.length_singleton,
    List.drop_append_of_le_length]
  have : 0 < maxMessages := by decide
  omega

theorem newest_suffix (keep : Nat) (messages : List ChatMessage) :
    newest keep messages <:+ messages := by
  rw [newest]
  split
  · exact List.suffix_refl _
  · exact List.drop_suffix _ _

theorem id_setSendState (intentId : String) (send : Option SendState) (message : ChatMessage) :
    (setSendState intentId send message).id = message.id := by
  rw [setSendState]
  split
  · split <;> rfl
  · rfl

/-- Marking a send leaves the ids of the tail as they are. -/
theorem ids_markSend (chat : ChatState) (intentId : String) (send : Option SendState) :
    ids (markSend chat intentId send).messages = ids chat.messages := by
  simp [markSend, ids, List.filterMap_map, id_setSendState]

theorem id_confirm (event : ChatMessage) (intentId : String) (message : ChatMessage) :
    (confirm event intentId message).id =
      if message.intentId = some intentId then event.id <|> message.id else message.id := by
  obtain ⟨id, ts, body⟩ := message
  cases body with
  | user fields =>
      by_cases h : fields.intentId = some intentId <;>
        simp [confirm, ChatMessage.intentId, h]
  | _ => rfl

theorem confirmedBy_of_isChatRow
    (h : isChatRow event = false) :
    state.confirmedBy event = none := by
  obtain ⟨id, ts, body⟩ := event
  cases body with
  | toolStart | toolEnd => rfl
  | _ => cases h

/-- A state that counts the event's id as shown. -/
def ChatState.shown (state : ChatState) (event : ChatMessage) : ChatState :=
  { state with shownIds := state.shownIds ∪ event.id.toFinset }

/-- A state in which the echo has confirmed the bubbles of its intent. -/
def ChatState.confirmed
    (state : ChatState) (event : ChatMessage) (intentId : String) : ChatState :=
  { state.shown event with
    messages := state.messages.map (confirm event intentId)
    pendingIntents := state.pendingIntents.erase intentId }

/-- A live event that changes nothing: a tool row, or one on an id that is shown. -/
def ChatState.ignores (state : ChatState) (event : ChatMessage) : Bool :=
  !isChatRow event || event.id.any (· ∈ state.shownIds)

/-- What a live event can do: confirm a bubble, nothing, wait for its typing delay, or stand
at the end of the tail. -/
theorem foldLiveEvent_cases (state : ChatState) (event : ChatMessage) :
    (∃ intentId, state.confirmedBy event = some intentId ∧
      foldLiveEvent state event = (state.confirmed event intentId, false)) ∨
    (state.confirmedBy event = none ∧ state.ignores event = true ∧
      foldLiveEvent state event = (state, false)) ∨
    (state.confirmedBy event = none ∧ state.ignores event = false ∧ event.isChat = true ∧
      foldLiveEvent state event = (state.shown event, true)) ∨
    (state.confirmedBy event = none ∧ state.ignores event = false ∧ event.isChat = false ∧
      foldLiveEvent state event = ((state.shown event).append event, false)) := by
  rw [foldLiveEvent, ChatState.ignores]
  cases hrow : isChatRow event with
  | false => exact Or.inr (Or.inl ⟨confirmedBy_of_isChatRow hrow, rfl, rfl⟩)
  | true =>
      cases hconfirmed : state.confirmedBy event with
      | some intentId => exact Or.inl ⟨intentId, rfl, rfl⟩
      | none =>
          cases hid : event.id with
          | none =>
              have hshown : state.shown event = state := by
                simp [ChatState.shown, hid]
              cases hchat : event.isChat <;> simp [hshown]
          | some id =>
              have hshown : state.shown event =
                  { state with shownIds := insert id state.shownIds } := by
                simp [ChatState.shown, hid]
              by_cases hmem : id ∈ state.shownIds
              · simp [hmem]
              · cases hchat : event.isChat <;> simp [hmem, hshown]

/-- A paced reply is committed when no row is on its id. -/
theorem commitPacedChat_cases (state : ChatState) (event : ChatMessage) :
    ((∃ id ∈ event.id, id ∈ ids state.messages) ∧ commitPacedChat state event = state) ∨
    ((∀ id ∈ event.id, id ∉ ids state.messages) ∧
      commitPacedChat state event = state.append event) := by
  rw [commitPacedChat]
  split
  · rename_i hheld
    rw [Bool.and_eq_true, List.any_eq_true] at hheld
    obtain ⟨hsome, message, hmem, hsame⟩ := hheld
    obtain ⟨id, hid⟩ := Option.isSome_iff_exists.1 hsome
    have hmessage : message.id = some id := (of_decide_eq_true hsame).trans hid
    exact Or.inl ⟨⟨id, hid, mem_ids.2 ⟨message, hmem, hmessage⟩⟩, rfl⟩
  · rename_i hheld
    refine Or.inr ⟨fun id hid hmem => hheld ?_, rfl⟩
    obtain ⟨message, hmessage, hsame⟩ := mem_ids.1 hmem
    rw [Bool.and_eq_true, List.any_eq_true]
    exact ⟨Option.isSome_iff_exists.2 ⟨id, hid⟩, message, hmessage,
      decide_eq_true (hsame.trans hid.symm)⟩

/-- A trim that cuts moves the cursor to the first id it keeps. -/
theorem trimTail_cases (state : ChatState) (keep : Nat) :
    ((state.messages.length ≤ keep ∨ ids (newest keep state.messages) = []) ∧
      trimTail state keep = state) ∨
    (keep < state.messages.length ∧ ∃ oldest rest,
      ids (newest keep state.messages) = oldest :: rest ∧
        trimTail state keep =
          { state with
            messages := newest keep state.messages
            shownIds := state.shownIds.filter (oldest ≤ ·)
            cursor := some oldest }) := by
  rw [trimTail, ← List.head?_filterMap]
  split
  · rename_i hshort
    exact Or.inl ⟨Or.inl hshort, rfl⟩
  · rename_i hlong
    cases hids : ids (newest keep state.messages) with
    | nil =>
        rw [ids] at hids
        rw [hids]
        exact Or.inl ⟨Or.inr rfl, rfl⟩
    | cons oldest rest =>
        rw [ids] at hids
        rw [hids]
        exact Or.inr ⟨Nat.not_le.1 hlong, oldest, rest, rfl, rfl⟩

theorem trimTail_suffix (state : ChatState) (keep : Nat) :
    (trimTail state keep).messages <:+ state.messages := by
  rcases trimTail_cases state keep with ⟨-, htrim⟩ | ⟨-, oldest, rest, -, htrim⟩
  · rw [htrim]
  · rw [htrim]
    exact newest_suffix keep _

/-- A held row that stands above or below the page is on no page row's id. -/
theorem placement_of_id
    {index : PageIndex} {id : Nat}
    (hid : message.id = some id) :
    (placement state index message = .older →
      id ∉ index.pageIds ∧ index.oldestPageId.any (id < ·) = true) ∧
    (placement state index message = .newer →
      id ∉ index.pageIds ∧ index.oldestPageId.any (id < ·) = false) := by
  rw [placement, hid]
  split
  · exact ⟨(nomatch ·), (nomatch ·)⟩
  · simp only []
    split
    · exact ⟨(nomatch ·), (nomatch ·)⟩
    · rename_i hpage
      split
      · rename_i hold
        exact ⟨fun _ => ⟨hpage, hold⟩, (nomatch ·)⟩
      · rename_i hold
        exact ⟨(nomatch ·), fun _ => ⟨hpage, by simpa using hold⟩⟩

theorem id_ne_none_of_older
    {index : PageIndex}
    (h : placement state index message = .older) :
    message.id ≠ none := by
  intro hid
  rw [placement, hid] at h
  split at h
  · cases h
  · simp only [] at h
    split at h <;> cases h

theorem kept_sublist (state : ChatState) (index : PageIndex) :
    List.Sublist (partitionHeld state index).kept state.messages := by
  rw [HeldRows.kept]
  split
  · exact List.filter_sublist
  · exact List.nil_sublist _

theorem placement_of_mem_kept
    {index : PageIndex}
    (h : message ∈ (partitionHeld state index).kept) :
    placement state index message = .older := by
  rw [HeldRows.kept] at h
  split at h
  · simpa using (List.mem_filter.1 h).2
  · cases h

end Rows

end Chat
end Core
end Vesta
