import Vesta.Core.Chat.Session
import Vesta.Lib.Machine

/-!
# A confirmed message stays confirmed

A send is confirmed twice, in any order: by the answer to its post and by its
echo, a row of the store that carries its intent.  The echo comes over the live
socket, on the newest page, or on a page of older history.

`World` keeps beside the session the posts under way and the intents whose echo
was folded.  `Settled` says that no row of such an intent has a send state, so
that an open posts none of them again.  Marking a send looks at no echo:
`Timely` is what the marks and the older pages must meet, and
`delivery_settled_iff` says that these are exactly the runs that stay settled.
-/

namespace Vesta
namespace Core
namespace Chat
namespace Delivery

open Lib

/-! ## Posts -/

structure SendMessageBody where
  text : String
  inputMethod : InputMethod
  attachments : Option (List String)
  spoken : Bool
deriving DecidableEq, Repr

/-- A post under way, under the intent it carries. -/
structure SentMessage where
  id : String
  body : SendMessageBody
deriving DecidableEq, Repr

/-- How a post ends: with an answer, or with none. -/
inductive Response
  | accepted
  | apiError (status : Nat)
  | unreachable
deriving DecidableEq, Repr

/-- What the end of a post says of the message; nothing when it was accepted. -/
def outcome : Response → Option SendState
  | .accepted => none
  | .apiError status =>
      if status = 502 ∨ status = 503 ∨ status = 504 then some .retry else some .failed
  | .unreachable => some .retry

def body (spoken : Bool) (send : RetryableSend) : SendMessageBody where
  text := send.text
  inputMethod := send.inputMethod
  attachments := (send.attachments.map (·.map (·.id))).filter fun ids => !ids.isEmpty
  spoken := spoken

def sendMessage (spoken : Bool) (send : RetryableSend) : SentMessage where
  id := send.intentId
  body := body spoken send

def applyOutcome (chat : ChatState) (intentId : String) : Option SendState → ChatState
  | some failure => markSend chat intentId (some failure)
  | none => chat

/-! ## Runs of the session -/

structure World where
  session : Session
  posts : List SentMessage
  confirmed : List String
deriving DecidableEq

/-- A callback of the session, a call of its user, or the end of a post. -/
inductive Label
  | send (message : RetryableSend) (now : String) (spoken : Bool)
  | retry (message : RetryableSend) (spoken : Bool)
  | settle (post : Nat) (response : Response)
  | event (natural : Bool) (event : LiveEvent)
  | typingTimer (natural : Bool)
  | flushPacing
  | opened (spoken : Bool)
  | closed
  | seed (page : HistoryPage)
  | seedFailed
  | loadMore
  | page (page : HistoryPage)
  | pageFailed
  | trimHistory
deriving DecidableEq

/-- The intents that the rows carry. -/
def echoes (events : List ChatMessage) : List String :=
  events.filterMap (·.intentId)

namespace World

def withChat (w : World) (chat : ChatState) : World :=
  { w with session := { w.session with chat := chat } }

def withSession (w : World) (session : Session) : World :=
  { w with session := session }

def send (w : World) (message : RetryableSend) (now : String) (spoken : Bool) : World :=
  { w.withChat (beginSend w.session.chat message.text message.inputMethod message.intentId
      message.attachments now) with
    posts := w.posts ++ [sendMessage spoken message] }

/-- A retry posts again under the intent of the send. -/
def retry (w : World) (message : RetryableSend) (spoken : Bool) : World :=
  { w.withChat (markSend w.session.chat message.intentId (some .sending)) with
    posts := w.posts ++ [sendMessage spoken message] }

def settle (w : World) (post : Nat) (sent : SentMessage) (response : Response) : World :=
  { w.withChat (applyOutcome w.session.chat sent.id (outcome response)) with
    posts := w.posts.eraseIdx post }

/-- Every open posts the parked messages again. -/
def opened (w : World) (spoken : Bool) : World :=
  { w.withSession w.session.onOpen with
    posts := w.posts ++ (retryableSends w.session.chat).map (sendMessage spoken) }

def event (w : World) (natural : Bool) (event : ChatMessage) : World where
  session := w.session.onEvent natural event
  posts := w.posts
  confirmed := w.confirmed ++ event.intentId.toList

def seed (w : World) (page : HistoryPage) : World where
  session := w.session.onSeed page
  posts := w.posts
  confirmed := w.confirmed ++ echoes page.events

def page (w : World) (page : HistoryPage) : World where
  session := w.session.onPage page
  posts := w.posts
  confirmed := w.confirmed ++ echoes page.events

end World

/-- The intent of a new send is a fresh one. -/
def step (w : World) : Label → Option World
  | .send message now spoken =>
      if message.intentId ∈ w.confirmed then none else some (w.send message now spoken)
  | .retry message spoken => some (w.retry message spoken)
  | .settle post response => w.posts[post]?.map fun sent => w.settle post sent response
  | .event natural event =>
      if w.session.socketOpen then some (w.event natural event.message) else none
  | .typingTimer natural => (w.session.onTypingTimer natural).map w.withSession
  | .flushPacing => some (w.withSession w.session.flushQueue)
  | .opened spoken => some (w.opened spoken)
  | .closed => some (w.withSession w.session.onClosed)
  | .seed page => some (w.seed page)
  | .seedFailed => some (w.withSession w.session.onSeedFailed)
  | .loadMore =>
      w.session.loadMore.map fun _ => w.withSession { w.session with loadingMore := true }
  | .page page => if w.session.loadingMore then some (w.page page) else none
  | .pageFailed =>
      if w.session.loadingMore then some (w.withSession w.session.onPageFailed) else none
  | .trimHistory => some (w.withSession w.session.trimHistory)

attribute [grind =] step

/-! ## What a confirmed message is -/

/-- A row whose intent was confirmed has no send state. -/
def RowsSettled (chat : ChatState) (confirmed : List String) : Prop :=
  ∀ message ∈ chat.messages, ∀ intentId ∈ message.intentId,
    intentId ∈ confirmed → message.sendState = none

/-- A row that carries an intent awaits its echo, or the echo was folded. -/
def RowsAwaited (chat : ChatState) (confirmed : List String) : Prop :=
  ∀ message ∈ chat.messages, ∀ intentId ∈ message.intentId,
    intentId ∈ chat.pendingIntents ∨ intentId ∈ confirmed

/-- No message whose echo was folded shows as sending, retryable or failed, and none is posted
again by an open. -/
structure Settled (w : World) : Prop where
  rows : RowsSettled w.session.chat w.confirmed
  parked : ∀ send ∈ retryableSends w.session.chat, send.intentId ∉ w.confirmed

/-- What a session is handed: the tail that an earlier one held, or an empty one, and the
intents whose echo was folded into it. -/
structure Hold where
  chat : ChatState
  confirmed : List String
  settled : RowsSettled chat confirmed
  awaited : RowsAwaited chat confirmed

def initial (hold : Hold) : World where
  session := Session.create hold.chat
  posts := []
  confirmed := hold.confirmed

def machine (hold : Hold) : Machine World Label where
  start w := w = initial hold
  step := step

/-- No row of the tail carries the intent. -/
def Absent (chat : ChatState) (intentId : String) : Prop :=
  ∀ message ∈ chat.messages, message.intentId ≠ some intentId

/-- A mark comes before the echo of its message, or when its row has left the tail.  A page of
older history brings no echo of a row that still has a send state. -/
def Timely (w : World) : Label → Prop
  | .retry message _ =>
      message.intentId ∉ w.confirmed ∨ Absent w.session.chat message.intentId
  | .settle post response =>
      ∀ sent ∈ w.posts[post]?, outcome response ≠ none →
        sent.id ∉ w.confirmed ∨ Absent w.session.chat sent.id
  | .page page =>
      w.session.loadingMore = true →
        ∀ message ∈ w.session.chat.messages, ∀ intentId ∈ message.intentId,
          intentId ∈ echoes page.events → message.sendState = none
  | _ => True

section Rows

variable {chat next : ChatState} {confirmed echoed : List String}
variable {message event : ChatMessage} {intentId : String}

theorem mem_echoes {events : List ChatMessage} :
    intentId ∈ echoes events ↔ ∃ event ∈ events, event.intentId = some intentId :=
  List.mem_filterMap

theorem intentId_setSendState (send : Option SendState) :
    (setSendState intentId send message).intentId = message.intentId := by
  obtain ⟨id, ts, body⟩ := message
  cases body with
  | user fields =>
      by_cases h : fields.intentId = some intentId <;>
        simp [setSendState, ChatMessage.intentId, h]
  | _ => rfl

theorem sendState_setSendState (send : Option SendState) :
    (setSendState intentId send message).sendState =
      if message.intentId = some intentId then send else message.sendState := by
  obtain ⟨id, ts, body⟩ := message
  cases body with
  | user fields =>
      by_cases h : fields.intentId = some intentId <;>
        simp [setSendState, ChatMessage.intentId, ChatMessage.sendState, h]
  | _ => rfl

theorem intentId_confirm :
    (confirm event intentId message).intentId = message.intentId := by
  obtain ⟨id, ts, body⟩ := message
  cases body with
  | user fields =>
      by_cases h : fields.intentId = some intentId <;> simp [confirm, ChatMessage.intentId, h]
  | _ => rfl

theorem sendState_confirm :
    (confirm event intentId message).sendState =
      if message.intentId = some intentId then none else message.sendState := by
  obtain ⟨id, ts, body⟩ := message
  cases body with
  | user fields =>
      by_cases h : fields.intentId = some intentId <;>
        simp [confirm, ChatMessage.intentId, ChatMessage.sendState, h]
  | _ => rfl

theorem intentId_of_isChat
    (h : event.isChat = true) :
    event.intentId = none := by
  obtain ⟨id, ts, body⟩ := event
  cases body with
  | user => cases h
  | _ => rfl

theorem mem_append
    (h : message ∈ (chat.append event).messages) :
    message ∈ chat.messages ∨ message = event := by
  rw [messages_append, List.mem_append, List.mem_singleton] at h
  exact h.imp_left List.mem_of_mem_drop

/-- A row of the merged tail is on the page, or was held and is no bubble that the page
echoes. -/
theorem mem_seedTail
    {page : HistoryPage}
    (h : message ∈ (seedTail chat page).messages) :
    message ∈ page.events ∨ (message ∈ chat.messages ∧
      ∀ intentId ∈ message.intentId,
        intentId ∈ chat.pendingIntents → intentId ∉ echoes page.events) := by
  have hplaced : ∀ placed, placed ≠ Placement.dropped →
      placement chat (indexPage page) message = placed →
      ∀ intentId ∈ message.intentId,
        intentId ∈ chat.pendingIntents → intentId ∉ echoes page.events := by
    rintro placed hne hplace intentId hintent hpending hecho
    refine hne (hplace.symm.trans ?_)
    rw [placement, if_pos]
    simp only [ChatState.isPending, Option.mem_def.1 hintent, Option.any_some, Bool.and_eq_true,
      decide_eq_true_eq]
    exact ⟨hpending, List.mem_toFinset.2 hecho⟩
  have hcut : (seedTail chat page).messages =
      capTail ((partitionHeld chat (indexPage page)).kept ++ page.events ++
        (partitionHeld chat (indexPage page)).newer) := rfl
  rw [hcut, capTail_eq_drop] at h
  rcases List.mem_append.1 (List.mem_of_mem_drop h) with hupper | hnewer
  · rcases List.mem_append.1 hupper with hkept | hpage
    · exact Or.inr ⟨(kept_sublist chat _).subset hkept,
        hplaced .older (by decide) (placement_of_mem_kept hkept)⟩
    · exact Or.inl hpage
  · obtain ⟨hmem, hplace⟩ := List.mem_filter.1 hnewer
    exact Or.inr ⟨hmem, hplaced .newer (by decide) (of_decide_eq_true hplace)⟩

/-- A step that sends nothing and folds no echo leaves the intents that are awaited, and adds
rows without an intent only. -/
structure KeepsSends (chat next : ChatState) : Prop where
  pending : next.pendingIntents = chat.pendingIntents
  rows : ∀ message ∈ next.messages, message ∈ chat.messages ∨ message.intentId = none

theorem KeepsSends.refl (chat : ChatState) : KeepsSends chat chat :=
  ⟨rfl, fun _ hmem => Or.inl hmem⟩

theorem KeepsSends.trans
    {last : ChatState}
    (h : KeepsSends chat next)
    (hnext : KeepsSends next last) :
    KeepsSends chat last := by
  refine ⟨hnext.pending.trans h.pending, fun message hmem => ?_⟩
  rcases hnext.rows message hmem with hmem' | hnone
  · exact h.rows message hmem'
  · exact Or.inr hnone

theorem KeepsSends.settled
    (h : KeepsSends chat next)
    (hrows : RowsSettled chat confirmed) :
    RowsSettled next confirmed := by
  intro message hmem intentId hintent
  rcases h.rows message hmem with hmem' | hnone
  · exact hrows message hmem' intentId hintent
  · rw [hnone] at hintent
    cases hintent

theorem KeepsSends.awaited
    (h : KeepsSends chat next)
    (hrows : RowsAwaited chat confirmed) :
    RowsAwaited next confirmed := by
  intro message hmem intentId hintent
  rw [h.pending]
  rcases h.rows message hmem with hmem' | hnone
  · exact hrows message hmem' intentId hintent
  · rw [hnone] at hintent
    cases hintent

theorem keepsSends_append
    (h : event.intentId = none) :
    KeepsSends chat (chat.append event) := by
  refine ⟨rfl, fun message hmem => ?_⟩
  rcases mem_append hmem with hold | rfl
  · exact Or.inl hold
  · exact Or.inr h

theorem keepsSends_commitPacedChat
    (chat : ChatState)
    (h : event.intentId = none) :
    KeepsSends chat (commitPacedChat chat event) := by
  rcases commitPacedChat_cases chat event with ⟨-, hcommit⟩ | ⟨-, hcommit⟩
  · rw [hcommit]
    exact .refl chat
  · rw [hcommit]
    exact keepsSends_append h

theorem keepsSends_foldl
    {queue : List ChatMessage}
    (h : ∀ event ∈ queue, event.intentId = none) :
    KeepsSends chat (queue.foldl commitPacedChat chat) := by
  induction queue generalizing chat with
  | nil => exact .refl chat
  | cons event queue ih =>
      have hfirst := keepsSends_commitPacedChat chat (h event List.mem_cons_self)
      exact hfirst.trans (ih fun later hlater => h later (List.mem_cons_of_mem _ hlater))

theorem keepsSends_trimTail (keep : Nat) :
    KeepsSends chat (trimTail chat keep) := by
  refine ⟨?_, fun message hmem => Or.inl ((trimTail_suffix chat keep).subset hmem)⟩
  rcases trimTail_cases chat keep with ⟨-, htrim⟩ | ⟨-, _, _, -, htrim⟩ <;> rw [htrim]

/-- An echo that confirms no bubble is one of a row that was settled before. -/
theorem RowsSettled.echo
    (h : RowsSettled chat confirmed)
    (hawaited : RowsAwaited chat confirmed)
    (hnone : ∀ intentId ∈ echoed, intentId ∉ chat.pendingIntents) :
    RowsSettled chat (confirmed ++ echoed) := by
  intro message hmem intentId hintent hconfirmed
  rcases List.mem_append.1 hconfirmed with hold | hnew
  · exact h message hmem intentId hintent hold
  · have hold := (hawaited message hmem intentId hintent).resolve_left (hnone intentId hnew)
    exact h message hmem intentId hintent hold

theorem RowsAwaited.mono
    (h : RowsAwaited chat confirmed) :
    RowsAwaited chat (confirmed ++ echoed) :=
  fun message hmem intentId hintent =>
    (h message hmem intentId hintent).imp_right (List.mem_append_left _)

/-! ## What each fold keeps -/

theorem settled_markSend_iff
    (h : RowsSettled chat confirmed)
    (send : SendState) :
    RowsSettled (markSend chat intentId (some send)) confirmed ↔
      intentId ∉ confirmed ∨ Absent chat intentId := by
  constructor
  · intro hmarked
    by_cases hconfirmed : intentId ∈ confirmed
    · refine Or.inr fun message hmem hintent => ?_
      have hnone := hmarked _ (List.mem_map_of_mem hmem) intentId
        ((intentId_setSendState _).trans hintent) hconfirmed
      rw [sendState_setSendState, if_pos hintent] at hnone
      cases hnone
    · exact Or.inl hconfirmed
  · intro htimely message' hmem' other hintent hconfirmed
    obtain ⟨message, hmem, rfl⟩ := List.mem_map.1 hmem'
    rw [intentId_setSendState] at hintent
    rw [sendState_setSendState]
    split
    · rename_i hmarked
      rcases htimely with hpending | habsent
      · rw [hmarked] at hintent
        cases hintent
        exact absurd hconfirmed hpending
      · exact absurd hmarked (habsent message hmem)
    · exact h message hmem other hintent hconfirmed

theorem awaited_markSend
    (h : RowsAwaited chat confirmed)
    (send : Option SendState) :
    RowsAwaited (markSend chat intentId send) confirmed := by
  intro message' hmem' other hintent
  obtain ⟨message, hmem, rfl⟩ := List.mem_map.1 hmem'
  rw [intentId_setSendState] at hintent
  exact h message hmem other hintent

theorem settled_beginSend
    {text : String} {inputMethod : InputMethod} {attachments : Option (List ChatAttachment)}
    {now : String}
    (h : RowsSettled chat confirmed)
    (hfresh : intentId ∉ confirmed) :
    RowsSettled (beginSend chat text inputMethod intentId attachments now) confirmed := by
  intro message hmem other hintent hconfirmed
  rcases mem_append hmem with hold | rfl
  · exact h message hold other hintent hconfirmed
  · cases hintent
    exact absurd hconfirmed hfresh

theorem awaited_beginSend
    {text : String} {inputMethod : InputMethod} {attachments : Option (List ChatAttachment)}
    {now : String}
    (h : RowsAwaited chat confirmed) :
    RowsAwaited (beginSend chat text inputMethod intentId attachments now) confirmed := by
  intro message hmem other hintent
  rcases mem_append hmem with hold | rfl
  · exact (h message hold other hintent).imp_left (Finset.mem_insert_of_mem ·)
  · cases hintent
    exact Or.inl (Finset.mem_insert_self _ _)

/-- An open marks parked messages only. -/
theorem settled_repostParked
    (h : RowsSettled chat confirmed)
    (hparked : ∀ send ∈ retryableSends chat, send.intentId ∉ confirmed) :
    RowsSettled (Session.repostParked chat) confirmed := by
  rw [Session.repostParked]
  generalize retryableSends chat = sends at hparked
  induction sends generalizing chat with
  | nil => exact h
  | cons send sends ih =>
      have hmarked : RowsSettled (markSend chat send.intentId (some .sending)) confirmed :=
        (settled_markSend_iff h _).2 (Or.inl (hparked send List.mem_cons_self))
      exact ih hmarked fun later hlater => hparked later (List.mem_cons_of_mem _ hlater)

theorem awaited_repostParked
    (h : RowsAwaited chat confirmed) :
    RowsAwaited (Session.repostParked chat) confirmed := by
  rw [Session.repostParked]
  generalize retryableSends chat = sends
  induction sends generalizing chat with
  | nil => exact h
  | cons send sends ih => exact ih (awaited_markSend h _)

theorem settled_confirmed
    (h : RowsSettled chat confirmed) :
    RowsSettled (chat.confirmed event intentId) (confirmed ++ [intentId]) := by
  intro message' hmem' other hintent hconfirmed
  obtain ⟨message, hmem, rfl⟩ := List.mem_map.1 hmem'
  rw [intentId_confirm] at hintent
  rw [sendState_confirm]
  split
  · rfl
  · rename_i hne
    rcases List.mem_append.1 hconfirmed with hold | hnew
    · exact h message hmem other hintent hold
    · rw [List.mem_singleton.1 hnew] at hintent
      exact absurd hintent hne

theorem awaited_confirmed
    (h : RowsAwaited chat confirmed) :
    RowsAwaited (chat.confirmed event intentId) (confirmed ++ [intentId]) := by
  intro message' hmem' other hintent
  obtain ⟨message, hmem, rfl⟩ := List.mem_map.1 hmem'
  rw [intentId_confirm] at hintent
  by_cases heq : other = intentId
  · exact Or.inr (List.mem_append_right _ (List.mem_singleton.2 heq))
  · rcases h message hmem other hintent with hpending | hold
    · exact Or.inl (Finset.mem_erase.2 ⟨heq, hpending⟩)
    · exact Or.inr (List.mem_append_left _ hold)

theorem settled_seedTail
    {page : HistoryPage}
    (h : RowsSettled chat confirmed)
    (hawaited : RowsAwaited chat confirmed) :
    RowsSettled (seedTail chat page) (confirmed ++ echoes page.events) := by
  intro message hmem intentId hintent hconfirmed
  rcases mem_seedTail hmem with hpage | ⟨hheld, hecho⟩
  · exact page.unmarked message hpage
  · -- a held row that the page echoes and that stays was settled before
    have hold : intentId ∈ confirmed := by
      rcases hawaited message hheld intentId hintent with hpending | hold
      · exact (List.mem_append.1 hconfirmed).resolve_right (hecho intentId hintent hpending)
      · exact hold
    exact h message hheld intentId hintent hold

theorem awaited_seedTail
    {page : HistoryPage}
    (h : RowsAwaited chat confirmed) :
    RowsAwaited (seedTail chat page) (confirmed ++ echoes page.events) := by
  intro message hmem intentId hintent
  rcases mem_seedTail hmem with hpage | ⟨hheld, hecho⟩
  · exact Or.inr (List.mem_append_right _ (mem_echoes.2 ⟨message, hpage, hintent⟩))
  · rcases h message hheld intentId hintent with hpending | hold
    · refine Or.inl (Finset.mem_sdiff.2 ⟨hpending, fun hmem => ?_⟩)
      exact hecho intentId hintent hpending (List.mem_toFinset.1 hmem)
    · exact Or.inr (List.mem_append_left _ hold)

theorem settled_prependPage_iff
    {page : HistoryPage}
    (h : RowsSettled chat confirmed) :
    RowsSettled (prependPage chat page) (confirmed ++ echoes page.events) ↔
      ∀ message ∈ chat.messages, ∀ intentId ∈ message.intentId,
        intentId ∈ echoes page.events → message.sendState = none := by
  constructor
  · intro hsettled message hmem intentId hintent hecho
    exact hsettled message (List.mem_append_right _ hmem) intentId hintent
      (List.mem_append_right _ hecho)
  · intro hunmarked message hmem intentId hintent hconfirmed
    rcases List.mem_append.1 hmem with hpage | hheld
    · exact page.unmarked message hpage
    · rcases List.mem_append.1 hconfirmed with hold | hecho
      · exact h message hheld intentId hintent hold
      · exact hunmarked message hheld intentId hintent hecho

theorem awaited_prependPage
    {page : HistoryPage}
    (h : RowsAwaited chat confirmed) :
    RowsAwaited (prependPage chat page) (confirmed ++ echoes page.events) := by
  intro message hmem intentId hintent
  rcases List.mem_append.1 hmem with hpage | hheld
  · exact Or.inr (List.mem_append_right _ (mem_echoes.2 ⟨message, hpage, hintent⟩))
  · exact h.mono message hheld intentId hintent

/-- An event that carries no awaited intent, or that confirms none, is the echo of a settled
row. -/
theorem echo_not_pending
    (h : chat.confirmedBy event = none) :
    ∀ intentId ∈ event.intentId.toList, intentId ∉ chat.pendingIntents := by
  intro intentId hintent hpending
  have hnone := Option.filter_eq_none_iff.1 h intentId (Option.mem_toList.1 hintent)
  exact hnone (decide_eq_true hpending)

theorem settled_foldLiveEvent
    {event : LiveEvent}
    (h : RowsSettled chat confirmed)
    (hawaited : RowsAwaited chat confirmed) :
    RowsSettled (foldLiveEvent chat event.message).1
      (confirmed ++ event.message.intentId.toList) := by
  rcases foldLiveEvent_cases chat event.message with ⟨intentId, hconfirmed, hfold⟩ |
    ⟨hconfirmed, -, hfold⟩ | ⟨hconfirmed, -, -, hfold⟩ | ⟨hconfirmed, -, -, hfold⟩
  · rw [hfold, (Option.filter_eq_some_iff.1 hconfirmed).1]
    exact settled_confirmed h
  · rw [hfold]
    exact h.echo hawaited (echo_not_pending hconfirmed)
  · rw [hfold]
    exact h.echo hawaited (echo_not_pending hconfirmed)
  · rw [hfold]
    intro message hmem intentId hintent hecho
    rcases mem_append hmem with hold | rfl
    · exact h.echo hawaited (echo_not_pending hconfirmed) message hold intentId hintent hecho
    · exact event.unmarked

theorem awaited_foldLiveEvent
    (h : RowsAwaited chat confirmed) :
    RowsAwaited (foldLiveEvent chat event).1 (confirmed ++ event.intentId.toList) := by
  rcases foldLiveEvent_cases chat event with ⟨intentId, hconfirmed, hfold⟩ |
    ⟨-, -, hfold⟩ | ⟨-, -, -, hfold⟩ | ⟨-, -, -, hfold⟩
  · rw [hfold, (Option.filter_eq_some_iff.1 hconfirmed).1]
    exact awaited_confirmed h
  · rw [hfold]
    exact h.mono
  · rw [hfold]
    exact h.mono
  · rw [hfold]
    intro message hmem intentId hintent
    rcases mem_append hmem with hold | rfl
    · exact h.mono message hold intentId hintent
    · exact Or.inr (List.mem_append_right _ (Option.mem_toList.2 hintent))

theorem retryable_of_mem
    {send : RetryableSend}
    (h : send ∈ retryableSends chat) :
    ∃ message ∈ chat.messages,
      message.intentId = some send.intentId ∧ message.sendState = some .retry := by
  obtain ⟨message, hmem, hsend⟩ := List.mem_filterMap.1 h
  refine ⟨message, hmem, ?_⟩
  obtain ⟨id, ts, body⟩ := message
  cases body with
  | user fields =>
      cases hintent : fields.intentId with
      | none => simp [hintent] at hsend
      | some intentId =>
          by_cases hparked : fields.sendState = some .retry
          · simp only [hintent, if_pos hparked, Option.some_inj] at hsend
            subst hsend
            exact ⟨hintent, hparked⟩
          · simp [hintent, hparked] at hsend
  | _ => cases hsend

/-- A settled row is not among the parked ones. -/
theorem RowsSettled.parked
    (h : RowsSettled chat confirmed) :
    ∀ send ∈ retryableSends chat, send.intentId ∉ confirmed := by
  intro send hsend hconfirmed
  obtain ⟨message, hmem, hintent, hparked⟩ := retryable_of_mem hsend
  rw [h message hmem send.intentId hintent hconfirmed] at hparked
  cases hparked

end Rows

section Sessions

variable {s : Session} {confirmed : List String}

/-- The rows that wait in the pacing queue are replies. -/
def QueueReplies (s : Session) : Prop :=
  ∀ event ∈ s.queue, event.intentId = none

theorem flushQueue_keeps
    (h : QueueReplies s) :
    KeepsSends s.chat s.flushQueue.chat ∧ QueueReplies s.flushQueue := by
  rw [Session.flushQueue_eq]
  exact ⟨keepsSends_foldl h, fun event hmem => absurd hmem List.not_mem_nil⟩

theorem drainQueue_keeps
    (natural : Bool)
    (h : QueueReplies s) :
    KeepsSends s.chat (Session.drainQueue natural s).chat ∧
      QueueReplies (Session.drainQueue natural s) := by
  rw [Session.drainQueue]
  split
  · exact ⟨.refl _, h⟩
  · split
    · exact flushQueue_keeps h
    · exact ⟨.refl _, h⟩

theorem onTypingTimer_keeps
    {natural : Bool} {next : Session}
    (h : QueueReplies s)
    (hstep : s.onTypingTimer natural = some next) :
    KeepsSends s.chat next.chat ∧ QueueReplies next := by
  rw [Session.onTypingTimer] at hstep
  split at hstep
  · rename_i event rest _ hqueue
    cases hstep
    rw [QueueReplies, hqueue] at h
    have hcommit : KeepsSends s.chat (commitPacedChat s.chat event) :=
      keepsSends_commitPacedChat s.chat (h event List.mem_cons_self)
    have hdrain := drainQueue_keeps (s := Session.commitReply
      { s with typing := false, queue := rest } event) natural
      fun later hlater => h later (List.mem_cons_of_mem _ hlater)
    exact ⟨hcommit.trans hdrain.1, hdrain.2⟩
  · cases hstep

theorem onEvent_keeps
    (natural : Bool) (event : ChatMessage)
    (h : QueueReplies s) :
    KeepsSends (foldLiveEvent s.chat event).1 (s.onEvent natural event).chat ∧
      QueueReplies (s.onEvent natural event) := by
  rw [Session.onEvent]
  split
  · rename_i hpaced
    have hreply : event.intentId = none := by
      rcases foldLiveEvent_cases s.chat event with ⟨_, -, hfold⟩ | ⟨-, -, hfold⟩ |
        ⟨-, -, hchat, -⟩ | ⟨-, -, -, hfold⟩
      · rw [hfold] at hpaced
        cases hpaced
      · rw [hfold] at hpaced
        cases hpaced
      · exact intentId_of_isChat hchat
      · rw [hfold] at hpaced
        cases hpaced
    have hqueued : QueueReplies
        { s with chat := (foldLiveEvent s.chat event).1, queue := s.queue ++ [event] } := by
      intro later hlater
      rcases List.mem_append.1 hlater with hold | hnew
      · exact h later hold
      · rw [List.mem_singleton.1 hnew]
        exact hreply
    exact drainQueue_keeps natural hqueued
  · exact ⟨.refl _, h⟩

end Sessions

/-- What every run keeps: the rows await an echo or have one, and replies wait in the queue. -/
structure Awaited (w : World) : Prop where
  rows : RowsAwaited w.session.chat w.confirmed
  queue : QueueReplies w.session

section Steps

variable {w next : World} {label : Label}

theorem settled_iff :
    Settled w ↔ RowsSettled w.session.chat w.confirmed :=
  ⟨Settled.rows, fun h => ⟨h, h.parked⟩⟩

theorem awaited_step
    (h : Awaited w)
    (hstep : step w label = some next) :
    Awaited next := by
  have hopen : QueueReplies w.session.onOpen := fun _ hmem => absurd hmem List.not_mem_nil
  cases label with
  | send message now spoken =>
      rw [step] at hstep
      split at hstep
      · cases hstep
      · cases hstep
        exact ⟨awaited_beginSend h.rows, h.queue⟩
  | retry message spoken =>
      cases hstep
      exact ⟨awaited_markSend h.rows _, h.queue⟩
  | settle post response =>
      obtain ⟨sent, -, rfl⟩ := Option.map_eq_some_iff.1 hstep
      refine ⟨?_, h.queue⟩
      rw [World.settle]
      cases outcome response with
      | none => exact h.rows
      | some failure => exact awaited_markSend h.rows _
  | event natural event =>
      rw [step] at hstep
      split at hstep
      · cases hstep
        have hkeeps := onEvent_keeps natural event.message h.queue
        exact ⟨hkeeps.1.awaited (awaited_foldLiveEvent h.rows), hkeeps.2⟩
      · cases hstep
  | typingTimer natural =>
      obtain ⟨session, htimer, rfl⟩ := Option.map_eq_some_iff.1 hstep
      have hkeeps := onTypingTimer_keeps h.queue htimer
      exact ⟨hkeeps.1.awaited h.rows, hkeeps.2⟩
  | flushPacing =>
      cases hstep
      have hkeeps := flushQueue_keeps h.queue
      exact ⟨hkeeps.1.awaited h.rows, hkeeps.2⟩
  | opened spoken =>
      cases hstep
      exact ⟨awaited_repostParked h.rows, hopen⟩
  | closed =>
      cases hstep
      exact ⟨h.rows, h.queue⟩
  | seed page =>
      cases hstep
      exact ⟨awaited_seedTail h.rows, h.queue⟩
  | seedFailed =>
      cases hstep
      rw [Session.onSeedFailed]
      split <;> exact ⟨h.rows, h.queue⟩
  | loadMore =>
      obtain ⟨_, -, rfl⟩ := Option.map_eq_some_iff.1 hstep
      exact ⟨h.rows, h.queue⟩
  | page page =>
      rw [step] at hstep
      split at hstep
      · cases hstep
        exact ⟨awaited_prependPage h.rows, h.queue⟩
      · cases hstep
  | pageFailed =>
      rw [step] at hstep
      split at hstep
      · cases hstep
        exact ⟨h.rows, h.queue⟩
      · cases hstep
  | trimHistory =>
      cases hstep
      rw [Session.trimHistory]
      split
      · exact ⟨h.rows, h.queue⟩
      · exact ⟨(keepsSends_trimTail _).awaited h.rows, h.queue⟩

/-- A step leaves all confirmed messages settled exactly when it is timely. -/
theorem settled_step_iff
    (hawaited : Awaited w)
    (h : Settled w)
    (hstep : step w label = some next) :
    Settled next ↔ Timely w label := by
  rw [settled_iff]
  have hrows := h.rows
  cases label with
  | send message now spoken =>
      rw [step] at hstep
      split at hstep
      · cases hstep
      · rename_i hfresh
        cases hstep
        exact iff_of_true (settled_beginSend hrows hfresh) trivial
  | retry message spoken =>
      cases hstep
      exact settled_markSend_iff hrows _
  | settle post response =>
      obtain ⟨sent, hsent, rfl⟩ := Option.map_eq_some_iff.1 hstep
      simp only [Timely, hsent, Option.mem_some_iff, forall_eq', World.settle]
      cases outcome response with
      | none => exact iff_of_true hrows (fun hne => absurd rfl hne)
      | some failure =>
          refine (settled_markSend_iff hrows failure).trans ?_
          simp
  | event natural event =>
      rw [step] at hstep
      split at hstep
      · cases hstep
        have hkeeps := onEvent_keeps natural event.message hawaited.queue
        exact iff_of_true (hkeeps.1.settled (settled_foldLiveEvent hrows hawaited.rows)) trivial
      · cases hstep
  | typingTimer natural =>
      obtain ⟨session, htimer, rfl⟩ := Option.map_eq_some_iff.1 hstep
      exact iff_of_true ((onTypingTimer_keeps hawaited.queue htimer).1.settled hrows) trivial
  | flushPacing =>
      cases hstep
      exact iff_of_true ((flushQueue_keeps hawaited.queue).1.settled hrows) trivial
  | opened spoken =>
      cases hstep
      exact iff_of_true (settled_repostParked hrows h.parked) trivial
  | closed =>
      cases hstep
      exact iff_of_true hrows trivial
  | seed page =>
      cases hstep
      exact iff_of_true (settled_seedTail hrows hawaited.rows) trivial
  | seedFailed =>
      cases hstep
      rw [Session.onSeedFailed]
      split <;> exact iff_of_true hrows trivial
  | loadMore =>
      obtain ⟨_, -, rfl⟩ := Option.map_eq_some_iff.1 hstep
      exact iff_of_true hrows trivial
  | page page =>
      rw [step] at hstep
      split at hstep
      · rename_i hloading
        cases hstep
        simp only [Timely, hloading, true_implies]
        exact settled_prependPage_iff hrows
      · cases hstep
  | pageFailed =>
      rw [step] at hstep
      split at hstep
      · cases hstep
        exact iff_of_true hrows trivial
      · cases hstep
  | trimHistory =>
      cases hstep
      rw [Session.trimHistory]
      split
      · exact iff_of_true hrows trivial
      · exact iff_of_true ((keepsSends_trimTail _).settled hrows) trivial

/-- A step that cannot be taken meets the guard. -/
theorem timely_of_stuck
    (hstuck : step w label = none) :
    Timely w label := by
  cases label with
  | settle post response =>
      intro sent hsent
      rw [step, Option.mem_def.1 hsent] at hstuck
      cases hstuck
  | retry message spoken => cases hstuck
  | page page =>
      intro hloading
      rw [step, if_pos hloading] at hstuck
      cases hstuck
  | _ => trivial

end Steps

theorem settled_initial (hold : Hold) : Settled (initial hold) :=
  settled_iff.2 hold.settled

theorem awaited_initial (hold : Hold) : Awaited (initial hold) :=
  ⟨hold.awaited, fun _ hmem => absurd hmem List.not_mem_nil⟩

/-- On a run of the session every message whose echo was folded stays without a send state, and
is not posted again by an open, if and only if each mark of a send comes before its echo or
after its row has left the tail, and no page of older history brings the echo of a row that is
still marked. -/
theorem delivery_settled_iff
    (hold : Hold) (run : List Label) :
    (machine hold).Admits
        (fun w label => ∀ next ∈ (machine hold).step w label, Settled next)
        (initial hold) run ↔
      (machine hold).Admits Timely (initial hold) run :=
  (machine hold).admits_iff_within (I := Settled) (J := Awaited)
    (fun _ _ _ hawaited hstep => awaited_step hawaited hstep)
    (fun _ _ _ hawaited h hstep => settled_step_iff hawaited h hstep)
    (fun _ _ _ _ hstuck => timely_of_stuck hstuck)
    run (awaited_initial hold) (settled_initial hold)

def Hold.empty : Hold where
  chat := initialChatState
  confirmed := []
  settled _ _ _ _ hconfirmed := absurd hconfirmed List.not_mem_nil
  awaited _ hmem := absurd hmem List.not_mem_nil

/-- A message that is stored and echoed, and the post of which then ends without an answer.
The socket drops and opens again. -/
def lateAnswer : List Label :=
  [.seed .empty, .opened false,
    .send { intentId := "send-1", text := "hello", inputMethod := .typed, attachments := none }
      "" false,
    .event true ⟨sentRow 1 (some "send-1"), rfl⟩,
    .settle 0 .unreachable]

/-- The delivered message shows as parked again, and the next open posts it. -/
theorem confirmed_is_reposted :
    ∃ w, (machine .empty).Reaches Machine.always w ∧ ¬Settled w ∧ "send-1" ∈ w.confirmed ∧
      w.session.chat.messages.map (·.sendState) = [some .retry] ∧
      (w.opened false).posts.map (·.id) = ["send-1"] := by
  have hstart : (machine .empty).Reaches Machine.always (initial .empty) := .start rfl
  have hend : ("send-1" ∈ ((machine .empty).runTo (initial .empty) lateAnswer).confirmed) ∧
      (retryableSends ((machine .empty).runTo (initial .empty)
        lateAnswer).session.chat).map (·.intentId) = ["send-1"] := by
    decide +kernel
  refine ⟨_, hstart.runTo lateAnswer (Machine.admits_always _ _ _) (by decide +kernel), ?_,
    hend.1, by decide +kernel, by decide +kernel⟩
  intro hsettled
  obtain ⟨send, hsend, hintent⟩ := List.mem_map.1 (hend.2 ▸ List.mem_singleton_self "send-1")
  exact hsettled.parked send hsend (hintent ▸ hend.1)

end Delivery
end Chat
end Core
end Vesta
