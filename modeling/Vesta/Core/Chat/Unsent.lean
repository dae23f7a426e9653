import Vesta.Core.Chat.StreamModel
import Vesta.Lib.Machine

/-!
# A message stays until its echo

A send puts a bubble at the end of the tail.  The bubble is the only copy of the
message that the client has, and `retryableSends` finds the messages to post
again among the bubbles.

`Outbox` keeps beside the state the sends whose echo was not folded yet.  Two
folds cut the tail off by its length alone: the cap of an append or of a merged
page, and the trim.  `Spares` says that such a cut leaves the bubbles of all
these sends, and `sends_held_iff` that these are exactly the runs that lose none
of them.
-/

namespace Vesta
namespace Core
namespace Chat

open Lib

/-- The record of a send: what a bubble holds of it and a repeated post carries. -/
def sendOf
    (text : String) (inputMethod : InputMethod) (intentId : String)
    (attachments : Option (List ChatAttachment)) : RetryableSend where
  intentId := intentId
  text := text
  inputMethod := inputMethod
  attachments := attachments.filter fun list => !list.isEmpty

/-- A row is the bubble of a send, in one of the phases of its delivery. -/
def ChatMessage.isBubbleOf (send : RetryableSend) (message : ChatMessage) : Bool :=
  match message.body with
  | .user fields =>
      message.id = none && fields.sendState.isSome &&
        fields.intentId = some send.intentId && fields.text = send.text &&
        fields.inputMethod = some send.inputMethod && fields.attachments = send.attachments
  | _ => false

/-- The state with the sends whose echo was not folded yet. -/
structure Outbox where
  chat : ChatState
  unsent : List RetryableSend
deriving DecidableEq

namespace Outbox

/-- The sends left after an operation: its own is new, and those it brings an echo of are
done. -/
def unsentAfter (unsent : List RetryableSend) : Operation → List RetryableSend
  | .beginSend text inputMethod intentId attachments _ =>
      unsent ++ [sendOf text inputMethod intentId attachments]
  | .foldLiveEvent event => unsent.filter fun send => event.message.intentId ≠ some send.intentId
  | .seedTail page =>
      unsent.filter fun send => send.intentId ∉ page.events.filterMap (·.intentId)
  | _ => unsent

def apply (w : Outbox) (operation : Operation) : Outbox where
  chat := w.chat.apply operation
  unsent := unsentAfter w.unsent operation

def initial : Outbox where
  chat := initialChatState
  unsent := []

def machine : Machine Outbox Operation where
  start := fun w => w = initial
  step := fun w operation => some (w.apply operation)

/-- One of the rows is the bubble of the send. -/
def Shows (messages : List ChatMessage) (send : RetryableSend) : Prop :=
  ∃ message ∈ messages, message.isBubbleOf send = true

instance (messages : List ChatMessage) (send : RetryableSend) :
    Decidable (Shows messages send) :=
  inferInstanceAs (Decidable (∃ message ∈ messages, message.isBubbleOf send = true))

/-- Each send whose echo was not folded awaits it, has its bubble in the tail, and is posted
again when the bubble is parked for a retry. -/
def SendsHeld (w : Outbox) : Prop :=
  ∀ send ∈ w.unsent,
    send.intentId ∈ w.chat.pendingIntents ∧
      ∃ message ∈ w.chat.messages, message.isBubbleOf send = true ∧
        (message.sendState = some .retry → send ∈ retryableSends w.chat)

/-- An append leaves the newest rows but one of what the tail may hold. -/
def AppendSpares (w : Outbox) (send : RetryableSend) : Prop :=
  Shows (w.chat.messages.drop (w.chat.messages.length + 1 - maxMessages)) send

/-- A step that cuts off no bubble whose echo was not folded. -/
def Spares (w : Outbox) : Operation → Prop
  | .seedTail page =>
      let newer := (partitionHeld w.chat (indexPage page)).newer
      ∀ send ∈ w.unsent, send.intentId ∈ page.events.filterMap (·.intentId) ∨
        Shows (newer.drop (newer.length - maxMessages)) send
  | .foldLiveEvent event =>
      (w.chat.confirmedBy event.message).isSome ∨ w.chat.ignores event.message = true ∨
        event.message.isChat = true ∨ ∀ send ∈ w.unsent, w.AppendSpares send
  | .commitPacedChat event =>
      (∃ id ∈ event.message.id, id ∈ ids w.chat.messages) ∨
        ∀ send ∈ w.unsent, w.AppendSpares send
  | .beginSend text inputMethod intentId attachments _ =>
      ∀ send ∈ w.unsent, send = sendOf text inputMethod intentId attachments ∨
        w.AppendSpares send
  | .trimTail keep =>
      w.chat.messages.length ≤ keep ∨ ids (newest keep w.chat.messages) = [] ∨
        ∀ send ∈ w.unsent, Shows (newest keep w.chat.messages) send
  | _ => True

section Bubbles

variable {send : RetryableSend} {message event : ChatMessage}

theorem isBubbleOf_iff :
    message.isBubbleOf send = true ↔
      message.id = none ∧ message.sendState.isSome = true ∧
        message.intentId = some send.intentId ∧
          ∃ fields, message.body = .user fields ∧ fields.text = send.text ∧
            fields.inputMethod = some send.inputMethod ∧
              fields.attachments = send.attachments := by
  obtain ⟨id, ts, body⟩ := message
  cases body with
  | user fields =>
      simp [ChatMessage.isBubbleOf, ChatMessage.sendState, ChatMessage.intentId, and_assoc]
  | _ => simp [ChatMessage.isBubbleOf]

/-- A bubble that is parked for a retry is among the messages that are posted again. -/
theorem mem_retryableSends
    {state : ChatState}
    (hmem : message ∈ state.messages)
    (hbubble : message.isBubbleOf send = true)
    (hparked : message.sendState = some .retry) :
    send ∈ retryableSends state := by
  obtain ⟨-, -, hintent, fields, hbody, htext, hinput, hattachments⟩ := isBubbleOf_iff.1 hbubble
  refine List.mem_filterMap.2 ⟨message, hmem, ?_⟩
  simp only [ChatMessage.intentId, ChatMessage.sendState, hbody] at hintent hparked ⊢
  simp [hintent, hparked, htext, hinput, hattachments]

/-- An echo of another intent leaves a bubble as it is. -/
theorem confirm_of_ne
    {intentId : String}
    (hbubble : message.isBubbleOf send = true)
    (hne : send.intentId ≠ intentId) :
    confirm event intentId message = message := by
  obtain ⟨-, -, hintent, fields, hbody, -⟩ := isBubbleOf_iff.1 hbubble
  simp only [ChatMessage.intentId, hbody] at hintent
  simp [confirm, hbody, hintent, hne]

theorem isBubbleOf_setSendState
    {intentId : String} {phase : SendState}
    (hbubble : message.isBubbleOf send = true) :
    (setSendState intentId (some phase) message).isBubbleOf send = true := by
  obtain ⟨id, ts, body⟩ := message
  cases body with
  | user fields =>
      by_cases hintent : fields.intentId = some intentId
      · simp [ChatMessage.isBubbleOf, setSendState, hintent] at hbubble ⊢
        simp [hbubble]
      · simpa [setSendState, hintent] using hbubble
  | _ => cases hbubble

theorem isBubbleOf_sentBubble
    (text : String) (inputMethod : InputMethod) (intentId : String)
    (attachments : Option (List ChatAttachment)) (now : String) :
    (sentBubble text inputMethod intentId attachments now).isBubbleOf send = true ↔
      send = sendOf text inputMethod intentId attachments := by
  obtain ⟨intent, words, method, files⟩ := send
  simp only [ChatMessage.isBubbleOf, sentBubble, sendOf, Bool.and_eq_true, decide_eq_true_eq,
    RetryableSend.mk.injEq, Option.isSome_some, Option.some_inj, true_and]
  constructor
  · rintro ⟨⟨⟨rfl, rfl⟩, rfl⟩, rfl⟩
    exact ⟨rfl, rfl, rfl, rfl⟩
  · rintro ⟨rfl, rfl, rfl, rfl⟩
    exact ⟨⟨⟨rfl, rfl⟩, rfl⟩, rfl⟩

theorem not_isBubbleOf_of_unmarked
    (h : message.sendState = none) :
    message.isBubbleOf send = false := by
  cases hbubble : message.isBubbleOf send with
  | false => rfl
  | true =>
      have hphase := (isBubbleOf_iff.1 hbubble).2.1
      rw [h] at hphase
      cases hphase

end Bubbles

section Steps

variable {w : Outbox} {send : RetryableSend}

theorem shows_mono
    {a b : List ChatMessage}
    (hsub : a ⊆ b)
    (h : Shows a send) :
    Shows b send := by
  obtain ⟨message, hmem, hbubble⟩ := h
  exact ⟨message, hsub hmem, hbubble⟩

theorem shows_append
    {a b : List ChatMessage} :
    Shows (a ++ b) send ↔ Shows a send ∨ Shows b send := by
  simp only [Shows, List.mem_append, or_and_right, exists_or]

theorem not_shows_of_unmarked
    {messages : List ChatMessage}
    (h : ∀ message ∈ messages, message.sendState = none) :
    ¬Shows messages send := by
  rintro ⟨message, hmem, hbubble⟩
  rw [not_isBubbleOf_of_unmarked (h message hmem)] at hbubble
  cases hbubble

theorem not_shows_of_ids
    {messages : List ChatMessage}
    (h : ∀ message ∈ messages, message.id ≠ none) :
    ¬Shows messages send := by
  rintro ⟨message, hmem, hbubble⟩
  exact h message hmem (isBubbleOf_iff.1 hbubble).1

/-- A parked bubble in the tail is posted again by itself. -/
theorem sendsHeld_iff :
    SendsHeld w ↔
      ∀ send ∈ w.unsent, send.intentId ∈ w.chat.pendingIntents ∧ Shows w.chat.messages send := by
  refine forall₂_congr fun send _ => and_congr_right fun _ => ?_
  constructor
  · rintro ⟨message, hmem, hbubble, -⟩
    exact ⟨message, hmem, hbubble⟩
  · rintro ⟨message, hmem, hbubble⟩
    exact ⟨message, hmem, hbubble, mem_retryableSends hmem hbubble⟩

theorem shows_messages_append
    {state : ChatState} {message : ChatMessage} :
    Shows (state.append message).messages send ↔
      Shows (state.messages.drop (state.messages.length + 1 - maxMessages)) send ∨
        message.isBubbleOf send = true := by
  rw [messages_append, shows_append]
  simp [Shows]

/-- A row of the wire put at the end of the tail. -/
theorem sendsHeld_append_iff
    {state : ChatState} {unsent : List RetryableSend} {event : LiveEvent}
    (hpending : ∀ send ∈ unsent, send.intentId ∈ state.pendingIntents) :
    SendsHeld { chat := state.append event.message, unsent := unsent } ↔
      ∀ send ∈ unsent, AppendSpares { chat := state, unsent := unsent } send := by
  rw [sendsHeld_iff]
  refine forall₂_congr fun send hsend => ?_
  rw [shows_messages_append, not_isBubbleOf_of_unmarked event.unmarked]
  simp only [Bool.false_eq_true, or_false]
  exact and_iff_right (hpending send hsend)

/-- The bubbles stand below the page. -/
theorem shows_seedTail_iff
    {state : ChatState} {page : HistoryPage} :
    Shows (seedTail state page).messages send ↔
      Shows ((partitionHeld state (indexPage page)).newer.drop
        ((partitionHeld state (indexPage page)).newer.length - maxMessages)) send := by
  have hkept : ∀ n, ¬Shows ((partitionHeld state (indexPage page)).kept.drop n) send :=
    fun n => not_shows_of_ids fun message hmem =>
      id_ne_none_of_older (placement_of_mem_kept (List.mem_of_mem_drop hmem))
  have hpage : ∀ n, ¬Shows (page.events.drop n) send :=
    fun n => not_shows_of_unmarked fun message hmem =>
      page.unmarked message (List.mem_of_mem_drop hmem)
  have hcut : (seedTail state page).messages =
      capTail ((partitionHeld state (indexPage page)).kept ++ page.events ++
        (partitionHeld state (indexPage page)).newer) := rfl
  rw [hcut, capTail_eq_drop, List.drop_append, List.drop_append, shows_append, shows_append]
  simp only [hkept, hpage, false_or, List.length_append]
  rw [show ∀ a b c n : Nat, a + b + c - n - (a + b) = c - n by omega]

theorem sendsHeld_seedTail_iff
    (h : SendsHeld w)
    (page : HistoryPage) :
    SendsHeld (w.apply (.seedTail page)) ↔ Spares w (.seedTail page) := by
  rw [sendsHeld_iff, Spares]
  simp only [apply, unsentAfter, ChatState.apply, shows_seedTail_iff, List.mem_filter,
    decide_eq_true_eq]
  constructor
  · intro hheld send hsend
    by_cases hecho : send.intentId ∈ page.events.filterMap (·.intentId)
    · exact Or.inl hecho
    · exact Or.inr (hheld send ⟨hsend, hecho⟩).2
  · rintro hspares send ⟨hsend, hecho⟩
    refine ⟨Finset.mem_sdiff.2 ⟨(h send hsend).1, ?_⟩, (hspares send hsend).resolve_left hecho⟩
    exact fun hmem => hecho (List.mem_toFinset.1 hmem)

theorem sendsHeld_confirmed
    {state : ChatState} {unsent : List RetryableSend} {event : ChatMessage} {intentId : String}
    (hconfirmed : state.confirmedBy event = some intentId)
    (h : SendsHeld { chat := state, unsent := unsent }) :
    SendsHeld
      { chat := state.confirmed event intentId
        unsent := unsent.filter fun send => event.intentId ≠ some send.intentId } := by
  rw [sendsHeld_iff] at h ⊢
  have hintent : event.intentId = some intentId :=
    (Option.filter_eq_some_iff.1 hconfirmed).1
  intro send hsend
  simp only [List.mem_filter, hintent, decide_eq_true_eq] at hsend
  have hne : send.intentId ≠ intentId := fun heq => hsend.2 (by rw [heq])
  obtain ⟨hpending, message, hmem, hbubble⟩ := h send hsend.1
  refine ⟨Finset.mem_erase.2 ⟨hne, hpending⟩, message, ?_, hbubble⟩
  exact List.mem_map.2 ⟨message, hmem, confirm_of_ne hbubble hne⟩

/-- An event that confirms no bubble brings no echo of a send. -/
theorem filter_of_not_confirmed
    {state : ChatState} {unsent : List RetryableSend} {event : ChatMessage}
    (hconfirmed : state.confirmedBy event = none)
    (hpending : ∀ send ∈ unsent, send.intentId ∈ state.pendingIntents) :
    (unsent.filter fun send => event.intentId ≠ some send.intentId) = unsent := by
  rw [List.filter_eq_self]
  intro send hsend
  rw [decide_eq_true_eq]
  intro hecho
  have hnone := Option.filter_eq_none_iff.1 hconfirmed send.intentId hecho
  exact hnone (decide_eq_true (hpending send hsend))

theorem sendsHeld_foldLiveEvent_iff
    (h : SendsHeld w)
    (event : LiveEvent) :
    SendsHeld (w.apply (.foldLiveEvent event)) ↔ Spares w (.foldLiveEvent event) := by
  have hpending : ∀ send ∈ w.unsent, send.intentId ∈ w.chat.pendingIntents :=
    fun send hsend => (h send hsend).1
  rw [Spares]
  simp only [apply, unsentAfter, ChatState.apply]
  rcases foldLiveEvent_cases w.chat event.message with ⟨intentId, hconfirmed, hfold⟩ |
    ⟨hconfirmed, hignored, hfold⟩ | ⟨hconfirmed, hignored, hchat, hfold⟩ |
    ⟨hconfirmed, hignored, hchat, hfold⟩
  · rw [hfold, hconfirmed]
    exact iff_of_true (sendsHeld_confirmed hconfirmed h) (Or.inl rfl)
  · rw [hfold, filter_of_not_confirmed hconfirmed hpending]
    exact iff_of_true h (Or.inr (Or.inl hignored))
  · rw [hfold, filter_of_not_confirmed hconfirmed hpending]
    exact iff_of_true h (Or.inr (Or.inr (Or.inl hchat)))
  · have happend :
        SendsHeld
            { chat := (w.chat.shown event.message).append event.message, unsent := w.unsent } ↔
          ∀ send ∈ w.unsent,
            AppendSpares { chat := w.chat.shown event.message, unsent := w.unsent } send :=
      sendsHeld_append_iff hpending
    rw [hfold, filter_of_not_confirmed hconfirmed hpending, happend, hconfirmed]
    simp [hignored, hchat, AppendSpares, ChatState.shown]

theorem sendsHeld_commitPacedChat_iff
    (h : SendsHeld w)
    (event : LiveEvent) :
    SendsHeld (w.apply (.commitPacedChat event)) ↔ Spares w (.commitPacedChat event) := by
  rw [Spares]
  simp only [apply, unsentAfter, ChatState.apply]
  rcases commitPacedChat_cases w.chat event.message with ⟨hheld, hcommit⟩ | ⟨hfresh, hcommit⟩
  · rw [hcommit]
    exact iff_of_true h (Or.inl hheld)
  · rw [hcommit, sendsHeld_append_iff fun send hsend => (h send hsend).1]
    refine (or_iff_right ?_).symm
    rintro ⟨id, hid, hmem⟩
    exact hfresh id hid hmem

theorem sendsHeld_beginSend_iff
    (h : SendsHeld w)
    (text : String) (inputMethod : InputMethod) (intentId : String)
    (attachments : Option (List ChatAttachment)) (now : String) :
    SendsHeld (w.apply (.beginSend text inputMethod intentId attachments now)) ↔
      Spares w (.beginSend text inputMethod intentId attachments now) := by
  rw [sendsHeld_iff, Spares]
  simp only [apply, unsentAfter, ChatState.apply, beginSend, shows_messages_append,
    isBubbleOf_sentBubble, List.mem_append, List.mem_singleton]
  constructor
  · intro hheld send hsend
    exact (hheld send (Or.inl hsend)).2.symm
  · rintro hspares send (hsend | rfl)
    · exact ⟨Finset.mem_insert_of_mem (h send hsend).1, (hspares send hsend).symm⟩
    · exact ⟨Finset.mem_insert_self _ _, Or.inr rfl⟩

theorem sendsHeld_trimTail_iff
    (h : SendsHeld w)
    (keep : Nat) :
    SendsHeld (w.apply (.trimTail keep)) ↔ Spares w (.trimTail keep) := by
  rw [Spares]
  simp only [apply, unsentAfter, ChatState.apply]
  rcases trimTail_cases w.chat keep with ⟨hkept, htrim⟩ | ⟨hlong, oldest, rest, hids, htrim⟩
  · rw [htrim]
    refine iff_of_true h ?_
    rcases hkept with hshort | hnone
    · exact Or.inl hshort
    · exact Or.inr (Or.inl hnone)
  · rw [htrim, sendsHeld_iff, hids]
    simp only [Nat.not_le.2 hlong, reduceCtorEq, false_or]
    exact forall₂_congr fun send hsend => and_iff_right (h send hsend).1

/-- A step keeps the bubbles of all sends exactly when it spares them. -/
theorem sendsHeld_apply_iff
    (h : SendsHeld w)
    (operation : Operation) :
    SendsHeld (w.apply operation) ↔ Spares w operation := by
  cases operation with
  | seedTail page => exact sendsHeld_seedTail_iff h page
  | foldLiveEvent event => exact sendsHeld_foldLiveEvent_iff h event
  | commitPacedChat event => exact sendsHeld_commitPacedChat_iff h event
  | beginSend text inputMethod intentId attachments now =>
      exact sendsHeld_beginSend_iff h text inputMethod intentId attachments now
  | markSend intentId phase =>
      refine iff_of_true ?_ trivial
      rw [sendsHeld_iff] at h ⊢
      intro send hsend
      obtain ⟨hpending, message, hmem, hbubble⟩ := h send hsend
      exact ⟨hpending, _, List.mem_map_of_mem hmem, isBubbleOf_setSendState hbubble⟩
  | trimTail keep => exact sendsHeld_trimTail_iff h keep
  | prependPage page =>
      refine iff_of_true ?_ trivial
      rw [sendsHeld_iff] at h ⊢
      intro send hsend
      exact ⟨(h send hsend).1, shows_mono (List.subset_append_right _ _) (h send hsend).2⟩

end Steps

/-- On a run each message that was sent keeps its bubble until its echo is folded if and only
if no step of the run cuts such a bubble off. -/
theorem sends_held_iff (run : List Operation) :
    machine.Admits (fun w operation => ∀ next ∈ machine.step w operation, SendsHeld next)
        initial run ↔
      machine.Admits Spares initial run := by
  refine machine.admits_iff_invariant ?_ (fun _ _ _ hstuck => nomatch hstuck) run ?_
  · rintro w operation next h hstep
    cases hstep
    exact sendsHeld_apply_iff h operation
  · exact fun send hsend => absurd hsend List.not_mem_nil

/-- The post of a message fails and its bubble is parked.  A hundred rows later the tail is
trimmed. -/
def parkedRun : List Operation :=
  [.seedTail .empty,
    .beginSend "are you there" .typed "send-1" none "",
    .markSend "send-1" .retry] ++
  (List.range 100).map (fun i => .foldLiveEvent ⟨sentRow (i + 1) none, rfl⟩) ++
  [.trimTail trimHistoryKeep]

/-- The trim drops the bubble: nothing is left to post again. -/
theorem sends_not_held :
    ∃ w, machine.Reaches Machine.always w ∧ ¬SendsHeld w ∧
      w.unsent = [sendOf "are you there" .typed "send-1" none] ∧ retryableSends w.chat = [] := by
  have hstart : machine.Reaches Machine.always initial := .start rfl
  refine ⟨machine.runTo initial parkedRun, hstart.runTo parkedRun (Machine.admits_always _ _ _)
    (by decide +kernel), ?_, by decide +kernel, by decide +kernel⟩
  rw [sendsHeld_iff]
  decide +kernel

end Outbox

end Chat
end Core
end Vesta
