import Vesta.Core.Chat.Session
import Vesta.Lib.Machine

/-!
# Each live reply is announced once

A reply of the agent comes over the live socket, waits in the pacing queue and is
announced when it is committed to the tail.  The pages of the history announce
nothing.

`World` keeps beside the session the replies that were received live, each at its
first delivery.  `Announced` says that the announcements made and the replies
that wait are these, in order, and that a reply only waits while a typing delay
runs.  `Announces` is what a step must meet for that, and `replies_announced_iff`
that these are exactly the runs in which it always holds.
-/

namespace Vesta
namespace Core
namespace Chat
namespace Replies

open Lib

structure World where
  session : Session
  received : List ChatMessage
deriving DecidableEq

/-- A callback of the session with its input. -/
inductive Label
  | event (natural : Bool) (event : LiveEvent)
  | typingTimer (natural : Bool)
  | flushPacing
  | opened
  | closed
  | seed (page : HistoryPage)
  | seedFailed
  | loadMore
  | page (page : HistoryPage)
  | pageFailed
  | trimHistory
  | send
      (text : String) (inputMethod : InputMethod) (intentId : String)
      (attachments : Option (List ChatAttachment)) (now : String)
  | mark (intentId : String) (send : SendState)
deriving DecidableEq

/-- An event is new to the client: it has no id, or one of none received before. -/
def isNew (received : List ChatMessage) (event : ChatMessage) : Bool :=
  event.id.all (· ∉ ids received)

/-- The replies received live, with this event when it is a new one. -/
def receive (received : List ChatMessage) (event : ChatMessage) : List ChatMessage :=
  if event.isChat && isNew received event then received ++ [event] else received

def step (w : World) : Label → Option World
  | .event natural event =>
      if w.session.socketOpen then
        some
          { session := w.session.onEvent natural event.message
            received := receive w.received event.message }
      else
        none
  | .typingTimer natural =>
      (w.session.onTypingTimer natural).map fun session => { w with session := session }
  | .flushPacing => some { w with session := w.session.flushQueue }
  | .opened => some { w with session := w.session.onOpen }
  | .closed => some { w with session := w.session.onClosed }
  | .seed page => some { w with session := w.session.onSeed page }
  | .seedFailed => some { w with session := w.session.onSeedFailed }
  | .loadMore =>
      w.session.loadMore.map fun _ => { w with session := { w.session with loadingMore := true } }
  | .page page =>
      if w.session.loadingMore then some { w with session := w.session.onPage page } else none
  | .pageFailed =>
      if w.session.loadingMore then some { w with session := w.session.onPageFailed } else none
  | .trimHistory => some { w with session := w.session.trimHistory }
  | .send text inputMethod intentId attachments now =>
      some { w with session := { w.session with
        chat := beginSend w.session.chat text inputMethod intentId attachments now } }
  | .mark intentId send =>
      some { w with session := { w.session with
        chat := markSend w.session.chat intentId (some send) } }

attribute [grind =] step

/-- A session just created, on what an earlier one held. -/
def initial (held : ChatState) : World where
  session := Session.create held
  received := []

def machine (held : ChatState) : Machine World Label where
  start := fun w => w = initial held
  step := step

/-- The replies announced and those that wait, in order. -/
def spoken (s : Session) : List String :=
  s.announced ++ s.queue.filterMap (·.reply)

/-- The announcements made are the replies received live in their order, up to those that
wait; and one only waits while a typing delay runs. -/
structure Announced (w : World) : Prop where
  once : spoken w.session = w.received.filterMap (·.reply)
  running : w.session.typing = false → w.session.queue = []
  replies : ∀ event ∈ w.session.queue, event.isChat = true

/-- A step that loses no reply and repeats none: a reply the session takes is a new one and a
new one is taken, and the socket opens while none waits. -/
def Announces (w : World) : Label → Prop
  | .event _ event =>
      w.session.socketOpen = true → event.message.isChat = true →
        w.session.chat.ignores event.message = !isNew w.received event.message
  | .opened => w.session.queue = []
  | _ => True

section Pacing

variable {s : Session} {event : ChatMessage}

theorem isChat_iff_reply : event.isChat = true ↔ ∃ text, event.reply = some text := by
  obtain ⟨id, ts, body⟩ := event
  cases body <;> simp [ChatMessage.isChat, ChatMessage.reply]

/-- A flush announces all that wait. -/
theorem spoken_flushQueue (s : Session) :
    spoken s.flushQueue = spoken s ∧ s.flushQueue.queue = [] := by
  rw [s.flushQueue_eq]
  exact ⟨List.append_nil _, rfl⟩

theorem spoken_drainQueue (natural : Bool) (s : Session) :
    spoken (s.drainQueue natural) = spoken s ∧
      ((s.drainQueue natural).typing = false → (s.drainQueue natural).queue = []) ∧
        (s.drainQueue natural).queue ⊆ s.queue := by
  rw [Session.drainQueue]
  split
  · rename_i hwaits
    refine ⟨rfl, fun htyping => ?_, List.Subset.refl _⟩
    rw [htyping, Bool.false_or] at hwaits
    exact List.isEmpty_iff.1 hwaits
  · split
    · obtain ⟨hspoken, hempty⟩ := spoken_flushQueue s
      exact ⟨hspoken, fun _ => hempty, hempty ▸ List.nil_subset _⟩
    · exact ⟨rfl, (nomatch ·), List.Subset.refl _⟩

theorem confirmedBy_of_isChat
    {chat : ChatState}
    (h : event.isChat = true) :
    chat.confirmedBy event = none := by
  obtain ⟨id, ts, body⟩ := event
  cases body with
  | chat => rfl
  | _ => cases h

/-- A reply that is not ignored goes to the end of the queue; any other event leaves the
pacing as it is. -/
theorem onEvent_cases (natural : Bool) (s : Session) (event : ChatMessage) :
    (event.isChat = true ∧ s.chat.ignores event = false ∧
      ∃ chat, s.onEvent natural event =
        Session.drainQueue natural { s with chat := chat, queue := s.queue ++ [event] }) ∨
    ((event.isChat = false ∨ s.chat.ignores event = true) ∧
      ∃ chat, s.onEvent natural event = { s with chat := chat }) := by
  rcases foldLiveEvent_cases s.chat event with ⟨intentId, hconfirmed, hfold⟩ |
    ⟨-, hignored, hfold⟩ | ⟨-, hignored, hchat, hfold⟩ | ⟨-, hignored, hchat, hfold⟩
  · refine Or.inr ⟨Or.inl ?_, _, by rw [Session.onEvent, hfold]; rfl⟩
    rw [Bool.eq_false_iff]
    intro hchat
    rw [confirmedBy_of_isChat hchat] at hconfirmed
    cases hconfirmed
  · exact Or.inr ⟨Or.inr hignored, _, by rw [Session.onEvent, hfold]; rfl⟩
  · exact Or.inl ⟨hchat, hignored, _, by rw [Session.onEvent, hfold]; rfl⟩
  · exact Or.inr ⟨Or.inl hchat, _, by rw [Session.onEvent, hfold]; rfl⟩

end Pacing

section Steps

variable {w next : World}

/-- A callback that leaves the pacing as it is. -/
theorem Announced.pacing
    {session : Session}
    (h : Announced w)
    (hannounced : session.announced = w.session.announced)
    (hqueue : session.queue = w.session.queue)
    (htyping : session.typing = w.session.typing) :
    Announced { w with session := session } := by
  refine ⟨?_, ?_, ?_⟩
  · rw [← h.once, spoken, spoken, hannounced, hqueue]
  · rw [htyping, hqueue]
    exact h.running
  · rw [hqueue]
    exact h.replies

theorem receive_of_isNew
    (received : List ChatMessage)
    {event : ChatMessage} {text : String}
    (hreply : event.reply = some text) :
    (receive received event).filterMap (·.reply) =
      received.filterMap (·.reply) ++ if isNew received event then [text] else [] := by
  rw [receive, isChat_iff_reply.2 ⟨text, hreply⟩, Bool.true_and]
  cases isNew received event <;> simp [hreply]

theorem announced_event_iff
    {natural : Bool} {event : LiveEvent}
    (h : Announced w)
    (hopen : w.session.socketOpen = true) :
    Announced
        { session := w.session.onEvent natural event.message
          received := receive w.received event.message } ↔
      Announces w (.event natural event) := by
  cases hchat : event.message.isChat with
  | false =>
      have hreceive : receive w.received event.message = w.received := by
        rw [receive, hchat]
        rfl
      rcases onEvent_cases natural w.session event.message with ⟨hreply, -, -⟩ | ⟨-, chat, hevent⟩
      · rw [hchat] at hreply
        cases hreply
      · rw [hreceive, hevent]
        refine iff_of_true (h.pacing rfl rfl rfl) ?_
        intro _ hreply
        rw [hchat] at hreply
        cases hreply
  | true =>
      obtain ⟨text, hreply⟩ := isChat_iff_reply.1 hchat
      have hok : Announces w (.event natural event) ↔
          w.session.chat.ignores event.message = !isNew w.received event.message :=
        ⟨fun hok => hok hopen hchat, fun heq _ _ => heq⟩
      have hreceived := receive_of_isNew w.received hreply
      rw [hok]
      rcases onEvent_cases natural w.session event.message with
        ⟨-, hignored, chat, hevent⟩ | ⟨hor, chat, hevent⟩
      · -- the reply goes into the queue
        have hspoken := spoken_drainQueue natural
          { w.session with chat := chat, queue := w.session.queue ++ [event.message] }
        have hqueued : spoken
              { w.session with chat := chat, queue := w.session.queue ++ [event.message] } =
            w.received.filterMap (·.reply) ++ [text] := by
          rw [← h.once, spoken, spoken]
          simp [hreply]
        rw [hevent, hignored]
        cases hnew : isNew w.received event.message with
        | true =>
            refine iff_of_true ⟨?_, hspoken.2.1, fun reply hmem => ?_⟩ rfl
            · rw [hspoken.1, hqueued, hreceived, hnew]
              rfl
            · rcases List.mem_append.1 (hspoken.2.2 hmem) with hold | hlast
              · exact h.replies reply hold
              · rw [List.mem_singleton.1 hlast]
                exact hchat
        | false =>
            refine iff_of_false (fun hnext => ?_) (nomatch ·)
            have honce := hnext.once
            rw [hspoken.1, hqueued, hreceived] at honce
            simp [hnew] at honce
      · have hignored : w.session.chat.ignores event.message = true := by
          rcases hor with hno | hyes
          · rw [hchat] at hno
            cases hno
          · exact hyes
        rw [hevent, hignored]
        cases hnew : isNew w.received event.message with
        | false =>
            refine iff_of_true ?_ rfl
            rw [receive, hnew, Bool.and_false]
            exact h.pacing rfl rfl rfl
        | true =>
            refine iff_of_false (fun hnext => ?_) (nomatch ·)
            have honce := hnext.once
            rw [hreceived, ← h.once] at honce
            simp [hnew, spoken] at honce

theorem announced_typingTimer
    {natural : Bool} {session : Session}
    (h : Announced w)
    (htimer : w.session.onTypingTimer natural = some session) :
    Announced { w with session := session } := by
  rw [Session.onTypingTimer] at htimer
  split at htimer
  · rename_i first rest _ hqueue
    cases htimer
    have hdrain := spoken_drainQueue natural
      (Session.commitReply { w.session with typing := false, queue := rest } first)
    refine ⟨hdrain.1.trans ?_, hdrain.2.1, fun reply hmem => ?_⟩
    · rw [← h.once, spoken, spoken, hqueue]
      cases hreply : first.reply <;> simp [Session.commitReply, hreply]
    · exact h.replies reply (hqueue ▸ List.mem_cons_of_mem first (hdrain.2.2 hmem))
  · cases htimer

/-- An open empties the queue. -/
theorem announced_onOpen_iff
    (h : Announced w) :
    Announced { w with session := w.session.onOpen } ↔ w.session.queue = [] := by
  have hspoken : spoken w.session.onOpen = w.session.announced := List.append_nil _
  constructor
  · intro hnext
    have honce := hnext.once
    rw [hspoken, ← h.once, spoken, List.self_eq_append_right] at honce
    cases hqueue : w.session.queue with
    | nil => rfl
    | cons first rest =>
        obtain ⟨text, hreply⟩ :=
          isChat_iff_reply.1 (h.replies first (hqueue ▸ List.mem_cons_self))
        rw [hqueue, List.filterMap_cons, hreply] at honce
        cases honce
  · intro hqueue
    refine ⟨?_, fun _ => rfl, fun reply hmem => nomatch hmem⟩
    rw [hspoken, ← h.once, spoken, hqueue]
    exact (List.append_nil _).symm

theorem announced_step_iff
    {a : Label}
    (h : Announced w)
    (hstep : step w a = some next) :
    Announced next ↔ Announces w a := by
  cases a with
  | event natural event =>
      simp only [step] at hstep
      split at hstep
      · rename_i hopen
        cases hstep
        exact announced_event_iff h hopen
      · cases hstep
  | typingTimer natural =>
      refine iff_of_true ?_ trivial
      obtain ⟨session, htimer, rfl⟩ := Option.map_eq_some_iff.1 hstep
      exact announced_typingTimer h htimer
  | flushPacing =>
      cases hstep
      obtain ⟨hspoken, hempty⟩ := spoken_flushQueue w.session
      refine iff_of_true ⟨hspoken.trans h.once, fun _ => hempty, ?_⟩ trivial
      rw [hempty]
      exact fun reply hmem => absurd hmem List.not_mem_nil
  | opened =>
      cases hstep
      exact announced_onOpen_iff h
  | closed =>
      cases hstep
      exact iff_of_true (h.pacing rfl rfl rfl) trivial
  | seed page =>
      cases hstep
      exact iff_of_true (h.pacing rfl rfl rfl) trivial
  | seedFailed =>
      cases hstep
      refine iff_of_true ?_ trivial
      rw [Session.onSeedFailed]
      split <;> exact h.pacing rfl rfl rfl
  | loadMore =>
      obtain ⟨cursor, -, rfl⟩ := Option.map_eq_some_iff.1 hstep
      exact iff_of_true (h.pacing rfl rfl rfl) trivial
  | page page =>
      simp only [step] at hstep
      split at hstep
      · cases hstep
        exact iff_of_true (h.pacing rfl rfl rfl) trivial
      · cases hstep
  | pageFailed =>
      simp only [step] at hstep
      split at hstep
      · cases hstep
        exact iff_of_true (h.pacing rfl rfl rfl) trivial
      · cases hstep
  | trimHistory =>
      cases hstep
      refine iff_of_true ?_ trivial
      rw [Session.trimHistory]
      split <;> exact h.pacing rfl rfl rfl
  | send text inputMethod intentId attachments now =>
      cases hstep
      exact iff_of_true (h.pacing rfl rfl rfl) trivial
  | mark intentId send =>
      cases hstep
      exact iff_of_true (h.pacing rfl rfl rfl) trivial

/-- A step that cannot be taken asks for nothing. -/
theorem announces_of_stuck
    {a : Label}
    (hstep : step w a = none) :
    Announces w a := by
  cases a with
  | event natural event =>
      intro hopen
      rw [step, if_pos hopen] at hstep
      cases hstep
  | opened => cases hstep
  | _ => trivial

end Steps

/-- On a run of a session each reply that is received live is announced once, in order, if and
only if each step of the run loses none and repeats none. -/
theorem replies_announced_iff (held : ChatState) (run : List Label) :
    (machine held).Admits (fun w a => ∀ next ∈ (machine held).step w a, Announced next)
        (initial held) run ↔
      (machine held).Admits Announces (initial held) run := by
  refine (machine held).admits_iff_invariant (fun _ _ _ h hstep => announced_step_iff h hstep)
    (fun _ _ _ hstuck => announces_of_stuck hstuck) run ⟨rfl, fun _ => rfl, ?_⟩
  exact fun event hmem => nomatch hmem

/-- A reply of the store. -/
def replyRow (id : Nat) (text : String) : ChatMessage where
  id := some id
  ts := none
  body := .chat text none

/-- A reply waits its typing delay when the connection drops and comes back. -/
def blipRun : List Label :=
  [.seed .empty, .opened,
    .event true ⟨replyRow 1 "done", rfl⟩, .closed, .opened,
    .seed ⟨[replyRow 1 "done"], none, by decide, by decide⟩]

/-- The open empties the queue: the reply is in the tail and was not announced. -/
theorem reply_not_announced :
    ∃ w, (machine initialChatState).Reaches Machine.always w ∧ ¬Announced w ∧
      w.received = [replyRow 1 "done"] ∧ w.session.queue = [] ∧ w.session.announced = [] := by
  refine ⟨(machine initialChatState).runTo (initial initialChatState) blipRun,
    (Machine.Reaches.start rfl).runTo blipRun (Machine.admits_always _ _ _) (by decide),
    fun h => ?_, by decide, by decide, by decide⟩
  exact absurd h.once (by decide)

end Replies
end Chat
end Core
end Vesta
