import Mathlib.Data.List.Nodup
import Vesta.Agent.Notification
import Vesta.Lib.Machine

/-!
# The intake of messages

A client posts a message under an intent id and posts it again when it got no answer.  The
service takes a message in by two durable writes, the notification for the agent and the row
of the conversation, and remembers the intent last.  What it remembers is bounded and lives
in memory.

A handler suspends at one await, and the rest of it runs without a break.  The world keeps
beside the service which notifications and rows each message led to, what was answered, and
the intents whose notification was written and that the service does not know any more
(`forgotten`).
-/

namespace Vesta
namespace AppChat
namespace MessageIntake

open Lib

/-! ## Requests -/

/-- A field of a JSON body, as far as the intake looks into it: of the items of a list, the
texts. -/
inductive Field
  | string (text : Text)
  | bool (value : Bool)
  | list (items : List (Option Text))
  | other
deriving DecidableEq

/-- A body that is a JSON object. -/
structure Body where
  text : Option Field := none
  attachments : Option Field := none
  inputMethod : Option Field := none
  intentId : Option Field := none
  spoken : Option Field := none
deriving DecidableEq

structure AttachmentMeta where
  id : Text
  name : Text
  mime : Text
  size : Nat
deriving DecidableEq

/-- A user event before the store gives it its id. -/
structure UserEvent where
  ts : Text
  text : Text
  inputMethod : Option Text
  intentId : Option Text
  attachments : List AttachmentMeta
deriving DecidableEq

def maxTextChars : Nat := 64 * 1024

def maxAttachmentsPerMessage : Nat := 10

def bodyError : Text := "body must be \x7btext?: string, attachments?: [id]\x7d".toList

/-- The text of a body: what it holds must be a text. -/
def bodyText (body : Body) : Except Text Text :=
  match body.text with
  | none => .ok []
  | some (.string text) => .ok (Agent.strip text)
  | some _ => .error bodyError

def attachmentIds (body : Body) : Except Text (List Text) :=
  match body.attachments with
  | none => .ok []
  | some (.list items) =>
      match items.mapM id with
      | some ids => .ok ids
      | none => .error "attachments must be a list of ids".toList
  | some _ => .error "attachments must be a list of ids".toList

/-- Validate a body into the event to persist and the attachments to resolve. -/
def buildMessageEvent (now : Text) (body : Body) : Except Text (UserEvent × List Text) :=
  (bodyText body).bind fun text =>
    if maxTextChars < text.length then
      .error "message text is capped at 65536 characters".toList
    else
      (attachmentIds body).bind fun ids =>
        if maxAttachmentsPerMessage < ids.length then
          .error "at most 10 attachments per message".toList
        else if text = [] ∧ ids = [] then
          .error "empty message".toList
        else
          .ok
            ({ ts := now
               text := text
               inputMethod :=
                match body.inputMethod with
                | some (.string method) =>
                    if method = "voice".toList ∨ method = "typed".toList then some method else none
                | _ => none
               intentId :=
                match body.intentId with
                | some (.string intentId) => some intentId
                | _ => none
               attachments := [] }, ids)

/-- Whether the client reads the reply aloud; a body that does not say counts as one that does. -/
def Body.isSpoken (body : Body) : Bool :=
  match body.spoken with
  | none => true
  | some spoken => spoken == .bool true

/-- What a notification tells the agent of a message. -/
structure Notification where
  timestamp : Text
  message : Text
  replyHint : Text
  attachments : List AttachmentMeta
deriving DecidableEq

def replyHint : Text := "think about how you can best show your personality".toList

def withSpokenHint (hint : Text) : Text :=
  if hint = [] then replyHint else replyHint ++ "; ".toList ++ hint

inductive Response
  | ok (id : Nat)
  | deduped
  | badRequest (error : Text)
  | internalError
deriving DecidableEq

def Response.isOk : Response → Bool
  | .ok _ | .deduped => true
  | _ => false

/-! ## The service -/

/-- What a message is known by: its intent, or the request alone when it names none. -/
inductive Key
  | intent (intentId : Text)
  | request (serial : Nat)
deriving DecidableEq

/-- A request that was validated. -/
structure Handler where
  serial : Nat
  event : UserEvent
  ids : List Text
deriving DecidableEq

def Handler.key (handler : Handler) : Key :=
  match handler.event.intentId with
  | some intentId => .intent intentId
  | none => .request handler.serial

/-- A row of the conversation: an event of the user, or a reply of the agent. -/
structure Row where
  id : Nat
  event : Option (Key × UserEvent)
deriving DecidableEq

/-- The conversation on disk, and the rows of a transaction that is not committed. -/
structure Store where
  committed : List Row := []
  pending : List Row := []
deriving DecidableEq

structure World where
  arrived : Nat := 0
  waiting : List Handler := []
  /-- The newest intents that were taken in, the oldest first. -/
  seen : List Text := []
  notifications : List (Key × Notification) := []
  store : Store := {}
  answers : List (Key × Response) := []
  forgotten : List Text := []
deriving DecidableEq

/-- How an append to the store goes; a failure leaves the transaction open or ends it. -/
inductive Storing
  | stored
  | insertFails (rollsBack : Bool)
  | commitFails (rollsBack : Bool)
deriving DecidableEq

/-- How the writes of an intake go; the daemon may end after each of them. -/
inductive Writing
  | notificationFails
  | notifiedOnly
  | storing (storing : Storing)
  | storedOnly
deriving DecidableEq

/-- What the environment gives an intake: the metadata on disk, a clock, and how the writes
go. -/
structure Circumstances where
  readMeta : Text → Option AttachmentMeta := fun _ => none
  timestamp : Text := []
  writing : Writing := .storing .stored

inductive Label
  | post (now : Text) (body : Option Body) (circumstances : Circumstances)
  | hinted (handler : Nat) (hint : Text) (circumstances : Circumstances)
  | dropped (handler : Nat)
  | reply (storing : Storing)
  | restart

/-- The newest intents that are remembered. -/
def seenIntentIdsCap : Nat := 256

namespace Store

def nextId (store : Store) : Nat :=
  (((store.committed ++ store.pending).getLast?.map (·.id)).getD 0) + 1

/-- Insert a row and commit what the transaction holds. -/
def append (store : Store) (event : Option (Key × UserEvent)) : Storing → Store
  | .stored =>
      { committed := store.committed ++ store.pending ++ [⟨store.nextId, event⟩], pending := [] }
  | .insertFails rollsBack => if rollsBack then { store with pending := [] } else store
  | .commitFails rollsBack =>
      if rollsBack then { store with pending := [] }
      else { store with pending := store.pending ++ [⟨store.nextId, event⟩] }

end Store

/-- The intents that are known once one more is: a known one keeps its place. -/
def touch (seen : List Text) (intentId : Text) : List Text :=
  if seen.contains intentId then seen else seen ++ [intentId]

namespace World

/-- The intent is known, and the oldest beyond the cap are not any more. -/
def remember (w : World) (intentId : Text) : World :=
  let seen := touch w.seen intentId
  { w with
    seen := seen.drop (seen.length - seenIntentIdsCap)
    forgotten := w.forgotten ++ seen.take (seen.length - seenIntentIdsCap) }

def answer (w : World) (handler : Handler) (response : Response) : World :=
  { w with answers := w.answers ++ [(handler.key, response)] }

/-- The notification of a message is written, and its intent not known yet. -/
def notify (w : World) (handler : Handler) (notification : Notification) : World :=
  { w with notifications := w.notifications ++ [(handler.key, notification)] }

/-- The daemon starts again with what is on disk. -/
def restart (w : World) : World :=
  { w with
    waiting := []
    seen := []
    store := { w.store with pending := [] }
    forgotten := w.forgotten ++ w.seen }

/-- An intake that failed after its notification is not remembered. -/
def forget (w : World) (handler : Handler) : World :=
  { w with forgotten := w.forgotten ++ handler.event.intentId.toList }

def append (w : World) (event : Option (Key × UserEvent)) (storing : Storing) : World :=
  { w with store := w.store.append event storing }

/-- The intent of a message that was taken in, if it has one, is known. -/
def rememberIntent (w : World) : Option Text → World
  | some intentId => w.remember intentId
  | none => w

/-- The store append of an intake and what follows it. -/
def persist (w : World) (handler : Handler) (event : UserEvent) (storing : Storing) : World :=
  let appended := w.append (some (handler.key, event)) storing
  if storing = .stored then
    (appended.rememberIntent event.intentId).answer handler (.ok w.store.nextId)
  else
    (appended.forget handler).answer handler .internalError

/-- The writes of an intake, in the order the handler makes them. -/
def writes (w : World) (handler : Handler) (event : UserEvent) (notification : Notification) :
    Writing → World
  | .notificationFails => w.answer handler .internalError
  | .notifiedOnly => ((w.notify handler notification).forget handler).restart
  | .storing storing => (w.notify handler notification).persist handler event storing
  | .storedOnly =>
      (((w.notify handler notification).append (some (handler.key, event)) .stored).forget
        handler).restart

def unknownAttachment (id : Text) : Text := "unknown attachment: ".toList ++ id

/-- The rest of the handler after its await. -/
def intake (w : World) (handler : Handler) (hint : Text) (given : Circumstances) : World :=
  if handler.event.intentId.any w.seen.contains then
    w.answer handler .deduped
  else
    match handler.ids.find? fun id => (given.readMeta id).isNone with
    | some id => w.answer handler (.badRequest (unknownAttachment id))
    | none =>
        let metas := handler.ids.filterMap given.readMeta
        let event := { handler.event with attachments := metas }
        let notification : Notification :=
          { timestamp := given.timestamp
            message := event.text
            replyHint := withSpokenHint hint
            attachments := metas }
        w.writes handler event notification given.writing

end World

/-- A request whose body is valid, up to its await. -/
def validate (serial : Nat) (now : Text) (body : Option Body) : Except Text Handler :=
  match body with
  | none => .error "invalid json body".toList
  | some body =>
      (buildMessageEvent now body).map fun built =>
        { serial := serial, event := built.1, ids := built.2 }

/-- Only a reply that the client reads aloud is worth asking the voice service for a hint, and
not for a message that is known. -/
def awaits (w : World) (handler : Handler) (body : Option Body) : Bool :=
  body.any Body.isSpoken && !handler.event.intentId.any w.seen.contains

def World.post (w : World) (now : Text) (body : Option Body) (given : Circumstances) : World :=
  let arrived := { w with arrived := w.arrived + 1 }
  match validate w.arrived now body with
  | .error error =>
      { arrived with answers := w.answers ++ [(.request w.arrived, .badRequest error)] }
  | .ok handler =>
      if awaits w handler body then { arrived with waiting := w.waiting ++ [handler] }
      else arrived.intake handler [] given

def step (w : World) : Label → Option World
  | .post now body given => some (w.post now body given)
  | .hinted i hint given =>
      w.waiting[i]?.map fun handler =>
        { w with waiting := w.waiting.eraseIdx i }.intake handler hint given
  | .dropped i => some { w with waiting := w.waiting.eraseIdx i }
  | .reply storing => some (w.append none storing)
  | .restart => some w.restart

def machine : Machine World Label where
  start w := w = {}
  step := step

/-! ## Exactly once -/

/-- The notifications a message led to. -/
def notified (w : World) (key : Key) : Nat :=
  w.notifications.countP fun written => decide (written.1 = key)

def rowsOf (rows : List Row) (key : Key) : Nat :=
  rows.countP fun row => row.event.any fun event => decide (event.1 = key)

/-- The rows a message led to. -/
def stored (w : World) (key : Key) : Nat := rowsOf w.store.committed key

/-- No message leads to two notifications or two rows, and one that is answered ok led to one
of each. -/
structure ExactlyOnce (w : World) : Prop where
  notified : ∀ key, notified w key ≤ 1
  stored : ∀ key, stored w key ≤ 1
  answered : ∀ answer ∈ w.answers, answer.2.isOk = true →
    MessageIntake.notified w answer.1 = 1 ∧ MessageIntake.stored w answer.1 = 1

/-- A handler gets past the checks and writes its notification. -/
def TakesIn (w : World) (handler : Handler) (given : Circumstances) : Prop :=
  (∀ intentId ∈ handler.event.intentId, intentId ∉ w.seen) ∧
    (∀ id ∈ handler.ids, (given.readMeta id).isSome = true) ∧
      given.writing ≠ .notificationFails

/-- No message is taken in that the service has forgotten: one whose notification was written
before the service failed to store it or to go on, whose intent went with a restart, or one that
newer intents pushed out. -/
def Remembered (w : World) : Label → Prop
  | .post now body given =>
      ∀ handler, validate w.arrived now body = .ok handler → awaits w handler body = false →
        TakesIn w handler given → ∀ intentId ∈ handler.event.intentId, intentId ∉ w.forgotten
  | .hinted i _ given =>
      ∀ handler ∈ w.waiting[i]?, TakesIn w handler given →
        ∀ intentId ∈ handler.event.intentId, intentId ∉ w.forgotten
  | _ => True

/-- What is held of a message by the store, committed or not. -/
def held (w : World) (key : Key) : Nat := rowsOf (w.store.committed ++ w.store.pending) key

/-- What every run keeps.  In the middle of an intake its intent is neither remembered nor
forgotten yet: it is `flight`. -/
structure Kept (flight : List Text) (w : World) : Prop where
  known : ∀ intentId, 0 < notified w (.intent intentId) ↔
    intentId ∈ w.seen ∨ intentId ∈ w.forgotten ∨ intentId ∈ flight
  rows : ∀ key, held w key ≤ notified w key
  seen : ∀ intentId ∈ w.seen, 0 < stored w (.intent intentId)
  answered : ∀ answer ∈ w.answers, answer.2.isOk = true → 0 < stored w answer.1
  requests : ∀ serial, notified w (.request serial) ≤ 1
  spent : ∀ serial, 0 < notified w (.request serial) →
    serial < w.arrived ∧ ∀ handler ∈ w.waiting, handler.serial ≠ serial
  waiting : ∀ handler ∈ w.waiting, handler.serial < w.arrived
  distinct : (w.waiting.map (·.serial)).Nodup

/-- A handler that runs has a number of its own and did nothing yet. -/
structure Fresh (w : World) (handler : Handler) : Prop where
  arrived : handler.serial < w.arrived
  alone : ∀ other ∈ w.waiting, other.serial ≠ handler.serial
  unused : notified w (.request handler.serial) = 0

section Counts

variable {w : World} {handler : Handler}

theorem rowsOf_append (a b : List Row) (key : Key) :
    rowsOf (a ++ b) key = rowsOf a key + rowsOf b key :=
  List.countP_append

theorem rowsOf_user (id : Nat) (key other : Key) (event : UserEvent) :
    rowsOf [⟨id, some (other, event)⟩] key = if other = key then 1 else 0 := by
  by_cases h : other = key <;> simp [rowsOf, h]

theorem notified_notify
    (w : World) (handler : Handler) (notification : Notification) (key : Key) :
    notified (w.notify handler notification) key =
      notified w key + if handler.key = key then 1 else 0 := by
  by_cases h : handler.key = key <;> simp [notified, World.notify, List.countP_append, h]

theorem stored_le_held (key : Key) : stored w key ≤ held w key := by
  rw [held, rowsOf_append]
  exact Nat.le_add_right _ _

/-- A committed row stays. -/
theorem stored_append
    (event : Option (Key × UserEvent)) (storing : Storing) (key : Key) :
    stored w key ≤ stored (w.append event storing) key := by
  rw [stored, stored, World.append]
  cases storing with
  | stored =>
      rw [Store.append, rowsOf_append, rowsOf_append]
      omega
  | insertFails rollsBack => cases rollsBack <;> exact Nat.le_refl _
  | commitFails rollsBack => cases rollsBack <;> exact Nat.le_refl _

theorem stored_appended
    (event : UserEvent) (key : Key) :
    0 < stored (w.append (some (key, event)) .stored) key := by
  rw [stored, World.append, Store.append, rowsOf_append, rowsOf_user, if_pos rfl]
  omega

/-- An append adds its own row at most. -/
theorem held_append
    (event : UserEvent) (storing : Storing) (key other : Key) :
    held (w.append (some (other, event)) storing) key ≤
      held w key + if other = key then 1 else 0 := by
  have hrow := rowsOf_user w.store.nextId key other event
  simp only [held, World.append, Store.append]
  cases storing with
  | stored =>
      simp only [List.append_nil, rowsOf_append, hrow]
      omega
  | insertFails rollsBack =>
      cases rollsBack <;> simp only [Bool.false_eq_true, if_true, if_false, List.append_nil,
        rowsOf_append] <;> omega
  | commitFails rollsBack =>
      cases rollsBack
      · simp only [Bool.false_eq_true, if_false, rowsOf_append, hrow]
        omega
      · simp only [if_true, List.append_nil, rowsOf_append]
        omega

theorem held_append_reply
    (storing : Storing) (key : Key) :
    held (w.append none storing) key ≤ held w key := by
  have hrow : rowsOf [⟨w.store.nextId, none⟩] key = 0 := rfl
  simp only [held, World.append, Store.append]
  cases storing with
  | stored =>
      simp only [List.append_nil, rowsOf_append, hrow]
      omega
  | insertFails rollsBack =>
      cases rollsBack <;> simp only [Bool.false_eq_true, if_true, if_false, List.append_nil,
        rowsOf_append] <;> omega
  | commitFails rollsBack =>
      cases rollsBack
      · simp only [Bool.false_eq_true, if_false, rowsOf_append, hrow]
        omega
      · simp only [if_true, List.append_nil, rowsOf_append]
        omega

end Counts

section Keeping

variable {w : World} {handler : Handler} {flight : List Text}

theorem Kept.answer
    (h : Kept flight w)
    {response : Response}
    (hok : response.isOk = true → 0 < stored w handler.key) :
    Kept flight (w.answer handler response) := by
  refine { h with answered := ?_ }
  intro answer hmem
  rcases List.mem_append.1 hmem with hold | hnew
  · exact h.answered answer hold
  · rw [List.mem_singleton.1 hnew]
    exact hok

theorem Kept.notify
    (h : Kept [] w)
    (hfresh : Fresh w handler)
    (notification : Notification) :
    Kept handler.event.intentId.toList (w.notify handler notification) := by
  have hcount := notified_notify w handler notification
  refine
    { known := ?_, rows := ?_, seen := h.seen, answered := h.answered, requests := ?_
      spent := ?_, waiting := h.waiting, distinct := h.distinct }
  · intro intentId
    have hknown := h.known intentId
    simp only [List.not_mem_nil, or_false] at hknown
    have hkey : handler.key = .intent intentId ↔ handler.event.intentId = some intentId := by
      rw [Handler.key]
      cases handler.event.intentId <;> simp
    rw [hcount, Option.mem_toList, ← or_assoc]
    change _ ↔ (intentId ∈ w.seen ∨ intentId ∈ w.forgotten) ∨ _
    rw [← hknown, ← hkey]
    by_cases heq : handler.key = .intent intentId <;> simp [heq]
  · intro key
    rw [hcount]
    exact Nat.le_trans (h.rows key) (Nat.le_add_right _ _)
  · intro serial
    rw [hcount]
    split
    · rename_i hkey
      have hown : handler.serial = serial := by
        rw [Handler.key] at hkey
        cases hintent : handler.event.intentId with
        | none => simpa [hintent] using hkey
        | some intentId => simp [hintent] at hkey
      have hunused := hfresh.unused
      rw [hown] at hunused
      omega
    · exact h.requests serial
  · intro serial hpos
    rw [hcount] at hpos
    split at hpos
    · rename_i hkey
      have hown : handler.serial = serial := by
        rw [Handler.key] at hkey
        cases hintent : handler.event.intentId with
        | none => simpa [hintent] using hkey
        | some intentId => simp [hintent] at hkey
      exact hown ▸ ⟨hfresh.arrived, hfresh.alone⟩
    · exact h.spent serial hpos

theorem Kept.forget
    (h : Kept handler.event.intentId.toList w) :
    Kept [] (w.forget handler) := by
  refine { h with known := ?_ }
  intro intentId
  refine (h.known intentId).trans ?_
  simp [World.forget]

theorem Kept.restart
    (h : Kept flight w) :
    Kept flight w.restart := by
  refine
    { known := ?_, rows := ?_, seen := fun _ hmem => absurd hmem List.not_mem_nil
      answered := h.answered, requests := h.requests
      spent := fun serial hpos =>
        ⟨(h.spent serial hpos).1, fun _ hmem => absurd hmem List.not_mem_nil⟩
      waiting := fun _ hmem => absurd hmem List.not_mem_nil, distinct := List.nodup_nil }
  · intro intentId
    refine (h.known intentId).trans ?_
    simp only [World.restart, List.mem_append, List.not_mem_nil, false_or]
    tauto
  · intro key
    refine Nat.le_trans ?_ (h.rows key)
    simp only [held, World.restart, List.append_nil, rowsOf_append]
    omega

theorem Kept.append
    (h : Kept flight w)
    {key : Key}
    (hroom : held w key < notified w key)
    (event : UserEvent) (storing : Storing) :
    Kept flight (w.append (some (key, event)) storing) := by
  refine
    { h with
      rows := ?_
      seen := fun intentId hmem => Nat.lt_of_lt_of_le (h.seen intentId hmem) (stored_append _ _ _)
      answered := fun answer hmem hok =>
        Nat.lt_of_lt_of_le (h.answered answer hmem hok) (stored_append _ _ _) }
  intro other
  refine Nat.le_trans (held_append event storing other key) ?_
  split
  · rename_i heq
    exact heq ▸ hroom
  · exact h.rows other

theorem Kept.reply
    (h : Kept flight w)
    (storing : Storing) :
    Kept flight (w.append none storing) :=
  { h with
    rows := fun key => Nat.le_trans (held_append_reply storing key) (h.rows key)
    seen := fun intentId hmem => Nat.lt_of_lt_of_le (h.seen intentId hmem) (stored_append _ _ _)
    answered := fun answer hmem hok =>
      Nat.lt_of_lt_of_le (h.answered answer hmem hok) (stored_append _ _ _) }

theorem mem_touch {seen : List Text} {intentId other : Text} :
    other ∈ touch seen intentId ↔ other ∈ seen ∨ other = intentId := by
  rw [touch]
  split
  · rename_i hmem
    have hmem := List.contains_iff_mem.1 hmem
    exact ⟨Or.inl, fun h => h.elim id fun heq => heq ▸ hmem⟩
  · rw [List.mem_append, List.mem_singleton]

theorem mem_drop_or_take {seen : List Text} (n : Nat) {intentId : Text} :
    intentId ∈ seen ↔ intentId ∈ seen.drop n ∨ intentId ∈ seen.take n := by
  rw [or_comm, ← List.mem_append, List.take_append_drop]

theorem Kept.remember
    {intentId : Text}
    (h : Kept [intentId] w)
    (hstored : 0 < stored w (.intent intentId)) :
    Kept [] (w.remember intentId) := by
  have hsplit : ∀ other, other ∈ touch w.seen intentId ↔ _ ∨ _ := fun other =>
    mem_drop_or_take ((touch w.seen intentId).length - seenIntentIdsCap)
  rw [World.remember]
  generalize (touch w.seen intentId).length - seenIntentIdsCap = n at hsplit ⊢
  refine { h with known := ?_, seen := ?_ }
  · intro other
    have hsplit := hsplit other
    rw [mem_touch] at hsplit
    refine (h.known other).trans ?_
    simp only [List.mem_append, List.mem_singleton, List.not_mem_nil, or_false]
    tauto
  · intro other hmem
    rcases mem_touch.1 (List.mem_of_mem_drop hmem) with hold | rfl
    · exact h.seen other hold
    · exact hstored

/-- The intent of a message is known. -/
theorem any_seen_iff :
    handler.event.intentId.any w.seen.contains = true ↔
      ∃ intentId ∈ handler.event.intentId, intentId ∈ w.seen := by
  cases handler.event.intentId <;> simp

theorem kept_persist
    {event : UserEvent}
    (h : Kept handler.event.intentId.toList w)
    (hroom : held w handler.key < notified w handler.key)
    (hevent : event.intentId = handler.event.intentId)
    (storing : Storing) :
    Kept [] (w.persist handler event storing) := by
  have happend := h.append hroom event storing
  rw [World.persist]
  split
  · rename_i hstoring
    subst hstoring
    have hstored : 0 < stored (w.append (some (handler.key, event)) .stored) handler.key :=
      stored_appended event handler.key
    rw [hevent]
    cases hintent : handler.event.intentId with
    | none =>
        rw [hintent] at happend
        exact happend.answer fun _ => hstored
    | some intentId =>
        have hkey : handler.key = .intent intentId := by rw [Handler.key, hintent]
        rw [hintent] at happend
        refine (Kept.remember happend (hkey ▸ hstored)).answer fun _ => ?_
        simpa only [stored, World.remember] using hstored
  · exact happend.forget.answer fun hok => nomatch hok

theorem kept_writes
    (event : UserEvent)
    (h : Kept [] w)
    (hfresh : Fresh w handler)
    (hevent : event.intentId = handler.event.intentId)
    (notification : Notification) (writing : Writing) :
    Kept [] (w.writes handler event notification writing) := by
  have hnotified := h.notify hfresh notification
  have hroom : held (w.notify handler notification) handler.key <
      notified (w.notify handler notification) handler.key := by
    rw [notified_notify, if_pos rfl]
    exact Nat.lt_succ_of_le (h.rows handler.key)
  cases writing with
  | notificationFails => exact h.answer fun hok => nomatch hok
  | notifiedOnly => exact hnotified.forget.restart
  | storing storing => exact kept_persist hnotified hroom hevent storing
  | storedOnly => exact (hnotified.append hroom event .stored).forget.restart

theorem kept_intake
    (h : Kept [] w)
    (hfresh : Fresh w handler)
    (hint : Text) (given : Circumstances) :
    Kept [] (w.intake handler hint given) := by
  rw [World.intake]
  split
  · rename_i hseen
    obtain ⟨intentId, hintent, hmem⟩ := any_seen_iff.1 hseen
    refine h.answer fun _ => ?_
    have hkey : handler.key = .intent intentId := by
      rw [Handler.key, Option.mem_def.1 hintent]
    exact hkey ▸ h.seen intentId hmem
  · split
    · exact h.answer fun hok => nomatch hok
    · exact kept_writes { handler.event with
        attachments := handler.ids.filterMap given.readMeta } h hfresh rfl _ _

end Keeping

section Writes

variable {w : World} {handler : Handler}

theorem notified_persist
    (event : UserEvent) (storing : Storing) (key : Key) :
    notified (w.persist handler event storing) key = notified w key := by
  rw [World.persist]
  split
  · cases event.intentId with
    | none => rfl
    | some intentId =>
        simp only [notified, World.rememberIntent, World.remember, World.answer, World.append]
  · rfl

theorem notified_writes
    (event : UserEvent) (notification : Notification) (writing : Writing) (key : Key) :
    notified (w.writes handler event notification writing) key =
      notified w key + if writing ≠ .notificationFails ∧ handler.key = key then 1 else 0 := by
  have hwritten := notified_notify w handler notification key
  cases writing with
  | notificationFails =>
      have hnone : ¬(Writing.notificationFails ≠ .notificationFails ∧ handler.key = key) :=
        fun h => h.1 rfl
      rw [if_neg hnone]
      rfl
  | notifiedOnly =>
      change notified (w.notify handler notification) key = _
      simpa using hwritten
  | storing storing =>
      rw [World.writes, notified_persist]
      simpa using hwritten
  | storedOnly =>
      change notified (w.notify handler notification) key = _
      simpa using hwritten

theorem takesIn_iff {given : Circumstances} :
    TakesIn w handler given ↔
      ¬handler.event.intentId.any w.seen.contains = true ∧
        (handler.ids.find? fun id => (given.readMeta id).isNone) = none ∧
          given.writing ≠ .notificationFails := by
  rw [TakesIn, List.find?_eq_none, any_seen_iff]
  simp [Option.isSome_iff_ne_none]

instance (w : World) (handler : Handler) (given : Circumstances) :
    Decidable (TakesIn w handler given) :=
  decidable_of_iff' _ takesIn_iff

/-- An intake writes one notification when it gets past the checks, and none otherwise. -/
theorem notified_intake
    (hint : Text) (given : Circumstances) (key : Key) :
    notified (w.intake handler hint given) key =
      notified w key + if TakesIn w handler given ∧ handler.key = key then 1 else 0 := by
  by_cases htaken : TakesIn w handler given
  · obtain ⟨hseen, hfound, hwriting⟩ := takesIn_iff.1 htaken
    rw [World.intake, if_neg hseen, hfound]
    dsimp only
    rw [notified_writes]
    simp only [htaken, hwriting, ne_eq, not_false_eq_true, true_and]
  · rw [if_neg fun h => htaken h.1, World.intake]
    split
    · rfl
    · rename_i hseen
      split
      · rfl
      · rename_i hfound
        have hwriting : given.writing = .notificationFails := by
          by_contra hne
          exact htaken (takesIn_iff.2 ⟨hseen, hfound, hne⟩)
        rw [hwriting]
        rfl

/-- An intake takes no intent in a second time exactly when it is not a forgotten one. -/
theorem intake_once_iff
    (handler : Handler) (hint : Text) (given : Circumstances)
    (h : Kept [] w)
    (honce : ∀ intentId, notified w (.intent intentId) ≤ 1) :
    (∀ intentId, notified (w.intake handler hint given) (.intent intentId) ≤ 1) ↔
      (TakesIn w handler given →
        ∀ intentId ∈ handler.event.intentId, intentId ∉ w.forgotten) := by
  have hkey : ∀ intentId, handler.key = .intent intentId ↔
      intentId ∈ handler.event.intentId := by
    intro intentId
    rw [Handler.key]
    cases handler.event.intentId <;> simp [eq_comm]
  simp only [notified_intake, hkey]
  constructor
  · intro hafter htaken intentId hintent hforgotten
    have hpos := (h.known intentId).2 (Or.inr (Or.inl hforgotten))
    have hbound := hafter intentId
    rw [if_pos ⟨htaken, hintent⟩] at hbound
    omega
  · intro hremembered intentId
    split
    · rename_i hwrites
      obtain ⟨htaken, hintent⟩ := hwrites
      have hzero : notified w (.intent intentId) = 0 := by
        by_contra hne
        rcases (h.known intentId).1 (Nat.pos_of_ne_zero hne) with hseen | hforgotten | hflight
        · exact htaken.1 intentId hintent hseen
        · exact hremembered htaken intentId hintent hforgotten
        · exact absurd hflight List.not_mem_nil
      omega
    · exact honce intentId

end Writes

/-! ## Runs -/

section Runs

variable {w next : World} {label : Label}

/-- Twice is only possible for a notification of an intent. -/
theorem exactlyOnce_iff
    (h : Kept [] w) :
    ExactlyOnce w ↔ ∀ intentId, notified w (.intent intentId) ≤ 1 := by
  constructor
  · exact fun honce intentId => honce.notified _
  · intro honce
    have hkey : ∀ key, notified w key ≤ 1 := by
      intro key
      cases key with
      | intent intentId => exact honce intentId
      | request serial => exact h.requests serial
    have hrows : ∀ key, stored w key ≤ notified w key := fun key =>
      Nat.le_trans (stored_le_held key) (h.rows key)
    refine ⟨hkey, fun key => Nat.le_trans (hrows key) (hkey key), fun answer hmem hok => ?_⟩
    have hpos := h.answered answer hmem hok
    have hrow := hrows answer.1
    have hone := hkey answer.1
    omega

theorem serial_of_validate
    {serial : Nat} {now : Text} {body : Option Body} {handler : Handler}
    (h : validate serial now body = .ok handler) :
    handler.serial = serial := by
  cases body with
  | none => cases h
  | some body =>
      rw [validate] at h
      cases hbuilt : buildMessageEvent now body with
      | error error => simp [hbuilt, Except.map] at h
      | ok built =>
          simp only [hbuilt, Except.map, Except.ok.injEq] at h
          rw [← h]

theorem kept_arrived
    (h : Kept [] w) :
    Kept [] { w with arrived := w.arrived + 1 } :=
  { h with
    spent := fun serial hpos =>
      ⟨Nat.lt_succ_of_lt (h.spent serial hpos).1, (h.spent serial hpos).2⟩
    waiting := fun handler hmem => Nat.lt_succ_of_lt (h.waiting handler hmem) }

/-- A request that just arrived did nothing yet. -/
theorem fresh_arrived
    {handler : Handler}
    (h : Kept [] w)
    (hserial : handler.serial = w.arrived) :
    Fresh { w with arrived := w.arrived + 1 } handler where
  arrived := hserial ▸ Nat.lt_succ_self _
  alone other hmem := hserial ▸ Nat.ne_of_lt (h.waiting other hmem)
  unused := by
    by_contra hne
    have hpos := (h.spent handler.serial (Nat.pos_of_ne_zero hne)).1
    omega

theorem kept_resumed
    {i : Nat}
    (h : Kept [] w) :
    Kept [] { w with waiting := w.waiting.eraseIdx i } :=
  { h with
    spent := fun serial hpos =>
      ⟨(h.spent serial hpos).1, fun handler hmem =>
        (h.spent serial hpos).2 handler (List.mem_of_mem_eraseIdx hmem)⟩
    waiting := fun handler hmem => h.waiting handler (List.mem_of_mem_eraseIdx hmem)
    distinct := h.distinct.sublist ((List.eraseIdx_sublist _ _).map _) }

theorem fresh_resumed
    {i : Nat} {handler : Handler}
    (h : Kept [] w)
    (hwaits : w.waiting[i]? = some handler) :
    Fresh { w with waiting := w.waiting.eraseIdx i } handler where
  arrived := h.waiting handler (List.mem_of_getElem? hwaits)
  alone other hmem := by
    obtain ⟨j, hne, hother⟩ := List.mem_eraseIdx_iff_getElem?.1 hmem
    intro hsame
    have hserials : (w.waiting.map (·.serial))[j]? = (w.waiting.map (·.serial))[i]? := by
      rw [List.getElem?_map, List.getElem?_map, hother, hwaits, Option.map_some, Option.map_some,
        hsame]
    obtain ⟨hj, -⟩ := List.getElem?_eq_some_iff.1 hother
    exact hne ((List.getElem?_inj (by simpa using hj) h.distinct).1 hserials)
  unused := by
    by_contra hne
    exact (h.spent handler.serial (Nat.pos_of_ne_zero hne)).2 handler
      (List.mem_of_getElem? hwaits) rfl

theorem kept_step
    (h : Kept [] w)
    (hstep : step w label = some next) :
    Kept [] next := by
  cases label with
  | post now body given =>
      cases hstep
      have harrived := kept_arrived h
      rw [World.post]
      split
      · refine { harrived with answered := ?_ }
        intro answer hmem hok
        rcases List.mem_append.1 hmem with hold | hnew
        · exact h.answered answer hold hok
        · rw [List.mem_singleton.1 hnew] at hok
          cases hok
      · rename_i handler hvalid
        have hserial := serial_of_validate hvalid
        have hfresh := fresh_arrived h hserial
        split
        · refine { harrived with spent := ?_, waiting := ?_, distinct := ?_ }
          · intro serial hpos
            have hspent := h.spent serial hpos
            refine ⟨Nat.lt_succ_of_lt hspent.1, fun other hmem => ?_⟩
            rcases List.mem_append.1 hmem with hold | hnew
            · exact hspent.2 other hold
            · rw [List.mem_singleton.1 hnew, hserial]
              exact Nat.ne_of_gt hspent.1
          · intro other hmem
            rcases List.mem_append.1 hmem with hold | hnew
            · exact harrived.waiting other hold
            · rw [List.mem_singleton.1 hnew, hserial]
              exact Nat.lt_succ_self _
          · rw [List.map_append, List.map_singleton, List.nodup_append]
            refine ⟨h.distinct, List.nodup_singleton _, ?_⟩
            intro serial hmem other hother
            obtain ⟨waiting, hwaiting, rfl⟩ := List.mem_map.1 hmem
            rw [List.mem_singleton.1 hother]
            exact hfresh.alone waiting hwaiting
        · exact kept_intake harrived hfresh _ _
  | hinted i hint given =>
      obtain ⟨handler, hwaits, rfl⟩ := Option.map_eq_some_iff.1 hstep
      exact kept_intake (kept_resumed h) (fresh_resumed h hwaits) _ _
  | dropped i =>
      cases hstep
      exact kept_resumed h
  | reply storing =>
      cases hstep
      exact h.reply storing
  | restart =>
      cases hstep
      exact h.restart

/-- A step leads no message to more than one of each exactly when it takes in no message that
the service has forgotten. -/
theorem exactlyOnce_step_iff
    (h : Kept [] w)
    (honce : ExactlyOnce w)
    (hstep : step w label = some next) :
    ExactlyOnce next ↔ Remembered w label := by
  rw [exactlyOnce_iff (kept_step h hstep)]
  have hbound := (exactlyOnce_iff h).1 honce
  cases label with
  | post now body given =>
      cases hstep
      rw [World.post, Remembered]
      split
      · rename_i hinvalid
        refine iff_of_true hbound fun handler hvalid => ?_
        rw [hinvalid] at hvalid
        cases hvalid
      · rename_i handler hvalid
        have hintake := intake_once_iff handler [] given (kept_arrived h) hbound
        cases hawaits : awaits w handler body with
        | true =>
            rw [if_pos rfl]
            refine iff_of_true hbound fun other hother hnot => ?_
            rw [hvalid] at hother
            cases hother
            rw [hawaits] at hnot
            cases hnot
        | false =>
            rw [if_neg Bool.false_ne_true]
            refine hintake.trans ?_
            simp only [hvalid, Except.ok.injEq, forall_eq', hawaits, true_implies]
            exact Iff.rfl
  | hinted i hint given =>
      obtain ⟨handler, hwaits, rfl⟩ := Option.map_eq_some_iff.1 hstep
      refine (intake_once_iff handler hint given (kept_resumed h) hbound).trans ?_
      simp only [Remembered, hwaits, Option.mem_some_iff, forall_eq']
      exact Iff.rfl
  | dropped i =>
      cases hstep
      exact iff_of_true hbound trivial
  | reply storing =>
      cases hstep
      exact iff_of_true hbound trivial
  | restart =>
      cases hstep
      exact iff_of_true hbound trivial

theorem remembered_of_stuck
    (hstuck : step w label = none) :
    Remembered w label := by
  cases label with
  | post now body given => cases hstuck
  | hinted i hint given =>
      intro handler hwaits
      rw [step, Option.mem_def.1 hwaits] at hstuck
      cases hstuck
  | _ => trivial

end Runs

theorem kept_empty : Kept [] {} where
  known intentId := by simp [notified]
  rows key := Nat.le_refl 0
  seen _ hmem := absurd hmem List.not_mem_nil
  answered _ hmem := absurd hmem List.not_mem_nil
  requests serial := Nat.zero_le 1
  spent serial hpos := absurd hpos (Nat.lt_irrefl 0)
  waiting _ hmem := absurd hmem List.not_mem_nil
  distinct := List.nodup_nil

/-- On a run of the service each message leads to one notification and one row at most, and to
one of each once it is answered ok, if and only if the run takes in no message that the service
has forgotten. -/
theorem message_intake_iff (run : List Label) :
    machine.Admits (fun w label => ∀ next ∈ machine.step w label, ExactlyOnce next) {} run ↔
      machine.Admits Remembered {} run :=
  machine.admits_iff_within (I := ExactlyOnce) (J := Kept [])
    (fun _ _ _ h hstep => kept_step h hstep)
    (fun _ _ _ h honce hstep => exactlyOnce_step_iff h honce hstep)
    (fun _ _ _ _ hstuck => remembered_of_stuck hstuck)
    run kept_empty ((exactlyOnce_iff kept_empty).2 fun _ => Nat.zero_le 1)

def hello : Body where
  text := some (.string "hello".toList)
  intentId := some (.string "send-1".toList)
  spoken := some (.bool false)

/-- The row of a message cannot be written, so the client posts the message again. -/
def failedAppend : List Label :=
  [.post [] (some hello) { writing := .storing (.insertFails false) },
    .post [] (some hello) {}]

/-- The agent is notified of the one message twice. -/
theorem intake_notifies_twice :
    ∃ w, machine.Reaches Machine.always w ∧ ¬ExactlyOnce w ∧
      w.answers.map (·.2) = [.internalError, .ok 1] ∧
      w.notifications.map (·.2.message) = ["hello".toList, "hello".toList] := by
  have hstart : machine.Reaches Machine.always {} := .start rfl
  refine ⟨_, hstart.runTo failedAppend (Machine.admits_always _ _ _) (by decide +kernel), ?_,
    by decide +kernel, by decide +kernel⟩
  intro honce
  have htwice : notified (machine.runTo {} failedAppend) (.intent "send-1".toList) = 2 := by
    decide +kernel
  have hbound := honce.notified (.intent "send-1".toList)
  omega

end MessageIntake
end AppChat
end Vesta
