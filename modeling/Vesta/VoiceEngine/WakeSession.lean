import Mathlib.Data.List.Chain
import Vesta.Agent.Notification
import Vesta.Lib.Machine
import Vesta.VoiceEngine.Mic

/-!
# A voice session behind its wake gate

A session takes the items of its inbox one by one and steps the gate after each.  Beside this
loop the client's reader hears the mic and a task opens the stream; they run wherever the loop
waits: for an item, for a send to a stream that just opened, and for an action of the gate.

`World.Lossless` is what the gate is for.  At most one stream opens or is open, no stream
closes before its time, the client hears each change of the gate once, and a stream that opens
is handed the audio from its pre-roll on, without a gap.  `gate_lossless` proves it of every run.
-/

namespace Vesta
namespace VoiceEngine
namespace WakeSession

open Lib Wake

/-! ## Items, frames and the session -/

inductive SttEvent
  | transcription (text : Text)
  | committed (text : Text)
  | closed
deriving DecidableEq, Repr

inductive ClientFrame
  | startSession
  | speak
  | playback
  | endTurn
  | endSession
deriving DecidableEq, Repr

/-- The items of the inbox.  A stream has the number of the order that opened it. -/
inductive Item
  | client (frame : ClientFrame)
  | stt (event : SttEvent) (stream : Nat)
  | sttOpened (stream : Nat)
  | sttRefused (reason : Reason)
  | wake
  | judged
  | synthFailed
  | tick
  | pulse
  | clientClosed
  | taskFailed
deriving DecidableEq, Repr

inductive Outcome
  | ended (reason : EndedReason)
  | clientGone
  | engineFailed
deriving DecidableEq, Repr

inductive Frame
  | wakeListening (value : Bool)
  | error (message : Text)
deriving DecidableEq, Repr

/-- Where the loop of a session waits. -/
inductive Loop
  | starting
  | waiting
  | sending (stream : Nat)
  | acting (rest : List GateAction)
  | finished (outcome : Outcome)
  | closed
deriving DecidableEq

/-- A session, the steps of its gate, the newest first, and the frames the gate made it send.
There is a follow-up time while the wake word is on, and `opens` are the tasks that open a
stream. -/
structure World where
  gate : Gate
  followUpSecs : Option ℚ
  active : Bool
  mic : Mic
  inbox : List Item
  opens : List Nat
  loop : Loop
  steps : List GateStep
  frames : List Frame

/-- What the handling of an item can change for the gate, and the clock after it. -/
structure Turned where
  followUpSecs : Option ℚ
  active : Bool
  now : ℚ

inductive Label
  | hear (pcm : List UInt8)
  | post (item : Item)
  | answer (stream : Nat) (refusal : Option Reason)
  | start (now : ℚ)
  | take (turned : Turned)
  | sent (now : ℚ)
  | acted
  | close

/-! ## The loop -/

/-- The actions of the gate up to the next one that waits. -/
def perform (w : World) : List GateAction → World
  | [] => { w with loop := .waiting }
  | .openStream :: rest =>
      perform
        { w with
          mic := w.mic.order w.steps
          opens := w.opens ++ [w.mic.lives.length] }
        rest
  | .closeStream :: rest => { w with mic := w.mic.close w.steps true, loop := .acting rest }
  | .ended reason :: _ => { w with loop := .finished (.ended reason) }
  | .wakeListening value :: rest =>
      { w with frames := w.frames ++ [.wakeListening value], loop := .acting rest }
  | .error message :: rest =>
      { w with frames := w.frames ++ [.error message], loop := .acting rest }

def World.reading (w : World) (now : ℚ) : Reading where
  followUpSecs := w.followUpSecs
  active := w.active
  stream := w.mic.stream
  now := now

/-- Whether the gate is open after these steps. -/
def wasOpen (steps : List GateStep) : Bool := steps.head?.any GateStep.isOpen

/-- `_sync_gate`.  `wasActive` is the activity before the item. -/
def syncGate (w : World) (wasActive : Bool) (event : GateEvent) (now : ℚ) : World :=
  let stepped := gateStep w.gate event (w.reading now)
  let isOpen := stepped.1.isOpen (w.reading now)
  perform
    { w with
      gate := stepped.1
      steps := ⟨event, w.reading now, wasActive, isOpen⟩ :: w.steps
      mic := w.mic.mark (isOpen && !wasOpen w.steps) }
    stepped.2

/-- `_gate_event`, after the handling of the item. -/
def gateEvent (w : World) : Item → GateEvent
  | .wake => .hit
  | .sttOpened _ => .opened
  | .sttRefused reason => .refused reason
  | .stt (.transcription text) stream =>
      if w.mic.stt = some stream ∧ Agent.strip text ≠ [] then .speech else .check
  | _ => .check

/-- `_on_stt_opened`, up to the next send that waits. -/
def drain (w : World) (stream : Nat) (now : ℚ) : World :=
  match w.mic.opening with
  | some (byte :: queued) =>
      { w with mic := w.mic.flush stream (byte :: queued), loop := .sending stream }
  | _ => syncGate { w with mic := w.mic.handOver stream } w.active .opened now

/-- How one handled item ends the session. -/
def outcome (w : World) : Item → Option Outcome
  | .client .endSession => some (.ended .clientEnded)
  | .stt .closed stream => if w.mic.stt = some stream then some (.ended .sttFailed) else none
  | .clientClosed => some .clientGone
  | .taskFailed => some .engineFailed
  | _ => none

/-- What the handling of an item leaves: a pulse reads the behavior anew, and the turns, the
plays and the client change the activity. -/
def settle (w : World) (turned : Turned) : Item → World
  | .pulse => { w with followUpSecs := turned.followUpSecs }
  | .stt _ stream =>
      if w.mic.stt = some stream then { w with active := turned.active } else w
  | _ => { w with active := turned.active }

/-- `_handle` and the step of the gate after it.  What it awaits on the way leaves the stream
and the mic alone. -/
def handle (w : World) (item : Item) (turned : Turned) : World :=
  match outcome w item with
  | some outcome => { w with loop := .finished outcome }
  | none =>
      match item with
      | .sttOpened stream => drain w stream turned.now
      | .sttRefused reason =>
          syncGate { w with mic := w.mic.refused } w.active (.refused reason) turned.now
      | _ => syncGate (settle w turned item) w.active (gateEvent w item) turned.now

/-- The items the tasks of a session post on their own.  A stream's reader ends with it. -/
def posts (w : World) : Item → Bool
  | .stt _ stream => w.mic.stt = some stream
  | .sttOpened _ => false
  | .sttRefused _ => false
  | _ => true

/-- How `_open_stt` ends. -/
def answerItem (stream : Nat) : Option Reason → Item
  | none => .sttOpened stream
  | some reason => .sttRefused reason

def step (w : World) : Label → Option World
  | .hear pcm => if w.loop = .closed then none else some { w with mic := w.mic.hear pcm }
  | .post item =>
      if w.loop = .closed ∨ posts w item = false then none
      else some { w with inbox := w.inbox ++ [item] }
  | .answer stream refusal =>
      if w.loop = .closed ∨ stream ∉ w.opens then none
      else
        some { w with
          opens := w.opens.erase stream
          inbox := w.inbox ++ [answerItem stream refusal] }
  | .start now =>
      match w.loop with
      | .starting => some (syncGate w w.active .check now)
      | _ => none
  | .take turned =>
      match w.loop, w.inbox with
      | .waiting, item :: rest => some (handle { w with inbox := rest } item turned)
      | _, _ => none
  | .sent now =>
      match w.loop with
      | .sending stream => some (drain w stream now)
      | _ => none
  | .acted =>
      match w.loop with
      | .acting rest => some (perform w rest)
      | _ => none
  | .close =>
      match w.loop with
      | .finished _ =>
          some { w with
            mic := w.mic.close w.steps false
            opens := []
            inbox := []
            loop := .closed }
      | _ => none

attribute [grind =] step

def initial (followUpSecs : Option ℚ) : World where
  gate := .initial
  followUpSecs := followUpSecs
  active := false
  mic := .initial
  inbox := []
  opens := []
  loop := .starting
  steps := []
  frames := []

/-- A session, with the wake word on or off. -/
def machine : Machine World Label where
  start w := ∃ followUpSecs, w = initial followUpSecs
  step := step

/-! ## What the gate is for -/

def Loop.sending? : Loop → List Nat
  | .sending stream => [stream]
  | _ => []

def Item.opened? : Item → Option Nat
  | .sttOpened stream => some stream
  | _ => none

/-- The streams that open, that opened and wait to be handed the mic, and that have it. -/
def World.live (w : World) : List Nat :=
  w.opens ++ w.inbox.filterMap Item.opened? ++ w.loop.sending? ++ w.mic.stt.toList

def Frame.listening : Frame → Option Bool
  | .wakeListening value => some value
  | .error _ => none

/-- The values of the `wake_listening` frames. -/
def World.listening (w : World) : List Bool := w.frames.filterMap Frame.listening

/-- A stream that the gate closed: the conversation was not active, and every step up to then
had what it keeps the gate open for. -/
def Closing.Due (closing : Closing) : Prop :=
  closing.byGate = true →
    ∃ last earlier, closing.steps = last :: earlier ∧ last.reading.active = false ∧
      ∀ step ∈ closing.steps, step.Keeps (last.reading.now : Instant)

/-- The gate was open at the step before the last, but a refusal held the stream back. -/
def HeldBack (steps : List GateStep) : Prop :=
  ∃ last before earlier, steps = last :: before :: earlier ∧ before.isOpen = true ∧
    ∃ refused, RefusedAt (before :: earlier) refused ∧
      before.reading.now < refused + retrySecs ∧ refused + retrySecs ≤ last.reading.now

/-- The gate ordered a stream when it opened, or when the wait after a refusal was over, and
closed it in time. -/
structure Timely (life : Life) : Prop where
  ordered : life.orderedAt = life.gateOpenedAt ∨ HeldBack life.steps
  closed : ∀ closing ∈ life.closing, Closing.Due closing

/-- The gate loses no audio of a stream that opens. -/
structure World.Lossless (w : World) : Prop where
  oneStream : w.live.length ≤ 1
  timely : ∀ life ∈ w.mic.lives, Timely life
  exact : ∀ life ∈ w.mic.lives, life.Exact w.mic.heard
  alternate : (false :: w.listening).IsChain (· ≠ ·)
  told :
    w.loop = .waiting →
      ∀ last ∈ w.steps.head?, w.listening.getLast?.getD false = !last.isOpen

/-! ## The invariant -/

def Item.answers : Item → Bool
  | .sttOpened _ => true
  | .sttRefused _ => true
  | _ => false

def GateAction.listening : GateAction → Option Bool
  | .wakeListening value => some value
  | _ => none

/-- The values told, and those of the actions still to do. -/
def World.told (w : World) (rest : List GateAction) : List Bool :=
  w.listening ++ rest.filterMap GateAction.listening

/-- The mic side of a session whose loop sends to `sending` and has `rest` still to do.  Each
order has its task, then its answer in the inbox, then its sends, one after the other. -/
structure Sound (w : World) (sending : List Nat) (rest : List GateAction) : Prop where
  mic : w.mic.Kept
  timely : ∀ life ∈ w.mic.lives, Timely life
  pending :
    w.opens.length + w.inbox.countP Item.answers + sending.length ≤
      if w.mic.opening.isSome = true then 1 else 0
  numbers :
    ∀ stream, stream ∈ w.opens ∨ Item.sttOpened stream ∈ w.inbox ∨ stream ∈ sending →
      stream + 1 = w.mic.lives.length
  alternate : (false :: w.told rest).IsChain (· ≠ ·)

/-- The gate side of a session that goes on. -/
structure Gated (w : World) (rest : List GateAction) : Prop where
  follows : w.gate.Follows w.steps
  active : w.gate.active = w.active
  tells : ∀ action ∈ rest, ∃ value, action = .wakeListening value
  told : (w.told rest).getLast?.getD false = w.gate.waiting

/-- A stream that is missing while the gate is open is one the gate waits to open. -/
def Waits (w : World) : Prop :=
  ∀ last ∈ w.steps.head?, last.isOpen = true → w.mic.stream = .closed →
    (last.reading.now : Instant) < w.gate.retryAt

structure Going (w : World) (sending : List Nat) (rest : List GateAction) : Prop where
  sound : Sound w sending rest
  gated : Gated w rest
  waits : Waits w

/-- What holds of a session whose loop is there. -/
def World.At (w : World) : Loop → Prop
  | .starting => Going w [] []
  | .waiting => Going w [] []
  | .sending stream => Going w [stream] []
  | .acting rest => Going w [] rest
  | .finished _ => Sound w [] []
  | .closed => Sound w [] []

/-- What holds in every state of a run. -/
def Inv (w : World) : Prop := w.At w.loop

theorem initial_inv (followUpSecs : Option ℚ) : Inv (initial followUpSecs) where
  sound :=
    { mic := Mic.initial_kept
      timely := by simp [initial, Mic.initial]
      pending := by simp [initial]
      numbers := by simp [initial]
      alternate := by simp [World.told, World.listening, initial] }
  gated :=
    { follows := Gate.initial_follows
      active := rfl
      tells := by simp
      told := rfl }
  waits := by simp [Waits, initial]

/-! ## The mic -/

theorem forall_modify
    {P : Life → Prop} {lives : List Life}
    (h : ∀ life ∈ lives, P life)
    {f : Life → Life}
    (hf : ∀ life, P life → P (f life))
    (n : Nat) :
    ∀ life ∈ lives.modify n f, P life := by
  induction lives generalizing n with
  | nil => simp
  | cons first lives ih =>
      have hfirst := h first List.mem_cons_self
      have hlives : ∀ life ∈ lives, P life :=
        fun life hlife => h life (List.mem_cons_of_mem _ hlife)
      cases n with
      | zero =>
          rw [List.modify_zero_cons]
          exact List.forall_mem_cons.2 ⟨hf first hfirst, hlives⟩
      | succ n =>
          rw [List.modify_succ_cons]
          exact List.forall_mem_cons.2 ⟨hfirst, ih hlives n⟩

theorem timely_send
    {mic : Mic}
    (h : ∀ life ∈ mic.lives, Timely life)
    (stream : Nat)
    (pcm : List UInt8) :
    ∀ life ∈ (mic.send stream pcm).lives, Timely life := by
  refine forall_modify h ?_ stream
  rintro life hlife
  exact ⟨hlife.ordered, hlife.closed⟩

theorem timely_hear
    {mic : Mic}
    (h : ∀ life ∈ mic.lives, Timely life)
    (pcm : List UInt8) :
    ∀ life ∈ (mic.hear pcm).lives, Timely life := by
  cases hstt : mic.stt with
  | some stream =>
      have hhear : (mic.hear pcm).lives = (mic.send stream pcm).lives := by
        simp [Mic.hear, Mic.send, hstt]
      rw [hhear]
      exact timely_send h stream pcm
  | none =>
      have hhear : (mic.hear pcm).lives = mic.lives := by
        cases hopening : mic.opening <;> simp [Mic.hear, hstt, hopening]
      rwa [hhear]

theorem timely_close
    {mic : Mic}
    (h : ∀ life ∈ mic.lives, Timely life)
    {steps : List GateStep} {byGate : Bool}
    (hdue : Closing.Due ⟨mic.heard.length, steps, byGate⟩) :
    ∀ life ∈ (mic.close steps byGate).lives, Timely life := by
  unfold Mic.close
  split
  · exact h
  · refine forall_modify h ?_ _
    rintro life hlife
    refine ⟨hlife.ordered, fun closing hclosing => ?_⟩
    obtain rfl := Option.some.inj hclosing
    exact hdue

@[simp] theorem hear_stream (mic : Mic) (pcm : List UInt8) :
    (mic.hear pcm).stream = mic.stream := by
  cases hstt : mic.stt <;> cases hopening : mic.opening <;>
    simp [Mic.hear, Mic.send, Mic.stream, hstt, hopening]

@[simp] theorem hear_opening (mic : Mic) (pcm : List UInt8) :
    (mic.hear pcm).opening.isSome = mic.opening.isSome := by
  cases hstt : mic.stt <;> cases hopening : mic.opening <;>
    simp [Mic.hear, Mic.send, hstt, hopening]

@[simp] theorem hear_lives (mic : Mic) (pcm : List UInt8) :
    (mic.hear pcm).lives.length = mic.lives.length := by
  cases hstt : mic.stt <;> cases hopening : mic.opening <;>
    simp [Mic.hear, Mic.send, hstt, hopening]

theorem Sound.hear
    {w : World} {sending : List Nat} {rest : List GateAction}
    (h : Sound w sending rest)
    (pcm : List UInt8) :
    Sound { w with mic := w.mic.hear pcm } sending rest where
  mic := h.mic.hear pcm
  timely := timely_hear h.timely pcm
  pending := by simpa using h.pending
  numbers := by simpa using h.numbers
  alternate := h.alternate

/-! ## The inbox -/

/-- An item of another task leaves the mic and the gate alone. -/
theorem Sound.post
    {w : World} {sending : List Nat} {rest : List GateAction}
    (h : Sound w sending rest)
    {item : Item}
    (hposts : posts w item = true) :
    Sound { w with inbox := w.inbox ++ [item] } sending rest := by
  have hanswers : item.answers = false := by
    cases item with
    | sttOpened stream => cases hposts
    | sttRefused reason => cases hposts
    | _ => rfl
  refine ⟨h.mic, h.timely, ?_, ?_, h.alternate⟩
  · have hcount : (w.inbox ++ [item]).countP Item.answers = w.inbox.countP Item.answers := by
      simp [hanswers]
    simpa [hcount] using h.pending
  · rintro stream hstream
    refine h.numbers stream ?_
    rcases hstream with hopens | hinbox | hsending
    · exact Or.inl hopens
    · rcases List.mem_append.1 hinbox with hinbox | hitem
      · exact Or.inr (Or.inl hinbox)
      · obtain rfl := List.mem_singleton.1 hitem
        cases hanswers
    · exact Or.inr (Or.inr hsending)

/-- The answer to an order takes the place of its task. -/
theorem Sound.answer
    {w : World} {sending : List Nat} {rest : List GateAction}
    (h : Sound w sending rest)
    {stream : Nat}
    (hopens : stream ∈ w.opens)
    (refusal : Option Reason) :
    Sound
      { w with
        opens := w.opens.erase stream
        inbox := w.inbox ++ [answerItem stream refusal] }
      sending rest := by
  have hanswers : (answerItem stream refusal).answers = true := by
    cases refusal <;> rfl
  refine ⟨h.mic, h.timely, ?_, ?_, h.alternate⟩
  · have hcount : (w.inbox ++ [answerItem stream refusal]).countP Item.answers =
        w.inbox.countP Item.answers + 1 := by
      simp [hanswers]
    have hlength : (w.opens.erase stream).length + 1 = w.opens.length := by
      have hpos := List.length_pos_of_mem hopens
      rw [List.length_erase_of_mem hopens]
      omega
    have hpending := h.pending
    simp only [hcount]
    omega
  · rintro other hother
    refine h.numbers other ?_
    rcases hother with herase | hinbox | hsending
    · exact Or.inl (List.mem_of_mem_erase herase)
    · rcases List.mem_append.1 hinbox with hinbox | hitem
      · exact Or.inr (Or.inl hinbox)
      · cases refusal with
        | none =>
            obtain rfl : other = stream := by simpa [answerItem] using hitem
            exact Or.inl hopens
        | some reason => simp [answerItem] at hitem
    · exact Or.inr (Or.inr hsending)

/-! ## The actions of the gate -/

theorem Sound.congr
    {w w' : World} {sending : List Nat} {rest rest' : List GateAction}
    (h : Sound w sending rest)
    (hmic : w'.mic = w.mic)
    (hopens : w'.opens = w.opens)
    (hinbox : w'.inbox = w.inbox)
    (htold : w'.told rest' = w.told rest) :
    Sound w' sending rest' where
  mic := hmic ▸ h.mic
  timely := hmic ▸ h.timely
  pending := by
    rw [hmic, hopens, hinbox]
    exact h.pending
  numbers := by
    rw [hmic, hopens, hinbox]
    exact h.numbers
  alternate := htold ▸ h.alternate

theorem Gated.congr
    {w w' : World} {rest rest' : List GateAction}
    (h : Gated w rest)
    (hgate : w'.gate = w.gate)
    (hsteps : w'.steps = w.steps)
    (hactive : w'.active = w.active)
    (hrest : rest' ⊆ rest)
    (htold : w'.told rest' = w.told rest) :
    Gated w' rest' where
  follows := by
    rw [hgate, hsteps]
    exact h.follows
  active := by
    rw [hgate, hactive]
    exact h.active
  tells action haction := h.tells action (hrest haction)
  told := by
    rw [htold, hgate]
    exact h.told

theorem Going.loop
    {w : World} {sending : List Nat} {rest : List GateAction}
    (h : Going w sending rest)
    (loop : Loop) :
    Going { w with loop := loop } sending rest where
  sound := h.sound.congr rfl rfl rfl rfl
  gated := h.gated.congr rfl rfl rfl (List.Subset.refl _) rfl
  waits := h.waits

/-- Frames that the gate still has to send go out one by one. -/
theorem Going.perform
    {w : World} {rest : List GateAction}
    (h : Going w [] rest) :
    Inv (perform w rest) := by
  cases rest with
  | nil => exact h.loop .waiting
  | cons action rest =>
      obtain ⟨value, rfl⟩ := h.gated.tells action List.mem_cons_self
      have htold :
          World.told
              { w with frames := w.frames ++ [.wakeListening value], loop := .acting rest } rest =
            w.told (.wakeListening value :: rest) := by
        simp [World.told, World.listening, Frame.listening, GateAction.listening]
      exact
        { sound := h.sound.congr rfl rfl rfl htold
          gated := h.gated.congr rfl rfl rfl (List.subset_cons_self _ _) htold
          waits := h.waits }

theorem listeningActions_listening (gate : Gate) (isOpen : Bool) :
    (listeningActions gate isOpen).filterMap GateAction.listening =
      if gate.waiting = isOpen then [!isOpen] else [] := by
  unfold listeningActions
  split
  · rfl
  · rfl

/-- The client hears a change of the gate, and nothing when it does not change. -/
theorem told_change
    {values : List Bool} {gate : Gate}
    (halternate : (false :: values).IsChain (· ≠ ·))
    (htold : values.getLast?.getD false = gate.waiting)
    (isOpen : Bool) :
    (false :: (values ++ (listeningActions gate isOpen).filterMap GateAction.listening)).IsChain
        (· ≠ ·) ∧
      (values ++ (listeningActions gate isOpen).filterMap GateAction.listening).getLast?.getD
        false = !isOpen := by
  rw [listeningActions_listening]
  split
  · next hchange =>
      constructor
      · rw [← List.cons_append, List.isChain_append]
        refine ⟨halternate, List.isChain_singleton _, ?_⟩
        rintro last hlast next hnext
        have hnext : (!isOpen) = next := Option.some.inj hnext
        have hwaiting : last = gate.waiting := by
          rw [← htold]
          cases hvalues : values.getLast? <;> simp_all [List.getLast?_cons]
        rw [hwaiting, hchange, ← hnext]
        simp
      · simp
  · next hsame =>
      rw [List.append_nil]
      refine ⟨halternate, htold.trans ?_⟩
      cases hwaiting : gate.waiting <;> cases isOpen <;> simp_all

/-! ## The step of the gate -/

/-- A session whose item is handled and whose gate is not stepped yet. -/
structure Ready (w : World) (wasActive : Bool) (event : GateEvent) : Prop where
  sound : Sound w [] []
  follows : w.gate.Follows w.steps
  active : w.gate.active = wasActive
  told : (w.told []).getLast?.getD false = w.gate.waiting
  waits : (∀ reason, event ≠ .refused reason) → Waits w
  fits : ∀ now, Fits event (w.reading now)

/-- The session when its gate is stepped, before the actions. -/
def steppedWorld (w : World) (event : GateEvent) (now : ℚ) : World :=
  { w with
    gate := (gateStep w.gate event (w.reading now)).1
    steps := stepOf w.gate event (w.reading now) :: w.steps
    mic := w.mic.mark
      ((stepOf w.gate event (w.reading now)).isOpen && !wasOpen w.steps) }

theorem syncGate_eq
    {w : World} {wasActive : Bool}
    (h : w.gate.active = wasActive)
    (event : GateEvent)
    (now : ℚ) :
    syncGate w wasActive event now =
      perform (steppedWorld w event now) (gateStep w.gate event (w.reading now)).2 := by
  subst h
  rfl

theorem Ready.sound_stepped
    {w : World} {wasActive : Bool} {event : GateEvent}
    (h : Ready w wasActive event)
    (now : ℚ)
    {rest : List GateAction}
    (halternate : (false :: (steppedWorld w event now).told rest).IsChain (· ≠ ·)) :
    Sound (steppedWorld w event now) [] rest where
  mic := h.sound.mic.mark _
  timely := by simpa [steppedWorld] using h.sound.timely
  pending := by simpa [steppedWorld] using h.sound.pending
  numbers := by simpa [steppedWorld] using h.sound.numbers
  alternate := halternate

/-- The mic side and the gate side after a step, before the stream is opened or closed. -/
theorem Ready.stepped
    {w : World} {wasActive : Bool} {event : GateEvent}
    (h : Ready w wasActive event)
    {now : ℚ}
    (hgoes : endsSession event (w.reading now) = none) :
    Sound (steppedWorld w event now) []
        (listeningActions w.gate (stepOf w.gate event (w.reading now)).isOpen) ∧
      Gated (steppedWorld w event now)
        (listeningActions w.gate (stepOf w.gate event (w.reading now)).isOpen) := by
  have hbefore : w.told [] = w.listening := List.append_nil _
  obtain ⟨halternate, htold⟩ :=
    told_change (hbefore ▸ h.sound.alternate) (hbefore ▸ h.told)
      (stepOf w.gate event (w.reading now)).isOpen
  refine ⟨h.sound_stepped now halternate, h.follows.step hgoes, ?_, ?_, ?_⟩
  · exact congrArg (fun stepped => stepped.1.active) (gateStep_goes_on w.gate hgoes)
  · rintro action haction
    unfold listeningActions at haction
    split at haction
    · exact ⟨_, List.mem_singleton.1 haction⟩
    · cases haction
  · refine htold.trans ?_
    rw [stepOf_isOpen w.gate hgoes]
    simp [steppedWorld, gateStep_goes_on w.gate hgoes]

/-- A stream is ordered in the step that opens the gate, or when a refusal held it back. -/
theorem Ready.prompt
    {w : World} {wasActive : Bool} {event : GateEvent}
    (h : Ready w wasActive event)
    {now : ℚ}
    (hopens : Opens w.gate event (w.reading now)) :
    (steppedWorld w event now).mic.heard.length =
        (steppedWorld w event now).mic.gateOpenedAt ∨
      HeldBack (steppedWorld w event now).steps := by
  cases hsteps : w.steps with
  | nil =>
      left
      simp [steppedWorld, hopens.isOpen, hsteps, wasOpen, Mic.mark]
  | cons before earlier =>
      cases hbefore : before.isOpen with
      | false =>
          left
          simp [steppedWorld, hopens.isOpen, hsteps, wasOpen, hbefore, Mic.mark]
      | true =>
          right
          have hwaits : (before.reading.now : Instant) < w.gate.retryAt :=
            h.waits hopens.unrefused before (by simp [hsteps]) hbefore hopens.closed
          rcases h.follows.retry with hnever | ⟨refused, hrefused, hretry⟩
          · rw [hnever] at hwaits
            exact absurd hwaits not_lt_bot
          · have hretried := hopens.retried
            rw [hretry] at hwaits hretried
            refine ⟨_, before, earlier, by rw [steppedWorld, hsteps], hbefore, refused,
              hsteps ▸ hrefused, ?_, ?_⟩
            · exact WithBot.coe_lt_coe.1 hwaits
            · exact WithBot.coe_le_coe.1 hretried

/-- Nothing opens when no stream does. -/
theorem Sound.none_pending
    {w : World} {sending : List Nat} {rest : List GateAction}
    (h : Sound w sending rest)
    (hopening : w.mic.opening = none) :
    w.opens = [] ∧ w.inbox.countP Item.answers = 0 ∧ sending = [] := by
  have hpending := h.pending
  rw [hopening] at hpending
  have hzero : w.opens.length + w.inbox.countP Item.answers + sending.length ≤ 0 := hpending
  refine ⟨List.eq_nil_of_length_eq_zero ?_, ?_, List.eq_nil_of_length_eq_zero ?_⟩
  · omega
  · omega
  · omega

theorem opening_of_closed
    {mic : Mic}
    (h : mic.stream = .closed) :
    mic.stt = none ∧ mic.opening = none := by
  cases hstt : mic.stt <;> cases hopening : mic.opening <;>
    simp [Mic.stream, hstt, hopening] at h ⊢

theorem Sound.order
    {w : World} {rest : List GateAction}
    (h : Sound w [] rest)
    (hclosed : w.mic.stream = .closed)
    (hprompt : w.mic.heard.length = w.mic.gateOpenedAt ∨ HeldBack w.steps) :
    Sound
      { w with
        mic := w.mic.order w.steps
        opens := w.opens ++ [w.mic.lives.length] }
      [] rest := by
  obtain ⟨hopens, hanswers, -⟩ := h.none_pending (opening_of_closed hclosed).2
  refine ⟨h.mic.order hclosed _, ?_, ?_, ?_, h.alternate⟩
  · rintro life hlife
    rcases List.mem_append.1 hlife with hbefore | hnew
    · exact h.timely life hbefore
    · obtain rfl := List.mem_singleton.1 hnew
      exact ⟨hprompt, by simp⟩
  · simp [Mic.order, hopens, hanswers]
  · rintro stream hstream
    rcases hstream with hnew | hinbox | hsending
    · obtain rfl : stream = w.mic.lives.length := by simpa [hopens] using hnew
      simp [Mic.order]
    · exact absurd rfl (List.countP_eq_zero.1 hanswers _ hinbox)
    · cases hsending

theorem Sound.close
    {w : World} {rest : List GateAction}
    (h : Sound w [] rest)
    (byGate : Bool)
    (hdue : Closing.Due ⟨w.mic.heard.length, w.steps, byGate⟩) :
    Sound { w with mic := w.mic.close w.steps byGate } [] rest := by
  have hopening : (w.mic.close w.steps byGate).opening = w.mic.opening := by
    unfold Mic.close
    split <;> rfl
  have hlives : (w.mic.close w.steps byGate).lives.length = w.mic.lives.length := by
    unfold Mic.close
    split <;> simp
  refine ⟨h.mic.close _ _, timely_close h.timely hdue, ?_, ?_, h.alternate⟩
  · rw [hopening]
    exact h.pending
  · rw [hlives]
    exact h.numbers

/-- The step of the gate keeps what holds in every state. -/
theorem Ready.syncGate
    {w : World} {wasActive : Bool} {event : GateEvent}
    (h : Ready w wasActive event)
    (now : ℚ) :
    Inv (syncGate w wasActive event now) := by
  rw [syncGate_eq h.active]
  cases hgoes : endsSession event (w.reading now) with
  | some reason =>
      rw [gateStep_ended hgoes]
      exact (h.sound_stepped now h.sound.alternate).congr rfl rfl rfl rfl
  | none =>
      obtain ⟨hsound, hgated⟩ := h.stepped hgoes
      have hstream : (steppedWorld w event now).mic.stream = w.mic.stream := by
        simp [steppedWorld]
      rcases gateStep_actions w.gate hgoes (h.fits now) with
        ⟨hactions, hopens⟩ | ⟨hactions, hcloses⟩ | ⟨told, htold, hactions, hwaits⟩
      · rw [hactions, perform]
        have hclosed : (steppedWorld w event now).mic.stream = .closed :=
          hstream.trans hopens.closed
        exact Going.perform
          { sound := hsound.order hclosed (h.prompt hopens)
            gated := hgated.congr rfl rfl rfl (List.Subset.refl _) rfl
            waits := by
              rintro last - - hnone
              cases (opening_of_closed hnone).2 }
      · rw [hactions]
        obtain ⟨hactive, hkeeps⟩ := h.follows.due hgoes hcloses.isOpen
        exact
          { sound := (hsound.close true fun _ =>
              ⟨_, _, rfl, hactive, hkeeps⟩).congr rfl rfl rfl rfl
            gated := hgated.congr rfl rfl rfl (List.Subset.refl _) rfl
            waits := by
              rintro last hlast hopen
              obtain rfl := Option.some.inj hlast
              rw [hcloses.isOpen] at hopen
              cases hopen }
      · rw [hactions]
        have hgoing : Going (steppedWorld w event now) [] _ :=
          { sound := hsound
            gated := hgated
            waits := by
              rintro last hlast hopen hclosed
              obtain rfl := Option.some.inj hlast
              exact hwaits hopen (hstream.symm.trans hclosed) }
        rcases htold with rfl | ⟨message, rfl⟩
        · exact hgoing.perform
        · have htold (rest : List GateAction) :
              World.told
                  { steppedWorld w event now with
                    frames := (steppedWorld w event now).frames ++ [.error message]
                    loop := .acting rest }
                  rest =
                (steppedWorld w event now).told rest := by
            simp [World.told, World.listening, Frame.listening]
          exact
            { sound := hsound.congr rfl rfl rfl (htold _)
              gated := hgated.congr rfl rfl rfl (List.Subset.refl _) (htold _)
              waits := hgoing.waits }

/-! ## The items of the inbox -/

/-- No answer waits in an inbox without one. -/
theorem not_mem_of_countP
    {inbox : List Item}
    (h : inbox.countP Item.answers = 0)
    (stream : Nat) :
    .sttOpened stream ∉ inbox := by
  rintro hmem
  exact absurd rfl (List.countP_eq_zero.1 h _ hmem)

theorem Sound.pop
    {w : World} {sending : List Nat} {rest : List GateAction}
    (h : Sound w sending rest)
    {item : Item} {inbox : List Item}
    (hinbox : w.inbox = item :: inbox) :
    Sound { w with inbox := inbox } sending rest := by
  refine ⟨h.mic, h.timely, ?_, ?_, h.alternate⟩
  · have hpending := h.pending
    have hcount : inbox.countP Item.answers ≤ w.inbox.countP Item.answers := by
      rw [hinbox]
      exact (List.sublist_cons_self item inbox).countP_le
    simp only at hpending ⊢
    omega
  · rintro stream hstream
    refine h.numbers stream ?_
    rcases hstream with hopens | hmem | hsending
    · exact Or.inl hopens
    · exact Or.inr (Or.inl (hinbox ▸ List.mem_cons_of_mem _ hmem))
    · exact Or.inr (Or.inr hsending)

/-- The first answer of an inbox is the only one, of the stream that opens. -/
theorem Sound.first_answer
    {w : World} {rest : List GateAction}
    (h : Sound w [] rest)
    {item : Item} {inbox : List Item}
    (hinbox : w.inbox = item :: inbox)
    (hanswers : item.answers = true) :
    w.mic.opening.isSome = true ∧ w.opens = [] ∧ inbox.countP Item.answers = 0 := by
  have hpending := h.pending
  rw [hinbox, List.countP_cons_of_pos hanswers] at hpending
  cases hopening : w.mic.opening.isSome with
  | false =>
      rw [hopening] at hpending
      simp at hpending
  | true =>
      rw [hopening] at hpending
      have hone : w.opens.length + (inbox.countP Item.answers + 1) + 0 ≤ 1 := hpending
      refine ⟨rfl, List.eq_nil_of_length_eq_zero ?_, ?_⟩
      · omega
      · omega

/-- A stream that opened waits in the loop now. -/
theorem Sound.opened
    {w : World}
    (h : Sound w [] [])
    {stream : Nat} {inbox : List Item}
    (hinbox : w.inbox = .sttOpened stream :: inbox) :
    Sound { w with inbox := inbox } [stream] [] := by
  obtain ⟨hopening, hopens, hcount⟩ := h.first_answer hinbox rfl
  refine ⟨h.mic, h.timely, by simp [hopens, hcount, hopening], ?_, h.alternate⟩
  rintro other hother
  refine h.numbers other (Or.inr (Or.inl ?_))
  rcases hother with hmem | hmem | hmem
  · exact absurd (hopens ▸ hmem) List.not_mem_nil
  · exact absurd hmem (not_mem_of_countP hcount other)
  · obtain rfl := List.mem_singleton.1 hmem
    exact hinbox ▸ List.mem_cons_self

theorem Sound.refused
    {w : World}
    (h : Sound w [] [])
    {reason : Reason} {inbox : List Item}
    (hinbox : w.inbox = .sttRefused reason :: inbox) :
    Sound { w with inbox := inbox, mic := w.mic.refused } [] [] := by
  obtain ⟨hopening, hopens, hcount⟩ := h.first_answer hinbox rfl
  have hstream : w.mic.stream = .opening := by
    obtain ⟨queued, hqueued⟩ := Option.isSome_iff_exists.1 hopening
    simp [Mic.stream, h.mic.stt_of_opening hopening, hqueued]
  refine ⟨h.mic.refused hstream, h.timely, by simp [hopens, hcount], ?_, h.alternate⟩
  rintro stream hmem
  rcases hmem with hmem | hmem | hmem
  · exact absurd (hopens ▸ hmem) List.not_mem_nil
  · exact absurd hmem (not_mem_of_countP hcount stream)
  · exact absurd hmem List.not_mem_nil

theorem Sound.refused_closed
    {w : World}
    (h : Sound w [] [])
    {reason : Reason} {inbox : List Item}
    (hinbox : w.inbox = .sttRefused reason :: inbox) :
    w.mic.refused.stream = .closed := by
  have hstt := h.mic.stt_of_opening (h.first_answer hinbox rfl).1
  simp [Mic.refused, Mic.stream, hstt]

/-- A stream with nothing queued is handed the mic, and the gate is stepped. -/
theorem Going.handOver
    {w : World} {stream : Nat}
    (h : Going w [stream] [])
    (hopening : w.mic.opening = some []) :
    Ready { w with mic := w.mic.handOver stream } w.active .opened := by
  have hnumber := h.sound.numbers stream (Or.inr (Or.inr List.mem_cons_self))
  have hpending := h.sound.pending
  rw [hopening] at hpending
  have hone : w.opens.length + w.inbox.countP Item.answers + 1 ≤ 1 := hpending
  have hopens : w.opens = [] := List.eq_nil_of_length_eq_zero (by omega)
  have hcount : w.inbox.countP Item.answers = 0 := by omega
  exact
    { sound :=
        { mic := h.sound.mic.handOver hopening hnumber
          timely := by
            refine forall_modify h.sound.timely ?_ stream
            rintro life hlife
            exact ⟨hlife.ordered, hlife.closed⟩
          pending := by simp [hopens, hcount]
          numbers := by
            rintro other hother
            rcases hother with hmem | hmem | hmem
            · exact absurd (hopens ▸ hmem) List.not_mem_nil
            · exact absurd hmem (not_mem_of_countP hcount other)
            · exact absurd hmem List.not_mem_nil
          alternate := h.sound.alternate }
      follows := h.gated.follows
      active := h.gated.active
      told := h.gated.told
      waits := by
        rintro - last - - hclosed
        cases (opening_of_closed hclosed).1
      fits := fun now => ⟨by simp, fun _ => rfl⟩ }

theorem Going.drain
    {w : World} {stream : Nat}
    (h : Going w [stream] [])
    (now : ℚ) :
    Inv (drain w stream now) := by
  have hnumber := h.sound.numbers stream (Or.inr (Or.inr List.mem_cons_self))
  cases hopening : w.mic.opening with
  | none => cases (h.sound.none_pending hopening).2.2
  | some queued =>
      cases queued with
      | nil =>
          have hdrain : WakeSession.drain w stream now =
              WakeSession.syncGate { w with mic := w.mic.handOver stream } w.active .opened
                now := by
            simp [WakeSession.drain, hopening]
          rw [hdrain]
          exact (h.handOver hopening).syncGate now
      | cons byte queued =>
          have hdrain : WakeSession.drain w stream now =
              { w with mic := w.mic.flush stream (byte :: queued), loop := .sending stream } := by
            simp [WakeSession.drain, hopening]
          rw [hdrain]
          have hpending := h.sound.pending
          rw [hopening] at hpending
          exact
            { sound :=
                { mic := h.sound.mic.flush hopening hnumber
                  timely := timely_send h.sound.timely _ _
                  pending := hpending
                  numbers := by simpa [Mic.flush, Mic.send] using h.sound.numbers
                  alternate := h.sound.alternate }
              gated := h.gated.congr rfl rfl rfl (List.Subset.refl _) rfl
              waits := by
                rintro last - - hclosed
                cases (opening_of_closed hclosed).2 }

theorem settle_eq (w : World) (turned : Turned) (item : Item) :
    ∃ followUpSecs active,
      settle w turned item = { w with followUpSecs := followUpSecs, active := active } := by
  unfold settle
  split
  · exact ⟨_, _, rfl⟩
  · split
    · exact ⟨_, _, rfl⟩
    · exact ⟨_, _, rfl⟩
  · exact ⟨_, _, rfl⟩

/-- An item that is no answer leaves the stream as it is. -/
theorem gateEvent_fits
    {item : Item}
    (h : item.answers = false)
    (w : World)
    (reading : Reading) :
    (∀ reason, gateEvent w item ≠ .refused reason) ∧ Fits (gateEvent w item) reading := by
  have hevent : gateEvent w item = .check ∨ gateEvent w item = .hit ∨
      gateEvent w item = .speech := by
    cases item with
    | sttOpened stream => cases h
    | sttRefused reason => cases h
    | wake => exact Or.inr (Or.inl rfl)
    | stt event stream =>
        cases event with
        | transcription text =>
            by_cases hspeech : w.mic.stt = some stream ∧ Agent.strip text ≠ []
            · exact Or.inr (Or.inr (if_pos hspeech))
            · exact Or.inl (if_neg hspeech)
        | committed text => exact Or.inl rfl
        | closed => exact Or.inl rfl
    | _ => exact Or.inl rfl
  rcases hevent with hevent | hevent | hevent
  · rw [hevent]
    exact ⟨by simp, by simp, by simp⟩
  · rw [hevent]
    exact ⟨by simp, by simp, by simp⟩
  · rw [hevent]
    exact ⟨by simp, by simp, by simp⟩

theorem handle_of_not_answers
    {w : World} {item : Item}
    (houtcome : outcome w item = none)
    (h : item.answers = false)
    (turned : Turned) :
    handle w item turned =
      syncGate (settle w turned item) w.active (gateEvent w item) turned.now := by
  unfold handle
  rw [houtcome]
  cases item with
  | sttOpened stream => cases h
  | sttRefused reason => cases h
  | _ => rfl

theorem Going.handle
    {w : World} {item : Item} {inbox : List Item}
    (h : Going w [] [])
    (hinbox : w.inbox = item :: inbox)
    (turned : Turned) :
    Inv (handle { w with inbox := inbox } item turned) := by
  cases houtcome : outcome { w with inbox := inbox } item with
  | some outcome =>
      have hover : WakeSession.handle { w with inbox := inbox } item turned =
          { w with inbox := inbox, loop := .finished outcome } := by
        unfold WakeSession.handle
        rw [houtcome]
      rw [hover]
      exact (h.sound.pop hinbox).congr rfl rfl rfl rfl
  | none =>
      cases hanswers : item.answers with
      | false =>
          rw [handle_of_not_answers houtcome hanswers]
          obtain ⟨followUpSecs, active, hsettle⟩ :=
            settle_eq { w with inbox := inbox } turned item
          have hready :
              Ready (settle { w with inbox := inbox } turned item) w.active
                (gateEvent { w with inbox := inbox } item) := by
            rw [hsettle]
            exact
              { sound := (h.sound.pop hinbox).congr rfl rfl rfl rfl
                follows := h.gated.follows
                active := h.gated.active
                told := h.gated.told
                waits := fun _ => h.waits
                fits := fun now => (gateEvent_fits hanswers _ _).2 }
          exact hready.syncGate turned.now
      | true =>
          cases item with
          | sttOpened stream =>
              have hgoing : Going { w with inbox := inbox } [stream] [] :=
                { sound := h.sound.opened hinbox
                  gated := h.gated.congr rfl rfl rfl (List.Subset.refl _) rfl
                  waits := h.waits }
              exact hgoing.drain turned.now
          | sttRefused reason =>
              have hready :
                  Ready { w with inbox := inbox, mic := w.mic.refused } w.active
                    (.refused reason) :=
                { sound := h.sound.refused hinbox
                  follows := h.gated.follows
                  active := h.gated.active
                  told := h.gated.told
                  waits := fun hevent => absurd rfl (hevent reason)
                  fits := fun now => ⟨fun _ _ => h.sound.refused_closed hinbox, by simp⟩ }
              exact hready.syncGate turned.now
          | _ => cases hanswers

/-! ## Runs -/

/-- What leaves the loop where it is keeps the invariant part by part. -/
theorem Inv.keep
    {w w' : World}
    (h : Inv w)
    (hloop : w'.loop = w.loop)
    (hsound : ∀ sending rest, Sound w sending rest → Sound w' sending rest)
    (hgated : ∀ rest, Gated w rest → Gated w' rest)
    (hwaits : Waits w → Waits w') :
    Inv w' := by
  have hgoing : ∀ sending rest, Going w sending rest → Going w' sending rest :=
    fun sending rest hgoing =>
      ⟨hsound _ _ hgoing.sound, hgated _ hgoing.gated, hwaits hgoing.waits⟩
  have hat : ∀ loop, w.At loop → w'.At loop := by
    rintro loop hold
    cases loop with
    | starting => exact hgoing _ _ hold
    | waiting => exact hgoing _ _ hold
    | sending stream => exact hgoing _ _ hold
    | acting rest => exact hgoing _ _ hold
    | finished outcome => exact hsound _ _ hold
    | closed => exact hsound _ _ hold
  unfold Inv
  rw [hloop]
  exact hat _ h

theorem Inv.at_loop
    {w : World} {loop : Loop}
    (h : Inv w)
    (hloop : w.loop = loop) :
    w.At loop :=
  hloop ▸ h

theorem step_inv
    {w w' : World} {label : Label}
    (h : Inv w)
    (hstep : step w label = some w') :
    Inv w' := by
  cases label with
  | hear pcm =>
      simp only [step] at hstep
      split at hstep
      · cases hstep
      · obtain rfl := Option.some.inj hstep
        refine h.keep rfl (fun _ _ hsound => hsound.hear pcm) (fun _ hgated => ?_) fun hwaits => ?_
        · exact hgated.congr rfl rfl rfl (List.Subset.refl _) rfl
        · unfold Waits at hwaits ⊢
          rwa [hear_stream]
  | post item =>
      simp only [step] at hstep
      split at hstep
      · cases hstep
      · next hposts =>
          obtain rfl := Option.some.inj hstep
          have hitem : posts w item = true := by
            cases hfalse : posts w item with
            | false => exact absurd (Or.inr hfalse) hposts
            | true => rfl
          refine h.keep rfl (fun _ _ hsound => hsound.post hitem) (fun _ hgated => ?_) id
          exact hgated.congr rfl rfl rfl (List.Subset.refl _) rfl
  | answer stream refusal =>
      simp only [step] at hstep
      split at hstep
      · cases hstep
      · next hanswer =>
          obtain rfl := Option.some.inj hstep
          have hopens : stream ∈ w.opens := by
            by_contra hnot
            exact hanswer (Or.inr hnot)
          refine h.keep rfl (fun _ _ hsound => hsound.answer hopens refusal)
            (fun _ hgated => ?_) id
          exact hgated.congr rfl rfl rfl (List.Subset.refl _) rfl
  | start now =>
      simp only [step] at hstep
      split at hstep
      · next hloop =>
          obtain rfl := Option.some.inj hstep
          have hgoing : Going w [] [] := h.at_loop hloop
          have hready : Ready w w.active .check :=
            { sound := hgoing.sound
              follows := hgoing.gated.follows
              active := hgoing.gated.active
              told := hgoing.gated.told
              waits := fun _ => hgoing.waits
              fits := fun now => ⟨by simp, by simp⟩ }
          exact hready.syncGate now
      · cases hstep
  | take turned =>
      simp only [step] at hstep
      split at hstep
      · next item inbox hloop hinbox =>
          obtain rfl := Option.some.inj hstep
          have hgoing : Going w [] [] := h.at_loop hloop
          exact hgoing.handle hinbox turned
      · cases hstep
  | sent now =>
      simp only [step] at hstep
      split at hstep
      · next stream hloop =>
          obtain rfl := Option.some.inj hstep
          have hgoing : Going w [stream] [] := h.at_loop hloop
          exact hgoing.drain now
      · cases hstep
  | acted =>
      simp only [step] at hstep
      split at hstep
      · next rest hloop =>
          obtain rfl := Option.some.inj hstep
          have hgoing : Going w [] rest := h.at_loop hloop
          exact hgoing.perform
      · cases hstep
  | close =>
      simp only [step] at hstep
      split at hstep
      · next outcome hloop =>
          obtain rfl := Option.some.inj hstep
          have hsound : Sound w [] [] := h.at_loop hloop
          have hclosed := hsound.close false (fun hgate => by cases hgate)
          exact
            { mic := hclosed.mic
              timely := hclosed.timely
              pending := by simp
              numbers := by simp
              alternate := hclosed.alternate }
      · cases hstep

theorem reached_inv
    {w : World}
    (h : machine.Reaches Machine.always w) :
    Inv w := by
  refine h.invariant ?_ ?_
  · rintro w ⟨followUpSecs, rfl⟩
    exact initial_inv followUpSecs
  · rintro w label w' hinv - hstep
    exact step_inv (w := w) hinv hstep

/-- The mic side of every state. -/
theorem Inv.sound
    {w : World}
    (h : Inv w) :
    ∃ rest, Sound w w.loop.sending? rest := by
  cases hloop : w.loop with
  | starting => exact ⟨_, (h.at_loop hloop).sound⟩
  | waiting => exact ⟨_, (h.at_loop hloop).sound⟩
  | sending stream => exact ⟨_, (h.at_loop hloop).sound⟩
  | acting rest => exact ⟨_, (h.at_loop hloop).sound⟩
  | finished outcome => exact ⟨_, h.at_loop hloop⟩
  | closed => exact ⟨_, h.at_loop hloop⟩

theorem opened_length_le (inbox : List Item) :
    (inbox.filterMap Item.opened?).length ≤ inbox.countP Item.answers := by
  induction inbox with
  | nil => simp
  | cons item inbox ih =>
      cases item with
      | sttOpened stream =>
          simpa [List.filterMap_cons, List.countP_cons, Item.opened?, Item.answers] using ih
      | sttRefused reason =>
          simpa [List.filterMap_cons, List.countP_cons, Item.opened?, Item.answers] using
            ih.trans (Nat.le_succ _)
      | _ => simpa [List.filterMap_cons, List.countP_cons, Item.opened?, Item.answers] using ih

theorem Sound.live_length
    {w : World} {rest : List GateAction}
    (h : Sound w w.loop.sending? rest) :
    w.live.length ≤ 1 := by
  have hpending := h.pending
  have hinbox := opened_length_le w.inbox
  have hlength : w.live.length =
      w.opens.length + (w.inbox.filterMap Item.opened?).length + w.loop.sending?.length +
        w.mic.stt.toList.length := by
    simp [World.live]
    omega
  cases hopening : w.mic.opening.isSome with
  | false =>
      rw [hopening] at hpending
      have hzero : w.opens.length + w.inbox.countP Item.answers + w.loop.sending?.length ≤ 0 :=
        hpending
      have hstt : w.mic.stt.toList.length ≤ 1 := by
        cases w.mic.stt <;> simp
      omega
  | true =>
      rw [hopening] at hpending
      have hone : w.opens.length + w.inbox.countP Item.answers + w.loop.sending?.length ≤ 1 :=
        hpending
      have hstt : w.mic.stt.toList.length = 0 := by
        simp [h.mic.stt_of_opening hopening]
      omega

/-- In every state of every run, at most one stream opens or is open; the gate ordered each
stream as soon as it may and closed none before its time; each `wake_listening` frame tells a
change and the last one tells how the gate stands; and a stream that opened was handed the
audio from its first byte on, up to its close, without a gap. -/
theorem gate_lossless
    {w : World}
    (h : machine.Reaches Machine.always w) :
    w.Lossless := by
  have hinv := reached_inv h
  obtain ⟨rest, hsound⟩ := hinv.sound
  refine ⟨hsound.live_length, hsound.timely, hsound.mic.exact, ?_, ?_⟩
  · have halternate := hsound.alternate
    unfold World.told at halternate
    rw [← List.cons_append] at halternate
    exact halternate.left_of_append
  · rintro hloop last hlast
    have hgated : Gated w [] := (hinv.at_loop hloop).gated
    have htold : w.listening.getLast?.getD false = w.gate.waiting := by
      simpa [World.told] using hgated.told
    rw [htold, hgated.follows.waiting, hlast]
    rfl

/-! ## A refused stream -/

/-- The wake word opens the gate, the stream is refused, and the next one opens. -/
def refusedRun : List Label :=
  [ .start 0, .acted, .post .wake, .take ⟨some 8, false, 0⟩, .acted,
    .hear [1], .answer 0 (some .failed), .take ⟨some 8, false, 1⟩, .acted,
    .hear [2], .post .pulse, .take ⟨some 8, false, 6⟩, .answer 1 none,
    .take ⟨some 8, false, 7⟩, .sent 7, .hear [3] ]

theorem gate_lossless_refused :
    (machine.runTo (initial (some 8)) refusedRun).Lossless := by
  have hstart : machine.Reaches Machine.always (initial (some 8)) := .start ⟨_, rfl⟩
  exact gate_lossless
    (hstart.runTo refusedRun (Machine.admits_always _ _ _) (by decide +kernel))

/-- The audio of a stream that opened starts with the newest heard when the gate opened. -/
def World.GapFree (w : World) : Prop :=
  ∀ life ∈ w.mic.lives, life.opened = true →
    ∃ n ≤ preRollBytes,
      life.handed = (life.until w.mic.heard).drop (life.gateOpenedAt - n)

/-- What is heard while the gate is open and a stream is refused goes to no stream. -/
theorem refused_wait_lost :
    ∃ w, machine.Reaches Machine.always w ∧ ¬w.GapFree := by
  have hstart : machine.Reaches Machine.always (initial (some 8)) := .start ⟨_, rfl⟩
  have hlost :
      ∃ life ∈ (machine.runTo (initial (some 8)) refusedRun).mic.lives,
        life.opened = true ∧ life.gateOpenedAt = 0 ∧
          life.handed ≠ life.until (machine.runTo (initial (some 8)) refusedRun).mic.heard := by
    decide +kernel
  refine ⟨_, hstart.runTo refusedRun (Machine.admits_always _ _ _) (by decide +kernel), ?_⟩
  rintro hfree
  obtain ⟨life, hlife, hopened, hgate, hhanded⟩ := hlost
  obtain ⟨n, -, hgapless⟩ := hfree life hlife hopened
  rw [hgate, Nat.zero_sub] at hgapless
  exact hhanded hgapless

end WakeSession
end VoiceEngine
end Vesta
