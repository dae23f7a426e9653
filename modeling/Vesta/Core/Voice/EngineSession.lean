import Mathlib.Logic.Function.Basic
import Vesta.Lib.Machine

/-!
# Starts of a voice engine session

A start builds its url, then turns the microphone on and dials its socket at
once, and is active when both the microphone is up and the engine accepts.  It
may be stopped, refused or overtaken at each of these waits, and the `generation`
of its session tells it so.  Sessions share one microphone through
`serializeCapture`, which runs the microphone's starts one after the other and
knows the newest call by `attempt`.

`World` holds the sessions, every start that began and the shared capture.  A
start fails through the same `cleanup` that a stop runs, before it looks at the
generation.  `superseded_start_iff` says that superseded starts change nothing,
and that no microphone or socket stays on, exactly on the runs in which such a
failure finds nothing of a later start (`Fits`).
-/

namespace Vesta
namespace Core
namespace Voice
namespace EngineSession

open Lib

/-! ## Sessions and starts -/

inductive Phase
  | idle
  | starting
  | active
deriving DecidableEq, Repr

/-- The variables of a session.  A socket, and the promise that `accept` and `refuse` settle, is
named by the start that made it. -/
structure Session where
  phase : Phase
  generation : Nat
  socket : Option Nat
  socketOpen : Bool
  accept : Option Nat
  refuse : Option Nat
  waitingReplies : List String
deriving DecidableEq, Repr

/-- Where a start stands: at its url, at the microphone and the engine together, past them, or
past a failure of one of them. -/
inductive Stage
  | building
  | joining
  | joined
  | failing
  | over
deriving DecidableEq, Repr

inductive SocketState
  | connecting
  | opened
  | closed
deriving DecidableEq, Repr

structure Start where
  session : Nat
  myGeneration : Nat
  stage : Stage
  captured : Bool
  accepted : Bool
  socket : Option SocketState
deriving DecidableEq, Repr

/-- A start of the microphone in the order of the calls. -/
structure Run where
  start : Nat
  mine : Nat
deriving DecidableEq, Repr

/-- `starting` says that the first of the `chain` has called the microphone; `mic` are the starts
that turned it on since it was last turned off. -/
structure World where
  sessions : Nat → Session
  starts : List Start
  attempt : Nat
  chain : List Run
  starting : Bool
  mic : List Nat

inductive EngineFrame
  | state
  | ended (reason : String)
  | other
deriving DecidableEq, Repr

/-- What a start waited for, and what its socket does. -/
inductive Move
  | urlBuilt (dialed : Bool)
  | urlFailed
  | proceed
  | caught
  | opened
  | frame (frame : EngineFrame)
  | closed
deriving DecidableEq, Repr

/-- A call of a session, a move of a start, or the microphone's turn in the chain. -/
inductive Label
  | start (session : Nat)
  | stop (session : Nat)
  | speak (session : Nat) (text : String)
  | move (start : Nat) (move : Move)
  | captureRun
  | captureSettled (ok : Bool)
deriving DecidableEq, Repr

namespace Session

/-- A session that `cleanup` left, or a new one. -/
def resting (generation : Nat) : Session where
  phase := .idle
  generation := generation
  socket := none
  socketOpen := false
  accept := none
  refuse := none
  waitingReplies := []

def begin (session : Session) : Session :=
  { session with phase := .starting, generation := session.generation + 1 }

def supersede (session : Session) : Session :=
  { session with generation := session.generation + 1 }

def dialed (n : Nat) (session : Session) : Session :=
  { session with socket := some n, accept := some n, refuse := some n }

def settled (session : Session) : Session :=
  { session with accept := none, refuse := none }

def activate (session : Session) : Session :=
  { session with phase := .active, waitingReplies := [] }

def connected (session : Session) : Session :=
  { session with socketOpen := true }

/-- A reply asked for while the session starts waits for it. -/
def speak (text : String) (session : Session) : Session :=
  match session.phase with
  | .starting => { session with waitingReplies := session.waitingReplies ++ [text] }
  | _ => session

end Session

namespace Start

def begin (session myGeneration : Nat) : Start where
  session := session
  myGeneration := myGeneration
  stage := .building
  captured := false
  accepted := false
  socket := none

def finish (start : Start) : Start :=
  { start with stage := .over }

def dialed (start : Start) : Start :=
  { start with stage := .joining, socket := some .connecting }

/-- The engine accepts the session. -/
def accept (start : Start) : Start :=
  if start.stage = .joining then
    { start with accepted := true, stage := if start.captured then .joined else .joining }
  else start

/-- The microphone is up, or was overtaken. -/
def capture (start : Start) : Start :=
  if start.stage = .joining then
    { start with captured := true, stage := if start.accepted then .joined else .joining }
  else start

/-- The engine or the microphone refuses. -/
def refuse (start : Start) : Start :=
  if start.stage = .joining then { start with stage := .failing } else start

def connected (start : Start) : Start :=
  { start with socket := some .opened }

def close (start : Start) : Start :=
  { start with socket := some .closed }

/-- A socket that was dialed and not closed. -/
def live (start : Start) : Bool :=
  match start.socket with
  | some .connecting => true
  | some .opened => true
  | _ => false

/-- What may happen to a start as it stands.  A closed socket has no handlers. -/
def allows (start : Start) : Move → Bool
  | .urlBuilt _ => start.stage = .building
  | .urlFailed => start.stage = .building
  | .proceed => start.stage = .joined
  | .caught => start.stage = .failing
  | .opened => start.socket = some .connecting
  | .frame _ => start.socket = some .opened
  | .closed => start.live

end Start

namespace World

def withSession (w : World) (s : Nat) (f : Session → Session) : World :=
  { w with sessions := Function.update w.sessions s (f (w.sessions s)) }

def withStart (w : World) (n : Nat) (f : Start → Start) : World :=
  { w with starts := w.starts.modify n f }

/-- `f` for the start that a variable refers to, when it refers to one. -/
def callStart (w : World) (f : Start → Start) : Option Nat → World
  | none => w
  | some n => w.withStart n f

/-! ### The capture -/

def captureStart (w : World) (n : Nat) : World :=
  { w with attempt := w.attempt + 1, chain := w.chain ++ [⟨n, w.attempt + 1⟩] }

def captureStop (w : World) : World :=
  { w with attempt := w.attempt + 1, mic := [] }

/-- The run before this one settled.  A run that was overtaken ends without the microphone. -/
def captureRun (w : World) (run : Run) (rest : List Run) : World :=
  if run.mine = w.attempt then { w with starting := true }
  else { w with chain := rest }.withStart run.start Start.capture

/-- The microphone settled.  A run that was overtaken turns it off again. -/
def captureSettled (w : World) (run : Run) (rest : List Run) (ok : Bool) : World :=
  let held := if ok then run.start :: w.mic else w.mic
  let mic := if run.mine = w.attempt then held else []
  { w with chain := rest, starting := false, mic := mic }.withStart run.start
    (if ok then Start.capture else Start.refuse)

/-! ### The session -/

def cleanup (w : World) (s : Nat) : World :=
  (((w.callStart Start.close (w.sessions s).socket).captureStop).callStart Start.refuse
    (w.sessions s).refuse).withSession s fun session => .resting session.generation

/-- A start in flight is refused, a running session is cleaned up. -/
def endUnasked (w : World) (s : Nat) : World :=
  match (w.sessions s).refuse with
  | none => w.cleanup s
  | some n => (w.withSession s Session.settled).withStart n Start.refuse

def handleFrame (w : World) (s : Nat) : EngineFrame → World
  | .state =>
      (w.callStart Start.accept (w.sessions s).accept).withSession s Session.settled
  | .ended reason => if reason = "client_ended" then w else w.endUnasked s
  | .other => w

def start (w : World) (s : Nat) : World :=
  if (w.sessions s).phase = .idle then
    { w.withSession s Session.begin with
      starts := w.starts ++ [.begin s ((w.sessions s).generation + 1)] }
  else w

def stop (w : World) (s : Nat) : World :=
  if (w.sessions s).phase = .idle then w
  else (w.withSession s Session.supersede).cleanup s

/-- The `catch` of a start. -/
def caught (w : World) (n : Nat) (start : Start) : World :=
  (w.cleanup start.session).withStart n Start.finish

/-- The url came: an abandoned start leaves, another one takes the microphone and dials. -/
def urlBuilt (w : World) (n : Nat) (start : Start) (dialed : Bool) : World :=
  if (w.sessions start.session).generation = start.myGeneration then
    if dialed then
      ((w.captureStart n).withSession start.session (Session.dialed n)).withStart n Start.dialed
    else
      (w.captureStart n).caught n start
  else
    w.withStart n Start.finish

/-- The microphone is up and the engine accepted. -/
def proceed (w : World) (n : Nat) (start : Start) : World :=
  if (w.sessions start.session).generation = start.myGeneration ∧
      (w.sessions start.session).phase = .starting then
    (w.withSession start.session Session.activate).withStart n Start.finish
  else
    w.withStart n Start.finish

/-- The close of a socket that the session holds ends it. -/
def socketClosed (w : World) (n : Nat) (start : Start) : World :=
  if (w.sessions start.session).socket = some n then
    (w.withStart n Start.close).endUnasked start.session
  else
    w.withStart n Start.close

def perform (w : World) (n : Nat) (start : Start) : Move → World
  | .urlBuilt dialed => w.urlBuilt n start dialed
  | .urlFailed => w.caught n start
  | .proceed => w.proceed n start
  | .caught => w.caught n start
  | .opened => (w.withStart n Start.connected).withSession start.session Session.connected
  | .frame frame => w.handleFrame start.session frame
  | .closed => w.socketClosed n start

attribute [grind =] perform

end World

def step (w : World) : Label → Option World
  | .start s => some (w.start s)
  | .stop s => some (w.stop s)
  | .speak s text => some (w.withSession s (Session.speak text))
  | .move n move =>
      match w.starts[n]? with
      | some start => if start.allows move then some (w.perform n start move) else none
      | none => none
  | .captureRun =>
      match w.chain with
      | run :: rest => if w.starting then none else some (w.captureRun run rest)
      | [] => none
  | .captureSettled ok =>
      match w.chain with
      | run :: rest => if w.starting then some (w.captureSettled run rest ok) else none
      | [] => none

def initial : World where
  sessions := fun _ => .resting 0
  starts := []
  attempt := 0
  chain := []
  starting := false
  mic := []

def machine : Machine World Label where
  start w := w = initial
  step := step

/-! ## What a superseded start leaves alone -/

/-- The start that a step runs on, if it runs on one. -/
def actor (w : World) : Label → Option Nat
  | .move n _ => some n
  | .captureRun => w.chain.head?.map Run.start
  | .captureSettled _ => w.chain.head?.map Run.start
  | _ => none

/-- The session of the start was stopped or started again since. -/
def Superseded (w : World) (n : Nat) : Prop :=
  ∃ start, w.starts[n]? = some start ∧
    (w.sessions start.session).generation ≠ start.myGeneration

/-- What belongs to a start is the same before and after: its session while it is the start of
it, its socket, the microphone it turned on, and its place as the newest call of the capture. -/
structure Untouched (w t : World) (m : Nat) (start : Start) : Prop where
  session :
    (w.sessions start.session).generation = start.myGeneration →
      t.sessions start.session = w.sessions start.session
  socket : ∀ later ∈ t.starts[m]?, later.socket = start.socket
  mic : m ∈ w.mic → m ∈ t.mic
  attempt : ∀ run ∈ w.chain, run.start = m → run.mine = w.attempt → t.attempt = w.attempt

/-- A step of a superseded start changes nothing that belongs to a later start. -/
def Harmless (w : World) (label : Label) (t : World) : Prop :=
  ∀ n, actor w label = some n → Superseded w n →
    ∀ m start, n < m → w.starts[m]? = some start → Untouched w t m start

/-- The session is idle, with no start in flight. -/
def Resting (w : World) (s : Nat) : Prop :=
  (w.sessions s).phase = .idle ∧ ∀ start ∈ w.starts, start.session = s → start.stage = .over

/-- A session at rest has no open socket, and has not left the microphone on. -/
def Quiet (w : World) : Prop :=
  ∀ s, Resting w s →
    (∀ start ∈ w.starts, start.session = s → start.live = false) ∧
      ∀ n ∈ w.mic, ∀ start ∈ w.starts[n]?, start.session ≠ s

/-- Nothing of a later start is there for a failure of this one to undo. -/
def Alone (w : World) (n : Nat) (start : Start) : Prop :=
  (w.sessions start.session).phase = .idle ∧
    ∀ m, n < m → m ∉ w.mic ∧ ∀ run ∈ w.chain, run.start = m → run.mine ≠ w.attempt

/-- The moves that run the `catch` of a start. -/
def Move.fails : Move → Bool
  | .urlFailed => true
  | .caught => true
  | _ => false

/-- A superseded start fails only where nothing of a later start is there. -/
def Fits (w : World) : Label → Prop
  | .move n move =>
      ∀ start ∈ w.starts[n]?, start.allows move = true → move.fails = true →
        (w.sessions start.session).generation ≠ start.myGeneration → Alone w n start
  | _ => True

/-! ## Steps that keep every start where it is -/

/-- The start is the newest of its session, which is not idle. -/
def Serving (sessions : Nat → Session) (start : Start) : Prop :=
  (sessions start.session).generation = start.myGeneration ∧
    (sessions start.session).phase ≠ .idle

def Live (w : World) (n : Nat) : Prop :=
  ∃ start, w.starts[n]? = some start ∧ Serving w.sessions start

/-- A start that goes on neither returns to its url nor opens a socket. -/
structure Calm (before after : Start) : Prop where
  session : after.session = before.session
  myGeneration : after.myGeneration = before.myGeneration
  building : after.stage = .building → before.stage = .building
  live : after.live = true → before.live = true

/-- A session that stays idle or not, with the socket it has. -/
structure Steady (before after : Session) : Prop where
  generation : after.generation = before.generation
  idle : after.phase = .idle → after = before
  phase : before.phase = .idle → after.phase = .idle
  socket : after.socket = before.socket

/-- A step that starts nothing and cleans nothing up. -/
structure Smooth (w t : World) : Prop where
  length : t.starts.length = w.starts.length
  calm :
    ∀ (n : Nat) (after : Start), t.starts[n]? = some after →
      ∃ before, w.starts[n]? = some before ∧ Calm before after
  steady : ∀ s, Steady (w.sessions s) (t.sessions s)

section Smooth

variable {w t u : World} {n m s : Nat} {start after : Start} {session : Session}
variable {f : Start → Start}

theorem Calm.refl (start : Start) : Calm start start :=
  ⟨rfl, rfl, id, id⟩

theorem Calm.trans
    {last : Start}
    (h : Calm start after)
    (hnext : Calm after last) :
    Calm start last :=
  ⟨hnext.session.trans h.session, hnext.myGeneration.trans h.myGeneration,
    fun hb => h.building (hnext.building hb), fun hl => h.live (hnext.live hl)⟩

theorem calm_finish : Calm start start.finish where
  session := rfl
  myGeneration := rfl
  building := nofun
  live := id

theorem calm_accept : Calm start start.accept := by
  rw [Start.accept]
  split
  · exact ⟨rfl, rfl, by cases start.captured <;> simp, id⟩
  · exact Calm.refl start

theorem calm_capture : Calm start start.capture := by
  rw [Start.capture]
  split
  · exact ⟨rfl, rfl, by cases start.accepted <;> simp, id⟩
  · exact Calm.refl start

theorem calm_refuse : Calm start start.refuse := by
  rw [Start.refuse]
  split
  · exact ⟨rfl, rfl, nofun, id⟩
  · exact Calm.refl start

theorem calm_close : Calm start start.close where
  session := rfl
  myGeneration := rfl
  building := id
  live := nofun

theorem calm_connected
    (h : start.live = true) :
    Calm start start.connected where
  session := rfl
  myGeneration := rfl
  building := id
  live := fun _ => h

theorem Steady.refl (session : Session) : Steady session session :=
  ⟨rfl, fun _ => rfl, id, rfl⟩

theorem steady_of_not_idle
    {next : Session}
    (h : session.phase ≠ .idle)
    (hnext : next.phase ≠ .idle)
    (hgeneration : next.generation = session.generation)
    (hsocket : next.socket = session.socket) :
    Steady session next :=
  ⟨hgeneration, fun hidle => absurd hidle hnext, fun hidle => absurd hidle h, hsocket⟩

theorem steady_speak {text : String} : Steady session (session.speak text) := by
  rw [Session.speak]
  split
  · rename_i hphase
    exact steady_of_not_idle (by simp [hphase]) (by simp [hphase]) rfl rfl
  · exact Steady.refl session

theorem Smooth.refl (w : World) : Smooth w w :=
  ⟨rfl, fun _ after h => ⟨after, h, Calm.refl after⟩, fun _ => Steady.refl _⟩

theorem Smooth.trans
    (h : Smooth w t)
    (hnext : Smooth t u) :
    Smooth w u := by
  refine ⟨hnext.length.trans h.length, ?_, ?_⟩
  · intro n after hafter
    obtain ⟨middle, hmiddle, hcalm⟩ := hnext.calm n after hafter
    obtain ⟨before, hbefore, hcalm'⟩ := h.calm n middle hmiddle
    exact ⟨before, hbefore, hcalm'.trans hcalm⟩
  · intro s
    have hs := h.steady s
    have hs' := hnext.steady s
    refine ⟨hs'.generation.trans hs.generation, ?_, fun hidle => hs'.phase (hs.phase hidle),
      hs'.socket.trans hs.socket⟩
    intro hidle
    have heq := hs'.idle hidle
    rw [heq] at hidle ⊢
    exact hs.idle hidle

theorem lookup_withStart
    (h : (w.withStart m f).starts[n]? = some after) :
    ∃ before, w.starts[n]? = some before ∧
      (n = m ∧ after = f before ∨ n ≠ m ∧ after = before) := by
  have h : (w.starts.modify m f)[n]? = some after := h
  rw [List.getElem?_modify] at h
  obtain ⟨before, hbefore, heq⟩ := Option.map_eq_some_iff.1 h
  by_cases hmn : m = n
  · rw [if_pos hmn] at heq
    exact ⟨before, hbefore, Or.inl ⟨hmn.symm, heq.symm⟩⟩
  · rw [if_neg hmn] at heq
    exact ⟨before, hbefore, Or.inr ⟨fun hnm => hmn hnm.symm, heq.symm⟩⟩

theorem smooth_withStart
    (hf : ∀ start, w.starts[m]? = some start → Calm start (f start)) :
    Smooth w (w.withStart m f) := by
  refine ⟨List.length_modify .., ?_, fun _ => Steady.refl _⟩
  intro n after hafter
  obtain ⟨before, hbefore, ⟨rfl, rfl⟩ | ⟨-, rfl⟩⟩ := lookup_withStart hafter
  · exact ⟨before, hbefore, hf before hbefore⟩
  · exact ⟨after, hbefore, Calm.refl after⟩

theorem smooth_callStart
    {called : Option Nat}
    (hf : ∀ start, Calm start (f start)) :
    Smooth w (w.callStart f called) := by
  cases called with
  | none => exact Smooth.refl w
  | some m => exact smooth_withStart fun start _ => hf start

theorem smooth_withSession
    {g : Session → Session}
    (hg : Steady (w.sessions s) (g (w.sessions s))) :
    Smooth w (w.withSession s g) := by
  refine ⟨rfl, fun _ after h => ⟨after, h, Calm.refl after⟩, ?_⟩
  intro k
  by_cases hk : k = s
  · subst hk
    simpa [World.withSession] using hg
  · simpa [World.withSession, hk] using Steady.refl _

theorem Smooth.back
    (h : Smooth w t)
    (hn : w.starts[n]? = some start) :
    ∃ after, t.starts[n]? = some after ∧ Calm start after := by
  have hlt : n < t.starts.length := by
    rw [h.length]
    exact (List.getElem?_eq_some_iff.1 hn).1
  obtain ⟨before, hbefore, hcalm⟩ := h.calm n _ (List.getElem?_eq_getElem hlt)
  rw [hn] at hbefore
  cases hbefore
  exact ⟨_, List.getElem?_eq_getElem hlt, hcalm⟩

theorem Smooth.serving
    (h : Smooth w t)
    (hcalm : Calm start after)
    (hserving : Serving w.sessions start) :
    Serving t.sessions after := by
  have hsteady := h.steady start.session
  rw [Serving, hcalm.session, hcalm.myGeneration, hsteady.generation]
  refine ⟨hserving.1, fun hidle => hserving.2 ?_⟩
  rw [← hsteady.idle hidle]
  exact hidle

theorem Smooth.alive
    (h : Smooth w t)
    (hlive : Live w n) :
    Live t n := by
  obtain ⟨start, hn, hserving⟩ := hlive
  obtain ⟨after, hafter, hcalm⟩ := h.back hn
  exact ⟨after, hafter, h.serving hcalm hserving⟩

end Smooth

/-! ## What every run keeps -/

/-- The generations number the starts of a session, and what a session holds is of its newest
start. -/
structure Ordered (w : World) : Prop where
  generation :
    ∀ (n : Nat) (start : Start), w.starts[n]? = some start →
      start.myGeneration ≤ (w.sessions start.session).generation
  order :
    ∀ (n m : Nat) (start later : Start), n < m →
      w.starts[n]? = some start → w.starts[m]? = some later →
        start.session = later.session → start.myGeneration < later.myGeneration
  idle :
    ∀ s, (w.sessions s).phase = .idle → w.sessions s = .resting (w.sessions s).generation
  current :
    ∀ s, (w.sessions s).phase ≠ .idle →
      ∃ (n : Nat) (start : Start), w.starts[n]? = some start ∧ start.session = s ∧
        (w.sessions s).generation = start.myGeneration
  building :
    ∀ (n : Nat) (start : Start), w.starts[n]? = some start → start.stage = .building →
      (w.sessions start.session).generation = start.myGeneration →
        (w.sessions start.session).phase ≠ .idle ∧ (w.sessions start.session).socket = none
  socket :
    ∀ (n : Nat) (start : Start), w.starts[n]? = some start → start.live = true →
      Serving w.sessions start ∧ (w.sessions start.session).socket = some n

/-- The microphone, and the newest call of the capture, are of live starts. -/
structure Captured (w : World) : Prop where
  mic : ∀ n ∈ w.mic, Live w n
  past : ∀ run ∈ w.chain, run.mine ≤ w.attempt
  newest : ∀ run ∈ w.chain, run.mine = w.attempt → Live w run.start
  head : w.starting = true → w.chain ≠ []
  starting :
    w.starting = true → ∀ run rest, w.chain = run :: rest → Live w run.start ∨ w.mic = []

structure Kept (w : World) : Prop where
  ordered : Ordered w
  captured : Captured w

theorem kept_initial : Kept initial where
  ordered :=
    { generation := by simp [initial]
      order := by simp [initial]
      idle := fun _ _ => rfl
      current := fun _ hphase => absurd rfl hphase
      building := by simp [initial]
      socket := by simp [initial] }
  captured :=
    { mic := by simp [initial]
      past := by simp [initial]
      newest := by simp [initial]
      head := by simp [initial]
      starting := by simp [initial] }

section Kept

variable {w t : World} {n m s : Nat} {start later : Start}

/-- Two starts of one session and one generation are the same. -/
theorem Ordered.unique
    (h : Ordered w)
    (hn : w.starts[n]? = some start)
    (hm : w.starts[m]? = some later)
    (hsession : start.session = later.session)
    (hgeneration : start.myGeneration = later.myGeneration) :
    n = m := by
  rcases Nat.lt_trichotomy n m with hlt | heq | hgt
  · exact absurd hgeneration (Nat.ne_of_lt (h.order n m start later hlt hn hm hsession))
  · exact heq
  · exact absurd hgeneration.symm
      (Nat.ne_of_lt (h.order m n later start hgt hm hn hsession.symm))

theorem Ordered.smooth
    (h : Ordered w)
    (hsmooth : Smooth w t) :
    Ordered t where
  generation := by
    intro n after hafter
    obtain ⟨before, hbefore, hcalm⟩ := hsmooth.calm n after hafter
    rw [hcalm.session, hcalm.myGeneration, (hsmooth.steady _).generation]
    exact h.generation n before hbefore
  order := by
    intro n m after later hlt hn hm hsession
    obtain ⟨before, hbefore, hcalm⟩ := hsmooth.calm n after hn
    obtain ⟨before', hbefore', hcalm'⟩ := hsmooth.calm m later hm
    rw [hcalm.myGeneration, hcalm'.myGeneration]
    refine h.order n m before before' hlt hbefore hbefore' ?_
    rw [← hcalm.session, ← hcalm'.session, hsession]
  idle := by
    intro s hidle
    have heq := (hsmooth.steady s).idle hidle
    rw [heq] at hidle ⊢
    exact h.idle s hidle
  current := by
    intro s hphase
    have hsteady := hsmooth.steady s
    obtain ⟨n, start, hn, hsession, hgeneration⟩ :=
      h.current s fun hidle => hphase (hsteady.phase hidle)
    obtain ⟨after, hafter, hcalm⟩ := hsmooth.back hn
    refine ⟨n, after, hafter, hcalm.session.trans hsession, ?_⟩
    rw [hsteady.generation, hcalm.myGeneration, hgeneration]
  building := by
    intro n after hafter hbuilding hcurrent
    obtain ⟨before, hbefore, hcalm⟩ := hsmooth.calm n after hafter
    have hsteady := hsmooth.steady before.session
    rw [hcalm.session, hcalm.myGeneration, hsteady.generation] at hcurrent
    obtain ⟨hphase, hsocket⟩ := h.building n before hbefore (hcalm.building hbuilding) hcurrent
    rw [hcalm.session, hsteady.socket]
    refine ⟨fun hidle => hphase ?_, hsocket⟩
    rw [← hsteady.idle hidle]
    exact hidle
  socket := by
    intro n after hafter hlive
    obtain ⟨before, hbefore, hcalm⟩ := hsmooth.calm n after hafter
    obtain ⟨hserving, hsocket⟩ := h.socket n before hbefore (hcalm.live hlive)
    refine ⟨hsmooth.serving hcalm hserving, ?_⟩
    rw [hcalm.session, (hsmooth.steady _).socket]
    exact hsocket

/-- The capture, as long as the live starts stay live. -/
theorem Captured.keep
    (h : Captured w)
    (hlive : ∀ n, Live w n → Live t n)
    (hattempt : t.attempt = w.attempt)
    (hchain : t.chain = w.chain)
    (hstarting : t.starting = w.starting)
    (hmic : t.mic = w.mic) :
    Captured t where
  mic := by
    rw [hmic]
    exact fun n hn => hlive n (h.mic n hn)
  past := by
    rw [hchain, hattempt]
    exact h.past
  newest := by
    rw [hchain, hattempt]
    exact fun run hrun hmine => hlive run.start (h.newest run hrun hmine)
  head := by
    rw [hchain, hstarting]
    exact h.head
  starting := by
    rw [hchain, hstarting, hmic]
    exact fun hs run rest heq => (h.starting hs run rest heq).imp_left (hlive run.start)

theorem Kept.smooth
    (h : Kept w)
    (hsmooth : Smooth w t)
    (hattempt : t.attempt = w.attempt)
    (hchain : t.chain = w.chain)
    (hstarting : t.starting = w.starting)
    (hmic : t.mic = w.mic) :
    Kept t :=
  ⟨h.ordered.smooth hsmooth,
    h.captured.keep (fun _ => hsmooth.alive) hattempt hchain hstarting hmic⟩

end Kept

/-! ## The clean up -/

section Cleanup

variable {w t : World} {n m s g : Nat} {start after : Start}

/-- A clean up leaves the session idle, its socket closed and the microphone off. -/
structure Cleaned (w t : World) (s g : Nat) : Prop where
  length : t.starts.length = w.starts.length
  sessions : t.sessions = Function.update w.sessions s (.resting g)
  calm :
    ∀ (n : Nat) (after : Start), t.starts[n]? = some after →
      ∃ before, w.starts[n]? = some before ∧ Calm before after ∧
        ((w.sessions s).socket = some n → after.live = false)
  attempt : w.attempt < t.attempt
  mic : t.mic = []
  past : ∀ run ∈ t.chain, run.mine < t.attempt
  head : t.starting = true → t.chain ≠ []

theorem Cleaned.session_self
    (h : Cleaned w t s g) :
    t.sessions s = .resting g := by
  rw [h.sessions, Function.update_self]

theorem Cleaned.session_of_ne
    (h : Cleaned w t s g)
    {k : Nat}
    (hk : k ≠ s) :
    t.sessions k = w.sessions k := by
  rw [h.sessions, Function.update_of_ne hk]

theorem Kept.cleaned
    (h : Kept w)
    (hclean : Cleaned w t s g)
    (hg : (w.sessions s).generation ≤ g)
    (hnone :
      ∀ (n : Nat) (start : Start), t.starts[n]? = some start → start.stage = .building →
        start.session = s → start.myGeneration ≠ g) :
    Kept t where
  ordered :=
    { generation := by
        intro n after hafter
        obtain ⟨before, hbefore, hcalm, -⟩ := hclean.calm n after hafter
        have hle := h.ordered.generation n before hbefore
        rw [hcalm.session, hcalm.myGeneration]
        by_cases hs : before.session = s
        · rw [hs, hclean.session_self]
          rw [hs] at hle
          exact Nat.le_trans hle hg
        · rwa [hclean.session_of_ne hs]
      order := by
        intro n m after later hlt hn hm hsession
        obtain ⟨before, hbefore, hcalm, -⟩ := hclean.calm n after hn
        obtain ⟨before', hbefore', hcalm', -⟩ := hclean.calm m later hm
        rw [hcalm.myGeneration, hcalm'.myGeneration]
        refine h.ordered.order n m before before' hlt hbefore hbefore' ?_
        rw [← hcalm.session, ← hcalm'.session, hsession]
      idle := by
        intro k hidle
        by_cases hk : k = s
        · rw [hk, hclean.session_self]
          rfl
        · rw [hclean.session_of_ne hk] at hidle ⊢
          exact h.ordered.idle k hidle
      current := by
        intro k hphase
        by_cases hk : k = s
        · rw [hk, hclean.session_self] at hphase
          exact absurd rfl hphase
        · rw [hclean.session_of_ne hk] at hphase ⊢
          obtain ⟨n, start, hn, hsession, hgeneration⟩ := h.ordered.current k hphase
          have hlt : n < t.starts.length := by
            rw [hclean.length]
            exact (List.getElem?_eq_some_iff.1 hn).1
          have hafter := List.getElem?_eq_getElem hlt
          obtain ⟨before, hbefore, hcalm, -⟩ := hclean.calm n _ hafter
          rw [hn] at hbefore
          cases hbefore
          exact ⟨n, _, hafter, hcalm.session.trans hsession,
            hgeneration.trans hcalm.myGeneration.symm⟩
      building := by
        intro n after hafter hbuilding hcurrent
        obtain ⟨before, hbefore, hcalm, -⟩ := hclean.calm n after hafter
        by_cases hs : after.session = s
        · rw [hs, hclean.session_self] at hcurrent
          exact absurd hcurrent.symm (hnone n after hafter hbuilding hs)
        · rw [hclean.session_of_ne hs, hcalm.myGeneration, hcalm.session] at hcurrent
          rw [hclean.session_of_ne hs, hcalm.session]
          exact h.ordered.building n before hbefore (hcalm.building hbuilding) hcurrent
      socket := by
        intro n after hafter hlive
        obtain ⟨before, hbefore, hcalm, hclosed⟩ := hclean.calm n after hafter
        obtain ⟨hserving, hsocket⟩ := h.ordered.socket n before hbefore (hcalm.live hlive)
        by_cases hs : before.session = s
        · rw [hs] at hsocket
          rw [hclosed hsocket] at hlive
          exact absurd hlive Bool.false_ne_true
        · rw [Serving, hcalm.session, hcalm.myGeneration, hclean.session_of_ne hs]
          exact ⟨hserving, hsocket⟩ }
  captured :=
    { mic := by
        rw [hclean.mic]
        exact fun _ hn => absurd hn List.not_mem_nil
      past := fun run hrun => Nat.le_of_lt (hclean.past run hrun)
      newest := fun run hrun hmine => absurd hmine (Nat.ne_of_lt (hclean.past run hrun))
      head := hclean.head
      starting := fun _ _ _ _ => Or.inr hclean.mic }

/-- What `cleanup` does to the starts, and the session it does it for. -/
theorem cleaned_cleanup
    (hpast : ∀ run ∈ w.chain, run.mine ≤ w.attempt)
    (hhead : w.starting = true → w.chain ≠ []) :
    Cleaned w (w.cleanup s) s (w.sessions s).generation := by
  have hclose : Smooth w (w.callStart Start.close (w.sessions s).socket) :=
    smooth_callStart fun _ => calm_close
  have hrefuse : ∀ v : World, Smooth v (v.callStart Start.refuse (w.sessions s).refuse) :=
    fun v => smooth_callStart fun _ => calm_refuse
  have hfields : ∀ (v : World) (f : Start → Start) (called : Option Nat),
      (v.callStart f called).sessions = v.sessions ∧
        (v.callStart f called).attempt = v.attempt ∧ (v.callStart f called).chain = v.chain ∧
          (v.callStart f called).starting = v.starting ∧ (v.callStart f called).mic = v.mic := by
    intro v f called
    cases called <;> exact ⟨rfl, rfl, rfl, rfl, rfl⟩
  refine ⟨?_, ?_, ?_, ?_, ?_, ?_, ?_⟩
  · exact (hrefuse _).length.trans hclose.length
  · simp [World.cleanup, World.withSession, World.captureStop, hfields]
  · intro n after hafter
    obtain ⟨middle, hmiddle, hcalm⟩ := (hrefuse _).calm n after hafter
    obtain ⟨before, hbefore, hcalm'⟩ := hclose.calm n middle hmiddle
    refine ⟨before, hbefore, hcalm'.trans hcalm, fun hsocket => ?_⟩
    have hmiddle : (w.callStart Start.close (w.sessions s).socket).starts[n]? = some middle :=
      hmiddle
    rw [hsocket] at hmiddle
    obtain ⟨start, -, ⟨-, rfl⟩ | ⟨hne, -⟩⟩ := lookup_withStart hmiddle
    · exact Bool.eq_false_iff.2 fun hlive => absurd (hcalm.live hlive) Bool.false_ne_true
    · exact absurd rfl hne
  · simp [World.cleanup, World.withSession, World.captureStop, hfields]
  · simp [World.cleanup, World.withSession, World.captureStop, hfields]
  · intro run hrun
    have hrun : run ∈ w.chain := by
      simpa [World.cleanup, World.withSession, World.captureStop, hfields] using hrun
    simpa [World.cleanup, World.withSession, World.captureStop, hfields] using
      Nat.lt_succ_of_le (hpast run hrun)
  · simpa [World.cleanup, World.withSession, World.captureStop, hfields] using hhead

theorem Cleaned.of_withSession
    {f : Session → Session}
    (h : Cleaned (w.withSession s f) t s g)
    (hf : (f (w.sessions s)).socket = (w.sessions s).socket) :
    Cleaned w t s g where
  length := h.length
  sessions := by
    rw [h.sessions, World.withSession, Function.update_idem]
  calm := by
    intro n after hafter
    obtain ⟨before, hbefore, hcalm, hclosed⟩ := h.calm n after hafter
    refine ⟨before, hbefore, hcalm, fun hsocket => hclosed ?_⟩
    simpa [World.withSession, hf] using hsocket
  attempt := h.attempt
  mic := h.mic
  past := h.past
  head := h.head

theorem Cleaned.of_captureStart
    (h : Cleaned (w.captureStart n) t s g) :
    Cleaned w t s g :=
  ⟨h.length, h.sessions, h.calm, Nat.lt_of_succ_lt h.attempt, h.mic, h.past, h.head⟩

theorem Cleaned.finish
    (h : Cleaned w t s g) :
    Cleaned w (t.withStart n Start.finish) s g where
  length := (List.length_modify ..).trans h.length
  sessions := h.sessions
  calm := by
    intro m after hafter
    obtain ⟨middle, hmiddle, hcalm⟩ := (smooth_withStart fun _ _ => calm_finish).calm m after hafter
    obtain ⟨before, hbefore, hcalm', hclosed⟩ := h.calm m middle hmiddle
    refine ⟨before, hbefore, hcalm'.trans hcalm, fun hsocket => ?_⟩
    exact Bool.eq_false_iff.2 fun hlive => by simpa [hclosed hsocket] using hcalm.live hlive
  attempt := h.attempt
  mic := h.mic
  past := h.past
  head := h.head

theorem Captured.cleaned
    (h : Captured w) :
    Cleaned w (w.cleanup s) s (w.sessions s).generation :=
  cleaned_cleanup h.past h.head

end Cleanup

section Starts

variable {w : World} {n s : Nat} {old : Start}

theorem withSession_self
    {f : Session → Session} :
    (w.withSession s f).sessions s = f (w.sessions s) := by
  simp [World.withSession]

theorem withSession_of_ne
    {f : Session → Session} {k : Nat}
    (hk : k ≠ s) :
    (w.withSession s f).sessions k = w.sessions k := by
  simp [World.withSession, hk]

/-- A start begins, in an idle session. -/
theorem Kept.begin
    (h : Kept w)
    (hidle : (w.sessions s).phase = .idle) :
    Kept { w.withSession s Session.begin with
      starts := w.starts ++ [.begin s ((w.sessions s).generation + 1)] } := by
  have hrest : w.sessions s = .resting (w.sessions s).generation := h.ordered.idle s hidle
  have hself : (w.withSession s Session.begin).sessions s = (w.sessions s).begin :=
    withSession_self
  have hother : ∀ k, k ≠ s → (w.withSession s Session.begin).sessions k = w.sessions k :=
    fun _ => withSession_of_ne
  have hlookup : ∀ (n : Nat) (start : Start),
      (w.starts ++ [.begin s ((w.sessions s).generation + 1)])[n]? = some start →
        w.starts[n]? = some start ∨
          n = w.starts.length ∧ start = .begin s ((w.sessions s).generation + 1) := by
    intro n start hn
    rcases Nat.lt_trichotomy n w.starts.length with hlt | heq | hgt
    · rw [List.getElem?_append_left hlt] at hn
      exact Or.inl hn
    · subst heq
      exact Or.inr ⟨rfl, by simpa using hn.symm⟩
    · rw [List.getElem?_eq_none (by simp; omega)] at hn
      cases hn
  have hold : ∀ (n : Nat) (start : Start), w.starts[n]? = some start →
      (w.starts ++ [.begin s ((w.sessions s).generation + 1)])[n]? = some start := by
    intro n start hn
    rw [List.getElem?_append_left (List.getElem?_eq_some_iff.1 hn).1]
    exact hn
  -- what served before is of another session, for this one was idle
  have hserving : ∀ start : Start, Serving w.sessions start →
      Serving (w.withSession s Session.begin).sessions start := by
    rintro start ⟨hcurrent, hphase⟩
    have hne : start.session ≠ s := by
      rintro rfl
      exact hphase hidle
    rw [Serving, hother _ hne]
    exact ⟨hcurrent, hphase⟩
  have hlive : ∀ n, Live w n → Live { w.withSession s Session.begin with
      starts := w.starts ++ [.begin s ((w.sessions s).generation + 1)] } n := by
    rintro n ⟨start, hn, hserve⟩
    exact ⟨start, hold n start hn, hserving start hserve⟩
  refine ⟨⟨?_, ?_, ?_, ?_, ?_, ?_⟩, h.captured.keep hlive rfl rfl rfl rfl⟩
  · intro n start hn
    rcases hlookup n start hn with hn | ⟨-, rfl⟩
    · have hle := h.ordered.generation n start hn
      by_cases hs : start.session = s
      · rw [hs] at hle ⊢
        exact Nat.le_trans hle (by simp [hself, Session.begin])
      · show start.myGeneration ≤ ((w.withSession s Session.begin).sessions _).generation
        rw [hother _ hs]
        exact hle
    · show _ ≤ ((w.withSession s Session.begin).sessions s).generation
      rw [hself]
      exact Nat.le_refl _
  · intro n m start later hlt hn hm hsession
    rcases hlookup m later hm with hm | ⟨hlast, rfl⟩
    · rcases hlookup n start hn with hn | ⟨rfl, -⟩
      · exact h.ordered.order n m start later hlt hn hm hsession
      · exact absurd (List.getElem?_eq_some_iff.1 hm).1 (Nat.lt_asymm hlt)
    · rcases hlookup n start hn with hn | ⟨rfl, -⟩
      · have hle := h.ordered.generation n start hn
        rw [hsession] at hle
        exact Nat.lt_succ_of_le hle
      · exact absurd hlast (Nat.ne_of_gt hlt)
  · intro k hphase
    by_cases hk : k = s
    · rw [hk] at hphase
      rw [hself] at hphase
      cases hphase
    · rw [hother k hk] at hphase ⊢
      exact h.ordered.idle k hphase
  · intro k hphase
    by_cases hk : k = s
    · refine ⟨w.starts.length, .begin s ((w.sessions s).generation + 1), by simp, hk.symm, ?_⟩
      rw [hk]
      show ((w.withSession s Session.begin).sessions s).generation = _
      rw [hself]
      rfl
    · rw [hother k hk] at hphase ⊢
      obtain ⟨n, start, hn, hsession, hgeneration⟩ := h.ordered.current k hphase
      exact ⟨n, start, hold n start hn, hsession, hgeneration⟩
  · intro n start hn hbuilding hcurrent
    rcases hlookup n start hn with hn | ⟨-, rfl⟩
    · by_cases hs : start.session = s
      · have hle := h.ordered.generation n start hn
        rw [hs] at hle hcurrent
        rw [hself] at hcurrent
        exact absurd hcurrent.symm (Nat.ne_of_lt (Nat.lt_succ_of_le hle))
      · rw [hother _ hs] at hcurrent ⊢
        exact h.ordered.building n start hn hbuilding hcurrent
    · show ((w.withSession s Session.begin).sessions s).phase ≠ .idle ∧
        ((w.withSession s Session.begin).sessions s).socket = none
      rw [hself, hrest]
      exact ⟨by simp [Session.begin], rfl⟩
  · intro n start hn hlive
    rcases hlookup n start hn with hn | ⟨-, rfl⟩
    · obtain ⟨hserve, hsocket⟩ := h.ordered.socket n start hn hlive
      have hne : start.session ≠ s := by
        intro hs
        exact hserve.2 (hs ▸ hidle)
      refine ⟨hserving start hserve, ?_⟩
      rw [hother _ hne]
      exact hsocket
    · cases hlive

/-- The newest start of a session takes the microphone and dials. -/
theorem Kept.dialed
    (h : Kept w)
    (hn : w.starts[n]? = some old)
    (hbuilding : old.stage = .building)
    (hcurrent : (w.sessions old.session).generation = old.myGeneration) :
    Kept (((w.captureStart n).withSession old.session (Session.dialed n)).withStart n
      Start.dialed) := by
  obtain ⟨hphase, hnone⟩ := h.ordered.building n old hn hbuilding hcurrent
  have hself : (w.withSession old.session (Session.dialed n)).sessions old.session =
      (w.sessions old.session).dialed n := withSession_self
  have hother : ∀ k, k ≠ old.session →
      (w.withSession old.session (Session.dialed n)).sessions k = w.sessions k :=
    fun _ => withSession_of_ne
  have hgeneration : ∀ k,
      ((w.withSession old.session (Session.dialed n)).sessions k).generation =
        (w.sessions k).generation := by
    intro k
    by_cases hk : k = old.session
    · rw [hk, hself]
      rfl
    · rw [hother k hk]
  have hphases : ∀ k,
      ((w.withSession old.session (Session.dialed n)).sessions k).phase =
        (w.sessions k).phase := by
    intro k
    by_cases hk : k = old.session
    · rw [hk, hself]
      rfl
    · rw [hother k hk]
  -- a start keeps its session and its generation, and only `n` changes
  have hlookup : ∀ (m : Nat) (after : Start),
      (w.withStart n Start.dialed).starts[m]? = some after →
        ∃ before, w.starts[m]? = some before ∧ after.session = before.session ∧
          after.myGeneration = before.myGeneration ∧
            (m = n ∧ before = old ∧ after = old.dialed ∨ m ≠ n ∧ after = before) := by
    intro m after hafter
    obtain ⟨before, hbefore, ⟨rfl, rfl⟩ | ⟨hne, rfl⟩⟩ := lookup_withStart hafter
    · rw [hn] at hbefore
      cases hbefore
      exact ⟨old, hn, rfl, rfl, Or.inl ⟨rfl, rfl, rfl⟩⟩
    · exact ⟨after, hbefore, rfl, rfl, Or.inr ⟨hne, rfl⟩⟩
  have hserving : ∀ before after : Start, after.session = before.session →
      after.myGeneration = before.myGeneration → Serving w.sessions before →
        Serving (w.withSession old.session (Session.dialed n)).sessions after := by
    intro before after hsession hgen hserve
    rw [Serving, hsession, hgen, hgeneration, hphases]
    exact hserve
  have hback : ∀ (m : Nat) (before : Start), w.starts[m]? = some before →
      ∃ after : Start, (w.withStart n Start.dialed).starts[m]? = some after ∧
        after.session = before.session ∧ after.myGeneration = before.myGeneration := by
    intro m before hbefore
    by_cases hmn : n = m
    · subst hmn
      exact ⟨before.dialed, by simp [World.withStart, hbefore], rfl, rfl⟩
    · exact ⟨before, by simp [World.withStart, hmn, hbefore], rfl, rfl⟩
  have hlive : ∀ m, Live w m → Live (((w.captureStart n).withSession old.session
      (Session.dialed n)).withStart n Start.dialed) m := by
    rintro m ⟨before, hbefore, hserve⟩
    obtain ⟨after, hafter, hsession, hgen⟩ := hback m before hbefore
    exact ⟨after, hafter, hserving before after hsession hgen hserve⟩
  have hmine : Live (((w.captureStart n).withSession old.session (Session.dialed n)).withStart n
      Start.dialed) n := hlive n ⟨old, hn, hcurrent, hphase⟩
  refine ⟨⟨?_, ?_, ?_, ?_, ?_, ?_⟩, ⟨?_, ?_, ?_, ?_, ?_⟩⟩
  · intro m after hafter
    obtain ⟨before, hbefore, hsession, hgen, -⟩ := hlookup m after hafter
    show _ ≤ ((w.withSession old.session (Session.dialed n)).sessions after.session).generation
    rw [hgeneration, hsession, hgen]
    exact h.ordered.generation m before hbefore
  · intro k m start later hlt hk hm hsame
    obtain ⟨before, hbefore, hsession, hgen, -⟩ := hlookup k start hk
    obtain ⟨before', hbefore', hsession', hgen', -⟩ := hlookup m later hm
    rw [hgen, hgen']
    exact h.ordered.order k m before before' hlt hbefore hbefore'
      (hsession ▸ hsession' ▸ hsame)
  · intro k hidle
    have hk : k ≠ old.session := by
      rintro rfl
      exact hphase ((hphases _).symm.trans hidle)
    have hidle' : (w.sessions k).phase = .idle := (hphases k).symm.trans hidle
    show (w.withSession old.session (Session.dialed n)).sessions k =
      .resting ((w.withSession old.session (Session.dialed n)).sessions k).generation
    rw [hother k hk]
    exact h.ordered.idle k hidle'
  · intro k hk
    obtain ⟨m, start, hm, hsession, hgen⟩ :=
      h.ordered.current k fun hidle => hk ((hphases k).trans hidle)
    obtain ⟨after, hafter, hsession', hgen'⟩ := hback m start hm
    exact ⟨m, after, hafter, hsession'.trans hsession,
      (hgeneration k).trans (hgen.trans hgen'.symm)⟩
  · intro m after hafter hstage hgen
    obtain ⟨before, hbefore, hsession, hgen', ⟨-, -, rfl⟩ | ⟨hne, rfl⟩⟩ := hlookup m after hafter
    · cases hstage
    · have hgen : (w.sessions after.session).generation = after.myGeneration :=
        (hgeneration _).symm.trans hgen
      have hk : after.session ≠ old.session := by
        intro heq
        rw [heq, hcurrent] at hgen
        exact hne (h.ordered.unique hbefore hn heq hgen.symm)
      show ((w.withSession old.session (Session.dialed n)).sessions after.session).phase ≠ .idle ∧
        ((w.withSession old.session (Session.dialed n)).sessions after.session).socket = none
      rw [hother _ hk]
      exact h.ordered.building m after hbefore hstage hgen
  · intro m after hafter hopen
    obtain ⟨before, hbefore, hsession, hgen', ⟨rfl, rfl, rfl⟩ | ⟨hne, rfl⟩⟩ :=
      hlookup m after hafter
    · refine ⟨hserving before _ rfl rfl ⟨hcurrent, hphase⟩, ?_⟩
      show ((w.withSession before.session (Session.dialed m)).sessions before.session).socket = _
      rw [hself]
      rfl
    · obtain ⟨hserve, hsocket⟩ := h.ordered.socket m after hbefore hopen
      have hk : after.session ≠ old.session := by
        intro heq
        rw [heq, hnone] at hsocket
        cases hsocket
      refine ⟨hserving after after rfl rfl hserve, ?_⟩
      show ((w.withSession old.session (Session.dialed n)).sessions after.session).socket = _
      rw [hother _ hk]
      exact hsocket
  · exact fun m hm => hlive m (h.captured.mic m hm)
  · intro run hrun
    rcases List.mem_append.1 hrun with hrun | hrun
    · exact Nat.le_succ_of_le (h.captured.past run hrun)
    · rw [List.mem_singleton.1 hrun]
      exact Nat.le_refl _
  · intro run hrun hnewest
    rcases List.mem_append.1 hrun with hrun | hrun
    · exact absurd hnewest (Nat.ne_of_lt (Nat.lt_succ_of_le (h.captured.past run hrun)))
    · rw [List.mem_singleton.1 hrun]
      exact hmine
  · intro _
    show w.chain ++ _ ≠ []
    simp
  · intro hstarting run rest heq
    have heq : w.chain ++ [⟨n, w.attempt + 1⟩] = run :: rest := heq
    cases hchain : w.chain with
    | nil => exact absurd hchain (h.captured.head hstarting)
    | cons first others =>
        rw [hchain] at heq
        rw [← (List.cons.inj heq).1]
        exact (h.captured.starting hstarting first others hchain).imp_left (hlive first.start)

end Starts

section Steps

variable {w : World} {n m s : Nat} {mine : Start}

theorem Kept.start
    (h : Kept w)
    (s : Nat) :
    Kept (w.start s) := by
  rw [World.start]
  split
  · rename_i hidle
    exact h.begin hidle
  · exact h

theorem Kept.stop
    (h : Kept w)
    (s : Nat) :
    Kept (w.stop s) := by
  rw [World.stop]
  split
  · exact h
  · have hclean := (cleaned_cleanup (w := w.withSession s Session.supersede) (s := s)
      h.captured.past h.captured.head).of_withSession rfl
    have hgeneration : ((w.withSession s Session.supersede).sessions s).generation =
        (w.sessions s).generation + 1 := by
      simp [World.withSession, Session.supersede]
    rw [hgeneration] at hclean
    refine h.cleaned hclean (Nat.le_succ _) ?_
    intro n after hafter _ hsession
    obtain ⟨before, hbefore, hcalm, -⟩ := hclean.calm n after hafter
    have hle := h.ordered.generation n before hbefore
    rw [hcalm.myGeneration]
    rw [← hcalm.session, hsession] at hle
    exact Nat.ne_of_lt (Nat.lt_succ_of_le hle)

/-- The `catch` of the newest start of a session. -/
theorem Kept.caught
    (h : Kept w)
    (hn : w.starts[n]? = some mine)
    (hcurrent : (w.sessions mine.session).generation = mine.myGeneration)
    {t : World}
    (hclean : Cleaned w t mine.session (w.sessions mine.session).generation)
    : Kept (t.withStart n Start.finish) := by
  refine h.cleaned hclean.finish (Nat.le_refl _) ?_
  intro m after hafter hbuilding hsession hgeneration
  obtain ⟨middle, hmiddle, ⟨-, rfl⟩ | ⟨hne, rfl⟩⟩ := lookup_withStart hafter
  · cases hbuilding
  · obtain ⟨before, hbefore, hcalm, -⟩ := hclean.calm m after hmiddle
    refine hne (h.ordered.unique hbefore hn (hcalm.session.symm.trans hsession) ?_)
    rw [← hcalm.myGeneration, hgeneration, hcurrent]

/-- The clean up of an idle session only turns the microphone off. -/
theorem Kept.caught_idle
    (h : Kept w)
    (hidle : (w.sessions mine.session).phase = .idle) :
    Kept (w.caught n mine) := by
  have hclean := (h.captured.cleaned (s := mine.session)).finish (n := n)
  refine h.cleaned hclean (Nat.le_refl _) ?_
  intro m after hafter hbuilding hsession hgeneration
  obtain ⟨before, hbefore, hcalm, -⟩ := hclean.calm m after hafter
  have hsession' : before.session = mine.session := hcalm.session.symm.trans hsession
  refine (h.ordered.building m before hbefore (hcalm.building hbuilding) ?_).1 ?_
  · rw [hsession', ← hgeneration, hcalm.myGeneration]
  · rw [hsession']
    exact hidle

/-- The clean up that a live start's socket asks for. -/
theorem Kept.cleanup_live
    (h : Kept w)
    (hsocket : (w.sessions s).socket ≠ none) :
    Kept (w.cleanup s) := by
  have hclean := h.captured.cleaned (s := s)
  refine h.cleaned hclean (Nat.le_refl _) ?_
  intro m after hafter hbuilding hsession hgeneration
  obtain ⟨before, hbefore, hcalm, -⟩ := hclean.calm m after hafter
  have hsession' : before.session = s := hcalm.session.symm.trans hsession
  have hbuilding' := (h.ordered.building m before hbefore (hcalm.building hbuilding) (by
    rw [hsession', ← hgeneration, hcalm.myGeneration])).2
  rw [hsession'] at hbuilding'
  exact hsocket hbuilding'

theorem Kept.endUnasked
    (h : Kept w)
    (hphase : (w.sessions s).phase ≠ .idle)
    (hsocket : (w.sessions s).socket ≠ none) :
    Kept (w.endUnasked s) := by
  rw [World.endUnasked]
  split
  · exact h.cleanup_live hsocket
  · have hsettled : Smooth w (w.withSession s Session.settled) :=
      smooth_withSession (steady_of_not_idle hphase hphase rfl rfl)
    exact h.smooth (hsettled.trans (smooth_withStart fun _ _ => calm_refuse)) rfl rfl rfl rfl

theorem Kept.handleFrame
    (h : Kept w)
    (hphase : (w.sessions s).phase ≠ .idle)
    (hsocket : (w.sessions s).socket ≠ none)
    (frame : EngineFrame) :
    Kept (w.handleFrame s frame) := by
  cases frame with
  | state =>
      have haccept : Smooth w (w.callStart Start.accept (w.sessions s).accept) :=
        smooth_callStart fun _ => calm_accept
      have hfields : (w.callStart Start.accept (w.sessions s).accept).sessions = w.sessions ∧
          (w.callStart Start.accept (w.sessions s).accept).attempt = w.attempt ∧
          (w.callStart Start.accept (w.sessions s).accept).chain = w.chain ∧
          (w.callStart Start.accept (w.sessions s).accept).starting = w.starting ∧
          (w.callStart Start.accept (w.sessions s).accept).mic = w.mic := by
        cases (w.sessions s).accept <;> exact ⟨rfl, rfl, rfl, rfl, rfl⟩
      obtain ⟨hsessions, hattempt, hchain, hstarting, hmic⟩ := hfields
      refine h.smooth (haccept.trans (smooth_withSession ?_)) hattempt hchain hstarting hmic
      rw [hsessions]
      exact steady_of_not_idle hphase hphase rfl rfl
  | ended reason =>
      rw [World.handleFrame]
      split
      · exact h
      · exact h.endUnasked hphase hsocket
  | other => exact h

theorem Kept.socketClosed
    (h : Kept w)
    (hphase : (w.sessions mine.session).phase ≠ .idle) :
    Kept (w.socketClosed n mine) := by
  have hclose : Kept (w.withStart n Start.close) :=
    h.smooth (smooth_withStart fun _ _ => calm_close) rfl rfl rfl rfl
  rw [World.socketClosed]
  split
  · rename_i hsocket
    refine hclose.endUnasked hphase ?_
    have hsocket : ((w.withStart n Start.close).sessions mine.session).socket = some n := hsocket
    rw [hsocket]
    simp
  · exact hclose

theorem Kept.proceed
    (h : Kept w) :
    Kept (w.proceed n mine) := by
  rw [World.proceed]
  split
  · rename_i hstarting
    have hactive : Smooth w (w.withSession mine.session Session.activate) :=
      smooth_withSession (steady_of_not_idle (by simp [hstarting.2]) nofun rfl rfl)
    exact h.smooth (hactive.trans (smooth_withStart fun _ _ => calm_finish)) rfl rfl rfl rfl
  · exact h.smooth (smooth_withStart fun _ _ => calm_finish) rfl rfl rfl rfl

theorem Kept.captureRun
    {run : Run} {rest : List Run}
    (h : Kept w)
    (hchain : w.chain = run :: rest)
    (hstarting : w.starting = false) :
    Kept (w.captureRun run rest) := by
  have hhead : run ∈ w.chain := by simp [hchain]
  rw [World.captureRun]
  split
  · rename_i hmine
    refine ⟨⟨h.ordered.generation, h.ordered.order, h.ordered.idle, h.ordered.current,
      h.ordered.building, h.ordered.socket⟩, h.captured.mic, h.captured.past, h.captured.newest,
      fun _ => by simp [hchain], ?_⟩
    intro _ run' rest' heq
    have heq : w.chain = run' :: rest' := heq
    rw [hchain] at heq
    cases heq
    exact Or.inl (h.captured.newest run hhead hmine)
  · have hsub : ∀ other ∈ rest, other ∈ w.chain := by simp +contextual [hchain]
    have hrest : Kept { w with chain := rest } := by
      refine ⟨⟨h.ordered.generation, h.ordered.order, h.ordered.idle, h.ordered.current,
        h.ordered.building, h.ordered.socket⟩, h.captured.mic,
        fun other hother => h.captured.past other (hsub other hother),
        fun other hother => h.captured.newest other (hsub other hother), ?_, ?_⟩
      · intro hs
        exact absurd (hstarting.symm.trans hs) Bool.false_ne_true
      · intro hs
        exact absurd (hstarting.symm.trans hs) Bool.false_ne_true
    exact hrest.smooth (smooth_withStart fun _ _ => calm_capture) rfl rfl rfl rfl

theorem Kept.captureSettled
    {run : Run} {rest : List Run}
    (h : Kept w)
    (hchain : w.chain = run :: rest)
    (ok : Bool) :
    Kept (w.captureSettled run rest ok) := by
  have hhead : run ∈ w.chain := by simp [hchain]
  have hsub : ∀ other ∈ rest, other ∈ w.chain := by simp +contextual [hchain]
  have hrest : ∀ mic : List Nat, (∀ n ∈ mic, Live w n) →
      Kept { w with chain := rest, starting := false, mic := mic } := by
    intro mic hmic
    refine ⟨⟨h.ordered.generation, h.ordered.order, h.ordered.idle, h.ordered.current,
      h.ordered.building, h.ordered.socket⟩, hmic,
      fun other hother => h.captured.past other (hsub other hother),
      fun other hother => h.captured.newest other (hsub other hother), ?_, ?_⟩
    · exact fun hs => absurd hs Bool.false_ne_true
    · exact fun hs => absurd hs Bool.false_ne_true
  have hcalm : ∀ start : Start,
      Calm start ((if ok then Start.capture else Start.refuse) start) := by
    intro start
    cases ok
    · exact calm_refuse
    · exact calm_capture
  rw [World.captureSettled]
  refine (hrest _ ?_).smooth (smooth_withStart fun start _ => hcalm start) rfl rfl rfl rfl
  intro n hn
  split at hn
  · rename_i hmine
    split at hn
    · rcases List.mem_cons.1 hn with rfl | hn
      · exact h.captured.newest run hhead hmine
      · exact h.captured.mic n hn
    · exact h.captured.mic n hn
  · exact absurd hn List.not_mem_nil

end Steps

/-! ## Runs -/

section Runs

variable {w t : World} {n m : Nat} {start later : Start} {label : Label} {move : Move}

theorem step_move
    (h : step w (.move n move) = some t) :
    ∃ start, w.starts[n]? = some start ∧ start.allows move = true ∧
      t = w.perform n start move := by
  rw [step] at h
  split at h
  · rename_i start hn
    split at h
    · rename_i hallows
      exact ⟨start, hn, hallows, (Option.some.inj h).symm⟩
    · cases h
  · cases h

theorem step_captureRun
    (h : step w .captureRun = some t) :
    ∃ run rest, w.chain = run :: rest ∧ w.starting = false ∧ t = w.captureRun run rest := by
  rw [step] at h
  split at h
  · rename_i run rest hchain
    split at h
    · cases h
    · rename_i hstarting
      exact ⟨run, rest, hchain, Bool.eq_false_iff.2 hstarting, (Option.some.inj h).symm⟩
  · cases h

theorem step_captureSettled
    {ok : Bool}
    (h : step w (.captureSettled ok) = some t) :
    ∃ run rest, w.chain = run :: rest ∧ w.starting = true ∧
      t = w.captureSettled run rest ok := by
  rw [step] at h
  split at h
  · rename_i run rest hchain
    split at h
    · rename_i hstarting
      exact ⟨run, rest, hchain, hstarting, (Option.some.inj h).symm⟩
    · cases h
  · cases h

/-- A failure that `Fits` admits is of the newest start, or finds an idle session. -/
theorem kept_caught
    (h : Kept w)
    (hn : w.starts[n]? = some start)
    (hfits : (w.sessions start.session).generation ≠ start.myGeneration → Alone w n start) :
    Kept (w.caught n start) := by
  by_cases hcurrent : (w.sessions start.session).generation = start.myGeneration
  · exact h.caught hn hcurrent h.captured.cleaned
  · exact h.caught_idle (hfits hcurrent).1

theorem kept_perform
    (h : Kept w)
    (hn : w.starts[n]? = some start)
    (hallows : start.allows move = true)
    (hfits : Fits w (.move n move)) :
    Kept (w.perform n start move) := by
  have hlive : start.live = true →
      (w.sessions start.session).phase ≠ .idle ∧ (w.sessions start.session).socket ≠ none := by
    intro hopen
    obtain ⟨hserving, hsocket⟩ := h.ordered.socket n start hn hopen
    exact ⟨hserving.2, by simp [hsocket]⟩
  cases move with
  | urlBuilt dialed =>
      have hbuilding : start.stage = .building := of_decide_eq_true hallows
      rw [World.perform, World.urlBuilt]
      split
      · rename_i hcurrent
        split
        · exact h.dialed hn hbuilding hcurrent
        · have hclean : Cleaned (w.captureStart n) ((w.captureStart n).cleanup start.session)
              start.session (w.sessions start.session).generation := by
            refine cleaned_cleanup (w := w.captureStart n) ?_ ?_
            · intro run hrun
              rcases List.mem_append.1 hrun with hrun | hrun
              · exact Nat.le_succ_of_le (h.captured.past run hrun)
              · rw [List.mem_singleton.1 hrun]
                exact Nat.le_refl _
            · intro _
              simp [World.captureStart]
          exact h.caught hn hcurrent hclean.of_captureStart
      · exact h.smooth (smooth_withStart fun _ _ => calm_finish) rfl rfl rfl rfl
  | urlFailed => exact kept_caught h hn fun hgen => hfits start hn hallows rfl hgen
  | proceed => exact h.proceed
  | caught => exact kept_caught h hn fun hgen => hfits start hn hallows rfl hgen
  | opened =>
      have hopen : start.live = true := by
        have hsocket : start.socket = some .connecting := of_decide_eq_true hallows
        simp [Start.live, hsocket]
      have hconnected : Smooth w (w.withStart n Start.connected) := by
        refine smooth_withStart fun other hother => calm_connected ?_
        rw [hn] at hother
        cases hother
        exact hopen
      have hsteady : Steady (w.sessions start.session) (w.sessions start.session).connected :=
        steady_of_not_idle (hlive hopen).1 (hlive hopen).1 rfl rfl
      exact h.smooth (hconnected.trans (smooth_withSession hsteady)) rfl rfl rfl rfl
  | frame frame =>
      have hopen : start.live = true := by
        have hsocket : start.socket = some .opened := of_decide_eq_true hallows
        simp [Start.live, hsocket]
      exact h.handleFrame (hlive hopen).1 (hlive hopen).2 frame
  | closed => exact h.socketClosed (hlive hallows).1

theorem kept_step
    (h : Kept w)
    (hfits : Fits w label)
    (hstep : step w label = some t) :
    Kept t := by
  cases label with
  | start s =>
      cases hstep
      exact h.start s
  | stop s =>
      cases hstep
      exact h.stop s
  | speak s text =>
      cases hstep
      exact h.smooth (smooth_withSession steady_speak) rfl rfl rfl rfl
  | move n move =>
      obtain ⟨start, hn, hallows, rfl⟩ := step_move hstep
      exact kept_perform h hn hallows hfits
  | captureRun =>
      obtain ⟨run, rest, hchain, hstarting, rfl⟩ := step_captureRun hstep
      exact h.captureRun hchain hstarting
  | captureSettled ok =>
      obtain ⟨run, rest, hchain, -, rfl⟩ := step_captureSettled hstep
      exact h.captureSettled hchain ok

theorem Kept.quiet
    (h : Kept w) :
    Quiet w := by
  rintro s ⟨hidle, -⟩
  constructor
  · intro start hstart hsession
    refine Bool.eq_false_iff.2 fun hopen => ?_
    obtain ⟨n, hn⟩ := List.mem_iff_getElem?.1 hstart
    exact (h.ordered.socket n start hn hopen).1.2 (hsession ▸ hidle)
  · intro n hn start hstart hsession
    obtain ⟨holder, hholder, hserving⟩ := h.captured.mic n hn
    rw [hholder] at hstart
    cases hstart
    exact hserving.2 (hsession ▸ hidle)

theorem not_live_of_superseded
    (h : Superseded w n) :
    ¬ Live w n := by
  rintro ⟨start, hn, hserving⟩
  obtain ⟨old, hold, hgen⟩ := h
  rw [hn] at hold
  cases hold
  exact hgen hserving.1

/-- A step that only moves one start on touches no other. -/
theorem untouched_withStart
    {f : Start → Start}
    (hne : m ≠ n)
    (hm : w.starts[m]? = some later)
    {v : World}
    (hstarts : v.starts = w.starts)
    (hsessions : v.sessions later.session = w.sessions later.session)
    (hmic : m ∈ w.mic → m ∈ v.mic)
    (hattempt : ∀ run ∈ w.chain, run.start = m → run.mine = w.attempt → v.attempt = w.attempt) :
    Untouched w (v.withStart n f) m later where
  session := fun _ => hsessions
  socket := by
    intro after hafter
    obtain ⟨before, hbefore, ⟨rfl, -⟩ | ⟨-, rfl⟩⟩ := lookup_withStart hafter
    · exact absurd rfl hne
    · rw [hstarts, hm] at hbefore
      cases hbefore
      rfl
  mic := hmic
  attempt := hattempt

/-- The clean up of an idle session turns the microphone off, and no more. -/
theorem cleanup_idle
    {s : Nat}
    (h : Kept w)
    (hidle : (w.sessions s).phase = .idle) :
    w.cleanup s = w.captureStop := by
  have hrest := h.ordered.idle s hidle
  have hsocket : (w.sessions s).socket = none := by rw [hrest]; rfl
  have hrefuse : (w.sessions s).refuse = none := by rw [hrest]; rfl
  have hsame : Function.update w.sessions s (.resting (w.sessions s).generation) = w.sessions := by
    rw [← hrest, Function.update_eq_self]
  simp [World.cleanup, World.callStart, World.withSession, World.captureStop, hsocket, hrefuse,
    hsame]

theorem untouched_caught
    (h : Kept w)
    (halone : Alone w n start)
    (hlt : n < m)
    (hm : w.starts[m]? = some later) :
    Untouched w (w.caught n start) m later := by
  rw [World.caught, cleanup_idle h halone.1]
  refine untouched_withStart (Nat.ne_of_gt hlt) hm rfl rfl ?_ ?_
  · exact fun hmic => absurd hmic (halone.2 m hlt).1
  · exact fun run hrun hstart hmine => absurd hmine ((halone.2 m hlt).2 run hrun hstart)

theorem harmless_perform
    (h : Kept w)
    (hn : w.starts[n]? = some start)
    (hallows : start.allows move = true)
    (hfits : Fits w (.move n move))
    (hgen : (w.sessions start.session).generation ≠ start.myGeneration)
    (hlt : n < m)
    (hm : w.starts[m]? = some later) :
    Untouched w (w.perform n start move) m later := by
  have hne : m ≠ n := Nat.ne_of_gt hlt
  have hfinish : Untouched w (w.withStart n Start.finish) m later :=
    untouched_withStart hne hm rfl rfl id fun _ _ _ _ => rfl
  have hclosed : start.live ≠ true := fun hopen =>
    hgen (h.ordered.socket n start hn hopen).1.1
  cases move with
  | urlBuilt dialed =>
      rw [World.perform, World.urlBuilt, if_neg hgen]
      exact hfinish
  | urlFailed => exact untouched_caught h (hfits start hn hallows rfl hgen) hlt hm
  | proceed =>
      rw [World.perform, World.proceed, if_neg fun hcurrent => hgen hcurrent.1]
      exact hfinish
  | caught => exact untouched_caught h (hfits start hn hallows rfl hgen) hlt hm
  | opened =>
      have hsocket : start.socket = some .connecting := of_decide_eq_true hallows
      exact absurd (by simp [Start.live, hsocket]) hclosed
  | frame frame =>
      have hsocket : start.socket = some .opened := of_decide_eq_true hallows
      exact absurd (by simp [Start.live, hsocket]) hclosed
  | closed => exact absurd hallows hclosed

theorem harmless_step
    (h : Kept w)
    (hfits : Fits w label)
    (hstep : step w label = some t) :
    Harmless w label t := by
  intro n hactor hsuperseded m later hlt hm
  have hne : m ≠ n := Nat.ne_of_gt hlt
  cases label with
  | start s => cases hactor
  | stop s => cases hactor
  | speak s text => cases hactor
  | move k move =>
      cases hactor
      obtain ⟨start, hn, hallows, rfl⟩ := step_move hstep
      obtain ⟨old, hold, hgen⟩ := hsuperseded
      rw [hn] at hold
      cases hold
      exact harmless_perform h hn hallows hfits hgen hlt hm
  | captureRun =>
      obtain ⟨run, rest, hchain, hstarting, rfl⟩ := step_captureRun hstep
      have hrun : run.start = n := by simpa [actor, hchain] using hactor
      have hmine : run.mine ≠ w.attempt := by
        intro hmine
        refine not_live_of_superseded hsuperseded ?_
        rw [← hrun]
        exact h.captured.newest run (by simp [hchain]) hmine
      rw [World.captureRun, if_neg hmine, hrun]
      exact untouched_withStart hne hm rfl rfl id fun _ _ _ _ => rfl
  | captureSettled ok =>
      obtain ⟨run, rest, hchain, hstarting, rfl⟩ := step_captureSettled hstep
      have hrun : run.start = n := by simpa [actor, hchain] using hactor
      have hmic : w.mic = [] := by
        refine (h.captured.starting hstarting run rest hchain).resolve_left ?_
        rw [hrun]
        exact not_live_of_superseded hsuperseded
      rw [World.captureSettled, hrun]
      refine untouched_withStart hne hm rfl rfl ?_ fun _ _ _ _ => rfl
      rw [hmic]
      exact fun hmem => absurd hmem List.not_mem_nil

/-- A failure that is harmless finds nothing of a later start. -/
theorem alone_of_harmless
    (h : Kept w)
    (hn : w.starts[n]? = some start)
    (hgen : (w.sessions start.session).generation ≠ start.myGeneration)
    (hharmless :
      ∀ m later, n < m → w.starts[m]? = some later → Untouched w (w.caught n start) m later) :
    Alone w n start := by
  have hfields : ((w.caught n start).sessions start.session).phase = .idle ∧
      (w.caught n start).mic = [] ∧ (w.caught n start).attempt ≠ w.attempt := by
    have hclean := (h.captured.cleaned (s := start.session)).finish (n := n)
    refine ⟨?_, hclean.mic, Nat.ne_of_gt hclean.attempt⟩
    have hself : (w.caught n start).sessions start.session = _ := hclean.session_self
    rw [hself]
    rfl
  obtain ⟨hphase, hmic, hattempt⟩ := hfields
  constructor
  · refine Classical.byContradiction fun hrunning => ?_
    obtain ⟨m, newest, hm, hsession, hcurrent⟩ := h.ordered.current start.session hrunning
    have hle := h.ordered.generation n start hn
    have hlt : n < m := by
      rcases Nat.lt_trichotomy n m with hlt | rfl | hgt
      · exact hlt
      · rw [hn] at hm
        cases hm
        exact absurd hcurrent hgen
      · have := h.ordered.order m n newest start hgt hm hn hsession
        omega
    have hsame := (hharmless m newest hlt hm).session (by rw [hsession]; exact hcurrent)
    rw [hsession] at hsame
    rw [hsame] at hphase
    exact hrunning hphase
  · intro m hlt
    constructor
    · intro hmem
      obtain ⟨holder, hm, -⟩ := h.captured.mic m hmem
      have := (hharmless m holder hlt hm).mic hmem
      rw [hmic] at this
      exact absurd this List.not_mem_nil
    · intro run hrun hstart hmine
      obtain ⟨holder, hm, -⟩ := h.captured.newest run hrun hmine
      rw [hstart] at hm
      exact hattempt ((hharmless m holder hlt hm).attempt run hrun hstart hmine)

theorem fits_of_harmless
    (h : Kept w)
    (hharmless : ∀ t ∈ step w label, Harmless w label t) :
    Fits w label := by
  cases label with
  | move n move =>
      intro start hn hallows hfails hgen
      have hn : w.starts[n]? = some start := hn
      have hstep : step w (.move n move) = some (w.perform n start move) := by
        simp [step, hn, hallows]
      have hnext := hharmless _ hstep n rfl ⟨start, hn, hgen⟩
      cases move with
      | urlFailed => exact alone_of_harmless h hn hgen hnext
      | caught => exact alone_of_harmless h hn hgen hnext
      | _ => cases hfails
  | _ => trivial

end Runs

/-- A superseded start changes nothing of a later one, and a session at rest holds neither the
microphone nor a socket, on exactly the runs in which no superseded start fails while its session
is busy again or the capture is held by a later start. -/
theorem superseded_start_iff (run : List Label) :
    machine.Admits (fun w label => ∀ t ∈ step w label, Harmless w label t ∧ Quiet t) initial run ↔
      machine.Admits Fits initial run := by
  refine machine.admits_congr (J := Kept) (fun _ _ _ => kept_step) ?_ run kept_initial
  intro w label hkept
  constructor
  · exact fun h => fits_of_harmless hkept fun t ht => (h t ht).1
  · exact fun hfits t ht => ⟨harmless_step hkept hfits ht, (kept_step hkept hfits ht).quiet⟩

/-- A stop and a start in one turn: the stop refuses the first start, which fails in the next
microtask. -/
def revived : List Label :=
  [.start 0, .move 0 (.urlBuilt true), .stop 0, .start 0, .move 0 .caught,
    .move 1 (.urlBuilt true), .captureRun, .captureRun, .captureSettled true, .move 1 .opened,
    .move 1 (.frame .state), .move 1 .proceed]

/-- The second start leaves its microphone on and its socket open in an idle session. -/
theorem caught_undoes_later_start :
    ∃ w, machine.Reaches Machine.always w ∧ Resting w 0 ∧ ¬ Quiet w ∧
      w.mic = [1] ∧ w.starts.map Start.live = [false, true] := by
  have hstart : machine.Reaches Machine.always initial := .start rfl
  have hrest : Resting (machine.runTo initial revived) 0 := by
    constructor <;> decide +kernel
  refine ⟨machine.runTo initial revived,
    hstart.runTo revived (Machine.admits_always _ _ _) (by decide +kernel), hrest, ?_,
    by decide +kernel, by decide +kernel⟩
  intro hquiet
  have hclosed := (hquiet 0 hrest).1
  revert hclosed
  decide +kernel

end EngineSession
end Voice
end Core
end Vesta
