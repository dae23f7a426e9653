import Mathlib.Data.List.Basic
import Vesta.Lib.Machine

/-!
# The sync socket and the context it replays

The sync socket runs over a socket that reconnects by itself.  A client reports its
focus, the agent it views and its device context at any time, before the first open and
between connections too.  Each connection that opens replays the cached reports.

A device context is its JSON text: the source compares contexts by it and sends no more
than it.  The platform's socket stops taking frames before its close event arrives, and
what is sent in between is swallowed without an error.

Beside the source's state the machine keeps the frames that the current connection and
the earlier ones took, the reports made, and whether the latest report that changed the
context was swallowed.
-/

namespace Vesta
namespace Core
namespace Transport

open Lib

inductive ClientKind
  | web
  | mobile
  | desktop
deriving DecidableEq

structure Device where
  id : String
  descriptor : String
deriving DecidableEq

structure ClientContextFrame where
  focused : Bool
  client : ClientKind
  resync : Bool
  viewing : Option String
  device : Option Device
  context : Option String
deriving DecidableEq

inductive ClientFrame
  | reauth (token : String)
  | clientContext (frame : ClientContextFrame)
deriving DecidableEq

/-- One socket lifetime; the number names the socket whose events count. -/
inductive Phase
  | dialing
  | connecting (socket : Nat)
  | opened (socket : Nat)
  | reconnecting
  | closed
deriving DecidableEq

structure SyncSocketDeps where
  clientKind : ClientKind
  device : Option Device

/-- What the sync socket remembers. -/
structure SyncSocket where
  lastFocused : Option Bool := none
  lastViewing : Option String := none
  lastContext : Option String := none
  contextSynced : Bool := false
  pendingToken : Option String := none

inductive Report
  | presence (focused : Bool)
  | viewing (agent : Option String)
  | deviceContext (context : String)
deriving DecidableEq

structure World where
  phase : Phase := .dialing
  sockets : Nat := 0
  taking : Bool := false
  socket : SyncSocket := {}
  sent : List ClientFrame := []
  earlier : List ClientFrame := []
  reports : List Report := []
  swallowed : Bool := false

/-- Whether a report is the cached value of its kind. -/
def SyncSocket.repeats (socket : SyncSocket) : Report → Bool
  | .presence focused => socket.lastFocused = some focused
  | .viewing agent => socket.lastViewing = agent
  | .deviceContext context => socket.lastContext = some context

def SyncSocket.remember (socket : SyncSocket) : Report → SyncSocket
  | .presence focused => { socket with lastFocused := some focused }
  | .viewing agent => { socket with lastViewing := agent }
  | .deviceContext context => { socket with lastContext := some context }

section Deps

variable (deps : SyncSocketDeps)

/-- The current context as one frame: a blurred window is viewing no one. -/
def contextFrame (socket : SyncSocket) (resync : Bool) : ClientContextFrame where
  focused := socket.lastFocused.getD false
  client := deps.clientKind
  resync := resync
  viewing := if socket.lastFocused = some true then socket.lastViewing else none
  device := deps.device
  context := socket.lastContext

/-- Send while open, and tell whether it was. -/
def World.send (w : World) (frame : ClientFrame) : World × Bool :=
  match w.phase with
  | .opened _ => ({ w with sent := if w.taking then w.sent ++ [frame] else w.sent }, true)
  | _ => (w, false)

def World.emitContext (w : World) : World :=
  let sent := w.send (.clientContext (contextFrame deps w.socket false))
  { sent.1 with
    socket := { w.socket with contextSynced := sent.2 }
    swallowed := sent.2 && !w.taking }

/-- A report; one that repeats the cached value is skipped. -/
def World.report (w : World) (report : Report) : World :=
  let w := { w with reports := w.reports ++ [report] }
  if w.socket.repeats report then
    w
  else
    { w with socket := w.socket.remember report }.emitContext deps

def World.reauth (w : World) (token : String) : World :=
  let sent := w.send (.reauth token)
  if sent.2 then sent.1 else { w with socket := { w.socket with pendingToken := some token } }

/-- The token held for this open. -/
def World.sendPending (w : World) : World :=
  match w.socket.pendingToken with
  | some token =>
      { w with
        sent := w.sent ++ [.reauth token]
        socket := { w.socket with pendingToken := none } }
  | none => w

/-- Replay the cached context; a context already delivered goes out as a resync. -/
def World.onOpen (w : World) : World :=
  let w := w.sendPending
  if w.socket.lastFocused ≠ none ∨ w.socket.lastViewing ≠ none then
    { w with
      sent := w.sent ++ [.clientContext (contextFrame deps w.socket w.socket.contextSynced)]
      socket := { w.socket with contextSynced := true }
      swallowed := false }
  else
    w

inductive Label
  | report (report : Report)
  | reauth (token : String)
  | urlBuilt
  | urlFailed
  | timer
  | opened (socket : Nat)
  | closing (socket : Nat)
  | closed (socket : Nat)
  | appBehind (socket : Nat)
  | close
deriving DecidableEq

/-- Events of a socket that is not the current one are ignored. -/
def step (w : World) : Label → Option World
  | .report report => some (w.report deps report)
  | .reauth token => some (w.reauth token)
  | .urlBuilt =>
      if w.phase = .dialing then
        some { w with
          phase := .connecting w.sockets
          sockets := w.sockets + 1
          earlier := w.earlier ++ w.sent
          sent := [] }
      else
        none
  | .urlFailed => if w.phase = .dialing then some { w with phase := .reconnecting } else none
  | .timer => if w.phase = .reconnecting then some { w with phase := .dialing } else none
  | .opened socket =>
      if w.phase = .connecting socket then
        some ({ w with phase := .opened socket, taking := true }.onOpen deps)
      else
        some w
  | .closing socket =>
      if w.phase = .opened socket then some { w with taking := false } else some w
  | .closed socket =>
      if w.phase = .opened socket ∨ w.phase = .connecting socket then
        some { w with phase := .reconnecting, taking := false }
      else
        some w
  | .appBehind socket =>
      if w.phase = .opened socket ∨ w.phase = .connecting socket then
        some { w with phase := .closed, taking := false }
      else
        some w
  | .close =>
      some { w with
        phase := .closed
        taking := false
        socket := { w.socket with pendingToken := none } }

attribute [grind =] step

def machine : Machine World Label where
  start w := w = {}
  step := step deps

end Deps

/-! ## What the frames should carry -/

/-- The latest focus reported. -/
def latestFocused (reports : List Report) : Option Bool :=
  (reports.filterMap fun | .presence focused => some focused | _ => none).getLast?

/-- The latest agent reported as viewed; null for none and before any report. -/
def latestViewing (reports : List Report) : Option String :=
  (reports.filterMap fun | .viewing agent => some agent | _ => none).getLast?.join

/-- The latest device context reported. -/
def latestContext (reports : List Report) : Option String :=
  (reports.filterMap fun | .deviceContext context => some context | _ => none).getLast?

/-- A frame carries the latest reports; a viewed agent is on the wire only while focused. -/
structure Carries (reports : List Report) (frame : ClientContextFrame) : Prop where
  focused : frame.focused = (latestFocused reports).getD false
  viewing :
    frame.viewing = if latestFocused reports = some true then latestViewing reports else none
  context : frame.context = latestContext reports

/-- The context frames among the frames of a connection. -/
def contextFrames (frames : List ClientFrame) : List ClientContextFrame :=
  frames.filterMap fun | .clientContext frame => some frame | .reauth _ => none

/-- What a frame says beside whether it is a resync. -/
def ClientContextFrame.content (frame : ClientContextFrame) : ClientContextFrame :=
  { frame with resync := false }

/-- The contexts that frames delivered. -/
def delivered (frames : List ClientFrame) : List ClientContextFrame :=
  (contextFrames frames).map ClientContextFrame.content

/-- While the socket is open, the last context frame of this connection carries the latest
reports, once there is one; and a resync repeats a context that an earlier connection took. -/
structure Replayed (w : World) : Prop where
  latest :
    w.taking = true → w.reports ≠ [] →
      ∃ frame, (contextFrames w.sent).getLast? = some frame ∧ Carries w.reports frame
  resync :
    ∀ frame ∈ contextFrames w.sent, frame.resync = true →
      frame.content ∈ delivered w.earlier

section Replay

variable (deps : SyncSocketDeps)

/-- A null view is not the first report of all on an open connection.  A connection opens
before any report, or when a focus was reported or an agent is viewed; and if the latest
report was swallowed, its context was delivered before. -/
def Replays (w : World) : Label → Prop
  | .report (.viewing none) => w.taking = true → w.reports ≠ []
  | .opened socket =>
      w.phase = .connecting socket → w.reports ≠ [] →
        (latestFocused w.reports ≠ none ∨ latestViewing w.reports ≠ none) ∧
        (w.swallowed = true →
          contextFrame deps w.socket false ∈ delivered w.earlier)
  | _ => True

/-- The cached values are the latest reports. -/
structure Cached (reports : List Report) (socket : SyncSocket) : Prop where
  focused : socket.lastFocused = latestFocused reports
  viewing : socket.lastViewing = latestViewing reports
  context : socket.lastContext = latestContext reports

structure Sound (w : World) : Prop where
  cached : Cached w.reports w.socket
  synced :
    w.socket.contextSynced = true → w.swallowed = false →
      contextFrame deps w.socket false ∈ delivered (w.earlier ++ w.sent)
  swallowed : w.swallowed = true → w.socket.contextSynced = true
  connecting : ∀ socket, w.phase = .connecting socket → w.sent = []
  taking : w.taking = true → ∃ socket, w.phase = .opened socket
  silent : w.reports = [] → contextFrames w.sent = []

variable {deps}
variable {w next : World}

theorem Cached.remember
    {reports : List Report} {socket : SyncSocket}
    (h : Cached reports socket)
    (report : Report) :
    Cached (reports ++ [report]) (socket.remember report) := by
  obtain ⟨hfocused, hviewing, hcontext⟩ := h
  cases report with
  | presence focused =>
      refine ⟨?_, ?_, ?_⟩
      · simp [SyncSocket.remember, latestFocused]
      · simpa [SyncSocket.remember, latestViewing] using hviewing
      · simpa [SyncSocket.remember, latestContext] using hcontext
  | viewing agent =>
      refine ⟨?_, ?_, ?_⟩
      · simpa [SyncSocket.remember, latestFocused] using hfocused
      · simp [SyncSocket.remember, latestViewing]
      · simpa [SyncSocket.remember, latestContext] using hcontext
  | deviceContext context =>
      refine ⟨?_, ?_, ?_⟩
      · simpa [SyncSocket.remember, latestFocused] using hfocused
      · simpa [SyncSocket.remember, latestViewing] using hviewing
      · simp [SyncSocket.remember, latestContext]

theorem remember_of_repeats
    {socket : SyncSocket} {report : Report}
    (h : socket.repeats report = true) :
    socket.remember report = socket := by
  cases report with
  | presence focused => rw [SyncSocket.remember, ← of_decide_eq_true h]
  | viewing agent => rw [SyncSocket.remember, ← of_decide_eq_true h]
  | deviceContext context => rw [SyncSocket.remember, ← of_decide_eq_true h]

/-- The frame of the cached values carries the latest reports. -/
theorem Cached.carries
    {reports : List Report} {socket : SyncSocket}
    (h : Cached reports socket)
    (resync : Bool) :
    Carries reports (contextFrame deps socket resync) where
  focused := by rw [← h.focused]; rfl
  viewing := by rw [← h.focused, ← h.viewing]; rfl
  context := by rw [← h.context]; rfl

theorem content_contextFrame (socket : SyncSocket) (resync : Bool) :
    (contextFrame deps socket resync).content = contextFrame deps socket false := rfl

theorem contextFrames_append (frames more : List ClientFrame) :
    contextFrames (frames ++ more) = contextFrames frames ++ contextFrames more :=
  List.filterMap_append

variable (deps) in
/-- The three fates of a context frame: taken, swallowed, or not sent. -/
theorem emitContext_cases (w : World) :
    (∃ socket, w.phase = .opened socket ∧ w.taking = true ∧
      w.emitContext deps = { w with
        sent := w.sent ++ [.clientContext (contextFrame deps w.socket false)]
        socket := { w.socket with contextSynced := true }
        swallowed := false }) ∨
    (∃ socket, w.phase = .opened socket ∧ w.taking = false ∧
      w.emitContext deps = { w with
        socket := { w.socket with contextSynced := true }
        swallowed := true }) ∨
    ((∀ socket, w.phase ≠ .opened socket) ∧
      w.emitContext deps = { w with
        socket := { w.socket with contextSynced := false }
        swallowed := false }) := by
  cases hphase : w.phase with
  | opened socket =>
      cases htaking : w.taking with
      | true => exact .inl ⟨socket, rfl, rfl, by simp [World.emitContext, World.send, hphase, htaking]⟩
      | false =>
          exact .inr (.inl ⟨socket, rfl, rfl,
            by simp [World.emitContext, World.send, hphase, htaking]⟩)
  | dialing => exact .inr (.inr ⟨nofun, by simp [World.emitContext, World.send, hphase]⟩)
  | connecting socket => exact .inr (.inr ⟨nofun, by simp [World.emitContext, World.send, hphase]⟩)
  | reconnecting => exact .inr (.inr ⟨nofun, by simp [World.emitContext, World.send, hphase]⟩)
  | closed => exact .inr (.inr ⟨nofun, by simp [World.emitContext, World.send, hphase]⟩)

theorem sound_emitContext
    (hcached : Cached w.reports w.socket)
    (hreported : w.reports ≠ [])
    (hconnecting : ∀ socket, w.phase = .connecting socket → w.sent = [])
    (htaking : w.taking = true → ∃ socket, w.phase = .opened socket) :
    Sound deps (w.emitContext deps) := by
  rcases emitContext_cases deps w with
    ⟨socket, hphase, htaken, heq⟩ | ⟨socket, hphase, hclosing, heq⟩ | ⟨hphase, heq⟩
  · rw [heq]
    refine ⟨⟨hcached.focused, hcached.viewing, hcached.context⟩, fun _ _ => ?_, nofun, ?_, htaking,
      fun h => absurd h hreported⟩
    · simp [delivered, contextFrames, ClientContextFrame.content, contextFrame]
    · intro other hother
      exact nomatch hphase.symm.trans hother
  · rw [heq]
    exact ⟨⟨hcached.focused, hcached.viewing, hcached.context⟩, nofun, fun _ => rfl, hconnecting,
      htaking, fun h => absurd h hreported⟩
  · rw [heq]
    exact ⟨⟨hcached.focused, hcached.viewing, hcached.context⟩, nofun, nofun, hconnecting,
      htaking, fun h => absurd h hreported⟩

variable (deps) in
/-- A report is skipped as a repeat, or remembered and emitted. -/
theorem report_cases (w : World) (report : Report) :
    (w.socket.repeats report = true ∧
      w.report deps report = { w with reports := w.reports ++ [report] }) ∨
    (w.socket.repeats report = false ∧
      w.report deps report =
        ({ w with
          reports := w.reports ++ [report]
          socket := w.socket.remember report } : World).emitContext deps) := by
  rw [World.report]
  split
  · rename_i hrepeats
    exact .inl ⟨hrepeats, rfl⟩
  · rename_i hfresh
    exact .inr ⟨Bool.eq_false_iff.2 hfresh, rfl⟩

theorem sound_report
    (h : Sound deps w)
    (report : Report) :
    Sound deps (w.report deps report) := by
  have hreported : w.reports ++ [report] ≠ [] := by simp
  rcases report_cases deps w report with ⟨hrepeats, heq⟩ | ⟨-, heq⟩
  · rw [heq]
    have hcached := h.cached.remember report
    rw [remember_of_repeats hrepeats] at hcached
    exact { h with cached := hcached, silent := fun hnil => absurd hnil hreported }
  · rw [heq]
    exact sound_emitContext (h.cached.remember report) hreported h.connecting h.taking

theorem sound_sendPending
    (h : Sound deps w)
    (hphase : ∀ socket, w.phase ≠ .connecting socket) :
    Sound deps w.sendPending := by
  rw [World.sendPending]
  split
  · refine ⟨⟨h.cached.focused, h.cached.viewing, h.cached.context⟩, ?_, h.swallowed, ?_, h.taking,
      ?_⟩
    · simpa [delivered, contextFrames, contextFrame] using h.synced
    · exact fun socket hsocket => absurd hsocket (hphase socket)
    · simpa [contextFrames] using h.silent
  · exact h

theorem sound_onOpen
    (h : Sound deps w)
    (hphase : ∀ socket, w.phase ≠ .connecting socket) :
    Sound deps (w.onOpen deps) := by
  have hpending := sound_sendPending h hphase
  have hphase' : w.sendPending.phase = w.phase := by
    rw [World.sendPending]
    split <;> rfl
  rw [World.onOpen]
  split
  · rename_i hreplay
    refine ⟨⟨hpending.cached.focused, hpending.cached.viewing, hpending.cached.context⟩,
      fun _ _ => ?_, nofun, ?_, hpending.taking, fun hnil => ?_⟩
    · simp [delivered, contextFrames, ClientContextFrame.content, contextFrame]
    · exact fun socket hsocket => absurd (hphase'.symm.trans hsocket) (hphase socket)
    · have hcached := hpending.cached
      rw [show w.sendPending.reports = [] from hnil] at hcached
      rcases hreplay with hfocused | hviewing
      · exact absurd hcached.focused hfocused
      · exact absurd hcached.viewing hviewing
  · exact hpending

theorem sound_step
    {label : Label}
    (h : Sound deps w)
    (hstep : step deps w label = some next) :
    Sound deps next := by
  cases label with
  | report report =>
      cases hstep
      exact sound_report h report
  | reauth token =>
      cases hstep
      rw [World.reauth, World.send]
      split
      · rename_i socket hphase
        simp only [if_true]
        split
        · refine { h with
            synced := ?_
            connecting := fun other hother => nomatch hphase.symm.trans hother
            silent := ?_ }
          · simpa [delivered, contextFrames] using h.synced
          · simpa [contextFrames] using h.silent
        · exact h
      · exact ⟨⟨h.cached.focused, h.cached.viewing, h.cached.context⟩, h.synced, h.swallowed,
          h.connecting, h.taking, h.silent⟩
  | urlBuilt =>
      simp only [step] at hstep
      split at hstep
      · rename_i hphase
        cases hstep
        refine ⟨h.cached, ?_, h.swallowed, fun _ _ => rfl, fun htaking => ?_, fun _ => rfl⟩
        · simpa using h.synced
        · obtain ⟨socket, hopened⟩ := h.taking htaking
          exact nomatch hphase.symm.trans hopened
      · cases hstep
  | urlFailed =>
      simp only [step] at hstep
      split at hstep
      · rename_i hphase
        cases hstep
        refine { h with connecting := nofun, taking := fun htaking => ?_ }
        obtain ⟨socket, hopened⟩ := h.taking htaking
        exact nomatch hphase.symm.trans hopened
      · cases hstep
  | timer =>
      simp only [step] at hstep
      split at hstep
      · rename_i hphase
        cases hstep
        refine { h with connecting := nofun, taking := fun htaking => ?_ }
        obtain ⟨socket, hopened⟩ := h.taking htaking
        exact nomatch hphase.symm.trans hopened
      · cases hstep
  | opened socket =>
      simp only [step] at hstep
      split at hstep
      · cases hstep
        refine sound_onOpen ?_ nofun
        exact { h with connecting := nofun, taking := fun _ => ⟨socket, rfl⟩ }
      · cases hstep
        exact h
  | closing socket =>
      simp only [step] at hstep
      split at hstep
      · cases hstep
        exact { h with taking := nofun }
      · cases hstep
        exact h
  | closed socket =>
      simp only [step] at hstep
      split at hstep
      · cases hstep
        exact { h with connecting := nofun, taking := nofun }
      · cases hstep
        exact h
  | appBehind socket =>
      simp only [step] at hstep
      split at hstep
      · cases hstep
        exact { h with connecting := nofun, taking := nofun }
      · cases hstep
        exact h
  | close =>
      cases hstep
      exact ⟨⟨h.cached.focused, h.cached.viewing, h.cached.context⟩, h.synced, h.swallowed, nofun,
        nofun, h.silent⟩

/-! ## When the context is replayed -/

/-- Where the platform's socket takes no frames, only the resyncs matter. -/
theorem Replayed.of_not_taking
    (h : Replayed w)
    (htaking : next.taking = false)
    (hsent : next.sent = w.sent)
    (hearlier : next.earlier = w.earlier) :
    Replayed next where
  latest := fun h' => nomatch htaking.symm.trans h'
  resync := by
    rw [hsent, hearlier]
    exact h.resync

/-- A frame that carries the reports after a repeat is one that carried them before. -/
theorem carries_repeat
    {reports : List Report} {socket : SyncSocket} {report : Report}
    (hcached : Cached reports socket)
    (hrepeats : socket.repeats report = true)
    {frame : ClientContextFrame} :
    Carries (reports ++ [report]) frame ↔ Carries reports frame := by
  have hcached' := hcached.remember report
  rw [remember_of_repeats hrepeats] at hcached'
  have hfocused := hcached'.focused.symm.trans hcached.focused
  have hviewing := hcached'.viewing.symm.trans hcached.viewing
  have hcontext := hcached'.context.symm.trans hcached.context
  constructor
  · rintro ⟨h1, h2, h3⟩
    exact ⟨hfocused ▸ h1, by rw [h2, hfocused, hviewing], hcontext ▸ h3⟩
  · rintro ⟨h1, h2, h3⟩
    exact ⟨hfocused.symm ▸ h1, by rw [h2, hfocused, hviewing], hcontext.symm ▸ h3⟩

/-- Before any report only a null view is a repeat. -/
theorem viewing_none_of_repeats
    {socket : SyncSocket} {report : Report}
    (hcached : Cached [] socket)
    (hrepeats : socket.repeats report = true) :
    report = .viewing none := by
  cases report with
  | presence focused => exact nomatch hcached.focused.symm.trans (of_decide_eq_true hrepeats)
  | viewing agent => rw [← of_decide_eq_true hrepeats, hcached.viewing]; rfl
  | deviceContext context => exact nomatch hcached.context.symm.trans (of_decide_eq_true hrepeats)

theorem replayed_repeat_iff
    {report : Report}
    (hsound : Sound deps w)
    (h : Replayed w)
    (hrepeats : w.socket.repeats report = true) :
    Replayed { w with reports := w.reports ++ [report] } ↔ Replays deps w (.report report) := by
  by_cases hreports : w.reports = []
  · have hcached : Cached [] w.socket := hreports ▸ hsound.cached
    obtain rfl := viewing_none_of_repeats hcached hrepeats
    constructor
    · intro h' htaking
      obtain ⟨frame, hframe, -⟩ := h'.latest htaking (by simp)
      simp [hsound.silent hreports] at hframe
    · intro hguard
      exact ⟨fun htaking => absurd hreports (hguard htaking), h.resync⟩
  · refine iff_of_true ⟨fun htaking _ => ?_, h.resync⟩ ?_
    · obtain ⟨frame, hframe, hcarries⟩ := h.latest htaking hreports
      exact ⟨frame, hframe, (carries_repeat hsound.cached hrepeats).2 hcarries⟩
    · cases report with
      | viewing agent =>
          cases agent with
          | none => exact fun _ => hreports
          | some agent => trivial
      | presence focused => trivial
      | deviceContext context => trivial

theorem getLast?_contextFrames_append (frames : List ClientFrame) (frame : ClientContextFrame) :
    (contextFrames (frames ++ [.clientContext frame])).getLast? = some frame := by
  simp [contextFrames]

theorem replayed_emitContext
    (h : Replayed w)
    (htaking : w.taking = true → ∃ socket, w.phase = .opened socket)
    {reports : List Report} {socket : SyncSocket}
    (hcached : Cached reports socket) :
    Replayed (({ w with reports := reports, socket := socket } : World).emitContext deps) := by
  rcases emitContext_cases deps { w with reports := reports, socket := socket } with
    ⟨_, -, -, heq⟩ | ⟨_, -, hclosing, heq⟩ | ⟨hphase, heq⟩
  · rw [heq]
    refine ⟨fun _ _ => ⟨_, getLast?_contextFrames_append _ _, hcached.carries false⟩, ?_⟩
    intro frame hframe hresync
    rw [contextFrames_append, List.mem_append] at hframe
    rcases hframe with hframe | hframe
    · exact h.resync frame hframe hresync
    · have hnew : frame = contextFrame deps socket false := by simpa [contextFrames] using hframe
      rw [hnew] at hresync
      exact nomatch hresync
  · rw [heq]
    exact h.of_not_taking hclosing rfl rfl
  · rw [heq]
    have hclosing : w.taking = false := by
      by_contra htaken
      obtain ⟨other, hother⟩ := htaking (by simpa using htaken)
      exact hphase other hother
    exact h.of_not_taking hclosing rfl rfl

theorem replayed_report_iff
    (hsound : Sound deps w)
    (h : Replayed w)
    (report : Report) :
    Replayed (w.report deps report) ↔ Replays deps w (.report report) := by
  rcases report_cases deps w report with ⟨hrepeats, heq⟩ | ⟨hfresh, heq⟩
  · rw [heq]
    exact replayed_repeat_iff hsound h hrepeats
  · rw [heq]
    refine iff_of_true
      (replayed_emitContext h hsound.taking (hsound.cached.remember report)) ?_
    cases report with
    | viewing agent =>
        cases agent with
        | none =>
            intro _ hnil
            have hviewing := hsound.cached.viewing
            rw [hnil] at hviewing
            exact absurd hviewing (of_decide_eq_false hfresh)
        | some agent => trivial
    | presence focused => trivial
    | deviceContext context => trivial

theorem contextFrames_sendPending
    (w : World) :
    contextFrames w.sendPending.sent = contextFrames w.sent := by
  rw [World.sendPending]
  split
  · simp [contextFrames]
  · rfl

theorem sendPending_frame (w : World) :
    w.sendPending.reports = w.reports ∧ w.sendPending.earlier = w.earlier ∧
      w.sendPending.taking = w.taking ∧
      w.sendPending.socket = { w.socket with pendingToken := none } := by
  rw [World.sendPending]
  split
  · exact ⟨rfl, rfl, rfl, rfl⟩
  · rename_i hnone
    refine ⟨rfl, rfl, rfl, ?_⟩
    rw [← hnone]

/-- A connection that opens replays what was reported, unless neither a focus was reported
nor an agent is viewed. -/
theorem replayed_onOpen_iff
    {socket : Nat}
    (hsound : Sound deps w)
    (hphase : w.phase = .connecting socket) :
    Replayed (({ w with phase := .opened socket, taking := true } : World).onOpen deps) ↔
      Replays deps w (.opened socket) := by
  have hsent := hsound.connecting socket hphase
  generalize hv : ({ w with phase := .opened socket, taking := true } : World) = v
  have hframes : contextFrames v.sendPending.sent = [] := by
    rw [contextFrames_sendPending, ← hv]
    simp [hsent, contextFrames]
  obtain ⟨hreports, hearlier, htaking, hsocket⟩ := sendPending_frame v
  have hfocused := hsound.cached.focused
  have hviewing := hsound.cached.viewing
  have hguard : Replays deps w (.opened socket) ↔
      (w.reports ≠ [] →
        (w.socket.lastFocused ≠ none ∨ w.socket.lastViewing ≠ none) ∧
        (w.swallowed = true → contextFrame deps w.socket false ∈ delivered w.earlier)) := by
    rw [hfocused, hviewing]
    exact ⟨fun h => h hphase, fun h _ => h⟩
  rw [hguard, World.onOpen]
  subst hv
  simp only at hreports hearlier hsocket
  split
  · rename_i hreplay
    rw [hsocket] at hreplay
    have hreported : w.reports ≠ [] := by
      intro hnil
      rw [hfocused, hviewing, hnil] at hreplay
      exact hreplay.elim (absurd rfl) (absurd rfl)
    have hcached : Cached w.reports { w.socket with pendingToken := none } :=
      ⟨hfocused, hviewing, hsound.cached.context⟩
    constructor
    · refine fun h _ => ⟨hreplay, fun hswallowed => ?_⟩
      have hmem := h.resync _ (by
        rw [contextFrames_append]
        exact List.mem_append_right _ (List.mem_singleton_self _))
      rw [hearlier, hsocket] at hmem
      exact hmem (hsound.swallowed hswallowed)
    · intro h
      refine ⟨fun _ _ => ⟨_, getLast?_contextFrames_append _ _, ?_⟩, fun frame hframe hresync => ?_⟩
      · rw [hsocket, hreports]
        exact hcached.carries _
      · rw [contextFrames_append, hframes, List.nil_append] at hframe
        obtain rfl := List.mem_singleton.1 hframe
        rw [content_contextFrame, hsocket, hearlier]
        cases hswallowed : w.swallowed with
        | true => exact (h hreported).2 hswallowed
        | false =>
            have hsynced : w.socket.contextSynced = true := by
              rw [hsocket] at hresync
              exact hresync
            have hmem := hsound.synced hsynced hswallowed
            rw [hsent, List.append_nil] at hmem
            exact hmem
  · rename_i hreplay
    rw [hsocket] at hreplay
    constructor
    · intro h hreported
      obtain ⟨frame, hframe, -⟩ := h.latest (by rw [htaking]) (by rw [hreports]; exact hreported)
      rw [hframes] at hframe
      exact nomatch hframe
    · intro h
      refine ⟨fun _ hreported => ?_, ?_⟩
      · rw [hreports] at hreported
        exact absurd (h hreported).1 hreplay
      · rw [hframes]
        exact fun frame hframe => absurd hframe List.not_mem_nil

theorem replayed_step_iff
    {label : Label}
    (hsound : Sound deps w)
    (h : Replayed w)
    (hstep : step deps w label = some next) :
    Replayed next ↔ Replays deps w label := by
  cases label with
  | report report =>
      cases hstep
      exact replayed_report_iff hsound h report
  | reauth token =>
      cases hstep
      refine iff_of_true ?_ trivial
      rw [World.reauth, World.send]
      split
      · simp only [if_true]
        split
        · constructor
          · simpa [contextFrames] using h.latest
          · simpa [contextFrames] using h.resync
        · exact h
      · exact ⟨h.latest, h.resync⟩
  | urlBuilt =>
      simp only [step] at hstep
      split at hstep
      · rename_i hphase
        cases hstep
        refine iff_of_true ⟨fun htaking => ?_, fun frame hframe => nomatch hframe⟩ trivial
        obtain ⟨socket, hopened⟩ := hsound.taking htaking
        exact nomatch hphase.symm.trans hopened
      · cases hstep
  | urlFailed =>
      simp only [step] at hstep
      split at hstep
      · cases hstep
        exact iff_of_true ⟨h.latest, h.resync⟩ trivial
      · cases hstep
  | timer =>
      simp only [step] at hstep
      split at hstep
      · cases hstep
        exact iff_of_true ⟨h.latest, h.resync⟩ trivial
      · cases hstep
  | opened socket =>
      simp only [step] at hstep
      split at hstep
      · rename_i hphase
        cases hstep
        exact replayed_onOpen_iff hsound hphase
      · rename_i hphase
        cases hstep
        exact iff_of_true h fun hphase' => absurd hphase' hphase
  | closing socket =>
      simp only [step] at hstep
      split at hstep
      · cases hstep
        exact iff_of_true (h.of_not_taking rfl rfl rfl) trivial
      · cases hstep
        exact iff_of_true h trivial
  | closed socket =>
      simp only [step] at hstep
      split at hstep
      · cases hstep
        exact iff_of_true (h.of_not_taking rfl rfl rfl) trivial
      · cases hstep
        exact iff_of_true h trivial
  | appBehind socket =>
      simp only [step] at hstep
      split at hstep
      · cases hstep
        exact iff_of_true (h.of_not_taking rfl rfl rfl) trivial
      · cases hstep
        exact iff_of_true h trivial
  | close =>
      cases hstep
      exact iff_of_true (h.of_not_taking rfl rfl rfl) trivial

theorem replays_of_stuck
    {label : Label}
    (hstuck : step deps w label = none) :
    Replays deps w label := by
  cases label with
  | report report => exact nomatch hstuck
  | opened socket =>
      simp only [step] at hstuck
      split at hstuck
      · cases hstuck
      · cases hstuck
  | reauth | urlBuilt | urlFailed | timer | closing | closed | appBehind | close => trivial

/-- On a run the socket always has its latest context replayed if and only if every open
and every report of the run meets the condition. -/
theorem context_replayed_iff (deps : SyncSocketDeps) (run : List Label) :
    (machine deps).Admits (fun w a => ∀ t ∈ (machine deps).step w a, Replayed t) {} run ↔
      (machine deps).Admits (Replays deps) {} run := by
  refine (machine deps).admits_iff_within (fun _ _ _ hsound hstep => sound_step hsound hstep)
    (fun _ _ _ hsound h hstep => replayed_step_iff hsound h hstep)
    (fun _ _ _ _ hstuck => replays_of_stuck hstuck) run ?_ ?_
  · exact ⟨⟨rfl, rfl, rfl⟩, nofun, nofun, nofun, nofun, fun _ => rfl⟩
  · exact ⟨nofun, fun frame hframe => nomatch hframe⟩

end Replay

/-- A web client without an installation id. -/
def webDeps : SyncSocketDeps where
  clientKind := .web
  device := none

/-- A device context with a timezone. -/
def parisContext : String := "\x7b\"timezone\":\"Europe/Paris\"\x7d"

/-- The timezone is reported while the socket is connecting. -/
def contextOnlyRun : List Label := [.urlBuilt, .report (.deviceContext parisContext), .opened 0]

/-- The connection that opens carries no context. -/
theorem context_not_replayed :
    ∃ w, (machine webDeps).Reaches Machine.always w ∧ w.taking = true ∧
      latestContext w.reports = some parisContext ∧ contextFrames w.sent = [] ∧
      ¬Replayed w := by
  refine ⟨(machine webDeps).runTo {} contextOnlyRun,
    (Machine.Reaches.start rfl).runTo contextOnlyRun (Machine.admits_always _ _ _) (by decide),
    by decide, by decide, by decide, fun h => ?_⟩
  obtain ⟨frame, hframe, -⟩ := h.latest (by decide) (by decide)
  exact nomatch hframe

end Transport
end Core
end Vesta
