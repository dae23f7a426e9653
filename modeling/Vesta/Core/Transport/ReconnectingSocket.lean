import Mathlib.Data.List.Basic
import Vesta.Lib.Machine
import Vesta.Lib.Text

/-!
# The socket that reconnects by itself

A lifetime dials, connects, is open, waits for a retry and dials again, until it is closed
for good.  The URL is built anew for each dial.  Events of a socket that is not the current
one are ignored by identity.

A callback may close the socket itself, so each callback carries how often it calls `close`
before it returns.  The world keeps the callbacks that ran, each with the number of sockets
created and whether `close` had been called; the timers and the sockets that the platform
holds; and the URLs that are being built.
-/

namespace Vesta
namespace Core
namespace Transport
namespace Reconnecting

open Lib

/-- The phases a consumer hears of. -/
inductive ReconnectPhase
  | connecting
  | opened
  | reconnecting
  | closed
deriving DecidableEq

inductive Phase
  | dialing
  | connecting (socket : Nat)
  | opened (socket : Nat)
  | reconnecting (timer : Nat)
  | closed
deriving DecidableEq

inductive Callback
  | onOpen (socket : Nat)
  | onMessage (socket : Nat) (data : Text)
  | onPhaseChange (phase : ReconnectPhase)
deriving DecidableEq

/-- The socket a callback is about. -/
def Callback.socket : Callback → Option Nat
  | .onOpen socket => some socket
  | .onMessage socket _ => some socket
  | .onPhaseChange _ => none

/-- A callback that ran: how many sockets there had been, and whether `close` was called. -/
structure Call where
  callback : Callback
  created : Nat
  retired : Bool
deriving DecidableEq

structure Delays where
  base : Nat := 1000
  max : Nat := 30000

/-- A pending timer and the delay it was set with. -/
structure Timer where
  id : Nat
  delay : Nat
deriving DecidableEq

structure World where
  phase : Phase := .dialing
  delay : Nat
  dials : Nat := 0
  live : List Nat := []
  created : Nat := 0
  timers : List Timer := []
  nextTimer : Nat := 0
  retired : Bool := false
  calls : List Call := []
  sent : List (Nat × Text) := []
deriving DecidableEq

/-- `closes` is how often the callback of the event calls `close`. -/
inductive Label
  | urlBuilt (throws : Bool)
  | urlFailed (closes : Nat)
  | timer (id : Nat) (closes : Nat)
  | opened (socket : Nat) (closes closesAfter : Nat)
  | message (socket : Nat) (data : Text) (closes : Nat)
  | closed (socket : Nat) (closes : Nat)
  | errored (socket : Nat)
  | send (data : Text)
  | close
deriving DecidableEq

namespace World

def note (w : World) (callback : Callback) : World :=
  { w with calls := w.calls ++ [⟨callback, w.created, w.retired⟩] }

/-- Retire the socket for good. -/
def close (w : World) : World :=
  let previous := w.phase
  let w : World := { w with phase := .closed, retired := true }
  let w : World := match previous with
    | .reconnecting timer => { w with timers := w.timers.filter fun t => t.id != timer }
    | .opened socket => { w with live := w.live.erase socket }
    | .connecting socket => { w with live := w.live.erase socket }
    | _ => w
  w.note (.onPhaseChange .closed)

def closeTimes (w : World) : Nat → World
  | 0 => w
  | closes + 1 => w.close.closeTimes closes

/-- Run a callback, which closes the socket this often before it returns. -/
def call (w : World) (callback : Callback) (closes : Nat) : World :=
  (w.note callback).closeTimes closes

def scheduleReconnect (delays : Delays) (w : World) (closes : Nat) : World :=
  let timers := match w.phase with
    | .reconnecting timer => w.timers.filter fun t => t.id != timer
    | _ => w.timers
  let scheduled : World := { w with
    phase := .reconnecting w.nextTimer
    timers := timers ++ [⟨w.nextTimer, w.delay⟩]
    nextTimer := w.nextTimer + 1
    delay := min (w.delay * 2) delays.max }
  scheduled.call (.onPhaseChange .reconnecting) closes

/-- Dial; the callback may close the socket, and the URL is built nevertheless. -/
def connect (w : World) (closes : Nat) : World :=
  if w.phase = .closed then w
  else
    let called := { w with phase := .dialing }.call (.onPhaseChange .connecting) closes
    { called with dials := called.dials + 1 }

/-- The socket whose events count. -/
def current (w : World) (socket : Nat) : Prop :=
  w.phase = .opened socket ∨ w.phase = .connecting socket

instance (w : World) (socket : Nat) : Decidable (w.current socket) :=
  inferInstanceAs (Decidable (_ ∨ _))

end World

section Machine

variable (delays : Delays)

def step (w : World) : Label → Option World
  | .urlBuilt throws =>
      if w.dials = 0 then none
      else
        let w := { w with dials := w.dials - 1 }
        if w.phase = .dialing ∧ throws = false then
          some { w with
            phase := .connecting w.created
            live := w.live ++ [w.created]
            created := w.created + 1 }
        else some w
  | .urlFailed closes =>
      if w.dials = 0 then none
      else
        let w := { w with dials := w.dials - 1 }
        some (if w.phase = .closed then w else w.scheduleReconnect delays closes)
  | .timer id closes =>
      if (w.timers.map Timer.id).contains id then
        some ({ w with timers := w.timers.filter fun t => t.id != id }.connect closes)
      else none
  | .opened socket closes closesAfter =>
      some <|
        if w.phase = .connecting socket then
          ({ w with phase := .opened socket, delay := delays.base }.call (.onOpen socket)
            closes).call (.onPhaseChange .opened) closesAfter
        else w
  | .message socket data closes =>
      some (if w.current socket then w.call (.onMessage socket data) closes else w)
  | .closed socket closes =>
      let closed := { w with live := w.live.erase socket }
      some (if w.current socket then closed.scheduleReconnect delays closes else closed)
  | .errored _ => some w
  | .send data =>
      match w.phase with
      | .opened socket => some { w with sent := w.sent ++ [(socket, data)] }
      | _ => some w
  | .close => some w.close

attribute [grind =] step

/-- The first dial starts at once, before the caller has a handle to close. -/
def machine : Machine World Label where
  start w := w = ({ delay := delays.base } : World).connect 0
  step := step delays

end Machine

/-- What the socket promises of every moment. -/
structure Orderly (delays : Delays) (w : World) : Prop where
  owner : w.dials + w.live.length + w.timers.length ≤ 1
  current : ∀ call ∈ w.calls, ∀ socket ∈ call.callback.socket, socket + 1 = call.created
  retired : ∀ call ∈ w.calls, call.retired = true → call.callback = .onPhaseChange .closed
  bounded : min delays.base delays.max ≤ w.delay ∧ w.delay ≤ max delays.base delays.max
  armed : ∀ timer ∈ w.timers,
    min delays.base delays.max ≤ timer.delay ∧ timer.delay ≤ max delays.base delays.max
  reset : ∀ socket, w.phase = .opened socket → w.delay = delays.base

/-- The callback of the open does not close the socket. -/
def OpenKept (w : World) : Label → Prop
  | .opened socket closes _ => w.phase = .connecting socket → closes = 0
  | _ => True

/-! ## What holds in every state -/

/-- What the phase says of the resources the socket holds. -/
def Owned (w : World) : Prop :=
  match w.phase with
  | .dialing => w.dials ≤ 1 ∧ w.live = [] ∧ w.timers = []
  | .connecting socket =>
      w.dials = 0 ∧ w.live = [socket] ∧ w.timers = [] ∧ socket + 1 = w.created
  | .opened socket =>
      w.dials = 0 ∧ w.live = [socket] ∧ w.timers = [] ∧ socket + 1 = w.created
  | .reconnecting timer => w.dials = 0 ∧ w.live = [] ∧ ∃ delay, w.timers = [⟨timer, delay⟩]
  | .closed => w.dials ≤ 1 ∧ w.live = [] ∧ w.timers = []

/-- After `close` only the closed notification has run. -/
def Final (w : World) : Prop :=
  ∀ call ∈ w.calls, call.retired = true → call.callback = .onPhaseChange .closed

structure Sound (delays : Delays) (w : World) : Prop where
  owned : Owned w
  gone : w.retired = true ↔ w.phase = .closed
  current : ∀ call ∈ w.calls, ∀ socket ∈ call.callback.socket, socket + 1 = call.created
  bounded : min delays.base delays.max ≤ w.delay ∧ w.delay ≤ max delays.base delays.max
  armed : ∀ timer ∈ w.timers,
    min delays.base delays.max ≤ timer.delay ∧ timer.delay ≤ max delays.base delays.max
  reset : ∀ socket, w.phase = .opened socket → w.delay = delays.base

section Steps

variable {delays : Delays}
variable {w next : World}

theorem Sound.orderly (h : Sound delays w) (hfinal : Final w) : Orderly delays w where
  owner := by
    have howned := h.owned
    rw [Owned] at howned
    split at howned
    · obtain ⟨hdials, hlive, htimers⟩ := howned
      simpa [hlive, htimers] using hdials
    · obtain ⟨hdials, hlive, htimers, -⟩ := howned
      simp [hdials, hlive, htimers]
    · obtain ⟨hdials, hlive, htimers, -⟩ := howned
      simp [hdials, hlive, htimers]
    · obtain ⟨hdials, hlive, delay, htimers⟩ := howned
      simp [hdials, hlive, htimers]
    · obtain ⟨hdials, hlive, htimers⟩ := howned
      simpa [hlive, htimers] using hdials
  current := h.current
  retired := hfinal
  bounded := h.bounded
  armed := h.armed
  reset := h.reset

theorem Sound.note
    (h : Sound delays w)
    {callback : Callback}
    (hsocket : ∀ socket ∈ callback.socket, socket + 1 = w.created) :
    Sound delays (w.note callback) where
  owned := h.owned
  gone := h.gone
  current := by
    intro call hcall
    rcases List.mem_append.1 hcall with hold | hnew
    · exact h.current call hold
    · rw [List.mem_singleton.1 hnew]
      exact hsocket
  bounded := h.bounded
  armed := h.armed
  reset := h.reset

/-- The socket is gone, and no timer is left. -/
theorem Sound.close (h : Sound delays w) : Sound delays w.close := by
  have howned := h.owned
  have hcleared : w.close.dials ≤ 1 ∧ w.close.live = [] ∧ w.close.timers = [] := by
    cases hphase : w.phase with
    | dialing =>
        simp only [Owned, hphase] at howned
        simpa [World.close, World.note, hphase] using howned
    | connecting socket =>
        simp only [Owned, hphase] at howned
        obtain ⟨hdials, hlive, htimers, -⟩ := howned
        simp [World.close, World.note, hphase, hdials, hlive, htimers]
    | opened socket =>
        simp only [Owned, hphase] at howned
        obtain ⟨hdials, hlive, htimers, -⟩ := howned
        simp [World.close, World.note, hphase, hdials, hlive, htimers]
    | reconnecting timer =>
        simp only [Owned, hphase] at howned
        obtain ⟨hdials, hlive, delay, htimers⟩ := howned
        simp [World.close, World.note, hphase, hdials, hlive, htimers]
    | closed =>
        simp only [Owned, hphase] at howned
        simpa [World.close, World.note, hphase] using howned
  have hphase : w.close.phase = .closed := by
    cases hphase : w.phase <;> simp [World.close, World.note, hphase]
  have hsame : w.close.delay = w.delay ∧ w.close.retired = true ∧
      w.close.calls = w.calls ++ [⟨.onPhaseChange .closed, w.created, true⟩] := by
    cases hphase : w.phase <;> simp [World.close, World.note, hphase]
  obtain ⟨hdelay, hretired, hcalls⟩ := hsame
  constructor
  · rw [Owned, hphase]
    exact hcleared
  · simp [hretired, hphase]
  · rw [hcalls]
    intro call hcall
    rcases List.mem_append.1 hcall with hold | hnew
    · exact h.current call hold
    · rw [List.mem_singleton.1 hnew]
      exact fun socket hsocket => absurd hsocket (Option.not_mem_none socket)
  · rw [hdelay]
    exact h.bounded
  · simp [hcleared.2.2]
  · simp [hphase]

theorem Sound.closeTimes (h : Sound delays w) (closes : Nat) :
    Sound delays (w.closeTimes closes) := by
  induction closes generalizing w with
  | zero => exact h
  | succ closes ih => exact ih h.close

theorem Sound.call
    (h : Sound delays w)
    (callback : Callback)
    (hsocket : ∀ socket ∈ callback.socket, socket + 1 = w.created)
    (closes : Nat) :
    Sound delays (w.call callback closes) :=
  (h.note hsocket).closeTimes closes

/-- A phase is announced, and the callback may close the socket. -/
theorem Sound.announce
    (h : Sound delays w)
    (phase : ReconnectPhase) (closes : Nat) :
    Sound delays (w.call (.onPhaseChange phase) closes) :=
  h.call (.onPhaseChange phase)
    (fun socket hsocket => absurd hsocket (Option.not_mem_none socket)) closes

theorem close_phase (w : World) : w.close.phase = .closed := by
  cases hphase : w.phase <;> simp [World.close, World.note, hphase]

theorem close_dials (w : World) : w.close.dials = w.dials := by
  cases hphase : w.phase <;> simp [World.close, World.note, hphase]

theorem closeTimes_phase (w : World) (closes : Nat) :
    (w.closeTimes closes).phase = if closes = 0 then w.phase else .closed := by
  induction closes generalizing w with
  | zero => rfl
  | succ closes ih =>
      rw [World.closeTimes, ih, close_phase]
      simp

theorem closeTimes_dials (w : World) (closes : Nat) :
    (w.closeTimes closes).dials = w.dials := by
  induction closes generalizing w with
  | zero => rfl
  | succ closes ih => rw [World.closeTimes, ih, close_dials]

/-- A retry is set up when the dial or the socket is gone and nothing else goes on. -/
theorem Sound.scheduleReconnect
    (h : Sound delays w)
    (htimers : w.timers = [])
    (hphase : w.phase ≠ .closed ∧ ∀ timer, w.phase ≠ .reconnecting timer)
    (closes : Nat) :
    Sound delays ({ w with dials := 0, live := [] }.scheduleReconnect delays closes) := by
  have hkept : (match w.phase with
      | .reconnecting timer => w.timers.filter fun t => t.id != timer
      | _ => w.timers) = [] := by
    split
    · rename_i timer heq
      exact absurd heq (hphase.2 timer)
    · exact htimers
  have hdelay := h.bounded
  have hset : Sound delays { w with
      dials := 0
      live := []
      phase := .reconnecting w.nextTimer
      timers := [⟨w.nextTimer, w.delay⟩]
      nextTimer := w.nextTimer + 1
      delay := min (w.delay * 2) delays.max } := by
    refine ⟨⟨rfl, rfl, w.delay, rfl⟩, ?_, h.current, ?_, ?_, ?_⟩
    · have hopen : w.retired ≠ true := fun hretired => hphase.1 (h.gone.1 hretired)
      simp [hopen]
    · constructor
      · simp only [Nat.le_min]
        omega
      · exact Nat.le_trans (Nat.min_le_right _ _) (Nat.le_max_right _ _)
    · intro timer htimer
      rw [List.mem_singleton.1 htimer]
      exact hdelay
    · exact fun socket heq => nomatch heq
  rw [World.scheduleReconnect, hkept, List.nil_append]
  exact hset.announce .reconnecting closes

/-- A dial starts when nothing else is going on. -/
theorem Sound.connect
    (h : Sound delays w)
    (hidle : w.dials = 0 ∧ w.live = [] ∧ w.timers = [])
    (hphase : w.phase ≠ .closed)
    (closes : Nat) :
    Sound delays (w.connect closes) := by
  have hdialing : Sound delays { w with phase := .dialing } := by
    have hopen : w.retired ≠ true := fun hretired => hphase (h.gone.1 hretired)
    refine ⟨⟨?_, hidle.2.1, hidle.2.2⟩, ?_, h.current, h.bounded, h.armed, ?_⟩
    · simp [hidle.1]
    · simp [hopen]
    · exact fun socket heq => nomatch heq
  obtain ⟨called, hcalled⟩ : ∃ called,
      { w with phase := .dialing }.call (.onPhaseChange .connecting) closes = called := ⟨_, rfl⟩
  have hsound : Sound delays called := hcalled ▸
    hdialing.announce .connecting closes
  have hdials : called.dials = 0 := by
    rw [← hcalled, World.call, closeTimes_dials]
    exact hidle.1
  have hends : called.phase = .dialing ∨ called.phase = .closed := by
    rw [← hcalled, World.call, closeTimes_phase]
    split
    · exact .inl rfl
    · exact .inr rfl
  rw [World.connect, if_neg hphase, hcalled]
  refine ⟨?_, hsound.gone, hsound.current, hsound.bounded, hsound.armed, hsound.reset⟩
  have howned := hsound.owned
  rcases hends with hphase | hphase
  · simp only [Owned, hphase] at howned ⊢
    simpa [hdials] using howned.2
  · simp only [Owned, hphase] at howned ⊢
    simpa [hdials] using howned.2

theorem sound_start : Sound delays (({ delay := delays.base } : World).connect 0) := by
  refine Sound.connect ⟨?_, ?_, ?_, ?_, ?_, ?_⟩ ⟨rfl, rfl, rfl⟩ (by simp) 0
  · exact ⟨Nat.zero_le 1, rfl, rfl⟩
  · simp
  · simp
  · exact ⟨Nat.min_le_left _ _, Nat.le_max_left _ _⟩
  · simp
  · simp

/-- The current socket, its phase, and what else is there while it is. -/
theorem Sound.of_current
    (h : Sound delays w)
    {socket : Nat}
    (hcurrent : w.current socket) :
    w.dials = 0 ∧ w.live = [socket] ∧ w.timers = [] ∧ socket + 1 = w.created := by
  have howned := h.owned
  rcases hcurrent with hphase | hphase
  · simpa only [Owned, hphase] using howned
  · simpa only [Owned, hphase] using howned

/-- Every step keeps the invariant. -/
theorem Sound.step
    (h : Sound delays w)
    (label : Label)
    (hstep : step delays w label = some next) :
    Sound delays next := by
  have howned := h.owned
  -- A dial in flight is the only thing there is.
  have hdialing : w.dials ≠ 0 → w.dials = 1 ∧ w.live = [] ∧ w.timers = [] ∧
      (w.phase = .dialing ∨ w.phase = .closed) := by
    intro hdials
    rw [Owned] at howned
    split at howned
    · rename_i hphase
      exact ⟨by omega, howned.2.1, howned.2.2, .inl hphase⟩
    · exact absurd howned.1 hdials
    · exact absurd howned.1 hdials
    · exact absurd howned.1 hdials
    · rename_i hphase
      exact ⟨by omega, howned.2.1, howned.2.2, .inr hphase⟩
  have hsettled : w.dials ≠ 0 → Sound delays { w with dials := w.dials - 1 } := by
    intro hdials
    obtain ⟨hone, hlive, htimers, hphase⟩ := hdialing hdials
    refine ⟨?_, h.gone, h.current, h.bounded, h.armed, h.reset⟩
    rcases hphase with hphase | hphase <;> simp [Owned, hphase, hone, hlive, htimers]
  cases label with
  | urlBuilt throws =>
      rw [Reconnecting.step] at hstep
      split at hstep
      · cases hstep
      · rename_i hdials
        obtain ⟨hone, hlive, htimers, -⟩ := hdialing hdials
        dsimp only at hstep
        split at hstep
        · rename_i hbuilt
          cases hstep
          have hopen : w.retired ≠ true := fun hretired =>
            nomatch hbuilt.1.symm.trans (h.gone.1 hretired)
          refine ⟨?_, ?_, h.current, h.bounded, h.armed, ?_⟩
          · simp [Owned, hone, hlive, htimers]
          · simp [hopen]
          · exact fun socket heq => nomatch heq
        · cases hstep
          exact hsettled hdials
  | urlFailed closes =>
      rw [Reconnecting.step] at hstep
      split at hstep
      · cases hstep
      · rename_i hdials
        obtain ⟨hone, hlive, htimers, hphase⟩ := hdialing hdials
        cases hstep
        split
        · exact hsettled hdials
        · rename_i hopen
          have hphase : w.phase = .dialing := hphase.resolve_right hopen
          have hscheduled := h.scheduleReconnect htimers
            ⟨hopen, fun timer heq => nomatch hphase.symm.trans heq⟩ closes
          rw [hone, hlive]
          exact hscheduled
  | timer id closes =>
      rw [Reconnecting.step] at hstep
      split at hstep
      · rename_i hpending
        cases hstep
        cases hphase : w.phase with
        | reconnecting timer =>
            simp only [Owned, hphase] at howned
            obtain ⟨hdials, hlive, delay, htimers⟩ := howned
            have hid : timer = id := by simpa [htimers, eq_comm] using hpending
            have hrest : (w.timers.filter fun t => t.id != id) = [] := by
              simp [htimers, hid]
            have hfired : Sound delays { w with
                timers := w.timers.filter fun t => t.id != id, phase := .dialing } := by
              have hopen : w.retired ≠ true := fun hretired =>
                nomatch hphase.symm.trans (h.gone.1 hretired)
              refine ⟨?_, ?_, h.current, h.bounded, ?_, ?_⟩
              · simp [Owned, hdials, hlive, hrest]
              · simp [hopen]
              · simp [hrest]
              · exact fun socket heq => nomatch heq
            have hconnect := hfired.connect ⟨hdials, hlive, hrest⟩ (fun heq => nomatch heq) closes
            simpa [World.connect, hphase] using hconnect
        | dialing => simp [Owned, hphase] at howned; simp [howned] at hpending
        | connecting socket => simp [Owned, hphase] at howned; simp [howned] at hpending
        | opened socket => simp [Owned, hphase] at howned; simp [howned] at hpending
        | closed => simp [Owned, hphase] at howned; simp [howned] at hpending
      · cases hstep
  | opened socket closes closesAfter =>
      cases hstep
      split
      · rename_i hphase
        obtain ⟨hdials, hlive, htimers, hcreated⟩ := h.of_current (.inr hphase)
        have hopened : Sound delays { w with phase := .opened socket, delay := delays.base } := by
          have hopen : w.retired ≠ true := fun hretired =>
            nomatch hphase.symm.trans (h.gone.1 hretired)
          refine ⟨⟨hdials, hlive, htimers, hcreated⟩, ?_, h.current, ?_, h.armed, ?_⟩
          · simp [hopen]
          · exact ⟨Nat.min_le_left _ _, Nat.le_max_left _ _⟩
          · exact fun _ _ => rfl
        have hcalled := hopened.call (.onOpen socket)
          (fun s hs => Option.some.inj hs ▸ hcreated) closes
        exact hcalled.announce .opened closesAfter
      · exact h
  | message socket data closes =>
      cases hstep
      split
      · rename_i hcurrent
        have hcreated := (h.of_current hcurrent).2.2.2
        exact h.call (.onMessage socket data)
          (fun s hs => Option.some.inj hs ▸ hcreated) closes
      · exact h
  | closed socket closes =>
      cases hstep
      split
      · rename_i hcurrent
        obtain ⟨hdials, hlive, htimers, -⟩ := h.of_current hcurrent
        have hphase : w.phase ≠ .closed ∧ ∀ timer, w.phase ≠ .reconnecting timer := by
          rcases hcurrent with hphase | hphase <;> simp [hphase]
        have hscheduled := h.scheduleReconnect htimers hphase closes
        rw [← hdials] at hscheduled
        rw [hlive, List.erase_cons_head]
        exact hscheduled
      · rename_i hother
        have hlive : w.live.erase socket = w.live := by
          refine List.erase_of_not_mem fun hmem => ?_
          rw [Owned] at howned
          split at howned
          · simp [howned.2.1] at hmem
          · rename_i current hphase
            rw [howned.2.1, List.mem_singleton] at hmem
            exact hother (.inr (hmem ▸ hphase))
          · rename_i current hphase
            rw [howned.2.1, List.mem_singleton] at hmem
            exact hother (.inl (hmem ▸ hphase))
          · simp [howned.2.1] at hmem
          · simp [howned.2.1] at hmem
        rw [hlive]
        exact h
  | errored socket =>
      cases hstep
      exact h
  | send data =>
      rw [Reconnecting.step] at hstep
      split at hstep
      · cases hstep
        exact ⟨h.owned, h.gone, h.current, h.bounded, h.armed, h.reset⟩
      · cases hstep
        exact h
  | close =>
      cases hstep
      exact h.close

/-! ## After `close` -/

theorem final_note
    (h : Final w)
    {callback : Callback}
    (hopen : w.retired = true → callback = .onPhaseChange .closed) :
    Final (w.note callback) := by
  intro call hcall
  rcases List.mem_append.1 hcall with hold | hnew
  · exact h call hold
  · rw [List.mem_singleton.1 hnew]
    exact hopen

theorem close_retired (w : World) : w.close.retired = true := by
  cases hphase : w.phase <;> simp [World.close, World.note, hphase]

theorem close_calls (w : World) :
    w.close.calls = w.calls ++ [⟨.onPhaseChange .closed, w.created, true⟩] := by
  cases hphase : w.phase <;> simp [World.close, World.note, hphase]

theorem final_close (h : Final w) : Final w.close := by
  intro call hcall
  rw [close_calls] at hcall
  rcases List.mem_append.1 hcall with hold | hnew
  · exact h call hold
  · rw [List.mem_singleton.1 hnew]
    exact fun _ => rfl

theorem final_closeTimes (h : Final w) (closes : Nat) : Final (w.closeTimes closes) := by
  induction closes generalizing w with
  | zero => exact h
  | succ closes ih => exact ih (final_close h)

theorem final_call
    (h : Final w)
    (hopen : w.retired = false)
    (callback : Callback) (closes : Nat) :
    Final (w.call callback closes) :=
  final_closeTimes (final_note h fun hretired => nomatch hopen.symm.trans hretired) closes

theorem closeTimes_retired (w : World) (closes : Nat) :
    (w.closeTimes closes).retired = (w.retired || closes != 0) := by
  induction closes generalizing w with
  | zero => simp [World.closeTimes]
  | succ closes ih => simp [World.closeTimes, ih, close_retired]

theorem mem_calls_closeTimes {call : Call} (hcall : call ∈ w.calls) (closes : Nat) :
    call ∈ (w.closeTimes closes).calls := by
  induction closes generalizing w with
  | zero => exact hcall
  | succ closes ih => exact ih (close_calls w ▸ List.mem_append_left _ hcall)

/-- Unless the socket is closed for good, `close` was not called. -/
theorem Sound.open_of_phase (h : Sound delays w) (hphase : w.phase ≠ .closed) :
    w.retired = false := by
  cases hretired : w.retired with
  | false => rfl
  | true => exact absurd (h.gone.1 hretired) hphase

theorem final_scheduleReconnect
    (h : Final w)
    (hopen : w.retired = false)
    (closes : Nat) :
    Final (w.scheduleReconnect delays closes) := by
  rw [World.scheduleReconnect]
  refine final_call ?_ ?_ (.onPhaseChange .reconnecting) closes
  · exact h
  · exact hopen

theorem final_connect
    (h : Final w)
    (hopen : w.retired = false)
    (closes : Nat) :
    Final (w.connect closes) := by
  rw [World.connect]
  split
  · exact h
  · have hdialing : Final { w with phase := .dialing } := h
    exact final_call hdialing hopen (.onPhaseChange .connecting) closes

/-- A step runs another callback after `close` exactly if the callback of an open closes the
socket: the open phase is reported after it. -/
theorem final_step_iff
    (h : Sound delays w)
    (hfinal : Final w)
    (label : Label)
    (hstep : step delays w label = some next) :
    Final next ↔ OpenKept w label := by
  cases label with
  | urlBuilt throws =>
      refine iff_of_true ?_ trivial
      rw [Reconnecting.step] at hstep
      split at hstep
      · cases hstep
      · dsimp only at hstep
        split at hstep
        · cases hstep
          exact hfinal
        · cases hstep
          exact hfinal
  | urlFailed closes =>
      refine iff_of_true ?_ trivial
      rw [Reconnecting.step] at hstep
      split at hstep
      · cases hstep
      · cases hstep
        split
        · exact hfinal
        · rename_i hphase
          have hsettled : Final { w with dials := w.dials - 1 } := hfinal
          exact final_scheduleReconnect hsettled (h.open_of_phase hphase) closes
  | timer id closes =>
      refine iff_of_true ?_ trivial
      rw [Reconnecting.step] at hstep
      split at hstep
      · rename_i hpending
        cases hstep
        have hphase : w.phase ≠ .closed := by
          intro hphase
          have howned := h.owned
          simp only [Owned, hphase] at howned
          simp [howned.2.2] at hpending
        have hfired : Final { w with timers := w.timers.filter fun t => t.id != id } := hfinal
        exact final_connect hfired (h.open_of_phase hphase) closes
      · cases hstep
  | opened socket closes closesAfter =>
      cases hstep
      split
      · rename_i hphase
        have hopen := h.open_of_phase (by simp [hphase])
        have hopened : Final { w with phase := .opened socket, delay := delays.base } := hfinal
        constructor
        · intro hnext _
          by_contra hcloses
          have hretired := hnext _ (mem_calls_closeTimes
            (List.mem_append_right _ (List.mem_singleton_self _)) closesAfter)
          rw [World.call, closeTimes_retired] at hretired
          exact nomatch hretired (by simp [hcloses])
        · intro hkept
          have hcloses : closes = 0 := hkept hphase
          subst hcloses
          exact final_call (final_call hopened hopen (.onOpen socket) 0) hopen
            (.onPhaseChange .opened) closesAfter
      · rename_i hphase
        exact iff_of_true hfinal fun heq => absurd heq hphase
  | message socket data closes =>
      refine iff_of_true ?_ trivial
      cases hstep
      split
      · rename_i hcurrent
        have hphase : w.phase ≠ .closed := by
          rcases hcurrent with hphase | hphase <;> simp [hphase]
        exact final_call hfinal (h.open_of_phase hphase) (.onMessage socket data) closes
      · exact hfinal
  | closed socket closes =>
      refine iff_of_true ?_ trivial
      cases hstep
      have hclosed : Final { w with live := w.live.erase socket } := hfinal
      split
      · rename_i hcurrent
        have hphase : w.phase ≠ .closed := by
          rcases hcurrent with hphase | hphase <;> simp [hphase]
        exact final_scheduleReconnect hclosed (h.open_of_phase hphase) closes
      · exact hclosed
  | errored socket =>
      cases hstep
      exact iff_of_true hfinal trivial
  | send data =>
      refine iff_of_true ?_ trivial
      rw [Reconnecting.step] at hstep
      split at hstep
      · cases hstep
        exact hfinal
      · cases hstep
        exact hfinal
  | close =>
      cases hstep
      exact iff_of_true (final_close hfinal) trivial

end Steps

/--
For every run of socket events, dial completions, timers and calls: the promises of the
socket hold in every state if and only if no callback of an open closes the socket.
-/
theorem reconnecting_socket_iff
    (delays : Delays)
    (run : List Label) :
    (machine delays).Admits (fun w label => ∀ next ∈ (machine delays).step w label,
        Orderly delays next) (({ delay := delays.base } : World).connect 0) run ↔
      (machine delays).Admits OpenKept (({ delay := delays.base } : World).connect 0) run := by
  have hfinal : Final (({ delay := delays.base } : World).connect 0) :=
    final_connect (fun call hcall => absurd hcall List.not_mem_nil) rfl 0
  refine (machine delays).admits_iff_within (J := Sound delays) (I := Orderly delays)
    (fun w label next h hstep => h.step label hstep) ?_ ?_ run sound_start
    (sound_start.orderly hfinal)
  · intro w label next h horderly hstep
    rw [← final_step_iff h horderly.retired label hstep]
    exact ⟨fun hnext => hnext.retired, (h.step label hstep).orderly⟩
  · intro w label h _ hstuck
    cases label with
    | opened socket closes closesAfter => cases hstuck
    | _ => trivial

/-- The consumer closes the socket when it opens, and is told afterwards that it is open. -/
theorem reconnecting_socket_after_close :
    ((machine {}).runTo (({ delay := 1000 } : World).connect 0)
      [.urlBuilt false, .opened 0 1 0]).calls.map (fun call => (call.callback, call.retired)) =
        [(.onPhaseChange .connecting, false), (.onOpen 0, false),
          (.onPhaseChange .closed, true), (.onPhaseChange .opened, true)] ∧
      ¬Orderly {} ((machine {}).runTo (({ delay := 1000 } : World).connect 0)
        [.urlBuilt false, .opened 0 1 0]) := by
  refine ⟨by decide, fun h => ?_⟩
  have hcall := h.retired ⟨.onPhaseChange .opened, 1, true⟩ (by decide) rfl
  cases hcall

end Reconnecting
end Transport
end Core
end Vesta
