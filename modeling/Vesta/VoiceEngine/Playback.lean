import Mathlib.Data.List.Perm.Basic
import Mathlib.Data.List.Sublists
import Vesta.VoiceEngine.Turns

/-!
# The spoken replies of a voice session

A reply is a play.  It goes to the client at once or is held while the user holds
the floor.  The session keeps its audio in a map under a token of its own until
the speaker is done with it, a stop names it, or its synthesis fails while it is
held.  With bytes delivery a sender of its own takes the plays from a queue.

One loop handles one item after the other.  `todo` is what is left of the item at
hand: between two pieces the sender and the syntheses go on.  `Delivered` is what
the session promises, and `plays_delivered_iff` says that it holds on exactly the
runs that `Fits` admits: a stop finds at most one play running and none that
ended before it started, and no play is forgotten while its frame goes out.
-/

namespace Vesta
namespace VoiceEngine
namespace Playback

open Lib

/-! ## The state of the speaker -/

/-- The tokens number the plays of a session in the order of their `speak` frames. -/
structure Play where
  id : Text
  text : Text
  token : Nat
  started : Bool
  isOver : Bool
deriving DecidableEq, Repr

structure PlaybackState where
  sent : List Play
  held : List Play
deriving DecidableEq, Repr

inductive Status
  | started
  | finished
  | failed
deriving DecidableEq, Repr

/-- A play that runs: it started and is not over. -/
def Play.running (play : Play) : Bool :=
  play.started && !play.isOver

namespace PlaybackState

/-- The plays to send now are none while the user holds the floor. -/
def speak (state : PlaybackState) (play : Play) (hold : Bool) : PlaybackState × List Play :=
  if hold then ({ state with held := state.held ++ [play] }, [])
  else ({ state with sent := state.sent ++ [play] }, [play])

def release (state : PlaybackState) : PlaybackState × List Play :=
  (⟨state.sent ++ state.held, []⟩, state.held)

/-- A report is about the oldest sent play of its id that is not over. -/
def target (state : PlaybackState) (id : Text) : Option Play :=
  state.sent.find? fun play => play.id == id && !play.isOver

def mark (status : Status) (play : Play) : Play :=
  match status with
  | .started => { play with started := true }
  | _ => { play with isOver := true }

def report (state : PlaybackState) (id : Text) (status : Status) :
    PlaybackState × Option Play :=
  match state.target id with
  | none => (state, none)
  | some target =>
      let sent :=
        state.sent.map fun play => if play.token = target.token then mark status target else play
      ({ state with sent := if sent.all Play.isOver then [] else sent },
        if status = .started then none else some target)

/-- A held play whose synthesis failed never reaches the client. -/
def dropHeld (state : PlaybackState) (token : Nat) : PlaybackState × Bool :=
  let held := state.held.filter fun play => play.token != token
  ({ state with held := held }, held.length < state.held.length)

def speaking (state : PlaybackState) : Bool :=
  state.sent.any Play.started

def saying (state : PlaybackState) : Option Play :=
  state.sent.find? Play.running

end PlaybackState

/-- The play that was cut, and those with no `started` report. -/
structure Stop where
  sent : List Play
  cut : Option Play
  dropped : List Play
deriving DecidableEq, Repr

def PlaybackState.stop (state : PlaybackState) : Stop where
  sent := state.sent
  cut := state.saying
  dropped := state.sent.filter fun play => !play.started

/-! ## The session -/

inductive Delivery
  | url
  | bytes
deriving DecidableEq, Repr

inductive Frame
  | play (play : Play)
  | playDone (play : Play)
  | stopPlayback (id : Option Text) (dropped : List Text)
  | turn (action : Turns.Action)
  | error (id : Text)
deriving DecidableEq, Repr

/-- Where the byte sender stands: at its queue, at the `play` frame, or in the bytes. -/
inductive Sender
  | waiting
  | opening (play : Play)
  | reading (play : Play)
  | failed
deriving DecidableEq, Repr

inductive Outcome
  | ended
  | engineFailed
deriving DecidableEq, Repr

/-- A synthesis task; one that fails tells the loop. -/
structure Synthesis where
  play : Play
  running : Bool
deriving DecidableEq, Repr

/-- What is left to do of an item. -/
inductive Task
  | act (action : Turns.Action)
  | forget (token : Nat)
  | announce (id : Option Text) (dropped : List Text)
deriving DecidableEq, Repr

/-- `plays` is the session's part of the shared map, and `failures` the plays whose failed synthesis
the loop has not handled.  `handed` has the tokens of the plays that went to the connection or to
the queue, `refused` those whose synthesis failed while they were held. -/
structure World where
  turn : Turns.TurnState
  speaker : PlaybackState
  plays : List Nat
  synthesis : List Synthesis
  failures : List Play
  queue : List Play
  sender : Sender
  todo : List Task
  frames : List Frame
  outcome : Option Outcome
  serial : Nat
  handed : List Nat
  refused : List Nat
  stops : List Stop

inductive Label
  | speak (id text : Text)
  | report (id : Text) (status : Status)
  | turn (event : Turns.TurnEvent) (bargeIn : Bool) (now : Nat)
  | synthFailed
  | taskFailed
  | finish
  | go
  | synthesized (token : Nat) (failed : Bool)
  | send
deriving DecidableEq, Repr

section Session

variable (delivery : Delivery)

namespace World

def sendPlays (w : World) (plays : List Play) : World :=
  let handed := w.handed ++ plays.map Play.token
  match delivery with
  | .bytes => { w with handed := handed, queue := w.queue ++ plays }
  | .url => { w with handed := handed, frames := w.frames ++ plays.map .play }

def onSpeak (w : World) (id text : Text) : World :=
  let play : Play := ⟨id, text, w.serial, false, false⟩
  let spoken := w.speaker.speak play (w.turn.phase = .userTurn)
  World.sendPlays delivery
    { w with
      plays := w.plays ++ [w.serial]
      synthesis := w.synthesis ++ [⟨play, true⟩]
      serial := w.serial + 1
      speaker := spoken.1 }
    spoken.2

def onReport (w : World) (id : Text) (status : Status) : World :=
  let reported := w.speaker.report id status
  { w with
    speaker := reported.1
    todo := reported.2.toList.map fun play => .forget play.token }

def onTurn (w : World) (event : Turns.TurnEvent) (bargeIn : Bool) (now : Nat) : World :=
  let next := Turns.step w.turn event ⟨w.speaker.speaking, bargeIn, now⟩
  { w with turn := next.1, todo := next.2.map .act }

/-- The play stays with the client, unless it is still held. -/
def onSynthFailed (w : World) (play : Play) (failures : List Play) : World :=
  let dropped := w.speaker.dropHeld play.token
  { w with
    speaker := dropped.1
    failures := failures
    frames := w.frames ++ [.error play.id]
    refused := if dropped.2 then w.refused ++ [play.token] else w.refused
    todo := if dropped.2 then [.forget play.token] else [] }

/-- The end of a play: its synthesis stops, and its token is unknown from then on. -/
def forget (w : World) (token : Nat) : World :=
  { w with
    synthesis := w.synthesis.filter fun task => task.play.token != token
    plays := w.plays.filter (· != token) }

def releaseHeld (w : World) : World :=
  let released := w.speaker.release
  World.sendPlays delivery { w with speaker := released.1 } released.2

/-- The sender ends with the plays of its queue, and another one starts. -/
def stopPlayback (w : World) (rest : List Task) : World :=
  let stop := w.speaker.stop
  { w with
    speaker := { w.speaker with sent := [] }
    queue := []
    sender := .waiting
    stops := w.stops ++ [stop]
    todo :=
      (stop.cut.toList ++ stop.dropped).map (fun play => .forget play.token) ++
        .announce (stop.cut.map Play.id) (stop.dropped.map Play.id) :: rest }

def run (w : World) (rest : List Task) : Task → World
  | .forget token => { w.forget token with todo := rest }
  | .announce id dropped =>
      { w with frames := w.frames ++ [.stopPlayback id dropped], todo := rest }
  | .act .stopNow => w.stopPlayback rest
  | .act (.turnEnd text) =>
      World.releaseHeld delivery
        { w with frames := w.frames ++ [.turn (.turnEnd text)], todo := rest }
  | .act (.turnDropped text kind) =>
      World.releaseHeld delivery
        { w with frames := w.frames ++ [.turn (.turnDropped text kind)], todo := rest }
  | .act action => { w with frames := w.frames ++ [.turn action], todo := rest }

def synthesizing (w : World) (token : Nat) : Bool :=
  w.synthesis.any fun task => task.play.token == token && task.running

/-- A synthesis is over. -/
def onSynthesized (w : World) (play : Play) (failed : Bool) : World :=
  { w with
    synthesis :=
      w.synthesis.map fun task =>
        if task.play.token = play.token then { task with running := false } else task
    failures := if failed then w.failures ++ [play] else w.failures }

/-- The byte sender goes on from where it stands. -/
def send (w : World) : Option World :=
  match w.sender with
  | .waiting =>
      match w.queue with
      | play :: queue =>
          if w.plays.contains play.token then
            some
              { w with
                queue := queue
                sender := .opening play
                frames := w.frames ++ [.play play] }
          else some { w with queue := queue }
      | [] => none
  | .opening play =>
      if w.plays.contains play.token then some { w with sender := .reading play }
      else some { w with sender := .failed }
  | .reading play =>
      if w.synthesizing play.token then none
      else some { w with sender := .waiting, frames := w.frames ++ [.playDone play] }
  | .failed => none

/-- The session closes: its tasks end, and what it still has in the map goes. -/
def close (w : World) (outcome : Outcome) : World :=
  { w with
    outcome := some outcome
    queue := []
    sender := .waiting
    todo := []
    plays := w.plays.filter fun token => !w.synthesis.any fun task => task.play.token == token }

/-- An item that the loop takes when the one before is done. -/
def handle (w : World) : Label → Option World
  | .speak id text => some (w.onSpeak delivery id text)
  | .report id status => some (w.onReport id status)
  | .turn event bargeIn now => some (w.onTurn event bargeIn now)
  | .synthFailed =>
      match w.failures with
      | play :: failures => some (w.onSynthFailed play failures)
      | [] => none
  | .taskFailed => if w.sender = .failed then some (w.close .engineFailed) else none
  | .finish => some (w.close .ended)
  | _ => none

attribute [grind =] handle

end World

def step (w : World) (label : Label) : Option World :=
  if w.outcome.isSome then none
  else
    match label, w.todo with
    | .go, task :: rest => some (w.run delivery rest task)
    | .synthesized k failed, _ =>
        match w.synthesis[k]? with
        | some task => if task.running then some (w.onSynthesized task.play failed) else none
        | none => none
    | .send, _ => w.send
    | label, [] => w.handle delivery label
    | _, _ => none

end Session

def initial : World where
  turn := .fresh
  speaker := ⟨[], []⟩
  plays := []
  synthesis := []
  failures := []
  queue := []
  sender := .waiting
  todo := []
  frames := []
  outcome := none
  serial := 0
  handed := []
  refused := []
  stops := []

def machine (delivery : Delivery) : Machine World Label where
  start w := w = initial
  step := step delivery

/-! ## What the session promises -/

/-- The play that a `play` frame is of. -/
def Frame.token : Frame → Option Nat
  | .play sent => some sent.token
  | _ => none

def World.played (w : World) : List Nat :=
  w.frames.filterMap Frame.token

def unfinished (plays : List Play) : List Play :=
  plays.filter fun play => !play.isOver

/-- A stop names the plays that are not over, each once. -/
def Stop.Exact (stop : Stop) : Prop :=
  (stop.cut.toList ++ stop.dropped).Perm (unfinished stop.sent)

/-- The tokens that the session should have in the map. -/
def PlaybackState.open (state : PlaybackState) : List Nat :=
  (state.held ++ unfinished state.sent).map Play.token

/-- `todo = []` says that the loop is between two items. -/
structure Delivered (w : World) : Prop where
  held : w.outcome = none → w.todo = [] → w.speaker.held ≠ [] → w.turn.phase = .userTurn
  order : w.handed.Pairwise (· < ·)
  given : ∀ token < w.serial,
    token ∈ w.handed ∨ token ∈ w.speaker.held.map Play.token ∨ token ∈ w.refused
  played : w.played.Sublist w.handed
  stops : ∀ stop ∈ w.stops, stop.Exact
  map : w.outcome = none → w.todo = [] → ∀ token, token ∈ w.plays ↔ token ∈ w.speaker.open
  closed : w.outcome.isSome = true → w.plays = []
  alive : w.outcome ≠ some .engineFailed ∧ w.sender ≠ .failed

/-- At most one sent play runs, and each that is over had started. -/
def Settled (sent : List Play) : Bool :=
  sent.all (fun play => !play.isOver || play.started) && (sent.filter Play.running).length ≤ 1

def stopsNow : List Task → Bool
  | .act .stopNow :: _ => true
  | _ => false

/-- A stop finds the sent plays settled, and the sender's play is still in the map after its
`play` frame. -/
def Fits (w : World) : Label → Prop
  | .go => stopsNow w.todo = true → Settled w.speaker.sent = true
  | .send => ∀ play, w.sender = .opening play → w.plays.contains play.token = true
  | _ => True

/-! ## Stops and reports -/

section Speaker

variable {state : PlaybackState}

theorem cut_toList (sent : List Play) :
    (sent.find? Play.running).toList = (sent.filter Play.running).take 1 := by
  rw [← List.head?_filter]
  cases sent.filter Play.running <;> rfl

/-- The sent plays that are not over, the running ones before the others. -/
theorem unfinished_perm (sent : List Play) :
    (sent.filter Play.running ++ sent.filter fun play => !play.started && !play.isOver).Perm
      (unfinished sent) := by
  have hperm := List.filter_append_perm Play.started (unfinished sent)
  simp only [unfinished, List.filter_filter] at hperm
  exact hperm

theorem settled_iff
    {sent : List Play} :
    Settled sent = true ↔
      (∀ play ∈ sent, play.isOver = true → play.started = true) ∧
        (sent.filter Play.running).length ≤ 1 := by
  have himp (play : Play) :
      (!play.isOver || play.started) = true ↔ (play.isOver = true → play.started = true) := by
    cases play.isOver <;> simp
  simp only [Settled, Bool.and_eq_true, List.all_eq_true, himp, decide_eq_true_eq]

/-- A stop is exact when the sent plays are settled, and only then. -/
theorem exact_iff_settled :
    state.stop.Exact ↔ Settled state.sent = true := by
  have hsplit := unfinished_perm state.sent
  rw [settled_iff]
  simp only [Stop.Exact, PlaybackState.stop, PlaybackState.saying, cut_toList]
  constructor
  · intro hexact
    have hstarted : ∀ play ∈ state.sent, play.isOver = true → play.started = true := by
      intro play hplay hover
      by_contra hnot
      have hmem : play ∈ unfinished state.sent := by
        refine hexact.mem_iff.1 (List.mem_append_right _ (List.mem_filter.2 ⟨hplay, ?_⟩))
        simpa using hnot
      simp [unfinished, hover] at hmem
    refine ⟨hstarted, ?_⟩
    have hdropped :
        (state.sent.filter fun play => !play.started) =
          state.sent.filter fun play => !play.started && !play.isOver := by
      refine List.filter_congr fun play hplay => ?_
      cases hover : play.isOver with
      | false => simp
      | true => simp [hstarted play hplay hover]
    have hlength := (hexact.trans hsplit.symm).length_eq
    rw [hdropped, List.length_append, List.length_append, List.length_take] at hlength
    omega
  · rintro ⟨hstarted, hone⟩
    have hdropped :
        (state.sent.filter fun play => !play.started) =
          state.sent.filter fun play => !play.started && !play.isOver := by
      refine List.filter_congr fun play hplay => ?_
      cases hover : play.isOver with
      | false => simp
      | true => simp [hstarted play hplay hover]
    rw [hdropped, List.take_of_length_le hone]
    exact hsplit

theorem mem_open
    {token : Nat} :
    token ∈ state.open ↔
      token ∈ state.held.map Play.token ∨ token ∈ (unfinished state.sent).map Play.token := by
  simp [PlaybackState.open]

theorem mem_tokens_unfinished
    {plays : List Play} {token : Nat} :
    token ∈ (unfinished plays).map Play.token ↔
      ∃ play ∈ plays, play.isOver = false ∧ play.token = token := by
  simp [unfinished, and_assoc]

theorem token_mark
    (status : Status)
    (play : Play) :
    (PlaybackState.mark status play).token = play.token := by
  cases status <;> rfl

theorem over_mark
    (status : Status)
    (play : Play) :
    (PlaybackState.mark status play).isOver = (play.isOver || decide (status ≠ .started)) := by
  cases status <;> simp [PlaybackState.mark]

theorem unfinished_ite
    (sent : List Play) :
    unfinished (if sent.all Play.isOver then [] else sent) = unfinished sent := by
  split
  · next hall =>
      refine (List.filter_eq_nil_iff.2 fun play hplay => ?_).symm
      simp [List.all_eq_true.1 hall play hplay]
  · rfl

/-- What a report leaves: the plays that it is not about, and nothing of one that it ends. -/
theorem report_spec
    (state : PlaybackState)
    (id : Text)
    (status : Status) :
    ((state.report id status).1.sent.map Play.token).Sublist (state.sent.map Play.token) ∧
      (state.report id status).1.held = state.held ∧
      (∀ play, (state.report id status).2 = some play →
        play.token ∈ (unfinished state.sent).map Play.token) ∧
      ∀ token, token ∈ (unfinished (state.report id status).1.sent).map Play.token ↔
        token ∈ (unfinished state.sent).map Play.token ∧
          ∀ play, (state.report id status).2 = some play → token ≠ play.token := by
  unfold PlaybackState.report
  cases htarget : state.target id with
  | none => exact ⟨List.Sublist.refl _, rfl, by simp, by simp⟩
  | some target =>
      have hmem : target ∈ state.sent := List.mem_of_find?_eq_some htarget
      have hover : target.isOver = false := by
        have hfound := List.find?_some htarget
        simp only [Bool.and_eq_true, Bool.not_eq_true'] at hfound
        exact hfound.2
      have hopen : target.token ∈ (unfinished state.sent).map Play.token :=
        List.mem_map_of_mem (List.mem_filter.2 ⟨hmem, by simp [hover]⟩)
      have htokens :
          (state.sent.map fun play =>
            if play.token = target.token then PlaybackState.mark status target else play).map
              Play.token = state.sent.map Play.token := by
        rw [List.map_map]
        refine List.map_congr_left fun play _ => ?_
        simp only [Function.comp_apply]
        split
        · next hsame => rw [token_mark, hsame]
        · rfl
      refine ⟨?_, rfl, ?_, ?_⟩
      · dsimp only
        split
        · exact List.nil_sublist _
        · exact htokens ▸ List.Sublist.refl _
      · intro play hplay
        dsimp only at hplay
        split at hplay
        · cases hplay
        · obtain rfl := Option.some.inj hplay
          exact hopen
      · intro token
        dsimp only
        rw [unfinished_ite, mem_tokens_unfinished, mem_tokens_unfinished]
        constructor
        · rintro ⟨play', hplay', hopen', rfl⟩
          obtain ⟨play, hplay, rfl⟩ := List.mem_map.1 hplay'
          by_cases hsame : play.token = target.token
          · rw [if_pos hsame] at hopen' ⊢
            have hstarted : status = .started := by
              simpa [over_mark, hover] using hopen'
            rw [token_mark, if_pos hstarted]
            exact ⟨⟨target, hmem, hover, rfl⟩, by simp⟩
          · rw [if_neg hsame] at hopen' ⊢
            refine ⟨⟨play, hplay, hopen', rfl⟩, ?_⟩
            intro other hother
            split at hother
            · cases hother
            · exact Option.some.inj hother ▸ hsame
        · rintro ⟨⟨play, hplay, hopen', rfl⟩, hother⟩
          refine ⟨_, List.mem_map_of_mem hplay, ?_⟩
          by_cases hsame : play.token = target.token
          · rw [if_pos hsame]
            have hstarted : status = .started := by
              by_contra hnot
              exact hother target (if_neg hnot) hsame
            exact ⟨by simp [over_mark, hover, hstarted], by rw [token_mark, hsame]⟩
          · rw [if_neg hsame]
            exact ⟨hopen', rfl⟩

end Speaker

/-! ## What every admitted run keeps -/

def forgotten (todo : List Task) : List Nat :=
  todo.filterMap fun task =>
    match task with
    | .forget token => some token
    | _ => none

def Task.endsTurn : Task → Bool
  | .act (.turnEnd _) => true
  | .act (.turnDropped _ _) => true
  | _ => false

/-- What holds while the session is open. -/
structure Live (delivery : Delivery) (w : World) : Prop where
  order : (w.handed ++ w.speaker.held.map Play.token).Pairwise (· < ·)
  bound : ∀ token ∈ w.handed ++ w.speaker.held.map Play.token, token < w.serial
  sent : (w.speaker.sent.map Play.token).Sublist w.handed
  given : ∀ token < w.serial,
    token ∈ w.handed ∨ token ∈ w.speaker.held.map Play.token ∨ token ∈ w.refused
  queued : (w.played ++ w.queue.map Play.token).Sublist w.handed
  url : delivery = .url → w.queue = []
  fresh : ∀ play ∈ w.speaker.held, play.isOver = false
  held :
    w.speaker.held ≠ [] → w.turn.phase = .userTurn ∨ ∃ task ∈ w.todo, task.endsTurn = true
  once : (forgotten w.todo).Nodup
  apart : ∀ token ∈ forgotten w.todo, token ∉ w.speaker.open
  map : ∀ token, token ∈ w.plays ↔ token ∈ w.speaker.open ∨ token ∈ forgotten w.todo
  tasks : ∀ token ∈ w.plays, ∃ task ∈ w.synthesis, task.play.token = token
  stops : ∀ stop ∈ w.stops, stop.Exact
  alive : w.sender ≠ .failed

section Kept

variable {delivery : Delivery}
variable {w : World}

theorem Live.delivered
    (h : Live delivery w)
    (hopen : w.outcome = none) :
    Delivered w where
  held := by
    intro _ htodo hheld
    rcases h.held hheld with hphase | ⟨task, htask, -⟩
    · exact hphase
    · rw [htodo] at htask
      cases htask
  order := (List.pairwise_append.1 h.order).1
  given := h.given
  played := (List.sublist_append_left _ _).trans h.queued
  stops := h.stops
  map := by
    intro _ htodo token
    rw [h.map, htodo]
    simp [forgotten]
  closed := by simp [hopen]
  alive := ⟨by simp [hopen], h.alive⟩

theorem Live.nodup_open
    (h : Live delivery w) :
    (w.speaker.sent.map Play.token ++ w.speaker.held.map Play.token).Nodup := by
  have hsub := h.sent.append_right (w.speaker.held.map Play.token)
  exact (h.order.sublist hsub).imp Nat.ne_of_lt

/-- The session closes between two items. -/
theorem Live.close
    (h : Live delivery w) :
    Delivered (w.close .ended) where
  held := by simp [World.close]
  order := (List.pairwise_append.1 h.order).1
  given := h.given
  played := (List.sublist_append_left _ _).trans h.queued
  stops := h.stops
  map := by simp [World.close]
  closed := by
    intro _
    refine List.filter_eq_nil_iff.2 fun token htoken => ?_
    obtain ⟨task, htask, hsame⟩ := h.tasks token htoken
    simp only [Bool.not_eq_true', Bool.not_eq_false, List.any_eq_true]
    exact ⟨task, htask, by simp [hsame]⟩
  alive := ⟨by simp [World.close], by simp [World.close]⟩

/-! ### Sending plays -/

theorem filterMap_play (plays : List Play) :
    (plays.map Frame.play).filterMap Frame.token = plays.map Play.token := by
  rw [List.filterMap_map]
  exact congrFun (List.filterMap_eq_map (f := Play.token)) plays

/-- A frame that is no `play` frame. -/
theorem played_append_silent
    {frames : List Frame} {frame : Frame} {next : World}
    (hframes : next.frames = frames ++ [frame])
    (hsilent : frame.token = none := by rfl) :
    next.played = frames.filterMap Frame.token := by
  simp [World.played, hframes, hsilent]

/-- Plays that are sent go to the end of the frames or of the queue. -/
theorem Live.sendPlays
    {plays : List Play}
    (h : Live delivery { w with handed := w.handed ++ plays.map Play.token })
    (hqueued : (w.played ++ w.queue.map Play.token).Sublist w.handed) :
    Live delivery (w.sendPlays delivery plays) := by
  have hmore := hqueued.append_right (plays.map Play.token)
  cases delivery with
  | bytes =>
      refine { h with queued := ?_, url := nofun }
      simpa [World.sendPlays, World.played] using hmore
  | url =>
      have hqueue : w.queue = [] := h.url rfl
      refine { h with queued := ?_ }
      rw [hqueue, List.map_nil, List.append_nil] at hmore
      have hplayed :
          (w.sendPlays .url plays).played = w.played ++ plays.map Play.token := by
        rw [World.played, World.sendPlays, List.filterMap_append, filterMap_play]
        rfl
      rw [hplayed, show (w.sendPlays .url plays).queue = [] from hqueue, List.map_nil,
        List.append_nil]
      exact hmore

/-! ### The items -/

theorem forgotten_nil_of_map_act
    (actions : List Turns.Action) :
    forgotten (actions.map .act) = [] := by
  induction actions with
  | nil => rfl
  | cons action actions ih => exact ih

/-- A step out of the user's turn ends it. -/
theorem endsTurn_of_step
    {state : Turns.TurnState}
    (hphase : state.phase = .userTurn)
    (event : Turns.TurnEvent)
    (reading : Turns.Reading) :
    (Turns.step state event reading).1.phase = .userTurn ∨
      ∃ task ∈ (Turns.step state event reading).2.map Task.act, task.endsTurn = true := by
  cases event with
  | live text =>
      refine Or.inl ?_
      simp [Turns.step, Turns.onLive, hphase]
  | judged text verdict =>
      refine Or.inl ?_
      simp [Turns.step, Turns.onJudged, hphase]
  | committed text verdict =>
      refine Or.inr ?_
      simp only [Turns.step, Turns.onCommitted, Turns.committedActions, hphase]
      split
      · exact ⟨_, List.mem_cons_self, rfl⟩
      · split <;> exact ⟨_, List.mem_cons_self, rfl⟩
  | tick =>
      refine Or.inl ?_
      simp [Turns.step, Turns.onTick, hphase]
  | stoppedByUser =>
      refine Or.inl ?_
      simp [Turns.step, Turns.onStoppedByUser, hphase]
  | wake =>
      refine Or.inl ?_
      simp [Turns.step, Turns.onWake, hphase]

theorem Live.onTurn
    (h : Live delivery w)
    (htodo : w.todo = [])
    (event : Turns.TurnEvent)
    (bargeIn : Bool)
    (now : Nat) :
    Live delivery (w.onTurn event bargeIn now) := by
  have hforgotten : forgotten (w.onTurn event bargeIn now).todo = [] :=
    forgotten_nil_of_map_act _
  have hmap := h.map
  rw [htodo] at hmap
  refine { h with held := ?_, once := ?_, apart := ?_, map := ?_ }
  · intro hheld
    rcases h.held hheld with hphase | ⟨task, htask, -⟩
    · exact endsTurn_of_step hphase event _
    · rw [htodo] at htask
      cases htask
  · rw [hforgotten]
    exact List.nodup_nil
  · simp [hforgotten]
  · rw [hforgotten]
    exact hmap

theorem Live.onReport
    (h : Live delivery w)
    (htodo : w.todo = [])
    (id : Text)
    (status : Status) :
    Live delivery (w.onReport id status) := by
  obtain ⟨hsub, hheld, hended, hopen⟩ := report_spec w.speaker id status
  have hmap := h.map
  rw [htodo] at hmap
  have hforgotten :
      forgotten (w.onReport id status).todo =
        (w.speaker.report id status).2.toList.map Play.token := by
    simp only [World.onReport]
    cases (w.speaker.report id status).2 <;> rfl
  have hnodup := List.nodup_append.1 h.nodup_open
  have hmem (token : Nat) :
      token ∈ (w.onReport id status).speaker.open ↔
        token ∈ w.speaker.open ∧ token ∉ forgotten (w.onReport id status).todo := by
    rw [hforgotten, mem_open, mem_open]
    simp only [World.onReport, hheld, hopen]
    constructor
    · rintro (hheld' | ⟨hsent, hother⟩)
      · refine ⟨Or.inl hheld', fun hended' => ?_⟩
        obtain ⟨play, hplay, rfl⟩ := List.mem_map.1 hended'
        have hsent := hended play (by simpa using hplay)
        obtain ⟨other, hother, -, hsame⟩ := mem_tokens_unfinished.1 hsent
        exact hnodup.2.2 _ (List.mem_map_of_mem hother) _ hheld' hsame
      · refine ⟨Or.inr hsent, fun hended' => ?_⟩
        obtain ⟨play, hplay, rfl⟩ := List.mem_map.1 hended'
        exact hother play (by simpa using hplay) rfl
    · rintro ⟨hheld' | hsent, hnot⟩
      · exact Or.inl hheld'
      · refine Or.inr ⟨hsent, ?_⟩
        rintro play hplay rfl
        exact hnot (List.mem_map_of_mem (by simp [hplay]))
  refine { h with
    order := ?_, bound := ?_, sent := ?_, given := ?_, fresh := ?_, held := ?_, once := ?_,
    apart := ?_, map := ?_ }
  · rw [World.onReport, hheld]
    exact h.order
  · rw [World.onReport, hheld]
    exact h.bound
  · exact hsub.trans h.sent
  · rw [World.onReport, hheld]
    exact h.given
  · rw [World.onReport, hheld]
    exact h.fresh
  · rw [World.onReport, hheld]
    intro hne
    rcases h.held hne with hphase | ⟨task, htask, -⟩
    · exact Or.inl hphase
    · rw [htodo] at htask
      cases htask
  · rw [hforgotten]
    cases (w.speaker.report id status).2 <;> simp
  · exact fun token htoken hin => ((hmem token).1 hin).2 htoken
  · intro token
    rw [hmem]
    have hstill : token ∈ forgotten (w.onReport id status).todo → token ∈ w.speaker.open := by
      intro htoken
      rw [hforgotten] at htoken
      obtain ⟨play, hplay, rfl⟩ := List.mem_map.1 htoken
      exact mem_open.2 (Or.inr (hended play (by simpa using hplay)))
    have hbefore : token ∈ w.plays ↔ token ∈ w.speaker.open := by
      simpa [forgotten] using hmap token
    change token ∈ w.plays ↔ _
    rw [hbefore]
    by_cases hin : token ∈ forgotten (w.onReport id status).todo
    · simp [hin, hstill hin]
    · simp [hin]

theorem Live.onSpeak
    (h : Live delivery w)
    (htodo : w.todo = [])
    (id text : Text) :
    Live delivery (w.onSpeak delivery id text) := by
  have hmap (token : Nat) : token ∈ w.plays ↔ token ∈ w.speaker.open := by
    simpa [htodo, forgotten] using h.map token
  have htasks (token : Nat) (htoken : token ∈ w.plays ++ [w.serial]) :
      ∃ task ∈ w.synthesis ++ [⟨⟨id, text, w.serial, false, false⟩, true⟩],
        task.play.token = token := by
    rcases List.mem_append.1 htoken with htoken | htoken
    · obtain ⟨task, htask, hsame⟩ := h.tasks token htoken
      exact ⟨task, List.mem_append_left _ htask, hsame⟩
    · exact ⟨_, List.mem_append_right _ (List.mem_singleton.2 rfl),
        (List.mem_singleton.1 htoken).symm⟩
  have horder :
      (w.handed ++ w.speaker.held.map Play.token ++ [w.serial]).Pairwise (· < ·) := by
    refine List.pairwise_append.2 ⟨h.order, List.pairwise_singleton .., ?_⟩
    intro token htoken serial hserial
    rw [List.mem_singleton.1 hserial]
    exact h.bound token htoken
  have hbound : ∀ token ∈ w.handed ++ w.speaker.held.map Play.token ++ [w.serial],
      token < w.serial + 1 := by
    intro token htoken
    rcases List.mem_append.1 htoken with htoken | htoken
    · exact Nat.lt_succ_of_lt (h.bound token htoken)
    · rw [List.mem_singleton.1 htoken]
      exact Nat.lt_succ_self _
  have hgiven : ∀ token < w.serial + 1, token = w.serial ∨ token ∈ w.handed ∨
      token ∈ w.speaker.held.map Play.token ∨ token ∈ w.refused := by
    intro token htoken
    rcases Nat.lt_or_eq_of_le (Nat.le_of_lt_succ htoken) with hlt | hlast
    · exact Or.inr (h.given token hlt)
    · exact Or.inl hlast
  by_cases hphase : w.turn.phase = .userTurn
  · -- the play is held
    simp only [World.onSpeak, PlaybackState.speak, decide_eq_true hphase, if_true]
    refine Live.sendPlays ?_ h.queued
    constructor
    · simpa [List.append_assoc] using horder
    · simpa [List.append_assoc] using hbound
    · simpa using h.sent
    · intro token htoken
      rcases hgiven token htoken with rfl | hin | hin | hin
      · exact Or.inr (Or.inl (by simp))
      · exact Or.inl (by simpa using hin)
      · exact Or.inr (Or.inl (by simpa using Or.inl hin))
      · exact Or.inr (Or.inr hin)
    · simpa [World.played] using h.queued
    · exact h.url
    · intro play hplay
      rcases List.mem_append.1 hplay with hplay | hplay
      · exact h.fresh play hplay
      · rw [List.mem_singleton.1 hplay]
    · exact fun _ => Or.inl hphase
    · exact h.once
    · simp [htodo, forgotten]
    · intro token
      simp only [List.mem_append, List.mem_singleton, hmap, htodo, forgotten, mem_open,
        List.map_append, List.map_cons, List.map_nil, List.filterMap_nil, List.not_mem_nil,
        or_false]
      tauto
    · exact htasks
    · exact h.stops
    · exact h.alive
  · have hheld : w.speaker.held = [] := by
      by_contra hne
      rcases h.held hne with huser | ⟨task, htask, -⟩
      · exact hphase huser
      · rw [htodo] at htask
        cases htask
    rw [hheld] at horder hbound hgiven
    simp only [World.onSpeak, PlaybackState.speak, decide_eq_false hphase, Bool.false_eq_true,
      if_false]
    refine Live.sendPlays ?_ h.queued
    constructor
    · simpa [hheld] using horder
    · simpa [hheld] using hbound
    · simpa using h.sent.append_right [w.serial]
    · intro token htoken
      rcases hgiven token htoken with rfl | hin | hin | hin
      · exact Or.inl (by simp)
      · exact Or.inl (List.mem_append_left _ hin)
      · cases hin
      · exact Or.inr (Or.inr hin)
    · exact h.queued.trans (List.sublist_append_left _ _)
    · exact h.url
    · exact h.fresh
    · exact fun hne => absurd hheld hne
    · exact h.once
    · simp [htodo, forgotten]
    · intro token
      simp only [List.mem_append, List.mem_singleton, hmap, htodo, forgotten, mem_open, unfinished,
        List.map_append, List.filter_append, List.filterMap_nil, List.not_mem_nil, or_false]
      simp only [List.filter_cons, Bool.not_false, if_true, List.filter_nil, List.map_cons,
        List.map_nil, List.mem_singleton]
      tauto
    · exact htasks
    · exact h.stops
    · exact h.alive

theorem dropHeld_snd_iff
    {state : PlaybackState} {token : Nat} :
    (state.dropHeld token).2 = true ↔ token ∈ state.held.map Play.token := by
  simp only [PlaybackState.dropHeld, decide_eq_true_eq, List.length_filter_lt_length_iff_exists,
    List.mem_map]
  constructor
  · rintro ⟨play, hplay, hsame⟩
    exact ⟨play, hplay, by simpa using hsame⟩
  · rintro ⟨play, hplay, rfl⟩
    exact ⟨play, hplay, by simp⟩

theorem map_token_dropHeld
    (state : PlaybackState)
    (token : Nat) :
    (state.dropHeld token).1.held.map Play.token =
      (state.held.map Play.token).filter (· != token) := by
  rw [List.filter_map]
  rfl

theorem Live.onSynthFailed
    (h : Live delivery w)
    (htodo : w.todo = [])
    (play : Play)
    (failures : List Play) :
    Live delivery (w.onSynthFailed play failures) := by
  have hmap (token : Nat) : token ∈ w.plays ↔ token ∈ w.speaker.open := by
    simpa [htodo, forgotten] using h.map token
  have hheld := map_token_dropHeld w.speaker play.token
  have hsub :
      ((w.speaker.dropHeld play.token).1.held.map Play.token).Sublist
        (w.speaker.held.map Play.token) := by
    rw [hheld]
    exact List.filter_sublist
  have hopen (token : Nat) :
      token ∈ (w.speaker.dropHeld play.token).1.open ↔
        (token ∈ w.speaker.held.map Play.token ∧ token ≠ play.token) ∨
          token ∈ (unfinished w.speaker.sent).map Play.token := by
    rw [mem_open, hheld, List.mem_filter]
    simp [PlaybackState.dropHeld]
  have hnodup := List.nodup_append.1 h.nodup_open
  have hforgotten :
      forgotten (w.onSynthFailed play failures).todo =
        if (w.speaker.dropHeld play.token).2 then [play.token] else [] := by
    simp only [World.onSynthFailed]
    split <;> rfl
  have hsent : play.token ∈ w.speaker.held.map Play.token →
      play.token ∉ (unfinished w.speaker.sent).map Play.token := by
    intro hin hsent
    obtain ⟨other, hother, -, hsame⟩ := mem_tokens_unfinished.1 hsent
    exact hnodup.2.2 _ (List.mem_map_of_mem hother) _ hin hsame
  refine { h with
    order := ?_, bound := ?_, given := ?_, queued := ?_, fresh := ?_, held := ?_, once := ?_,
    apart := ?_, map := ?_ }
  · exact h.order.sublist (hsub.append_left _)
  · exact fun token htoken => h.bound token ((hsub.append_left _).subset htoken)
  · intro token htoken
    rcases h.given token htoken with hin | hin | hin
    · exact Or.inl hin
    · by_cases hsame : token = play.token
      · subst hsame
        refine Or.inr (Or.inr ?_)
        simp [World.onSynthFailed, dropHeld_snd_iff.2 hin]
      · refine Or.inr (Or.inl ?_)
        change token ∈ (w.speaker.dropHeld play.token).1.held.map Play.token
        rw [hheld]
        exact List.mem_filter.2 ⟨hin, by simpa using hsame⟩
    · refine Or.inr (Or.inr ?_)
      simp only [World.onSynthFailed]
      split
      · exact List.mem_append_left _ hin
      · exact hin
  · have hplayed : (w.onSynthFailed play failures).played = w.played := played_append_silent rfl
    rw [hplayed]
    exact h.queued
  · exact fun other hother => h.fresh other (List.mem_of_mem_filter hother)
  · intro hne
    refine Or.inl ?_
    have hbefore : w.speaker.held ≠ [] := by
      rintro hnil
      simp [World.onSynthFailed, PlaybackState.dropHeld, hnil] at hne
    rcases h.held hbefore with hphase | ⟨task, htask, -⟩
    · exact hphase
    · rw [htodo] at htask
      cases htask
  · rw [hforgotten]
    split <;> simp
  · intro token htoken
    rw [hforgotten] at htoken
    split at htoken
    · next hdropped =>
        rw [List.mem_singleton.1 htoken]
        intro hin
        rcases (hopen play.token).1 hin with ⟨-, hne⟩ | hin
        · exact hne rfl
        · exact hsent (dropHeld_snd_iff.1 hdropped) hin
    · cases htoken
  · intro token
    change token ∈ w.plays ↔ token ∈ (w.speaker.dropHeld play.token).1.open ∨ _
    rw [hmap, hopen, hforgotten, mem_open]
    by_cases hdropped : play.token ∈ w.speaker.held.map Play.token
    · rw [if_pos (dropHeld_snd_iff.2 hdropped), List.mem_singleton]
      by_cases hsame : token = play.token
      · subst hsame
        simp [hdropped]
      · simp [hsame]
    · rw [if_neg (fun hsnd => hdropped (dropHeld_snd_iff.1 hsnd))]
      by_cases hsame : token = play.token
      · subst hsame
        simp [hdropped]
      · simp [hsame]

/-! ### The rest of an item -/

theorem forgotten_cons
    (task : Task)
    (rest : List Task) :
    forgotten (task :: rest) = forgotten [task] ++ forgotten rest := by
  rw [← List.singleton_append, forgotten, List.filterMap_append]
  rfl

theorem Live.forget
    (h : Live delivery w)
    {token : Nat} {rest : List Task}
    (htodo : w.todo = .forget token :: rest) :
    Live delivery { w.forget token with todo := rest } := by
  have hforgotten : forgotten w.todo = token :: forgotten rest := by rw [htodo]; rfl
  have honce := h.once
  rw [hforgotten, List.nodup_cons] at honce
  have hapart := h.apart token (by simp [hforgotten])
  refine { h with held := ?_, once := ?_, apart := ?_, map := ?_, tasks := ?_ }
  · intro hne
    rcases h.held hne with hphase | ⟨task, htask, hends⟩
    · exact Or.inl hphase
    · rw [htodo] at htask
      rcases List.mem_cons.1 htask with rfl | htask
      · cases hends
      · exact Or.inr ⟨task, htask, hends⟩
  · exact honce.2
  · intro other hother
    exact h.apart other (by simp [hforgotten, hother])
  · intro other
    simp only [World.forget, List.mem_filter, bne_iff_ne, h.map, hforgotten, List.mem_cons]
    constructor
    · rintro ⟨hin | rfl | hin, hne⟩
      · exact Or.inl hin
      · exact absurd rfl hne
      · exact Or.inr hin
    · rintro (hin | hin)
      · refine ⟨Or.inl hin, ?_⟩
        rintro rfl
        exact hapart hin
      · refine ⟨Or.inr (Or.inr hin), ?_⟩
        rintro rfl
        exact honce.1 hin
  · intro other hother
    simp only [World.forget, List.mem_filter, bne_iff_ne] at hother
    obtain ⟨task, htask, hsame⟩ := h.tasks other hother.1
    exact ⟨task, List.mem_filter.2 ⟨htask, by simpa [hsame] using hother.2⟩, hsame⟩

/-- A frame goes out that is no `play` frame, and the floor stays as it is. -/
theorem Live.tell
    (h : Live delivery w)
    {task : Task} {rest : List Task} {frame : Frame}
    (htodo : w.todo = task :: rest)
    (hforgotten : forgotten [task] = [])
    (hends : task.endsTurn = false)
    (hsilent : frame.token = none) :
    Live delivery { w with frames := w.frames ++ [frame], todo := rest } := by
  have hsame : forgotten w.todo = forgotten rest := by
    rw [htodo, forgotten_cons, hforgotten]
    rfl
  refine { h with queued := ?_, held := ?_, once := ?_, apart := ?_, map := ?_ }
  · rw [played_append_silent rfl hsilent]
    exact h.queued
  · intro hne
    rcases h.held hne with hphase | ⟨other, hother, hother'⟩
    · exact Or.inl hphase
    · rw [htodo] at hother
      rcases List.mem_cons.1 hother with rfl | hother
      · rw [hends] at hother'
        cases hother'
      · exact Or.inr ⟨other, hother, hother'⟩
  · rw [← hsame]
    exact h.once
  · rw [← hsame]
    exact h.apart
  · rw [← hsame]
    exact h.map

/-- The turn ends, and the held plays go out. -/
theorem Live.release
    (h : Live delivery w)
    {task : Task} {rest : List Task} {frame : Frame}
    (htodo : w.todo = task :: rest)
    (hforgotten : forgotten [task] = [])
    (hsilent : frame.token = none) :
    Live delivery
      (World.releaseHeld delivery { w with frames := w.frames ++ [frame], todo := rest }) := by
  have hsame : forgotten w.todo = forgotten rest := by
    rw [htodo, forgotten_cons, hforgotten]
    rfl
  have hqueued :
      ((w.frames ++ [frame]).filterMap Frame.token ++ w.queue.map Play.token).Sublist w.handed := by
    rw [List.filterMap_append]
    simpa [hsilent, World.played] using h.queued
  have hopen :
      (⟨w.speaker.sent ++ w.speaker.held, []⟩ : PlaybackState).open.Perm w.speaker.open := by
    have hheld : unfinished w.speaker.held = w.speaker.held :=
      List.filter_eq_self.2 fun play hplay => by simp [h.fresh play hplay]
    have happend :
        unfinished (w.speaker.sent ++ w.speaker.held) =
          unfinished w.speaker.sent ++ w.speaker.held := by
      rw [unfinished, List.filter_append]
      exact congrArg (_ ++ ·) hheld
    simp only [PlaybackState.open, List.nil_append, happend]
    exact List.perm_append_comm.map Play.token
  refine Live.sendPlays ?_ hqueued
  constructor
  · simpa [PlaybackState.release] using h.order
  · simpa [PlaybackState.release] using h.bound
  · simpa [PlaybackState.release] using h.sent.append_right (w.speaker.held.map Play.token)
  · intro token htoken
    rcases h.given token htoken with hin | hin | hin
    · exact Or.inl (List.mem_append_left _ hin)
    · exact Or.inl (List.mem_append_right _ hin)
    · exact Or.inr (Or.inr hin)
  · exact hqueued.trans (List.sublist_append_left _ _)
  · exact h.url
  · simp [PlaybackState.release]
  · exact fun hne => absurd rfl hne
  · rw [← hsame]
    exact h.once
  · rw [← hsame]
    exact fun token htoken hin => h.apart token htoken (hopen.mem_iff.1 hin)
  · rw [← hsame]
    exact fun token => (h.map token).trans (or_congr_left hopen.mem_iff.symm)
  · exact h.tasks
  · exact h.stops
  · exact h.alive

theorem forgotten_map_forget
    (plays : List Play) :
    forgotten (plays.map fun play => Task.forget play.token) = plays.map Play.token := by
  rw [forgotten, List.filterMap_map]
  exact congrFun (List.filterMap_eq_map (f := Play.token)) plays

/-- A stop of settled plays leaves the ones that it named to be forgotten. -/
theorem Live.stop
    (h : Live delivery w)
    {rest : List Task}
    (htodo : w.todo = .act .stopNow :: rest)
    (hsettled : Settled w.speaker.sent = true) :
    Live delivery (w.stopPlayback rest) := by
  have hexact : w.speaker.stop.Exact := exact_iff_settled.2 hsettled
  have hsame : forgotten w.todo = forgotten rest := by rw [htodo]; rfl
  have htokens := hexact.map Play.token
  have hforgotten :
      forgotten (w.stopPlayback rest).todo =
        (w.speaker.stop.cut.toList ++ w.speaker.stop.dropped).map Play.token ++ forgotten rest := by
    rw [World.stopPlayback, forgotten, List.filterMap_append]
    exact congrArg (· ++ forgotten rest) (forgotten_map_forget _)
  have hnodup := List.nodup_append.1 h.nodup_open
  have hopen (token : Nat) :
      token ∈ (w.stopPlayback rest).speaker.open ↔ token ∈ w.speaker.held.map Play.token := by
    rw [mem_open]
    simp [World.stopPlayback, unfinished]
  have hsent {token : Nat} (htoken : token ∈ (unfinished w.speaker.sent).map Play.token) :
      token ∈ w.speaker.sent.map Play.token := by
    obtain ⟨play, hplay, -, rfl⟩ := mem_tokens_unfinished.1 htoken
    exact List.mem_map_of_mem hplay
  have hrest {token : Nat} (htoken : token ∈ forgotten rest) : token ∉ w.speaker.open :=
    h.apart token (hsame ▸ htoken)
  refine { h with
    sent := ?_, queued := ?_, url := ?_, held := ?_, once := ?_, apart := ?_, map := ?_,
    stops := ?_, alive := ?_ }
  · exact List.nil_sublist _
  · exact (List.append_nil w.played).symm ▸ (List.sublist_append_left _ _).trans h.queued
  · exact fun _ => rfl
  · intro hne
    rcases h.held hne with hphase | ⟨task, htask, hends⟩
    · exact Or.inl hphase
    · rw [htodo] at htask
      rcases List.mem_cons.1 htask with rfl | htask
      · cases hends
      · exact Or.inr ⟨task, List.mem_append_right _ (List.mem_cons_of_mem _ htask), hends⟩
  · rw [hforgotten]
    refine List.nodup_append.2 ⟨?_, ?_, ?_⟩
    · refine htokens.nodup_iff.2 ?_
      exact hnodup.1.sublist (List.filter_sublist.map Play.token)
    · rw [← hsame]
      exact h.once
    · rintro token hnamed other hother rfl
      exact hrest hother (mem_open.2 (Or.inr (htokens.mem_iff.1 hnamed)))
  · intro token htoken
    rw [hopen]
    rw [hforgotten] at htoken
    rcases List.mem_append.1 htoken with hnamed | hother
    · exact fun hheld => hnodup.2.2 _ (hsent (htokens.mem_iff.1 hnamed)) _ hheld rfl
    · exact fun hheld => hrest hother (mem_open.2 (Or.inl hheld))
  · intro token
    rw [hopen, hforgotten, List.mem_append, htokens.mem_iff]
    change token ∈ w.plays ↔ _
    rw [h.map, mem_open, hsame]
    tauto
  · intro stop hstop
    rcases List.mem_append.1 hstop with hstop | hstop
    · exact h.stops stop hstop
    · exact List.mem_singleton.1 hstop ▸ hexact
  · exact nofun

/-! ### The sender and the syntheses -/

theorem Live.send
    (h : Live delivery w)
    (hfits : Fits w .send)
    {next : World}
    (hstep : w.send = some next) :
    Live delivery next := by
  unfold World.send at hstep
  split at hstep
  · split at hstep
    · next play queue hqueue =>
        have hqueued := h.queued
        rw [hqueue] at hqueued
        have hurl : delivery = .url → queue = [] := by
          intro hdelivery
          have hnil := h.url hdelivery
          rw [hqueue] at hnil
          cases hnil
        split at hstep
        · cases hstep
          refine { h with queued := ?_, url := hurl, alive := nofun }
          have hplayed :
              (w.frames ++ [Frame.play play]).filterMap Frame.token = w.played ++ [play.token] := by
            rw [List.filterMap_append]
            rfl
          simpa [World.played, hplayed] using hqueued
        · cases hstep
          refine { h with queued := ?_, url := hurl }
          refine List.Sublist.trans ?_ hqueued
          exact (List.sublist_cons_self _ _).append_left _
    · cases hstep
  · next play hsender =>
      rw [if_pos (hfits play hsender)] at hstep
      cases hstep
      exact { h with alive := nofun }
  · next play hsender =>
      split at hstep
      · cases hstep
      · cases hstep
        refine { h with queued := ?_, alive := nofun }
        rw [played_append_silent rfl]
        exact h.queued
  · cases hstep

theorem Live.onSynthesized
    (h : Live delivery w)
    (play : Play)
    (failed : Bool) :
    Live delivery (w.onSynthesized play failed) := by
  refine { h with tasks := ?_ }
  intro token htoken
  obtain ⟨task, htask, hsame⟩ := h.tasks token htoken
  refine ⟨_, List.mem_map_of_mem htask, ?_⟩
  split <;> exact hsame

theorem Live.run
    (h : Live delivery w)
    {task : Task} {rest : List Task}
    (htodo : w.todo = task :: rest)
    (hsettled : stopsNow w.todo = true → Settled w.speaker.sent = true) :
    Live delivery (w.run delivery rest task) := by
  cases task with
  | forget token => exact h.forget htodo
  | announce id dropped => exact h.tell htodo rfl rfl rfl
  | act action =>
      cases action with
      | stopNow => exact h.stop htodo (hsettled (by rw [htodo]; rfl))
      | turnEnd text => exact h.release htodo rfl rfl
      | turnDropped text kind => exact h.release htodo rfl rfl
      | turnStart => exact h.tell htodo rfl rfl rfl
      | ignored text kind => exact h.tell htodo rfl rfl rfl
      | pausePlayback => exact h.tell htodo rfl rfl rfl
      | resumePlayback => exact h.tell htodo rfl rfl rfl

theorem outcome_sendPlays
    (w : World)
    (plays : List Play) :
    (w.sendPlays delivery plays).outcome = w.outcome := by
  cases delivery <;> rfl

theorem outcome_run
    (task : Task)
    (rest : List Task) :
    (w.run delivery rest task).outcome = w.outcome := by
  cases task with
  | act action => cases action <;> first | rfl | exact outcome_sendPlays _ _
  | _ => rfl

/-- What holds of an open session, or of one that is closed. -/
structure Kept (delivery : Delivery) (w : World) : Prop where
  live : w.outcome = none → Live delivery w
  delivered : Delivered w
  closed : w.outcome ≠ none → w.todo = [] ∧ w.sender = .waiting

theorem Live.kept
    (h : Live delivery w)
    (hopen : w.outcome = none) :
    Kept delivery w :=
  ⟨fun _ => h, h.delivered hopen, fun hclosed => absurd hopen hclosed⟩

theorem Live.handle
    (h : Live delivery w)
    (hopen : w.outcome = none)
    (htodo : w.todo = [])
    {label : Label} {next : World}
    (hstep : w.handle delivery label = some next) :
    Kept delivery next := by
  cases label with
  | speak id text =>
      cases hstep
      exact (h.onSpeak htodo id text).kept ((outcome_sendPlays _ _).trans hopen)
  | report id status =>
      cases hstep
      exact (h.onReport htodo id status).kept hopen
  | turn event bargeIn now =>
      cases hstep
      exact (h.onTurn htodo event bargeIn now).kept hopen
  | synthFailed =>
      simp only [World.handle] at hstep
      split at hstep
      · cases hstep
        exact (h.onSynthFailed htodo _ _).kept hopen
      · cases hstep
  | taskFailed =>
      simp only [World.handle] at hstep
      rw [if_neg h.alive] at hstep
      cases hstep
  | finish =>
      cases hstep
      exact ⟨by simp [World.close], h.close, fun _ => ⟨rfl, rfl⟩⟩
  | go => cases hstep
  | synthesized k failed => cases hstep
  | send => cases hstep

/-- Every step of a label, by where it comes from. -/
theorem step_cases
    {label : Label} {next : World}
    (hstep : step delivery w label = some next) :
    w.outcome = none ∧
      ((∃ task rest, label = .go ∧ w.todo = task :: rest ∧ next = w.run delivery rest task) ∨
        (∃ k failed play, label = .synthesized k failed ∧ next = w.onSynthesized play failed) ∨
        (label = .send ∧ w.send = some next) ∨
        (w.todo = [] ∧ w.handle delivery label = some next)) := by
  unfold step at hstep
  split at hstep
  · cases hstep
  · next hopen =>
      refine ⟨by simpa using hopen, ?_⟩
      split at hstep
      · next task rest htodo =>
          exact Or.inl ⟨task, rest, rfl, htodo, (Option.some.inj hstep).symm⟩
      · next _ k failed =>
          refine Or.inr (Or.inl ?_)
          split at hstep
          · next task _ =>
              split at hstep
              · exact ⟨k, failed, task.play, rfl, (Option.some.inj hstep).symm⟩
              · cases hstep
          · cases hstep
      · exact Or.inr (Or.inr (Or.inl ⟨rfl, hstep⟩))
      · next htodo => exact Or.inr (Or.inr (Or.inr ⟨htodo, hstep⟩))
      · cases hstep

theorem Kept.step
    (h : Kept delivery w)
    {label : Label} {next : World}
    (hfits : Fits w label)
    (hstep : step delivery w label = some next) :
    Kept delivery next := by
  obtain ⟨hopen, hcases⟩ := step_cases hstep
  have hlive := h.live hopen
  rcases hcases with ⟨task, rest, rfl, htodo, rfl⟩ | ⟨k, failed, play, rfl, rfl⟩ |
    ⟨rfl, hsend⟩ | ⟨htodo, hhandle⟩
  · exact (hlive.run htodo hfits).kept ((outcome_run task rest).trans hopen)
  · exact (hlive.onSynthesized play failed).kept hopen
  · refine (hlive.send hfits hsend).kept ?_
    unfold World.send at hsend
    split at hsend
    all_goals try split at hsend
    all_goals try split at hsend
    all_goals cases hsend
    all_goals exact hopen
  · exact hlive.handle hopen htodo hhandle

/-- A stop of unsettled plays is not exact, and a sender that finds its play gone fails. -/
theorem fits_of_delivered
    {label : Label} {next : World}
    (hstep : step delivery w label = some next)
    (hnext : Delivered next) :
    Fits w label := by
  obtain ⟨-, hcases⟩ := step_cases hstep
  rcases hcases with ⟨task, rest, rfl, htodo, rfl⟩ | ⟨k, failed, play, rfl, rfl⟩ |
    ⟨rfl, hsend⟩ | ⟨-, hhandle⟩
  · intro hstops
    rw [htodo] at hstops
    unfold stopsNow at hstops
    split at hstops
    · next hhead =>
        obtain ⟨rfl, rfl⟩ := List.cons.inj hhead
        refine exact_iff_settled.1 (hnext.stops _ ?_)
        exact List.mem_append_right _ (List.mem_singleton.2 rfl)
    · cases hstops
  · trivial
  · intro play hsender
    by_contra hgone
    simp only [World.send, hsender] at hsend
    rw [if_neg hgone] at hsend
    cases hsend
    exact hnext.alive.2 rfl
  · cases label with
    | go => cases hhandle
    | send => cases hhandle
    | _ => trivial

/-- What stands at a stop or at an opened play goes on. -/
theorem Kept.fits_of_stuck
    (h : Kept delivery w)
    {label : Label}
    (hstuck : VoiceEngine.Playback.step delivery w label = none) :
    Fits w label := by
  cases label with
  | go =>
      intro hstops
      cases htodo : w.todo with
      | nil =>
          rw [htodo] at hstops
          cases hstops
      | cons task rest =>
          by_cases hopen : w.outcome = none
          · simp [VoiceEngine.Playback.step, hopen, htodo] at hstuck
          · rw [(h.closed hopen).1] at htodo
            cases htodo
  | send =>
      intro play hsender
      by_cases hopen : w.outcome = none
      · simp only [VoiceEngine.Playback.step, hopen, Option.isSome_none, Bool.false_eq_true,
          if_false, World.send, hsender] at hstuck
        split at hstuck <;> cases hstuck
      · rw [(h.closed hopen).2] at hsender
        cases hsender
  | _ => trivial

theorem live_initial :
    Live delivery initial := by
  constructor <;> simp [initial, World.played, forgotten, PlaybackState.open, unfinished]

end Kept

/-- The session delivers its plays on exactly the runs whose stops find the sent plays settled and
whose sender finds each play in the map after its `play` frame. -/
theorem plays_delivered_iff
    (delivery : Delivery)
    (run : List Label) :
    (machine delivery).Admits (fun w label => ∀ t ∈ step delivery w label, Delivered t)
        initial run ↔
      (machine delivery).Admits Fits initial run := by
  have hinitial : Kept delivery initial := live_initial.kept rfl
  refine (machine delivery).admits_iff_while (J := Kept delivery) ?_ ?_ ?_ run hinitial
    hinitial.delivered
  · exact fun w label t hkept _ hfits hstep => hkept.step hfits hstep
  · intro w label t hkept _ hstep
    exact ⟨fits_of_delivered hstep, fun hfits => (hkept.step hfits hstep).delivered⟩
  · exact fun w label hkept _ hstuck => hkept.fits_of_stuck hstuck

/-! ## Runs that are not admitted -/

/-- The client fails a play before it starts, while the play after it runs. -/
def failedFirst : List Label :=
  [.speak "a".toList [], .speak "b".toList [], .report "a".toList .failed, .go,
    .report "b".toList .started, .turn .stoppedByUser true 0, .go]

/-- The client reports a play while the sender is at its `play` frame. -/
def reportedEarly : List Label :=
  [.speak "a".toList [], .send, .report "a".toList .failed, .go, .send, .taskFailed]

/-- A stop names a play that was reported over, and an early report ends the session. -/
theorem plays_misdelivered :
    (∃ w, (machine .url).Reaches Machine.always w ∧ ¬ Delivered w) ∧
      ∃ w, (machine .bytes).Reaches Machine.always w ∧ w.outcome = some .engineFailed := by
  have hurl : (machine .url).Reaches Machine.always initial := .start rfl
  have hbytes : (machine .bytes).Reaches Machine.always initial := .start rfl
  refine ⟨⟨(machine .url).runTo initial failedFirst,
    hurl.runTo _ (Machine.admits_always _ _ _) (by decide +kernel), ?_⟩,
    ⟨(machine .bytes).runTo initial reportedEarly,
      hbytes.runTo _ (Machine.admits_always _ _ _) (by decide +kernel), by decide +kernel⟩⟩
  intro hdelivered
  have hstop : (⟨[⟨"a".toList, [], 0, false, true⟩, ⟨"b".toList, [], 1, true, false⟩],
      some ⟨"b".toList, [], 1, true, false⟩, [⟨"a".toList, [], 0, false, true⟩]⟩ : Stop) ∈
        ((machine .url).runTo initial failedFirst).stops := by
    decide +kernel
  have hlength := (hdelivered.stops _ hstop).length_eq
  cases hlength

end Playback
end VoiceEngine
end Vesta
