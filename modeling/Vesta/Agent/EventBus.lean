import Mathlib.Data.List.Basic
import Mathlib.Data.List.Infix
import Vesta.Lib.Machine
import Vesta.Lib.Text

/-!
# The agent's event bus

The bus stamps each event and offers it to every subscriber's bounded queue.  A subscriber
whose queue is full is dropped from the bus, and its backlog gives way to one marker, at
which its send loop closes the connection.

A subscription keeps, beside its queue, where in the stream of emitted events it began and
what its consumer has taken.
-/

namespace Vesta
namespace Agent
namespace EventBus

open Lib

inductive AgentState
  | idle
  | thinking
deriving DecidableEq

/-- The events of the stream; all but the first two kinds go to the history. -/
inductive StreamEvent (V : Type)
  | status (state : AgentState)
  | notificationCleared (data : V)
  | logged (data : V)
deriving DecidableEq

def StreamEvent.liveOnly {V : Type} : StreamEvent V → Bool
  | .status _ => true
  | .notificationCleared _ => true
  | .logged _ => false

/-- An event as it is sent: rows of the history have positive ids, the rest negative ones. -/
structure Stamped (V : Type) where
  event : StreamEvent V
  ts : Text
  id : Int
deriving DecidableEq

/-- What a queue holds. -/
inductive Entry (V : Type)
  | event (event : Stamped V)
  | evicted
deriving DecidableEq

structure Subscription (V : Type) where
  maxsize : Nat
  queue : List (Entry V) := []
  /-- Whether the bus still offers events to it. -/
  listed : Bool := true
  since : Nat
  received : List (Entry V) := []
deriving DecidableEq

structure Bus (V : Type) where
  state : AgentState := .idle
  liveId : Int := 0
  emitted : List (Stamped V) := []
  subscriptions : List (Subscription V) := []

/-- When and how an event is written to the history: the row it got, if the write succeeded. -/
structure Writing where
  ts : Text
  rowid : Option Nat
deriving DecidableEq

inductive Label (V : Type)
  | subscribe (maxsize : Nat)
  | unsubscribe (subscriber : Nat)
  | emit (event : StreamEvent V) (writing : Writing)
  | setState (state : AgentState) (writing : Writing)
  | get (subscriber : Nat)
deriving DecidableEq

section Operations

variable {V : Type}

namespace Subscription

/-- No bound at all is written as zero. -/
def full (s : Subscription V) : Bool := s.maxsize != 0 && decide (s.maxsize ≤ s.queue.length)

/-- Enqueue for one subscriber, evicting it on overflow. -/
def offer (event : Stamped V) (s : Subscription V) : Subscription V :=
  if s.listed then
    if s.full then { s with listed := false, queue := [.evicted] }
    else { s with queue := s.queue ++ [.event event] }
  else s

def unsubscribe (s : Subscription V) : Subscription V := { s with listed := false }

/-- The consumer takes the first entry; on an empty queue it waits. -/
def get (s : Subscription V) : Option (Subscription V) :=
  match s.queue with
  | [] => none
  | entry :: queue => some { s with queue := queue, received := s.received ++ [entry] }

end Subscription

namespace Bus

variable (logs : Bool)

/-- The id of an event, and the counter of the ids of the events that have no row. -/
def nextId (bus : Bus V) (event : StreamEvent V) (writing : Writing) : Int × Int :=
  match event.liveOnly, logs, writing.rowid with
  | false, true, some rowid => (rowid, bus.liveId)
  | _, _, _ => (bus.liveId - 1, bus.liveId - 1)

def emit (bus : Bus V) (event : StreamEvent V) (writing : Writing) : Bus V :=
  let ids := bus.nextId logs event writing
  let stamped := ⟨event, writing.ts, ids.1⟩
  { bus with
    liveId := ids.2
    emitted := bus.emitted ++ [stamped]
    subscriptions := bus.subscriptions.map (Subscription.offer stamped) }

/-- A change of the state is announced. -/
def setState (bus : Bus V) (state : AgentState) (writing : Writing) : Bus V :=
  if state = bus.state then bus
  else { bus with state := state }.emit logs (.status state) writing

def subscribe (bus : Bus V) (maxsize : Nat) : Bus V :=
  { bus with
    subscriptions := bus.subscriptions ++ [{ maxsize := maxsize, since := bus.emitted.length }] }

end Bus

/-- `logs` tells whether the bus has a history to write to. -/
def step (logs : Bool) (bus : Bus V) : Label V → Option (Bus V)
  | .subscribe maxsize => some (bus.subscribe maxsize)
  | .unsubscribe subscriber =>
      some { bus with
        subscriptions := bus.subscriptions.modify subscriber Subscription.unsubscribe }
  | .emit event writing => some (bus.emit logs event writing)
  | .setState state writing => some (bus.setState logs state writing)
  | .get subscriber =>
      (bus.subscriptions[subscriber]?.bind Subscription.get).map fun s =>
        { bus with subscriptions := bus.subscriptions.set subscriber s }

def machine (V : Type) (logs : Bool) : Machine (Bus V) (Label V) where
  start bus := bus = {}
  step := step logs

end Operations

/-! ## No gap -/

section GapFree

variable {V : Type}

/-- What the consumer has taken: a run of the events emitted since its subscription, then at
most the marker of its eviction. -/
def GapFree (emitted : List (Stamped V)) (s : Subscription V) : Prop :=
  ∃ run marker, s.received = run.map .event ++ marker ∧
    run <+: emitted.drop s.since ∧ (marker = [] ∨ marker = [.evicted])

/-- The same of what was taken and what waits: nothing is missing while the bus lists it. -/
structure Sound (emitted : List (Stamped V)) (s : Subscription V) : Prop where
  begun : s.since ≤ emitted.length
  entries : ∃ run marker, s.received ++ s.queue = run.map .event ++ marker ∧
    run <+: emitted.drop s.since ∧ (marker = [] ∨ marker = [.evicted]) ∧
    (s.listed = true → run = emitted.drop s.since ∧ marker = [])

variable {emitted : List (Stamped V)}
variable {s : Subscription V}

/-- The beginning of a run of events is one. -/
theorem exists_run_of_prefix
    {taken : List (Entry V)} {run : List (Stamped V)}
    (htaken : taken <+: run.map .event) :
    ∃ first, taken = first.map .event ∧ first <+: run := by
  refine ⟨run.take taken.length, ?_, List.take_prefix _ _⟩
  rw [List.map_take]
  exact List.prefix_iff_eq_take.1 htaken

theorem Sound.gapFree (h : Sound emitted s) : GapFree emitted s := by
  obtain ⟨run, marker, hentries, hrun, hmarker, -⟩ := h.entries
  have hreceived : s.received <+: run.map .event ++ marker := hentries ▸ List.prefix_append _ _
  have hplain : s.received <+: run.map .event → GapFree emitted s := by
    intro htaken
    obtain ⟨first, heq, hfirst⟩ := exists_run_of_prefix htaken
    exact ⟨first, [], by rw [heq, List.append_nil], hfirst.trans hrun, .inl rfl⟩
  rcases hmarker with rfl | rfl
  · exact hplain (by simpa using hreceived)
  · rcases List.prefix_concat_iff.1 hreceived with heq | hshort
    · exact ⟨run, [.evicted], heq, hrun, .inr rfl⟩
    · exact hplain hshort

theorem Sound.subscribe (emitted : List (Stamped V)) (maxsize : Nat) :
    Sound emitted { maxsize := maxsize, since := emitted.length } where
  begun := Nat.le_refl _
  entries := ⟨[], [], rfl, List.nil_prefix, .inl rfl, fun _ => ⟨by simp, rfl⟩⟩

theorem Sound.unsubscribe (h : Sound emitted s) : Sound emitted s.unsubscribe where
  begun := h.begun
  entries := by
    obtain ⟨run, marker, hentries, hrun, hmarker, -⟩ := h.entries
    exact ⟨run, marker, hentries, hrun, hmarker, fun hlisted => nomatch hlisted⟩

theorem Sound.get
    (h : Sound emitted s)
    {next : Subscription V}
    (hget : s.get = some next) :
    Sound emitted next := by
  rw [Subscription.get] at hget
  split at hget
  · cases hget
  · rename_i entry queue hqueue
    cases hget
    obtain ⟨run, marker, hentries, hrun, hmarker, hlisted⟩ := h.entries
    refine ⟨h.begun, run, marker, ?_, hrun, hmarker, hlisted⟩
    rw [← hentries, hqueue, List.append_assoc, List.singleton_append]

/-- An event reaches a listed subscriber, or evicts it. -/
theorem Sound.offer
    (h : Sound emitted s)
    (event : Stamped V) :
    Sound (emitted ++ [event]) (s.offer event) := by
  obtain ⟨run, marker, hentries, hrun, hmarker, hlisted⟩ := h.entries
  have hdrop : (emitted ++ [event]).drop s.since = emitted.drop s.since ++ [event] :=
    List.drop_append_of_le_length h.begun
  have hbegun : s.since ≤ (emitted ++ [event]).length :=
    Nat.le_trans h.begun (by simp)
  have hgrown : run <+: (emitted ++ [event]).drop s.since := by
    rw [hdrop]
    exact hrun.trans (List.prefix_append _ _)
  rw [Subscription.offer]
  split
  · rename_i hlive
    obtain ⟨rfl, rfl⟩ := hlisted hlive
    split
    · -- The backlog is dropped: what was taken stays, and the marker follows.
      have htaken : s.received <+: (emitted.drop s.since).map .event := by
        rw [List.append_nil] at hentries
        exact hentries ▸ List.prefix_append _ _
      obtain ⟨first, hreceived, hfirst⟩ := exists_run_of_prefix htaken
      refine ⟨hbegun, first, [.evicted], ?_, hfirst.trans hgrown, .inr rfl,
        fun hfalse => nomatch hfalse⟩
      rw [hreceived]
    · refine ⟨hbegun, _, [], ?_, List.prefix_rfl, .inl rfl, fun _ => ⟨rfl, rfl⟩⟩
      rw [hdrop, ← List.append_assoc, hentries]
      simp
  · rename_i hgone
    exact ⟨hbegun, run, marker, hentries, hgrown, hmarker, fun hlive => absurd hlive hgone⟩

/-- A step of the bus keeps every subscription sound. -/
theorem sound_step
    {logs : Bool} {bus next : Bus V}
    (h : ∀ s ∈ bus.subscriptions, Sound bus.emitted s)
    (label : Label V)
    (hstep : step logs bus label = some next) :
    ∀ s ∈ next.subscriptions, Sound next.emitted s := by
  have hemit : ∀ (bus : Bus V) (event : StreamEvent V) (writing : Writing),
      (∀ s ∈ bus.subscriptions, Sound bus.emitted s) →
        ∀ s ∈ (bus.emit logs event writing).subscriptions,
          Sound (bus.emit logs event writing).emitted s := by
    intro bus event writing h s hs
    obtain ⟨old, hold, rfl⟩ := List.mem_map.1 hs
    exact (h old hold).offer _
  cases label with
  | subscribe maxsize =>
      cases hstep
      intro s hs
      rcases List.mem_append.1 hs with hold | hnew
      · exact h s hold
      · rw [List.mem_singleton.1 hnew]
        exact .subscribe bus.emitted maxsize
  | unsubscribe subscriber =>
      cases hstep
      intro s hs
      obtain ⟨index, hindex⟩ := List.mem_iff_getElem?.1 hs
      rw [List.getElem?_modify] at hindex
      obtain ⟨old, hold, rfl⟩ := Option.map_eq_some_iff.1 hindex
      have hold := h old (List.mem_of_getElem? hold)
      split
      · exact hold.unsubscribe
      · exact hold
  | emit event writing =>
      cases hstep
      exact hemit bus event writing h
  | setState state writing =>
      cases hstep
      rw [Bus.setState]
      split
      · exact h
      · exact hemit _ _ writing h
  | get subscriber =>
      obtain ⟨taken, htaken, rfl⟩ := Option.map_eq_some_iff.1 hstep
      obtain ⟨old, hold, hget⟩ := Option.bind_eq_some_iff.1 htaken
      intro s hs
      rcases List.mem_or_eq_of_mem_set hs with hmem | rfl
      · exact h s hmem
      · exact (h old (List.mem_of_getElem? hold)).get hget

end GapFree

/-! ## One subscriber and the others -/

section Alone

variable {V : Type}
variable {logs : Bool}
variable {bus other next : Bus V}
variable {subscriber : Nat}

/-- The step is about this subscriber, or about the whole bus. -/
def Label.concerns (subscriber : Nat) : Label V → Bool
  | .get taker => taker == subscriber
  | .unsubscribe leaver => leaver == subscriber
  | _ => true

/-- Two buses that may differ in what the other subscribers have taken. -/
structure Alike (subscriber : Nat) (bus other : Bus V) : Prop where
  state : bus.state = other.state
  liveId : bus.liveId = other.liveId
  emitted : bus.emitted = other.emitted
  length : bus.subscriptions.length = other.subscriptions.length
  same : bus.subscriptions[subscriber]? = other.subscriptions[subscriber]?

theorem Alike.emit
    (h : Alike subscriber bus other)
    (event : StreamEvent V) (writing : Writing) :
    Alike subscriber (bus.emit logs event writing) (other.emit logs event writing) := by
  have hids : bus.nextId logs event writing = other.nextId logs event writing := by
    simp only [Bus.nextId, h.liveId]
  constructor
  · exact h.state
  · simp only [Bus.emit, hids]
  · simp only [Bus.emit, hids, h.emitted]
  · simp only [Bus.emit, List.length_map, h.length]
  · simp only [Bus.emit, List.getElem?_map, hids, h.same]

/-- A step of another subscriber leaves this one as it is. -/
theorem Alike.skip
    (h : Alike subscriber bus other)
    {label : Label V}
    (hlabel : label.concerns subscriber = false)
    (hstep : step logs bus label = some next) :
    Alike subscriber next other := by
  cases label with
  | unsubscribe leaver =>
      cases hstep
      have hne : leaver ≠ subscriber := by simpa [Label.concerns] using hlabel
      refine ⟨h.state, h.liveId, h.emitted, ?_, ?_⟩
      · simp only [List.length_modify, h.length]
      · simp [hne, h.same]
  | get taker =>
      have hne : taker ≠ subscriber := by simpa [Label.concerns] using hlabel
      obtain ⟨taken, -, rfl⟩ := Option.map_eq_some_iff.1 hstep
      refine ⟨h.state, h.liveId, h.emitted, ?_, ?_⟩
      · simp only [List.length_set, h.length]
      · simp only [List.getElem?_set, hne, if_false, h.same]
  | subscribe maxsize => cases hlabel
  | emit event writing => cases hlabel
  | setState state writing => cases hlabel

/-- A step that concerns this subscriber does the same to it on both. -/
theorem Alike.step
    (h : Alike subscriber bus other)
    {label : Label V}
    (hlabel : label.concerns subscriber = true)
    (hstep : step logs bus label = some next) :
    ∃ after, EventBus.step logs other label = some after ∧ Alike subscriber next after := by
  cases label with
  | subscribe maxsize =>
      cases hstep
      refine ⟨_, rfl, h.state, h.liveId, h.emitted, ?_, ?_⟩
      · simp only [Bus.subscribe, List.length_append, h.length]
        rfl
      · simp only [Bus.subscribe, List.getElem?_append, h.length, h.emitted, h.same]
  | unsubscribe leaver =>
      cases hstep
      refine ⟨_, rfl, h.state, h.liveId, h.emitted, ?_, ?_⟩
      · simp only [List.length_modify, h.length]
      · simp only [List.getElem?_modify, h.same]
  | emit event writing =>
      cases hstep
      exact ⟨_, rfl, h.emit event writing⟩
  | setState state writing =>
      cases hstep
      refine ⟨_, rfl, ?_⟩
      by_cases hsame : state = bus.state
      · rw [Bus.setState, if_pos hsame, Bus.setState, if_pos (hsame.trans h.state)]
        exact h
      · rw [Bus.setState, if_neg hsame, Bus.setState, if_neg (h.state ▸ hsame)]
        have hset : Alike subscriber { bus with state := state } { other with state := state } :=
          ⟨rfl, h.liveId, h.emitted, h.length, h.same⟩
        exact hset.emit _ writing
  | get taker =>
      have htaker : taker = subscriber := by simpa [Label.concerns] using hlabel
      subst htaker
      obtain ⟨taken, htaken, rfl⟩ := Option.map_eq_some_iff.1 hstep
      have hafter : EventBus.step logs other (.get taker) =
          some { other with subscriptions := other.subscriptions.set taker taken } := by
        rw [EventBus.step, ← h.same, htaken]
        rfl
      refine ⟨_, hafter, h.state, h.liveId, h.emitted, ?_, ?_⟩
      · simp only [List.length_set, h.length]
      · simp only [List.getElem?_set_self', h.same]

/-- A run does to a subscriber what its steps that concern it do alone. -/
theorem Alike.exec
    {labels : List (Label V)}
    (h : Alike subscriber bus other)
    (hrun : (machine V logs).exec bus labels = some next) :
    ∃ after, (machine V logs).exec other (labels.filter (Label.concerns subscriber)) =
        some after ∧
      Alike subscriber next after := by
  induction labels generalizing bus other with
  | nil =>
      cases hrun
      exact ⟨other, rfl, h⟩
  | cons label labels ih =>
      cases hstep : (machine V logs).step bus label with
      | none => simp [Machine.exec, hstep] at hrun
      | some mid =>
          rw [Machine.exec_cons _ hstep] at hrun
          cases hlabel : label.concerns subscriber with
          | false =>
              rw [List.filter_cons_of_neg (by simp [hlabel])]
              exact ih (h.skip hlabel hstep) hrun
          | true =>
              rw [List.filter_cons_of_pos hlabel]
              obtain ⟨after, hafter, halike⟩ := h.step hlabel hstep
              rw [Machine.exec_cons _ hafter]
              exact ih halike hrun

end Alone

/--
For every interleaving of emits and gets and every bound: what a subscriber receives is a
run of the events emitted since its subscription, then at most the marker of its eviction,
and nothing after it.  And it depends only on the steps that concern it: with other gets of
the other subscribers, or none, it receives the same.
-/
theorem event_bus_gap_free
    (V : Type)
    (logs : Bool) :
    (∀ bus, (machine V logs).Reaches Machine.always bus →
      ∀ s ∈ bus.subscriptions, GapFree bus.emitted s) ∧
    (∀ (subscriber : Nat) (bus : Bus V) (labels others : List (Label V)) (next last : Bus V),
      labels.filter (Label.concerns subscriber) = others.filter (Label.concerns subscriber) →
      (machine V logs).exec bus labels = some next →
      (machine V logs).exec bus others = some last →
      next.subscriptions[subscriber]? = last.subscriptions[subscriber]?) := by
  constructor
  · intro bus h s hs
    have hsound : ∀ s ∈ bus.subscriptions, Sound bus.emitted s := by
      refine h.invariant (I := fun bus => ∀ s ∈ bus.subscriptions, Sound bus.emitted s) ?_ ?_
      · rintro bus rfl s hs
        exact absurd hs List.not_mem_nil
      · exact fun bus label next hbus _ hstep => sound_step hbus label hstep
    exact (hsound s hs).gapFree
  · intro subscriber bus labels others next last hsame hlabels hothers
    have hself : Alike subscriber bus bus := ⟨rfl, rfl, rfl, rfl, rfl⟩
    obtain ⟨after, hafter, hnext⟩ := hself.exec hlabels
    obtain ⟨after', hafter', hlast⟩ := hself.exec hothers
    rw [hsame, hafter'] at hafter
    rw [hnext.same, hlast.same, Option.some.inj hafter]

/-- Two subscribers, one with room for a single event, and two events. -/
def sampleRun : List (Label Nat) :=
  [.subscribe 1, .subscribe 0, .emit (.logged 7) ⟨"09:00".toList, some 1⟩,
    .emit (.logged 8) ⟨"09:01".toList, none⟩]

/-- The slow subscriber is evicted and reads the marker; the other one reads the events,
whether or not the first has read its marker. -/
theorem event_bus_gap_free_sample :
    (∀ s ∈ ((machine Nat true).runTo {} (sampleRun ++ [.get 0, .get 1])).subscriptions,
      GapFree ((machine Nat true).runTo {} (sampleRun ++ [.get 0, .get 1])).emitted s) ∧
    ((machine Nat true).runTo {} (sampleRun ++ [.get 0, .get 1])).subscriptions[1]? =
      ((machine Nat true).runTo {} (sampleRun ++ [.get 1])).subscriptions[1]? ∧
    (((machine Nat true).runTo {} (sampleRun ++ [.get 0, .get 1])).subscriptions.map
      Subscription.received) =
      [[.evicted], [.event ⟨.logged 7, "09:00".toList, 1⟩]] := by
  have hstart : (machine Nat true).Reaches Machine.always {} := .start rfl
  refine ⟨?_, ?_, by decide⟩
  · exact (event_bus_gap_free Nat true).1 _
      (hstart.runTo (sampleRun ++ [.get 0, .get 1]) (Machine.admits_always _ _ _) (by decide))
  · exact (event_bus_gap_free Nat true).2 1 {} (sampleRun ++ [.get 0, .get 1])
      (sampleRun ++ [.get 1]) _ _ (by decide) (Machine.exec_runTo _ (by decide))
      (Machine.exec_runTo _ (by decide))

end EventBus
end Agent
end Vesta
