import Mathlib.Data.Finset.Insert
import Mathlib.Data.Finset.Erase
import Mathlib.Data.List.Dedup
import Vesta.Lib.Machine
import Vesta.Lib.Map
import Vesta.Vestad.Types

/-!
# Client presence and page-open notifications

Every `/sync` connection reports whether its window is focused and which agent's
page it views.  The hub fans out whether some client is focused, and detects when
an agent's page is opened after the user was away from it for long enough: it
hands the agent to the caller, who waits a settle window and then asks
`confirmReturn` whether somebody still views the page.

Times are nanoseconds since the process started.  The hash tables of the source
list their entries in no particular order, the maps here in key order, and no
result below depends on the order.
-/

namespace Vesta
namespace Vestad

namespace Sync
namespace Presence

open Lib

/-- `PRESENCE_NOTIFY_DEBOUNCE`: how long the user must have been away from an agent. -/
def presenceNotifyDebounce : Nat := 10 * 60 * 1000000000

abbrev ConnId := Nat

/-- The fields of a context frame that presence reads. -/
structure ClientContext where
  focused : Bool
  client : ClientKind
  resync : Bool
  viewing : Option String
deriving DecidableEq

structure PresenceState where
  contexts : Map ConnId ClientContext
  /-- Per agent, the last instant it was viewed, frozen while a confirmation is pending. -/
  lastViewedAt : Map String Nat
  /-- Agents whose page-open awaits its `confirmReturn`. -/
  pending : Finset String
deriving DecidableEq

/-- The hub: its state, the next connection id and the published focus value. -/
structure Hub where
  state : PresenceState
  nextId : ConnId
  anyFocused : Bool
deriving DecidableEq

/-- `Presence::new`. -/
def Hub.new : Hub where
  state := { contexts := ∅, lastViewedAt := ∅, pending := ∅ }
  nextId := 0
  anyFocused := false

def computeAnyFocused (contexts : Map ConnId ClientContext) : Bool :=
  (Map.valueList contexts).any fun c => c.focused

/-- Every agent some connection reports viewing, each once. -/
def viewedAgents (contexts : Map ConnId ClientContext) : List String :=
  ((Map.valueList contexts).filterMap fun c => c.viewing).dedup

/-- The kind of some client viewing `agent`. -/
def viewingClient
    (contexts : Map ConnId ClientContext)
    (agent : String) :
    Option ClientKind :=
  ((Map.valueList contexts).find? fun c => c.viewing = some agent).map fun c => c.client

/-- Whether the user has been away from `agent` for the debounce, or never viewed it. -/
def fresh (state : PresenceState) (now : Nat) (agent : String) : Bool :=
  state.lastViewedAt[agent]?.all fun last => presenceNotifyDebounce ≤ now - last

/-- `finish` on one agent that entered the viewed set. -/
def enter
    (resync : Bool)
    (now : Nat)
    (acc : PresenceState × Option String)
    (agent : String) :
    PresenceState × Option String :=
  if !resync && agent ∉ acc.1.pending && fresh acc.1 now agent then
    ({ acc.1 with pending := insert agent acc.1.pending }, some agent)
  else if agent ∉ acc.1.pending then
    ({ acc.1 with lastViewedAt := acc.1.lastViewedAt.insert agent now }, acc.2)
  else
    acc

/-- `finish` on one agent that stays in or leaves the viewed set. -/
def refresh (now : Nat) (state : PresenceState) (agent : String) : PresenceState :=
  if agent ∉ state.pending then
    { state with lastViewedAt := state.lastViewedAt.insert agent now }
  else
    state

/-- Reconcile a change of the contexts with what was focused and viewed before it. -/
def Hub.finish
    (hub : Hub)
    (wasFocused : Bool)
    (oldViewed : List String)
    (resync : Bool)
    (now : Nat) :
    Hub × Option String :=
  let isFocused := computeAnyFocused hub.state.contexts
  let newViewed := viewedAgents hub.state.contexts
  let anyFocused := if isFocused != wasFocused then isFocused else hub.anyFocused
  let entered := newViewed.filter fun agent => agent ∉ oldViewed
  let (state, started) := entered.foldl (enter resync now) (hub.state, none)
  let stamped :=
    newViewed.filter (fun agent => agent ∈ oldViewed) ++
      oldViewed.filter fun agent => agent ∉ newViewed
  ({ hub with state := stamped.foldl (refresh now) state, anyFocused }, started)

def Hub.connect (hub : Hub) : Hub × ConnId :=
  ({ hub with nextId := hub.nextId + 1 }, hub.nextId)

/-- The hub after a context frame, and the agent whose page-open the frame started. -/
def Hub.record (hub : Hub) (id : ConnId) (ctx : ClientContext) (now : Nat) : Hub × Option String :=
  let wasFocused := computeAnyFocused hub.state.contexts
  let oldViewed := viewedAgents hub.state.contexts
  let state := { hub.state with contexts := hub.state.contexts.insert id ctx }
  Hub.finish { hub with state } wasFocused oldViewed ctx.resync now

/-- The hub after a socket closed; what `finish` returns is dropped. -/
def Hub.disconnect (hub : Hub) (id : ConnId) (now : Nat) : Hub :=
  let wasFocused := computeAnyFocused hub.state.contexts
  let oldViewed := viewedAgents hub.state.contexts
  let state := { hub.state with contexts := hub.state.contexts.erase id }
  (Hub.finish { hub with state } wasFocused oldViewed false now).1

/-- Consume a pending page-open: the kind of a client still viewing the page, if any. -/
def Hub.confirmReturn (hub : Hub) (agent : String) (now : Nat) : Hub × Option ClientKind :=
  if agent ∉ hub.state.pending then
    (hub, none)
  else
    let state := { hub.state with pending := hub.state.pending.erase agent }
    match viewingClient state.contexts agent with
    | none => ({ hub with state }, none)
    | some client =>
        let lastViewedAt := state.lastViewedAt.insert agent now
        ({ hub with state := { state with lastViewedAt } }, some client)

section Contexts

variable {contexts : Map ConnId ClientContext}

theorem computeAnyFocused_iff :
    computeAnyFocused contexts = true ↔
      ∃ (id : ConnId) (c : ClientContext), contexts[id]? = some c ∧ c.focused = true := by
  rw [computeAnyFocused, List.any_eq_true]
  constructor
  · rintro ⟨c, hc, hfocused⟩
    obtain ⟨id, hid⟩ := Map.mem_valueList.1 hc
    exact ⟨id, c, hid, hfocused⟩
  · rintro ⟨id, c, hid, hfocused⟩
    exact ⟨c, Map.mem_valueList.2 ⟨id, hid⟩, hfocused⟩

theorem mem_viewedAgents {agent : String} :
    agent ∈ viewedAgents contexts ↔
      ∃ (id : ConnId) (c : ClientContext), contexts[id]? = some c ∧ c.viewing = some agent := by
  rw [viewedAgents, List.mem_dedup, List.mem_filterMap]
  constructor
  · rintro ⟨c, hc, hviewing⟩
    obtain ⟨id, hid⟩ := Map.mem_valueList.1 hc
    exact ⟨id, c, hid, hviewing⟩
  · rintro ⟨id, c, hid, hviewing⟩
    exact ⟨c, Map.mem_valueList.2 ⟨id, hid⟩, hviewing⟩

/-- A kind is found only for a connection that views the agent. -/
theorem viewing_of_viewingClient
    {agent : String} {client : ClientKind}
    (h : viewingClient contexts agent = some client) :
    ∃ (id : ConnId) (c : ClientContext),
      contexts[id]? = some c ∧ c.viewing = some agent ∧ c.client = client := by
  rw [viewingClient, Option.map_eq_some_iff] at h
  obtain ⟨c, hfind, hclient⟩ := h
  obtain ⟨id, hid⟩ := Map.mem_valueList.1 (List.mem_of_find?_eq_some hfind)
  have hviewing : c.viewing = some agent := by
    simpa using List.find?_some hfind
  exact ⟨id, c, hid, hviewing, hclient⟩

end Contexts

section Finish

/-- What `finish` does to the state at `now`, when it starts `started`. -/
structure Moved
    (now : Nat)
    (old new : PresenceState)
    (started : Option String) :
    Prop where
  contexts : new.contexts = old.contexts
  stamps :
    ∀ agent : String,
      new.lastViewedAt[agent]? = old.lastViewedAt[agent]? ∨
        new.lastViewedAt[agent]? = some now
  silent : started = none → new.pending = old.pending
  opened :
    ∀ agent, started = some agent →
      agent ∉ old.pending ∧ fresh old now agent = true ∧
        new.pending = insert agent old.pending

variable {now : Nat} {old new : PresenceState} {started : Option String}

/-- The stamp of one agent at `now` moves the timeline of no other one. -/
theorem stamps_insert
    {agent : String}
    (hstamps :
      ∀ other : String,
        new.lastViewedAt[other]? = old.lastViewedAt[other]? ∨
          new.lastViewedAt[other]? = some now)
    (other : String) :
    (new.lastViewedAt.insert agent now)[other]? = old.lastViewedAt[other]? ∨
      (new.lastViewedAt.insert agent now)[other]? = some now := by
  rw [Std.ExtTreeMap.getElem?_insert]
  split
  · exact Or.inr rfl
  · exact hstamps other

theorem Moved.refresh
    (h : Moved now old new started)
    (agent : String) :
    Moved now old (refresh now new agent) started := by
  rw [Presence.refresh]
  split
  · exact { h with stamps := stamps_insert h.stamps }
  · exact h

theorem Moved.refreshAll
    (agents : List String)
    (h : Moved now old new started) :
    Moved now old (agents.foldl (Presence.refresh now) new) started := by
  induction agents generalizing new with
  | nil => exact h
  | cons agent agents ih => exact ih (h.refresh agent)

theorem moved_refl (now : Nat) (state : PresenceState) : Moved now state state none where
  contexts := rfl
  stamps _ := Or.inl rfl
  silent _ := rfl
  opened _ h := by cases h

/-- One entering agent is started when it is fresh, and stamped otherwise. -/
theorem moved_enter
    (resync : Bool) (now : Nat) (state : PresenceState) (agent : String) :
    Moved now state (enter resync now (state, none) agent).1
      (enter resync now (state, none) agent).2 := by
  rw [enter]
  split
  · rename_i h
    simp only [Bool.and_eq_true, decide_eq_true_eq] at h
    refine ⟨rfl, fun _ => Or.inl rfl, (nomatch ·), fun other hother => ?_⟩
    cases hother
    exact ⟨h.1.2, h.2, rfl⟩
  · split
    · exact { moved_refl now state with stamps := stamps_insert fun _ => Or.inl rfl }
    · exact moved_refl now state

/-- A list without repetitions of a single value has at most one entry. -/
theorem eq_nil_or_singleton
    {agents : List String} {agent : String}
    (hnodup : agents.Nodup)
    (hall : ∀ other ∈ agents, other = agent) :
    agents = [] ∨ agents = [agent] := by
  cases agents with
  | nil => exact Or.inl rfl
  | cons head rest =>
      cases rest with
      | nil =>
          rw [hall head List.mem_cons_self]
          exact Or.inr rfl
      | cons next rest =>
          have hhead : head = agent := hall head (by simp)
          have hnext : next = agent := hall next (by simp)
          exact absurd (hhead.trans hnext.symm) (by simp at hnodup; exact hnodup.1.1)

/-- With one entering agent at most, `finish` starts that agent or none. -/
theorem moved_finish
    (hub : Hub) (wasFocused : Bool) (oldViewed : List String) (resync : Bool) (now : Nat)
    (viewing : String)
    (hone :
      ∀ agent ∈ viewedAgents hub.state.contexts, agent ∉ oldViewed → agent = viewing) :
    Moved now hub.state (hub.finish wasFocused oldViewed resync now).1.state
      (hub.finish wasFocused oldViewed resync now).2 := by
  have hnodup :
      ((viewedAgents hub.state.contexts).filter fun agent => agent ∉ oldViewed).Nodup :=
    (List.nodup_dedup _).filter _
  have hentered :
      ∀ agent ∈ (viewedAgents hub.state.contexts).filter (fun agent => agent ∉ oldViewed),
        agent = viewing := by
    intro agent hagent
    rw [List.mem_filter, decide_eq_true_eq] at hagent
    exact hone agent hagent.1 hagent.2
  rw [Hub.finish]
  rcases eq_nil_or_singleton hnodup hentered with hnil | hsingle
  · rw [hnil]
    exact (moved_refl now hub.state).refreshAll _
  · rw [hsingle]
    exact (moved_enter resync now hub.state viewing).refreshAll _

/-- `finish` publishes whether some context is focused, when the old value was right. -/
theorem finish_anyFocused
    (hub : Hub) (oldViewed : List String) (resync : Bool) (now : Nat) :
    (hub.finish hub.anyFocused oldViewed resync now).1.anyFocused =
      computeAnyFocused hub.state.contexts := by
  have hflip :
      (if computeAnyFocused hub.state.contexts != hub.anyFocused then
        computeAnyFocused hub.state.contexts else hub.anyFocused) =
        computeAnyFocused hub.state.contexts := by
    cases computeAnyFocused hub.state.contexts <;> cases hub.anyFocused <;> rfl
  exact hflip

end Finish

/-!
## Runs of the sockets

A socket owns the connection id it was given: it records under that id and, when
its session ends, disconnects it.  A settle task confirms an agent it was handed,
and a stray confirmation of any agent is admitted at any time.
-/

/-- The hub with what its callers hold and have seen. -/
structure World where
  hub : Hub
  now : Nat
  /-- The connections whose session has not ended. -/
  connected : Finset ConnId
  /-- The agents handed out by `record` and not confirmed since. -/
  handed : List String
  /-- The confirmations that succeeded, the latest first, with their times. -/
  confirmed : List (String × Nat)

inductive Label
  | connect
  | record (id : ConnId) (ctx : ClientContext) (elapsed : Nat)
  | disconnect (id : ConnId) (elapsed : Nat)
  | confirmReturn (agent : String) (elapsed : Nat)

def initial : World where
  hub := Hub.new
  now := 0
  connected := ∅
  handed := []
  confirmed := []

/-- One call on the hub, `elapsed` after the one before it. -/
def step (w : World) : Label → Option World
  | .connect =>
      let (hub, id) := w.hub.connect
      some { w with hub, connected := insert id w.connected }
  | .record id ctx elapsed =>
      if id ∉ w.connected then
        none
      else
        let now := w.now + elapsed
        let (hub, started) := w.hub.record id ctx now
        some { w with hub, now, handed := started.toList ++ w.handed }
  | .disconnect id elapsed =>
      if id ∉ w.connected then
        none
      else
        let now := w.now + elapsed
        some { w with hub := w.hub.disconnect id now, now, connected := w.connected.erase id }
  | .confirmReturn agent elapsed =>
      let now := w.now + elapsed
      let (hub, client) := w.hub.confirmReturn agent now
      let confirmed :=
        match client with
        | none => w.confirmed
        | some _ => (agent, now) :: w.confirmed
      some { w with hub, now, handed := w.handed.erase agent, confirmed }

def machine : Machine World Label where
  start w := w = initial
  step := step

/-- Two confirmations of one agent lie at least the debounce apart. -/
def Spaced (later earlier : String × Nat) : Prop :=
  later.1 = earlier.1 → earlier.2 + presenceNotifyDebounce ≤ later.2

/-- What every call on the hub keeps. -/
structure Holds (w : World) : Prop where
  focus : w.hub.anyFocused = computeAnyFocused w.hub.state.contexts
  owned : ∀ id : ConnId, id ∈ w.hub.state.contexts → id ∈ w.connected
  handedOnce : ∀ agent, w.handed.count agent = if agent ∈ w.hub.state.pending then 1 else 0
  stamped :
    ∀ (agent : String) (last : Nat),
      w.hub.state.lastViewedAt[agent]? = some last → last ≤ w.now
  noted :
    ∀ e ∈ w.confirmed, ∃ last : Nat, w.hub.state.lastViewedAt[e.1]? = some last ∧ e.2 ≤ last
  rested :
    ∀ e ∈ w.confirmed, e.1 ∈ w.hub.state.pending → e.2 + presenceNotifyDebounce ≤ w.now
  spaced : w.confirmed.Pairwise Spaced

section Runs

theorem holds_initial : Holds initial where
  focus := by decide
  owned id h := absurd h Std.ExtTreeMap.not_mem_empty
  handedOnce _ := rfl
  stamped _ _ h := by cases h
  noted _ h := by cases h
  rested _ h := by cases h
  spaced := List.Pairwise.nil

/-- What a fresh agent was confirmed at lies the debounce back. -/
theorem Holds.rested_of_fresh
    {w : World}
    (h : Holds w)
    {agent : String} {now : Nat}
    (hfresh : fresh w.hub.state now agent = true)
    {e : String × Nat}
    (he : e ∈ w.confirmed)
    (hagent : e.1 = agent) :
    e.2 + presenceNotifyDebounce ≤ now := by
  obtain ⟨last, hlast, hle⟩ := h.noted e he
  rw [hagent] at hlast
  simp only [fresh, hlast, Option.all_some, decide_eq_true_eq] at hfresh
  have hpos : 0 < presenceNotifyDebounce := by decide
  omega

/-- The invariant after `finish` on contexts that only connected sockets own. -/
theorem Holds.moved
    {w : World}
    (h : Holds w)
    {hub : Hub} {now : Nat} {connected : Finset ConnId}
    {contexts : Map ConnId ClientContext}
    (started : Option String)
    (hnow : w.now ≤ now)
    (hmoved : Moved now { w.hub.state with contexts } hub.state started)
    (hfocus : hub.anyFocused = computeAnyFocused contexts)
    (howned : ∀ id : ConnId, id ∈ contexts → id ∈ connected) :
    Holds { w with hub, now, connected, handed := started.toList ++ w.handed } where
  focus := by
    change hub.anyFocused = computeAnyFocused hub.state.contexts
    rw [hmoved.contexts, hfocus]
  owned := by
    change ∀ id : ConnId, id ∈ hub.state.contexts → id ∈ connected
    rw [hmoved.contexts]
    exact howned
  handedOnce agent := by
    change (started.toList ++ w.handed).count agent = if agent ∈ hub.state.pending then 1 else 0
    have hold := h.handedOnce agent
    cases hs : started with
    | none => simpa [hmoved.silent hs] using hold
    | some opened =>
        obtain ⟨hnot, -, hpending⟩ := hmoved.opened opened hs
        have hnot : opened ∉ w.hub.state.pending := hnot
        rw [hpending]
        by_cases hagent : agent = opened
        · rw [hagent, if_neg hnot] at hold
          simp [hagent, hold]
        · simp only [Option.toList_some, List.singleton_append, Finset.mem_insert, hagent,
            false_or]
          rw [List.count_cons_of_ne (Ne.symm hagent), hold]
  stamped agent last hlast := by
    rcases hmoved.stamps agent with hsame | hnew
    · exact (h.stamped agent last (hsame.symm.trans hlast)).trans hnow
    · exact Nat.le_of_eq (Option.some.inj (hlast.symm.trans hnew))
  noted e he := by
    obtain ⟨last, hlast, hle⟩ := h.noted e he
    rcases hmoved.stamps e.1 with hsame | hnew
    · exact ⟨last, hsame.trans hlast, hle⟩
    · exact ⟨now, hnew, (hle.trans (h.stamped e.1 last hlast)).trans hnow⟩
  rested e he hpending := by
    change e.1 ∈ hub.state.pending at hpending
    cases hs : started with
    | none =>
        rw [hmoved.silent hs] at hpending
        exact (h.rested e he hpending).trans hnow
    | some opened =>
        obtain ⟨-, hfresh, hinsert⟩ := hmoved.opened opened hs
        rw [hinsert, Finset.mem_insert] at hpending
        rcases hpending with hopened | hold
        · exact h.rested_of_fresh hfresh he hopened
        · exact (h.rested e he hold).trans hnow
  spaced := h.spaced

/-- A frame brings at most the agent it views into the viewed set. -/
theorem eq_viewing_of_entered
    {contexts : Map ConnId ClientContext} {id : ConnId} {ctx : ClientContext} {agent : String}
    (hnew : agent ∈ viewedAgents (contexts.insert id ctx))
    (hold : agent ∉ viewedAgents contexts) :
    ctx.viewing = some agent := by
  obtain ⟨other, c, hother, hviewing⟩ := mem_viewedAgents.1 hnew
  rw [Std.ExtTreeMap.getElem?_insert] at hother
  split at hother
  · cases hother
    exact hviewing
  · exact absurd (mem_viewedAgents.2 ⟨other, c, hother, hviewing⟩) hold

/-- A closed socket brings no agent into the viewed set. -/
theorem viewed_of_erase
    {contexts : Map ConnId ClientContext} {id : ConnId} {agent : String}
    (hnew : agent ∈ viewedAgents (contexts.erase id)) :
    agent ∈ viewedAgents contexts := by
  obtain ⟨other, c, hother, hviewing⟩ := mem_viewedAgents.1 hnew
  rw [Std.ExtTreeMap.getElem?_erase] at hother
  split at hother
  · cases hother
  · exact mem_viewedAgents.2 ⟨other, c, hother, hviewing⟩

theorem moved_record
    (hub : Hub) (id : ConnId) (ctx : ClientContext) (now : Nat) :
    Moved now { hub.state with contexts := hub.state.contexts.insert id ctx }
      (hub.record id ctx now).1.state (hub.record id ctx now).2 := by
  refine moved_finish
    { hub with state := { hub.state with contexts := hub.state.contexts.insert id ctx } }
    _ _ _ now (ctx.viewing.getD "") ?_
  intro agent hnew hold
  rw [eq_viewing_of_entered hnew hold]
  rfl

/-- A disconnect only shrinks the viewed set, so it starts no return. -/
theorem moved_disconnect
    (hub : Hub) (id : ConnId) (now : Nat) :
    Moved now { hub.state with contexts := hub.state.contexts.erase id }
      (hub.disconnect id now).state none := by
  have hentered :
      ((viewedAgents (hub.state.contexts.erase id)).filter fun agent =>
        agent ∉ viewedAgents hub.state.contexts) = [] := by
    rw [List.filter_eq_nil_iff]
    intro agent hagent
    simpa using viewed_of_erase hagent
  rw [Hub.disconnect, Hub.finish, hentered]
  exact (moved_refl now _).refreshAll _

/-- What a confirmation of a pending agent does. -/
theorem confirmReturn_of_pending
    {hub : Hub} {agent : String}
    (hpending : agent ∈ hub.state.pending)
    (now : Nat) :
    let state := { hub.state with pending := hub.state.pending.erase agent }
    (viewingClient hub.state.contexts agent = none ∧
      hub.confirmReturn agent now = ({ hub with state }, none)) ∨
    ∃ client, viewingClient hub.state.contexts agent = some client ∧
      hub.confirmReturn agent now =
        ({ hub with
            state := { state with lastViewedAt := state.lastViewedAt.insert agent now } },
          some client) := by
  rw [Hub.confirmReturn, if_neg (not_not.2 hpending)]
  cases hclient : viewingClient hub.state.contexts agent with
  | none => exact Or.inl ⟨rfl, by simp only [hclient]⟩
  | some client => exact Or.inr ⟨client, rfl, by simp only [hclient]⟩

theorem confirmReturn_of_not_pending
    {hub : Hub} {agent : String}
    (hpending : agent ∉ hub.state.pending)
    (now : Nat) :
    hub.confirmReturn agent now = (hub, none) := by
  rw [Hub.confirmReturn, if_pos hpending]

/-- What is handed out after a confirmation of `agent` is still pending, once each. -/
theorem Holds.handed_erase
    {w : World}
    (h : Holds w)
    (agent other : String) :
    (w.handed.erase agent).count other =
      if other ∈ w.hub.state.pending.erase agent then 1 else 0 := by
  have hold := h.handedOnce other
  by_cases hother : other = agent
  · subst hother
    have hle : w.handed.count other ≤ 1 := by
      rw [hold]
      split <;> omega
    rw [List.count_erase_self, if_neg (Finset.notMem_erase _ _)]
    omega
  · rw [List.count_erase_of_ne hother, hold]
    simp [hother]

theorem Holds.confirmReturn
    {w : World}
    (h : Holds w)
    (agent : String) (elapsed : Nat)
    {t : World}
    (hstep : step w (.confirmReturn agent elapsed) = some t) :
    Holds t := by
  have hnow : w.now ≤ w.now + elapsed := Nat.le_add_right _ _
  have hstamped :
      ∀ (other : String) (last : Nat),
        w.hub.state.lastViewedAt[other]? = some last → last ≤ w.now + elapsed :=
    fun other last hlast => (h.stamped other last hlast).trans hnow
  by_cases hpending : agent ∈ w.hub.state.pending
  · rcases confirmReturn_of_pending hpending (w.now + elapsed) with
      ⟨-, hcall⟩ | ⟨client, -, hcall⟩
    · simp only [step, hcall, Option.some.injEq] at hstep
      subst hstep
      exact
        { h with
          handedOnce := h.handed_erase agent
          stamped := hstamped
          rested := fun e he hmem =>
            (h.rested e he (Finset.mem_of_mem_erase hmem)).trans hnow }
    · simp only [step, hcall, Option.some.injEq] at hstep
      subst hstep
      refine
        { h with
          handedOnce := h.handed_erase agent
          stamped := ?_
          noted := ?_
          rested := ?_
          spaced := List.Pairwise.cons ?_ h.spaced }
      · intro other last hlast
        rw [Std.ExtTreeMap.getElem?_insert] at hlast
        split at hlast
        · exact Nat.le_of_eq (Option.some.inj hlast).symm
        · exact hstamped other last hlast
      · intro e he
        rw [Std.ExtTreeMap.getElem?_insert]
        rcases List.mem_cons.1 he with rfl | he
        · exact ⟨w.now + elapsed, by simp, le_rfl⟩
        · obtain ⟨last, hlast, hle⟩ := h.noted e he
          split
          · exact ⟨w.now + elapsed, rfl, hle.trans (hstamped e.1 last hlast)⟩
          · exact ⟨last, hlast, hle⟩
      · intro e he hmem
        obtain ⟨hne, hmem⟩ := Finset.mem_erase.1 hmem
        rcases List.mem_cons.1 he with rfl | he
        · exact absurd rfl hne
        · exact (h.rested e he hmem).trans hnow
      · intro e he hagent
        exact (h.rested e he (hagent ▸ hpending)).trans hnow
  · simp only [step, confirmReturn_of_not_pending hpending, Option.some.injEq] at hstep
    subst hstep
    have herase : w.handed.erase agent = w.handed := by
      apply List.erase_of_not_mem
      rw [← List.count_eq_zero, h.handedOnce agent, if_neg hpending]
    exact
      { h with
        handedOnce := by
          change ∀ other, (w.handed.erase agent).count other = _
          rw [herase]
          exact h.handedOnce
        stamped := hstamped
        rested := fun e he hmem => (h.rested e he hmem).trans hnow }

/-- Every call on the hub keeps the invariant. -/
theorem Holds.step
    {w t : World} {a : Label}
    (h : Holds w)
    (hstep : Presence.step w a = some t) :
    Holds t := by
  cases a with
  | connect =>
      simp only [Presence.step, Hub.connect, Option.some.injEq] at hstep
      subst hstep
      exact { h with owned := fun id hid => Finset.mem_insert_of_mem (h.owned id hid) }
  | record id ctx elapsed =>
      simp only [Presence.step] at hstep
      split at hstep
      · cases hstep
      · rename_i hid
        cases hstep
        refine h.moved _ (Nat.le_add_right _ _) (moved_record _ _ _ _) ?_ ?_
        · rw [Hub.record, ← h.focus]
          exact finish_anyFocused { w.hub with
            state := { w.hub.state with contexts := w.hub.state.contexts.insert id ctx } } _ _ _
        · intro other hother
          rcases Std.ExtTreeMap.mem_insert.1 hother with heq | hother
          · rw [← Std.LawfulEqCmp.eq_of_compare heq]
            exact not_not.1 hid
          · exact h.owned other hother
  | disconnect id elapsed =>
      simp only [Presence.step] at hstep
      split at hstep
      · cases hstep
      · cases hstep
        refine h.moved none (Nat.le_add_right _ _) (moved_disconnect _ _ _) ?_ ?_
        · rw [Hub.disconnect, ← h.focus]
          exact finish_anyFocused { w.hub with
            state := { w.hub.state with contexts := w.hub.state.contexts.erase id } } _ _ _
        · intro other hother
          obtain ⟨hne, hother⟩ := Std.ExtTreeMap.mem_erase.1 hother
          refine Finset.mem_erase.2 ⟨fun heq => hne ?_, h.owned other hother⟩
          rw [heq]
          exact Std.ReflCmp.compare_self
  | confirmReturn agent elapsed => exact h.confirmReturn agent elapsed hstep

theorem Holds.of_reaches
    {w : World}
    (h : machine.Reaches Machine.always w) :
    Holds w := by
  refine h.invariant ?_ (fun _ _ _ hs _ hstep => hs.step hstep)
  rintro s rfl
  exact holds_initial

/-- In every state the sockets and the settle tasks reach: an agent is pending exactly
when one hand-out of it is outstanding; confirmations of one agent lie the debounce
apart; a confirmation succeeds only for an agent that a connected client views, and
returns that client's kind; and the published focus is whether some connected client
is focused. -/
theorem presence_lifecycle
    {w : World}
    (h : machine.Reaches Machine.always w) :
    (∀ agent, agent ∈ w.hub.state.pending ↔ w.handed.count agent = 1) ∧
      (∀ agent, w.handed.count agent ≤ 1) ∧
      w.confirmed.Pairwise Spaced ∧
      (∀ agent now client, (w.hub.confirmReturn agent now).2 = some client →
        ∃ id ∈ w.connected, ∃ c : ClientContext, w.hub.state.contexts[id]? = some c ∧
          c.viewing = some agent ∧ c.client = client) ∧
      (w.hub.anyFocused = true ↔
        ∃ id ∈ w.connected, ∃ c : ClientContext, w.hub.state.contexts[id]? = some c ∧
          c.focused = true) := by
  have hw : Holds w := Holds.of_reaches h
  have hconnected :
      ∀ {id : ConnId} {c : ClientContext},
        w.hub.state.contexts[id]? = some c → id ∈ w.connected := by
    intro id c hc
    exact hw.owned id (Std.ExtTreeMap.mem_iff_isSome_getElem?.2 (by rw [hc]; rfl))
  refine ⟨fun agent => ?_, fun agent => ?_, hw.spaced, fun agent now client hclient => ?_, ?_⟩
  · rw [hw.handedOnce agent]
    split <;> simp [*]
  · rw [hw.handedOnce agent]
    split <;> omega
  · by_cases hpending : agent ∈ w.hub.state.pending
    · rcases confirmReturn_of_pending hpending now with ⟨-, hcall⟩ | ⟨kind, hviewing, hcall⟩
      · rw [hcall] at hclient
        cases hclient
      · rw [hcall] at hclient
        cases hclient
        obtain ⟨id, c, hc, hagent, hkind⟩ := viewing_of_viewingClient hviewing
        exact ⟨id, hconnected hc, c, hc, hagent, hkind⟩
    · rw [confirmReturn_of_not_pending hpending] at hclient
      cases hclient
  · rw [hw.focus, computeAnyFocused_iff]
    constructor
    · rintro ⟨id, c, hc, hfocused⟩
      exact ⟨id, hconnected hc, c, hc, hfocused⟩
    · rintro ⟨id, -, c, hc, hfocused⟩
      exact ⟨id, c, hc, hfocused⟩

/-- Two clients open a page one after the other and the second one is still there. -/
def opened : List Label :=
  let view (client : ClientKind) : ClientContext :=
    { focused := true, client, resync := false, viewing := some "scout" }
  [.connect, .connect, .record 0 (view .web) 1, .record 1 (view .mobile) 1, .disconnect 0 1]

theorem presence_lifecycle_opened :
    (machine.runTo initial opened).hub.anyFocused = true ∧
      (machine.runTo initial opened).handed.count "scout" = 1 := by
  have hreach : machine.Reaches Machine.always (machine.runTo initial opened) :=
    (Machine.Reaches.start rfl).runTo opened (machine.admits_always _ _) (by decide)
  obtain ⟨hpending, -, -, -, hfocus⟩ := presence_lifecycle hreach
  have hmobile :
      (machine.runTo initial opened).hub.state.contexts[(1 : ConnId)]? =
        some { focused := true, client := .mobile, resync := false, viewing := some "scout" } := by
    decide
  exact ⟨hfocus.2 ⟨1, by decide, _, hmobile, rfl⟩, (hpending "scout").1 (by decide)⟩

end Runs

end Presence
end Sync
end Vestad
end Vesta
