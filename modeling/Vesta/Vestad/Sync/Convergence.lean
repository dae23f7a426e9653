import Vesta.Vestad.Sync.Session

/-!
# The client's pending lists converge

The invariant of a serving session has three parts: the client holds a tree
with the roster the session sent last, that roster is the published one unless
a roster wake is due, and every agent of both rosters is shown its list in the
hub unless a notifications wake is due.  Each step keeps it when `Relayed`
admits the step.

A hub that forgets an agent whose container stopped is the step that breaks it:
the session sends nothing for an agent without an entry, and the roster still
holds the agent, so no removal covers it either.
-/

namespace Vesta
namespace Vestad
namespace Sync

open Lib
open Vesta.Core

variable {G D V : Type}

/-! ## Folding frames -/

theorem foldl_applyFrame_delta
    (deltas : List (Delta G D V)) (replica : Option (Tree G D V)) :
    (deltas.map Frame.delta).foldl applyFrame replica =
      replica.map fun tree => deltas.foldl reduceDelta tree := by
  induction deltas generalizing replica with
  | nil => cases replica <;> rfl
  | cons delta deltas ih =>
      rw [List.map_cons, List.foldl_cons, ih]
      cases replica <;> rfl

@[simp] theorem held_send
    (s : SyncState G D V) (deltas : List (Delta G D V)) :
    (s.send deltas).held = s.held.map fun tree => deltas.foldl reduceDelta tree := by
  rw [SyncState.held, SyncState.send, List.foldl_append, foldl_applyFrame_delta]
  rfl

theorem roster_foldl_of_none
    {deltas : List (Delta G D V)}
    (hdeltas : ∀ delta ∈ deltas, rosterEdit delta = none)
    (tree : Tree G D V) :
    (deltas.foldl reduceDelta tree).roster = tree.roster := by
  induction deltas generalizing tree with
  | nil => rfl
  | cons delta deltas ih =>
      rw [List.foldl_cons, ih (fun d hd => hdeltas d (List.mem_cons_of_mem _ hd)),
        roster_reduceDelta_of_none (hdeltas delta List.mem_cons_self)]

theorem pending_buildTree
    (gateway : G) (roster : Map String AgentInfo)
    (pending : Map String (List V)) (devices : List D) (agent : String) :
    (buildTree gateway roster pending devices).pending agent =
      roster[agent]?.map fun _ => pending[agent]?.getD [] := by
  simp [buildTree, Tree.pending, Option.map_map, Function.comp_def]

theorem roster_buildTree
    (gateway : G) (roster : Map String AgentInfo)
    (pending : Map String (List V)) (devices : List D) :
    (buildTree gateway roster pending devices).roster = roster := by
  apply Std.ExtTreeMap.ext_getElem?
  intro agent
  rw [getElem?_roster]
  simp [buildTree, Option.map_map, Function.comp_def]

/-! ## The notification deltas -/

/-- The frame of one entry of the hub's lists. -/
def notificationsFrame (entry : String × List V) : Delta G D V :=
  .agentNotifications entry.1 entry.2

section Deltas

variable [DecidableEq V]

/-- The entries that a wake sends. -/
def sentEntries
    (last : Map String (List V))
    (walk : List (String × List V))
    (lastRoster : Map String AgentInfo) :
    List (String × List V) :=
  walk.filter fun entry =>
    decide (entry.1 ∈ lastRoster) && decide (last[entry.1]? ≠ some entry.2)

theorem foldl_notificationsDelta
    (last : Map String (List V))
    (walk : List (String × List V))
    (lastRoster : Map String AgentInfo)
    (acc : List (Delta G D V) × Map String (List V)) :
    (walk.foldl (notificationsDelta last lastRoster) acc).1 =
      acc.1 ++ (sentEntries last walk lastRoster).map notificationsFrame := by
  induction walk generalizing acc with
  | nil => simp [sentEntries]
  | cons entry walk ih =>
      rw [List.foldl_cons, ih]
      by_cases hmem : entry.1 ∈ lastRoster
      · by_cases hlast : last[entry.1]? = some entry.2
        · simp [notificationsDelta, sentEntries, hmem, hlast]
        · simp [notificationsDelta, sentEntries, notificationsFrame, hmem, hlast]
      · simp [notificationsDelta, sentEntries, hmem]

theorem notificationsDeltas_fst
    (last : Map String (List V))
    (walk : List (String × List V))
    (lastRoster : Map String AgentInfo) :
    (notificationsDeltas (G := G) (D := D) last walk lastRoster).1 =
      (sentEntries last walk lastRoster).map notificationsFrame := by
  rw [notificationsDeltas, foldl_notificationsDelta, List.nil_append]

omit [DecidableEq V] in
/-- Folding notification frames that agree with `lists` shows `lists` for the agents they name. -/
theorem pending_foldl_notificationsFrame
    {lists : Map String (List V)} {entries : List (String × List V)}
    (hentries : ∀ entry ∈ entries, lists[entry.1]? = some entry.2)
    {tree : Tree G D V}
    (htree : ∀ entry ∈ entries, entry.1 ∈ tree.agents)
    (agent : String) :
    ((entries.map notificationsFrame).foldl reduceDelta tree).pending agent =
      if agent ∈ entries.map Prod.fst then lists[agent]? else tree.pending agent := by
  induction entries generalizing tree with
  | nil => simp
  | cons entry entries ih =>
      have hmem := htree entry List.mem_cons_self
      have hlist := hentries entry List.mem_cons_self
      have hstep :
          reduceDelta tree (notificationsFrame entry) =
            { tree with
              agents := tree.agents.insert entry.1 ⟨tree.agents[entry.1].info, entry.2⟩ } := by
        simp [reduceDelta, notificationsFrame, Std.ExtTreeMap.getElem?_eq_some_getElem hmem]
      rw [List.map_cons, List.foldl_cons, ih]
      · by_cases hrest : agent ∈ entries.map Prod.fst
        · simp [hrest]
        · by_cases hagent : entry.1 = agent
          · subst hagent
            rw [if_neg hrest, hstep, if_pos (by simp), hlist]
            simp [Tree.pending]
          · have hnot : agent ∉ (entry :: entries).map Prod.fst := by
              rw [List.map_cons, List.mem_cons, not_or]
              exact ⟨fun h => hagent h.symm, hrest⟩
            rw [if_neg hrest, if_neg hnot, hstep]
            simp [Tree.pending, Std.ExtTreeMap.getElem?_insert, hagent]
      · exact fun e he => hentries e (List.mem_cons_of_mem _ he)
      · intro e he
        rw [hstep]
        exact Std.ExtTreeMap.mem_insert.2
          (.inr (htree e (List.mem_cons_of_mem _ he)))

/-- What the client shows after a notifications wake: the hub's list where one is sent, and
what it showed before elsewhere. -/
theorem pending_foldl_notificationsDeltas
    {last lists : Map String (List V)} {walk : List (String × List V)}
    (hwalk : walk.Perm lists.toList)
    {tree : Tree G D V} {agent : String}
    (hagent : agent ∈ tree.roster) :
    ((notificationsDeltas last walk tree.roster).1.foldl reduceDelta tree).pending agent =
      match lists[agent]? with
      | none => tree.pending agent
      | some pending =>
          if last[agent]? = some pending then tree.pending agent else some pending := by
  have hmem : ∀ entry, entry ∈ walk ↔ lists[entry.1]? = some entry.2 := by
    intro entry
    rw [hwalk.mem_iff, Std.ExtTreeMap.mem_toList_iff_getElem?_eq_some]
  have hentries :
      ∀ entry ∈ sentEntries last walk tree.roster, lists[entry.1]? = some entry.2 := by
    intro entry hentry
    exact (hmem entry).1 (List.mem_filter.1 hentry).1
  have htree :
      ∀ entry ∈ sentEntries last walk tree.roster, entry.1 ∈ tree.agents := by
    intro entry hentry
    have hsent := (List.mem_filter.1 hentry).2
    simp only [Bool.and_eq_true, decide_eq_true_eq] at hsent
    exact mem_roster.1 hsent.1
  rw [notificationsDeltas_fst, pending_foldl_notificationsFrame hentries htree]
  have hkeys :
      agent ∈ (sentEntries last walk tree.roster).map Prod.fst ↔
        ∃ pending, lists[agent]? = some pending ∧ last[agent]? ≠ some pending := by
    simp only [List.mem_map, sentEntries, List.mem_filter, hmem, Bool.and_eq_true,
      decide_eq_true_eq]
    constructor
    · rintro ⟨entry, ⟨hlist, -, hne⟩, rfl⟩
      exact ⟨entry.2, hlist, hne⟩
    · rintro ⟨pending, hlist, hne⟩
      exact ⟨(agent, pending), ⟨hlist, hagent, hne⟩, rfl⟩
  cases hlist : lists[agent]? with
  | none =>
      have hno : agent ∉ (sentEntries last walk tree.roster).map Prod.fst := by
        rw [hkeys]
        rintro ⟨pending, h, -⟩
        simp [hlist] at h
      rw [if_neg hno]
  | some pending =>
      by_cases hlast : last[agent]? = some pending
      · have hno : agent ∉ (sentEntries last walk tree.roster).map Prod.fst := by
          rw [hkeys]
          rintro ⟨pending', h, hne⟩
          rw [hlist] at h
          cases h
          exact hne hlast
        simp [hno, hlast]
      · have hyes : agent ∈ (sentEntries last walk tree.roster).map Prod.fst :=
          hkeys.2 ⟨pending, hlist, hlast⟩
        simp [hyes, hlast]

theorem rosterEdit_notificationsDeltas
    {last : Map String (List V)} {walk : List (String × List V)}
    {lastRoster : Map String AgentInfo} {delta : Delta G D V}
    (hdelta : delta ∈ (notificationsDeltas last walk lastRoster).1) :
    rosterEdit delta = none := by
  rw [notificationsDeltas_fst] at hdelta
  obtain ⟨entry, -, rfl⟩ := List.mem_map.1 hdelta
  rfl

end Deltas

/-! ## The invariant of a session -/

/-- What holds of a serving session. -/
structure Synced (s : SyncState G D V) (cursor : RosterCursor G) : Prop where
  roster : s.RosterDue ∨ cursor.lastRoster = s.currentRoster
  held : ∃ tree, s.held = some tree ∧ tree.roster = cursor.lastRoster
  shown :
    ∀ agent, agent ∈ cursor.lastRoster → agent ∈ s.currentRoster →
      s.NotificationsDue ∨ s.shown agent = s.hub.pending agent

/-- What holds in every phase of a connection. -/
def SyncInv (s : SyncState G D V) : Prop :=
  match s.phase with
  | .connecting => True
  | .subscribed => True
  | .rosterRead cursor => s.RosterDue ∨ cursor.lastRoster = s.currentRoster
  | .serving cursor _ => Synced s cursor

theorem shown_of_held
    {s : SyncState G D V} {tree : Tree G D V}
    (h : s.held = some tree)
    (agent : String) :
    s.shown agent = (tree.pending agent).getD [] := by
  simp [SyncState.shown, h]

/-- A step that changes neither the cache nor what the client will hold, and owes a wake for
every list it changes, keeps a session synced. -/
theorem Synced.of_frame
    {s t : SyncState G D V} {cursor : RosterCursor G}
    (h : Synced s cursor)
    (hcache : t.cache = s.cache)
    (hheld : t.held = s.held)
    (hroster : s.RosterDue → t.RosterDue)
    (hdue : s.NotificationsDue → t.NotificationsDue)
    (hhub : t.NotificationsDue ∨ ∀ agent, t.hub.pending agent = s.hub.pending agent) :
    Synced t cursor where
  roster := by
    rw [SyncState.currentRoster, hcache]
    exact h.roster.imp_left hroster
  held := by
    rw [hheld]
    exact h.held
  shown := by
    intro agent hlast hcur
    rw [SyncState.currentRoster, hcache] at hcur
    rcases hhub with hdue' | hsame
    · exact .inl hdue'
    · rw [SyncState.shown, hheld, hsame]
      exact (h.shown agent hlast hcur).imp_left hdue

/-- The same for every phase. -/
theorem SyncInv.of_frame
    {s t : SyncState G D V}
    (h : SyncInv s)
    (hphase : t.phase = s.phase)
    (hcache : t.cache = s.cache)
    (hheld : t.held = s.held)
    (hroster : s.RosterDue → t.RosterDue)
    (hdue : s.NotificationsDue → t.NotificationsDue)
    (hhub : t.NotificationsDue ∨ ∀ agent, t.hub.pending agent = s.hub.pending agent) :
    SyncInv t := by
  unfold SyncInv at h ⊢
  rw [hphase]
  cases hs : s.phase with
  | connecting | subscribed => trivial
  | rosterRead cursor =>
      simp only [hs] at h ⊢
      rw [SyncState.currentRoster, hcache]
      exact h.imp_left hroster
  | serving cursor lastPending =>
      simp only [hs] at h ⊢
      exact h.of_frame hcache hheld hroster hdue hhub

section Steps

variable [DecidableEq G] [DecidableEq V]

theorem syncInv_hub
    {stub : String → V} {s t : SyncState G D V} {op : SyncHub.Op V}
    (h : SyncInv s)
    (hstep : s.step stub (.hub op) = some t) :
    SyncInv t := by
  have hhub : t.hub = (s.hub.perform stub op).1 := by cases hstep; rfl
  have howed : t.bumpsOwed = s.bumpsOwed + (s.hub.perform stub op).2.toNat := by
    cases hstep; rfl
  refine h.of_frame (by cases hstep; rfl) (by cases hstep; rfl) (by cases hstep; rfl)
    (by cases hstep; exact id) ?_ ?_
  · rintro (hchanged | hpos)
    · exact .inl (by cases hstep; exact hchanged)
    · exact .inr (by omega)
  · cases hchanged : (s.hub.perform stub op).2 with
    | true => exact .inl (.inr (by simp [howed, hchanged]))
    | false =>
        rw [hhub]
        exact .inr (SyncHub.pending_perform_of_unchanged hchanged)

theorem syncInv_bump
    {stub : String → V} {s t : SyncState G D V}
    (h : SyncInv s)
    (hstep : s.step stub .bump = some t) :
    SyncInv t := by
  rw [SyncState.step] at hstep
  split at hstep
  · cases hstep
  · cases hstep
    exact h.of_frame rfl rfl rfl id (fun _ => .inl rfl) (.inr fun _ => rfl)

theorem syncInv_signal
    {stub : String → V} {s t : SyncState G D V}
    (h : SyncInv s)
    (hstep : s.step stub .signal = some t) :
    SyncInv t := by
  rw [SyncState.step] at hstep
  split at hstep
  · cases hstep
  · cases hstep
    exact h.of_frame rfl rfl rfl (fun _ => .inl rfl) id (.inr fun _ => rfl)

theorem syncInv_deliver
    {stub : String → V} {s t : SyncState G D V}
    (h : SyncInv s)
    (hstep : s.step stub .deliver = some t) :
    SyncInv t := by
  rw [SyncState.step] at hstep
  split at hstep
  · cases hstep
  · rename_i frame rest hwire
    cases hstep
    refine h.of_frame rfl rfl ?_ id id (.inr fun _ => rfl)
    rw [SyncState.held, SyncState.held, hwire, List.foldl_cons]

theorem syncInv_publish
    {stub : String → V} {s t : SyncState G D V} {cache : CacheReading}
    (h : SyncInv s)
    (hok : Relayed s (.publish cache))
    (hstep : s.step stub (.publish cache) = some t) :
    SyncInv t := by
  cases hstep
  unfold SyncInv at h ⊢
  cases hs : s.phase with
  | connecting | subscribed => trivial
  | rosterRead cursor => exact .inl (.inr (Nat.succ_pos _))
  | serving cursor lastPending =>
      simp only [hs] at h ⊢
      refine ⟨.inl (.inr (Nat.succ_pos _)), h.held, ?_⟩
      intro agent hlast hnew
      by_cases hcur : agent ∈ s.currentRoster
      · exact h.shown agent hlast hcur
      · rw [Relayed, hs] at hok
        exact hok agent (Std.ExtTreeMap.mem_keys.2 hlast) hnew hcur

theorem syncInv_subscribe
    {stub : String → V} {s t : SyncState G D V}
    (hstep : s.step stub .subscribe = some t) :
    SyncInv t := by
  rw [SyncState.step] at hstep
  split at hstep
  · cases hstep
    trivial
  · cases hstep

theorem syncInv_readRoster
    {stub : String → V} {s t : SyncState G D V} {gateway : G}
    (hstep : s.step stub (.readRoster gateway) = some t) :
    SyncInv t := by
  rw [SyncState.step] at hstep
  split at hstep
  · cases hstep
    exact .inr rfl
  · cases hstep

theorem syncInv_readPending
    {stub : String → V} {s t : SyncState G D V} {devices : List D}
    (h : SyncInv s)
    (hstep : s.step stub (.readPending devices) = some t) :
    SyncInv t := by
  rw [SyncState.step] at hstep
  split at hstep
  · rename_i cursor hs
    simp only [SyncInv, hs] at h
    have hheld :
        t.held =
          some (buildTree cursor.lastGateway cursor.lastRoster s.hub.pendingAll devices) := by
      cases hstep
      simp [SyncState.held, applyFrame]
    have hhub : t.hub = s.hub := by cases hstep; rfl
    have hsynced : Synced t cursor := by
      refine ⟨by cases hstep; exact h, ⟨_, hheld, roster_buildTree ..⟩, ?_⟩
      intro agent hlast _
      refine .inr ?_
      rw [shown_of_held hheld, pending_buildTree,
        Std.ExtTreeMap.getElem?_eq_some_getElem hlast, hhub]
      rfl
    cases hstep
    exact hsynced
  · cases hstep

theorem syncInv_serveNotifications
    {stub : String → V} {s t : SyncState G D V} {walk : List (String × List V)}
    (h : SyncInv s)
    (hok : Relayed s (.serveNotifications walk))
    (hstep : s.step stub (.serveNotifications walk) = some t) :
    SyncInv t := by
  rw [SyncState.step] at hstep
  split at hstep
  · rename_i cursor lastPending hs
    split at hstep
    · rename_i hwalk
      simp only [SyncInv, hs] at h
      rw [Relayed, hs] at hok
      obtain ⟨tree, hheld, hroster⟩ := h.held
      have hheld' :
          t.held = some
            ((notificationsDeltas lastPending walk cursor.lastRoster).1.foldl reduceDelta tree) := by
        have hsend := held_send s (notificationsDeltas lastPending walk cursor.lastRoster).1
        rw [hheld, Option.map_some] at hsend
        cases hstep
        exact hsend
      have hhub : t.hub = s.hub := by cases hstep; rfl
      have hcache : t.cache = s.cache := by cases hstep; rfl
      have hsynced : Synced t cursor := by
        refine ⟨by cases hstep; exact h.roster, ⟨_, hheld', ?_⟩, ?_⟩
        · rw [roster_foldl_of_none (fun _ => rosterEdit_notificationsDeltas), hroster]
        · intro agent hlast hcur
          rw [SyncState.currentRoster, hcache] at hcur
          have hagent := hok agent (Std.ExtTreeMap.mem_keys.2 hlast) hcur
          refine .inr ?_
          rw [shown_of_held hheld', ← hroster,
            pending_foldl_notificationsDeltas hwalk.2 (hroster ▸ hlast), hhub, SyncHub.pending]
          rw [shown_of_held hheld] at hagent
          cases hlist : s.hub.pendingAll[agent]? with
          | none => simpa using hagent.1 hlist
          | some pending =>
              by_cases hlastp : lastPending[agent]? = some pending
              · simpa [hlastp] using hagent.2 pending hlist hlastp
              · simp [hlastp]
      cases hstep
      exact hsynced
    · cases hstep
  · cases hstep

theorem syncInv_serveRoster
    {stub : String → V} {s t : SyncState G D V} {keepalive : Bool} {gateway : G}
    (h : SyncInv s)
    (hok : Relayed s (.serveRoster keepalive gateway))
    (hstep : s.step stub (.serveRoster keepalive gateway) = some t) :
    SyncInv t := by
  rw [SyncState.step] at hstep
  split at hstep
  · rename_i cursor lastPending hs
    split at hstep
    · simp only [SyncInv, hs] at h
      rw [Relayed, hs] at hok
      obtain ⟨tree, hheld, hroster⟩ := h.held
      have hheld' :
          t.held = some
            ((emitRosterAndGateway cursor s.currentRoster gateway).1.foldl reduceDelta tree) := by
        have hsend :=
          held_send s (emitRosterAndGateway (D := D) (V := V) cursor s.currentRoster gateway).1
        rw [hheld, Option.map_some] at hsend
        cases hstep
        exact hsend
      have hhub : t.hub = s.hub := by cases hstep; rfl
      have hcache : t.cache = s.cache := by cases hstep; rfl
      have hdue : s.NotificationsDue → t.NotificationsDue := by cases hstep; exact id
      have hphase : t.phase = .serving ⟨s.currentRoster, gateway⟩ lastPending := by
        cases hstep; rfl
      rw [SyncInv, hphase]
      refine ⟨.inr (by rw [SyncState.currentRoster, SyncState.currentRoster, hcache]),
        ⟨_, hheld', ?_⟩, ?_⟩
      · exact roster_foldl_emitRosterAndGateway hroster _ _
      · intro agent hagent _
        rw [shown_of_held hheld', getD_pending_foldl_emitRosterAndGateway _ hagent, hhub]
        by_cases hmem : agent ∈ cursor.lastRoster
        · rw [← shown_of_held hheld]
          exact (h.shown agent hmem hagent).imp_left hdue
        · have hnone : tree.pending agent = none := by
            rw [← hroster, mem_roster] at hmem
            simp [Tree.pending, Std.ExtTreeMap.getElem?_eq_none hmem]
          rw [hnone]
          exact (hok agent (Std.ExtTreeMap.mem_keys.2 hagent) hmem).imp hdue Eq.symm
    · cases hstep
  · cases hstep

omit [DecidableEq G] [DecidableEq V] in
/-- A relayed frame changes no agent node. -/
theorem agents_reduceDelta_of_isRelayed
    {delta : Delta G D V}
    (h : isRelayed delta = true)
    (tree : Tree G D V) :
    (reduceDelta tree delta).agents = tree.agents := by
  cases delta with
  | userNotification | presence | devices => rfl
  | state | agent | agentRemoved | agentNotifications => cases h

theorem syncInv_relay
    {stub : String → V} {s t : SyncState G D V} {delta : Delta G D V}
    (h : SyncInv s)
    (hstep : s.step stub (.relay delta) = some t) :
    SyncInv t := by
  rw [SyncState.step] at hstep
  split at hstep
  · rename_i cursor lastPending hs
    split at hstep
    · rename_i hrelayed
      simp only [SyncInv, hs] at h
      obtain ⟨tree, hheld, hroster⟩ := h.held
      have hagents := agents_reduceDelta_of_isRelayed hrelayed tree
      have hheld' : (s.send [delta]).held = some (reduceDelta tree delta) := by
        rw [held_send, hheld]
        rfl
      cases hstep
      change SyncInv (s.send [delta])
      have hphase : (s.send [delta]).phase = .serving cursor lastPending := hs
      rw [SyncInv, hphase]
      refine ⟨h.roster, ⟨_, hheld', ?_⟩, ?_⟩
      · rw [Tree.roster, hagents]
        exact hroster
      · intro agent hlast hcur
        rw [shown_of_held hheld', Tree.pending, hagents, ← Tree.pending, ← shown_of_held hheld]
        exact h.shown agent hlast hcur
    · cases hstep
  · cases hstep

theorem syncInv_step
    {stub : String → V} {s t : SyncState G D V} {label : Label G D V}
    (h : SyncInv s)
    (hok : Relayed s label)
    (hstep : s.step stub label = some t) :
    SyncInv t := by
  cases label with
  | hub op => exact syncInv_hub h hstep
  | bump => exact syncInv_bump h hstep
  | publish cache => exact syncInv_publish h hok hstep
  | signal => exact syncInv_signal h hstep
  | subscribe => exact syncInv_subscribe hstep
  | readRoster gateway => exact syncInv_readRoster hstep
  | readPending devices => exact syncInv_readPending h hstep
  | serveNotifications walk => exact syncInv_serveNotifications h hok hstep
  | serveRoster keepalive gateway => exact syncInv_serveRoster h hok hstep
  | relay delta => exact syncInv_relay h hstep
  | deliver => exact syncInv_deliver h hstep

omit [DecidableEq G] [DecidableEq V] in
theorem converged_of_syncInv
    {s : SyncState G D V}
    (h : SyncInv s) :
    s.Converged := by
  intro cursor lastPending hs hquiet
  obtain ⟨hnotifications, hroster, hwire⟩ := hquiet
  simp only [SyncInv, hs] at h
  obtain ⟨tree, hheld, htree⟩ := h.held
  have hreplica : s.replica = some tree := by
    simpa [SyncState.held, hwire] using hheld
  have hcurrent : tree.roster = s.currentRoster := by
    rw [htree]
    exact h.roster.resolve_left hroster
  refine ⟨tree, hreplica, ?_⟩
  intro agent
  rw [pending_buildTree, ← hcurrent, getElem?_roster]
  cases hnode : tree.agents[agent]? with
  | none => simp [Tree.pending, hnode]
  | some node =>
      have hmem : agent ∈ tree.roster := by
        rw [mem_roster, Std.ExtTreeMap.mem_iff_isSome_getElem?, hnode]
        rfl
      have hshown := (h.shown agent (htree ▸ hmem) (hcurrent ▸ hmem)).resolve_left hnotifications
      rw [shown_of_held hheld, SyncHub.pending] at hshown
      simpa [Tree.pending, hnode] using hshown

end Steps

/-! ## Runs on one agent -/

/-- A gateway with one agent that has one pending notification. -/
def sampleState : SyncState String Nat String where
  hub := (∅ : SyncHub String).insert "scout"
    { known := (∅ : Map String String).insert "n1" "new message", order := ["n1"] }
  bumpsOwed := 0
  cache := sampleReading
  signalsOwed := 0
  phase := .connecting
  notificationsChanged := false
  rosterChanged := false
  wire := []
  replica := none

/-- A session that connects and folds its snapshot. -/
def connectRun : List (Label String Nat String) :=
  [.subscribe, .readRoster "0.1.0", .readPending [], .deliver]

/-- The container of the agent stops: the hub forgets it, and the session serves the wake. -/
def forgetRun : List (Label String Nat String) :=
  connectRun ++ [.hub (.forgetAgent "scout"), .bump, .serveNotifications []]

/-- A live change reaches the client. -/
def clearRun : List (Label String Nat String) :=
  connectRun ++
    [.hub (.applyNotification "scout" (.cleared "n1")), .bump,
      .serveNotifications [("scout", [])], .deliver]

end Sync
end Vestad
end Vesta
