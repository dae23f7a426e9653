import Mathlib.Data.List.Nodup
import Mathlib.Data.List.Sort
import Vesta.Lib.Machine
import Vesta.Vestad.UserNotificationLog

/-!
# The notification feed

A client keeps one list of the notifications it has loaded.  Live arrivals and the pages
of the gateway's log are merged into it by id.  A page is a fetch: it is answered from
the log as it is at some moment after the request, and lands or fails at a later one.
Fetches and the live socket are independent, so a fetch may be out across a disconnect.

The live edge is lossy: while the client is connected any logged entry may arrive, in any
order, and none has to.  The log only grows, by ids in order.
-/

namespace Vesta
namespace Core
namespace Notifications

open Lib
open Vestad.UserNotificationLog (LoggedUserNotification Request newEntry)

inductive NewestPageStatus
  | idle
  | loading
  | ready
  | failed
deriving DecidableEq

inductive OlderPagesStatus
  | more
  | loading
  | exhausted
  | failed
deriving DecidableEq

structure NotificationFeed where
  entries : List LoggedUserNotification := []
  liveIds : List Nat := []
  readIds : List Nat := []
  newest : NewestPageStatus := .idle
  older : OlderPagesStatus := .more
  isOpen : Bool := false
  seenAt : Option Nat := none
  pendingSeenAt : Option Nat := none

inductive FeedAction
  | open_ (seenAt : Nat)
  | close
  | markedSeen (seenAt : Nat)
  | arrived (entry : LoggedUserNotification) (readInPlace : Bool)
  | pageLoading (before : Option Nat)
  | pageLoaded (page : List LoggedUserNotification) (before : Option Nat) (pageSize : Nat)
  | pageFailed (before : Option Nat)

/-- The insertion of a map keyed by id that remembers the order of insertion. -/
def setById (items : List LoggedUserNotification) (item : LoggedUserNotification) :
    List LoggedUserNotification :=
  if items.any fun old => old.id = item.id then
    items.map fun old => if old.id = item.id then item else old
  else
    items ++ [item]

/-- Join by id, the newest first. -/
def merge (existing incoming : List LoggedUserNotification) : List LoggedUserNotification :=
  (incoming.foldl setById (existing.foldl setById [])).insertionSort fun a b => b.id ≤ a.id

def reduceFeed (feed : NotificationFeed) : FeedAction → NotificationFeed
  | .open_ seenAt =>
      if feed.isOpen then
        feed
      else
        { feed with isOpen := true, seenAt := some seenAt, liveIds := [], readIds := [] }
  | .close => { feed with isOpen := false }
  | .markedSeen seenAt =>
      { feed with pendingSeenAt := some (max (feed.pendingSeenAt.getD 0) seenAt) }
  | .arrived entry readInPlace =>
      if feed.entries.any fun item => item.id = entry.id then
        feed
      else
        { feed with
          entries := merge feed.entries [entry]
          liveIds := feed.liveIds ++ [entry.id]
          readIds := if readInPlace then feed.readIds ++ [entry.id] else feed.readIds }
  | .pageLoading before =>
      match before with
      | none => { feed with newest := .loading }
      | some _ => { feed with older := .loading }
  | .pageLoaded page before pageSize =>
      let short := page.length < pageSize
      let entries := merge feed.entries page
      match before with
      | none =>
          { feed with
            entries := entries
            newest := .ready
            older := if short then .exhausted else feed.older }
      | some _ => { feed with entries := entries, older := if short then .exhausted else .more }
  | .pageFailed before =>
      match before with
      | none => { feed with newest := .failed }
      | some _ => { feed with older := .failed }

attribute [grind =] reduceFeed

/-- The page of the log: the newest entries below the cursor, newest first. -/
def page (log : List LoggedUserNotification) (before : Option Nat) (limit : Nat) :
    List LoggedUserNotification :=
  (log.reverse.filter fun entry => before.all (entry.id < ·)).take limit

/-- The most a page of the gateway holds. -/
def userNotificationsMaxLimit : Nat := 200

/-- A fetch in flight; its page is there once the gateway has answered. -/
structure Load where
  before : Option Nat
  page : Option (List LoggedUserNotification) := none

structure World where
  log : List LoggedUserNotification := []
  connected : Bool := false
  feed : NotificationFeed := {}
  loads : List Load := []

inductive Label
  | append (request : Request)
  | connect
  | disconnect
  | arrive (i : Nat) (readInPlace : Bool)
  | prefetch
  | open_ (seenAt : Nat)
  | close
  | markSeen (seenAt : Nat)
  | loadOlder (before : Nat)
  | answer (i : Nat)
  | land (i : Nat)
  | fail (i : Nat)

section Machine

variable (pageSize : Nat)

def World.dispatch (w : World) (action : FeedAction) : World :=
  { w with feed := reduceFeed w.feed action }

/-- Mark the page as loading and fetch it. -/
def World.loadPage (w : World) (before : Option Nat) : World :=
  { w.dispatch (.pageLoading before) with loads := w.loads ++ [⟨before, none⟩] }

/-- A fetch is over. -/
def World.settle (w : World) (i : Nat) : World := { w with loads := w.loads.eraseIdx i }

/-- The cursor of `loadOlder` is the oldest entry of some earlier rendering, so an entry
that is still loaded. -/
def step (w : World) : Label → Option World
  | .append request => some { w with log := w.log ++ [newEntry w.log request] }
  | .connect => some { w with connected := true }
  | .disconnect => some { w with connected := false }
  | .arrive i readInPlace =>
      if w.connected then
        w.log[i]?.map fun entry => w.dispatch (.arrived entry readInPlace)
      else
        none
  | .prefetch => if w.feed.newest = .idle then some (w.loadPage none) else none
  | .open_ seenAt => some ((w.dispatch (.open_ seenAt)).loadPage none)
  | .close => some (w.dispatch .close)
  | .markSeen seenAt => some (w.dispatch (.markedSeen seenAt))
  | .loadOlder before =>
      if w.feed.entries.any fun entry => entry.id = before then
        some (w.loadPage (some before))
      else
        none
  | .answer i =>
      (w.loads[i]?.filter fun load => load.page.isNone).map fun load =>
        { w with
          loads := w.loads.set i
            { load with
              page := some (page w.log load.before (min pageSize userNotificationsMaxLimit)) } }
  | .land i =>
      w.loads[i]?.bind fun load => load.page.map fun page =>
        (w.settle i).dispatch (.pageLoaded page load.before pageSize)
  | .fail i =>
      w.loads[i]?.map fun load => (w.settle i).dispatch (.pageFailed load.before)

attribute [grind =] step

def machine : Machine World Label where
  start w := w = {}
  step := step pageSize

end Machine

/-- The loaded entries are logged, and while no load is outstanding nothing that is logged
between two of them is missing. -/
structure Gapless (w : World) : Prop where
  logged : ∀ entry ∈ w.feed.entries, entry ∈ w.log
  contiguous : w.loads = [] →
    ∀ entry ∈ w.log,
      (∃ older ∈ w.feed.entries, older.id < entry.id) →
      (∃ newer ∈ w.feed.entries, entry.id < newer.id) →
        entry ∈ w.feed.entries

/-- Whether a page of the newest entries is outstanding. -/
def NewestOutstanding (loads : List Load) : Prop := ∃ load ∈ loads, load.before = none

instance (loads : List Load) : Decidable (NewestOutstanding loads) :=
  inferInstanceAs (Decidable (∃ load ∈ loads, load.before = none))

/-- Nothing that is logged between two loaded entries is missing. -/
def Contiguous (w : World) : Prop :=
  ∀ entry ∈ w.log,
    (∃ older ∈ w.feed.entries, older.id < entry.id) →
    (∃ newer ∈ w.feed.entries, entry.id < newer.id) →
      entry ∈ w.feed.entries

instance (w : World) : Decidable (Contiguous w) :=
  inferInstanceAs (Decidable (∀ entry ∈ w.log, _ → _ → _))

/-- No missed entry lies between a loaded one and a live arrival. -/
structure ArrivalJoins (w : World) (arrived : LoggedUserNotification) : Prop where
  below :
    ∀ entry ∈ w.log, (∃ older ∈ w.feed.entries, older.id < entry.id) →
      entry.id < arrived.id → entry ∈ w.feed.entries
  above :
    ∀ entry ∈ w.log, (∃ newer ∈ w.feed.entries, entry.id < newer.id) →
      arrived.id < entry.id → entry ∈ w.feed.entries

instance (w : World) (arrived : LoggedUserNotification) : Decidable (ArrivalJoins w arrived) :=
  decidable_of_iff (_ ∧ _) ⟨fun h => ⟨h.1, h.2⟩, fun h => ⟨h.below, h.above⟩⟩

/-- No missed entry lies between a loaded one and a newest page, on either side of the page. -/
structure PageJoins (w : World) (shown : List LoggedUserNotification) : Prop where
  below :
    ∀ entry ∈ w.log, (∃ older ∈ w.feed.entries, older.id < entry.id) →
      shown ≠ [] → (∀ other ∈ shown, entry.id < other.id) → entry ∈ w.feed.entries
  above :
    ∀ entry ∈ w.log, (∃ newer ∈ w.feed.entries, entry.id < newer.id) →
      (∃ older ∈ w.feed.entries ++ shown, older.id < entry.id) →
      (∀ other ∈ shown, other.id < entry.id) → entry ∈ w.feed.entries

instance (w : World) (shown : List LoggedUserNotification) : Decidable (PageJoins w shown) :=
  have : Decidable (∀ entry ∈ w.log, (∃ older ∈ w.feed.entries, older.id < entry.id) →
      shown ≠ [] → (∀ other ∈ shown, entry.id < other.id) → entry ∈ w.feed.entries) :=
    List.decidableBAll _ _
  have : Decidable (∀ entry ∈ w.log, (∃ newer ∈ w.feed.entries, entry.id < newer.id) →
      (∃ older ∈ w.feed.entries ++ shown, older.id < entry.id) →
      (∀ other ∈ shown, other.id < entry.id) → entry ∈ w.feed.entries) :=
    List.decidableBAll _ _
  decidable_of_iff (_ ∧ _) ⟨fun h => ⟨h.1, h.2⟩, fun h => ⟨h.below, h.above⟩⟩

/-- A live arrival and a newest page join what is loaded, and when a newest page fails the
loaded entries are contiguous; each unless a newest page is still outstanding. -/
def Joins (w : World) : Label → Prop
  | .arrive i _ =>
      NewestOutstanding w.loads ∨ ∀ arrived ∈ w.log[i]?, ArrivalJoins w arrived
  | .land i =>
      NewestOutstanding (w.loads.eraseIdx i) ∨
      ∀ load ∈ w.loads[i]?, load.before = none → ∀ shown ∈ load.page, PageJoins w shown
  | .fail i =>
      NewestOutstanding (w.loads.eraseIdx i) ∨
      ∀ load ∈ w.loads[i]?, load.before = none → Contiguous w
  | _ => True

instance decidableJoins (w : World) : DecidablePred (Joins w)
  | .arrive i _ =>
      have := Option.decidableForallMem (p := ArrivalJoins w) w.log[i]?
      inferInstanceAs (Decidable (_ ∨ _))
  | .land i =>
      have (load : Load) := Option.decidableForallMem (p := PageJoins w) load.page
      have := Option.decidableForallMem
        (p := fun load : Load => load.before = none → ∀ shown ∈ load.page, PageJoins w shown)
        w.loads[i]?
      inferInstanceAs (Decidable (_ ∨ _))
  | .fail i =>
      have := Option.decidableForallMem
        (p := fun load : Load => load.before = none → Contiguous w) w.loads[i]?
      inferInstanceAs (Decidable (_ ∨ _))
  | .append _ => isTrue trivial
  | .connect => isTrue trivial
  | .disconnect => isTrue trivial
  | .prefetch => isTrue trivial
  | .open_ _ => isTrue trivial
  | .close => isTrue trivial
  | .markSeen _ => isTrue trivial
  | .loadOlder _ => isTrue trivial
  | .answer _ => isTrue trivial

/-! ## Merging and paging -/

section Merge

/-- Entries with one id are one entry. -/
def Distinct (items : List LoggedUserNotification) : Prop :=
  ∀ a ∈ items, ∀ b ∈ items, a.id = b.id → a = b

theorem mem_setById
    {items : List LoggedUserNotification} {item entry : LoggedUserNotification}
    (hdistinct : ∀ old ∈ items, old.id = item.id → old = item) :
    entry ∈ setById items item ↔ entry ∈ items ∨ entry = item := by
  rw [setById]
  split
  · rename_i hany
    obtain ⟨old, hold, hid⟩ := List.any_eq_true.1 hany
    have hitem : item ∈ items := hdistinct old hold (of_decide_eq_true hid) ▸ hold
    have hfix : ∀ old ∈ items, (if old.id = item.id then item else old) = id old := by
      intro old hold
      split
      · rename_i hid
        exact (hdistinct old hold hid).symm
      · rfl
    rw [List.map_congr_left hfix, List.map_id]
    constructor
    · exact .inl
    · rintro (h | rfl)
      · exact h
      · exact hitem
  · simp

theorem mem_foldl_setById
    {incoming : List LoggedUserNotification} {entry : LoggedUserNotification}
    (items : List LoggedUserNotification)
    (hdistinct : Distinct (items ++ incoming)) :
    entry ∈ incoming.foldl setById items ↔ entry ∈ items ∨ entry ∈ incoming := by
  induction incoming generalizing items with
  | nil => simp
  | cons item incoming ih =>
      have hmem : ∀ {other}, other ∈ setById items item ↔ other ∈ items ∨ other = item :=
        mem_setById fun old hold hid =>
          hdistinct old (by simp [hold]) item (by simp) hid
      have hsub : ∀ other ∈ setById items item ++ incoming, other ∈ items ++ item :: incoming := by
        intro other hother
        rcases List.mem_append.1 hother with h | h
        · rcases hmem.1 h with h | rfl
          · simp [h]
          · simp
        · simp [h]
      rw [List.foldl_cons, ih _ fun a ha b hb => hdistinct a (hsub a ha) b (hsub b hb), hmem,
        List.mem_cons, or_assoc]

theorem mem_merge
    {existing incoming : List LoggedUserNotification} {entry : LoggedUserNotification}
    (hdistinct : Distinct (existing ++ incoming)) :
    entry ∈ merge existing incoming ↔ entry ∈ existing ∨ entry ∈ incoming := by
  have hexisting : ∀ {other}, other ∈ existing.foldl setById [] ↔ other ∈ existing := by
    intro other
    rw [mem_foldl_setById [] fun a ha b hb => hdistinct a (by simpa using .inl ha) b
      (by simpa using .inl hb)]
    simp
  have hdistinct' : Distinct (existing.foldl setById [] ++ incoming) := by
    have hsub : ∀ other ∈ existing.foldl setById [] ++ incoming, other ∈ existing ++ incoming := by
      intro other hother
      rw [List.mem_append, hexisting] at hother
      exact List.mem_append.2 hother
    exact fun a ha b hb => hdistinct a (hsub a ha) b (hsub b hb)
  rw [merge, List.mem_insertionSort, mem_foldl_setById _ hdistinct', hexisting]

end Merge

section Page

variable {log : List LoggedUserNotification}
variable {before : Option Nat} {limit : Nat}

/-- The ids of a log grow. -/
def Increasing (log : List LoggedUserNotification) : Prop :=
  log.Pairwise fun a b => a.id < b.id

theorem Increasing.distinct
    (h : Increasing log) :
    Distinct log := by
  have hnodup : (log.map (·.id)).Nodup := List.pairwise_map.2 (h.imp fun hlt => Nat.ne_of_lt hlt)
  exact fun a ha b hb hid => List.inj_on_of_nodup_map hnodup ha hb hid

/-- An entry of a prefix is older than an entry that came later. -/
theorem Increasing.mem_prefix
    {known : List LoggedUserNotification}
    (h : Increasing log)
    (hinit : known <+: log)
    {entry newer : LoggedUserNotification}
    (hentry : entry ∈ log)
    (hnewer : newer ∈ known)
    (hlt : entry.id < newer.id) :
    entry ∈ known := by
  obtain ⟨rest, rfl⟩ := hinit
  rcases List.mem_append.1 hentry with hknown | hrest
  · exact hknown
  · have hlt' := (List.pairwise_append.1 h).2.2 newer hnewer entry hrest
    omega

theorem mem_of_mem_page
    {entry : LoggedUserNotification}
    (h : entry ∈ page log before limit) :
    entry ∈ log ∧ ∀ cursor ∈ before, entry.id < cursor := by
  have hmem := List.mem_of_mem_take h
  obtain ⟨hlog, hbelow⟩ := List.mem_filter.1 hmem
  refine ⟨List.mem_reverse.1 hlog, fun cursor hcursor => ?_⟩
  rw [Option.mem_def.1 hcursor] at hbelow
  simpa using hbelow

/-- What is below the cursor and newer than an entry of the page is on the page. -/
theorem mem_page_of_newer
    (hlog : Increasing log)
    {entry shown : LoggedUserNotification}
    (hshown : shown ∈ page log before limit)
    (hentry : entry ∈ log)
    (hbelow : ∀ cursor ∈ before, entry.id < cursor)
    (hlt : shown.id < entry.id) :
    entry ∈ page log before limit := by
  have hsorted :
      (log.reverse.filter fun entry => before.all (entry.id < ·)).Pairwise
        fun a b => b.id < a.id :=
    (List.pairwise_reverse.2 hlog).sublist List.filter_sublist
  have hmem : entry ∈ log.reverse.filter fun entry => before.all (entry.id < ·) := by
    refine List.mem_filter.2 ⟨List.mem_reverse.2 hentry, ?_⟩
    cases before with
    | none => rfl
    | some cursor => exact decide_eq_true (hbelow cursor rfl)
  rw [← List.take_append_drop limit (log.reverse.filter _)] at hmem hsorted
  rcases List.mem_append.1 hmem with htake | hdrop
  · exact htake
  · have hlt' := (List.pairwise_append.1 hsorted).2.2 shown hshown entry hdrop
    omega

end Page

/-! ## Runs of the feed -/

section Runs

variable {pageSize : Nat}
variable {w next : World}

/-- The cursor of a fetch is loaded, and its answer is a page of the log as it once was. -/
structure Fetches (pageSize : Nat) (w : World) (load : Load) : Prop where
  cursor : ∀ cursor ∈ load.before, ∃ entry ∈ w.feed.entries, entry.id = cursor
  answered : ∀ shown ∈ load.page, ∃ known, known <+: w.log ∧
    shown = page known load.before (min pageSize userNotificationsMaxLimit) ∧
    ∀ cursor ∈ load.before, ∃ entry ∈ known, entry.id = cursor

structure Sound (pageSize : Nat) (w : World) : Prop where
  increasing : Increasing w.log
  logged : ∀ entry ∈ w.feed.entries, entry ∈ w.log
  loads : ∀ load ∈ w.loads, Fetches pageSize w load
  contiguous : ¬NewestOutstanding w.loads → Contiguous w

theorem Sound.gapless
    (h : Sound pageSize w) :
    Gapless w where
  logged := h.logged
  contiguous := by
    intro hnil
    refine h.contiguous fun ⟨load, hload, _⟩ => ?_
    rw [hnil] at hload
    exact nomatch hload

/-- A fetch survives more entries in the log and in the feed. -/
theorem Fetches.mono
    {load : Load}
    (h : Fetches pageSize w load)
    (hlog : w.log <+: next.log)
    (hentries : ∀ entry ∈ w.feed.entries, entry ∈ next.feed.entries) :
    Fetches pageSize next load where
  cursor := fun cursor hcursor => by
    obtain ⟨entry, hentry, hid⟩ := h.cursor cursor hcursor
    exact ⟨entry, hentries entry hentry, hid⟩
  answered := fun shown hshown => by
    obtain ⟨known, hinit, hpage, hcursor⟩ := h.answered shown hshown
    exact ⟨known, hinit.trans hlog, hpage, hcursor⟩

theorem Fetches.mem_log
    {load : Load}
    (h : Fetches pageSize w load)
    {shown : List LoggedUserNotification}
    (hshown : shown ∈ load.page)
    {entry : LoggedUserNotification}
    (hentry : entry ∈ shown) :
    entry ∈ w.log := by
  obtain ⟨known, hinit, rfl, -⟩ := h.answered shown hshown
  exact hinit.subset (mem_of_mem_page hentry).1

/-- Merging logged entries into loaded ones loads both. -/
theorem Sound.mem_merge
    (h : Sound pageSize w)
    {incoming : List LoggedUserNotification}
    (hincoming : ∀ entry ∈ incoming, entry ∈ w.log)
    {entry : LoggedUserNotification} :
    entry ∈ merge w.feed.entries incoming ↔ entry ∈ w.feed.entries ∨ entry ∈ incoming := by
  have hlogged : ∀ other ∈ w.feed.entries ++ incoming, other ∈ w.log := by
    intro other hother
    rcases List.mem_append.1 hother with hother | hother
    · exact h.logged other hother
    · exact hincoming other hother
  exact Notifications.mem_merge fun a ha b hb =>
    h.increasing.distinct a (hlogged a ha) b (hlogged b hb)

/-- A step that leaves the loaded entries alone, and lets the log only grow. -/
theorem Sound.congr
    (h : Sound pageSize w)
    (hentries : next.feed.entries = w.feed.entries)
    (hlog : next.log = w.log)
    (hloads : ∀ load ∈ next.loads, Fetches pageSize w load)
    (hcontiguous : ¬NewestOutstanding next.loads → Contiguous w) :
    Sound pageSize next where
  increasing := hlog ▸ h.increasing
  logged := by
    rw [hentries, hlog]
    exact h.logged
  loads := fun load hload =>
    (hloads load hload).mono (by simp [hlog]) fun entry hentry => hentries ▸ hentry
  contiguous := fun hnone => by
    have hbefore := hcontiguous hnone
    rw [Contiguous, hentries, hlog]
    exact hbefore

theorem sound_append
    (h : Sound pageSize w)
    (request : Request) :
    Sound pageSize { w with log := w.log ++ [newEntry w.log request] } where
  increasing := by
    refine List.pairwise_append.2 ⟨h.increasing, List.pairwise_singleton _ _, ?_⟩
    intro a ha b hb
    rw [List.mem_singleton.1 hb]
    exact Vestad.UserNotificationLog.lt_newEntry_id h.increasing request a ha
  logged := fun entry hentry => List.mem_append_left _ (h.logged entry hentry)
  loads := fun load hload =>
    (h.loads load hload).mono (List.prefix_append _ _) fun _ hentry => hentry
  contiguous := fun hnone entry hentry holder hnewer => by
    rcases List.mem_append.1 hentry with hold | hnew
    · exact h.contiguous hnone entry hold holder hnewer
    · obtain ⟨newer, hmem, hlt⟩ := hnewer
      rw [List.mem_singleton.1 hnew] at hlt
      have hlast :=
        Vestad.UserNotificationLog.lt_newEntry_id h.increasing request newer (h.logged newer hmem)
      omega

theorem sound_arrive
    (h : Sound pageSize w)
    {i : Nat} {readInPlace : Bool} {arrived : LoggedUserNotification}
    (harrived : w.log[i]? = some arrived)
    (hjoins : Joins w (.arrive i readInPlace)) :
    Sound pageSize (w.dispatch (.arrived arrived readInPlace)) := by
  have hlogged : arrived ∈ w.log := List.mem_of_getElem? harrived
  by_cases hheld : (w.feed.entries.any fun item => item.id = arrived.id) = true
  · have hsame : w.dispatch (.arrived arrived readInPlace) = w := by
      simp [World.dispatch, reduceFeed, hheld]
    rw [hsame]
    exact h
  · have hmem : ∀ {entry}, entry ∈ (w.dispatch (.arrived arrived readInPlace)).feed.entries ↔
        entry ∈ w.feed.entries ∨ entry = arrived := by
      intro entry
      have hentries : (w.dispatch (.arrived arrived readInPlace)).feed.entries =
          merge w.feed.entries [arrived] := by
        rw [World.dispatch, reduceFeed, if_neg hheld]
      rw [hentries, ← List.mem_singleton]
      exact h.mem_merge fun other hother => List.mem_singleton.1 hother ▸ hlogged
    refine ⟨h.increasing, fun entry hentry => ?_, fun load hload => ?_, fun hnone => ?_⟩
    · rcases hmem.1 hentry with hentry | rfl
      · exact h.logged entry hentry
      · exact hlogged
    · exact (h.loads load hload).mono List.prefix_rfl fun entry hentry => hmem.2 (.inl hentry)
    · have hbefore := h.contiguous hnone
      have hjoined := hjoins.resolve_left hnone arrived harrived
      rintro entry hentry ⟨older, holder, hlt⟩ ⟨newer, hnewer, hlt'⟩
      rw [hmem] at holder hnewer
      refine hmem.2 (.inl ?_)
      rcases holder with holder | rfl
      · rcases hnewer with hnewer | rfl
        · exact hbefore entry hentry ⟨older, holder, hlt⟩ ⟨newer, hnewer, hlt'⟩
        · exact hjoined.below entry hentry ⟨older, holder, hlt⟩ hlt'
      · rcases hnewer with hnewer | rfl
        · exact hjoined.above entry hentry ⟨newer, hnewer, hlt'⟩ hlt
        · omega

/-- A page of the log below a loaded cursor leaves no gap above it. -/
theorem contiguous_older
    (h : Sound pageSize w)
    (hbefore : Contiguous w)
    {load : Load} {shown : List LoggedUserNotification} {cursor : Nat}
    (hload : Fetches pageSize w load)
    (hcursor : load.before = some cursor)
    (hshown : shown ∈ load.page)
    {entry older newer : LoggedUserNotification}
    (hentry : entry ∈ w.log)
    (holder : older ∈ w.feed.entries ∨ older ∈ shown)
    (hlt : older.id < entry.id)
    (hnewer : newer ∈ w.feed.entries ∨ newer ∈ shown)
    (hlt' : entry.id < newer.id) :
    entry ∈ w.feed.entries ∨ entry ∈ shown := by
  obtain ⟨known, hinit, rfl, hknown⟩ := hload.answered shown hshown
  obtain ⟨held, hheld, hid⟩ := hload.cursor cursor hcursor
  have hbelow : ∀ {other}, other ∈ page known load.before
      (min pageSize userNotificationsMaxLimit) → other.id < held.id := fun hother =>
    hid ▸ (mem_of_mem_page hother).2 cursor hcursor
  -- An entry above the cursor lies between loaded ones; one below it is on the page.
  have hnewer' : ∃ above ∈ w.feed.entries, entry.id < above.id := by
    rcases hnewer with hnewer | hnewer
    · exact ⟨newer, hnewer, hlt'⟩
    · exact ⟨held, hheld, hlt'.trans (hbelow hnewer)⟩
  rcases holder with holder | holder
  · exact .inl (hbefore entry hentry ⟨older, holder, hlt⟩ hnewer')
  · rcases Nat.lt_trichotomy entry.id held.id with hcase | hcase | hcase
    · obtain ⟨mark, hmark, hmarkId⟩ := hknown cursor hcursor
      have hmem : entry ∈ known :=
        h.increasing.mem_prefix hinit hentry hmark (by omega)
      refine .inr (mem_page_of_newer (h.increasing.sublist hinit.sublist) holder hmem ?_ hlt)
      intro other hother
      have heq : cursor = other := Option.some.inj (hcursor.symm.trans hother)
      omega
    · exact .inl (h.increasing.distinct entry hentry held (h.logged held hheld) hcase ▸ hheld)
    · exact .inl (hbefore entry hentry ⟨held, hheld, hcase⟩ hnewer')

/-- A newest page that joins what is loaded leaves no gap. -/
theorem contiguous_newest
    (h : Sound pageSize w)
    {load : Load} {shown : List LoggedUserNotification}
    (hload : Fetches pageSize w load)
    (hnewest : load.before = none)
    (hshown : shown ∈ load.page)
    (hjoins : PageJoins w shown)
    {entry older newer : LoggedUserNotification}
    (hentry : entry ∈ w.log)
    (holder : older ∈ w.feed.entries ∨ older ∈ shown)
    (hlt : older.id < entry.id)
    (hnewer : newer ∈ w.feed.entries ∨ newer ∈ shown)
    (hlt' : entry.id < newer.id) :
    entry ∈ w.feed.entries ∨ entry ∈ shown := by
  by_cases hon : entry ∈ shown
  · exact .inr hon
  · left
    have hne : ∀ other ∈ shown, other.id ≠ entry.id := by
      intro other hother hid
      exact hon (h.increasing.distinct other (hload.mem_log hshown hother) entry hentry hid ▸ hother)
    by_cases hall : ∀ other ∈ shown, other.id < entry.id
    · refine hjoins.above entry hentry ⟨newer, ?_, hlt'⟩ ⟨older, List.mem_append.2 holder, hlt⟩ hall
      rcases hnewer with hnewer | hnewer
      · exact hnewer
      · have := hall newer hnewer
        omega
    · obtain ⟨above, habove, hge⟩ : ∃ above ∈ shown, entry.id ≤ above.id := by
        simpa using hall
      have hgt : entry.id < above.id := lt_of_le_of_ne hge fun hid => hne above habove hid.symm
      -- The page is an upper segment of the log as it was: what is on it or above is on it.
      have hunder : ∀ other ∈ shown, entry.id < other.id := by
        intro other hother
        by_contra hcase
        obtain ⟨known, hinit, rfl, -⟩ := hload.answered shown hshown
        have hknown : entry ∈ known :=
          h.increasing.mem_prefix hinit hentry (mem_of_mem_page habove).1 hgt
        have hlt'' : other.id < entry.id := by
          have := hne other hother
          omega
        refine hon (mem_page_of_newer (h.increasing.sublist hinit.sublist) hother hknown ?_ hlt'')
        rw [hnewest]
        exact fun cursor hcursor => nomatch hcursor
      refine hjoins.below entry hentry ⟨older, ?_, hlt⟩ (List.ne_nil_of_mem habove) hunder
      rcases holder with holder | holder
      · exact holder
      · have := hunder older holder
        omega

/-- A fetch in flight is the settled one or one that is left. -/
theorem NewestOutstanding.of_eraseIdx
    {loads : List Load} {i : Nat} {load : Load}
    (hload : loads[i]? = some load)
    (h : NewestOutstanding loads) :
    load.before = none ∨ NewestOutstanding (loads.eraseIdx i) := by
  obtain ⟨other, hother, hnewest⟩ := h
  obtain ⟨j, hj⟩ := List.mem_iff_getElem?.1 hother
  by_cases hij : j = i
  · subst hij
    rw [hload] at hj
    cases hj
    exact .inl hnewest
  · exact .inr ⟨other, List.mem_eraseIdx_iff_getElem?.2 ⟨j, hij, hj⟩, hnewest⟩

theorem sound_land
    (h : Sound pageSize w)
    {i : Nat} {load : Load} {shown : List LoggedUserNotification}
    (hload : w.loads[i]? = some load)
    (hshown : load.page = some shown)
    (hjoins : Joins w (.land i)) :
    Sound pageSize ((w.settle i).dispatch (.pageLoaded shown load.before pageSize)) := by
  have hfetches := h.loads load (List.mem_of_getElem? hload)
  have hentries :
      ((w.settle i).dispatch (.pageLoaded shown load.before pageSize)).feed.entries =
        merge w.feed.entries shown := by
    simp only [World.dispatch, World.settle, reduceFeed]
    split <;> rfl
  have hmem : ∀ {entry},
      entry ∈ ((w.settle i).dispatch (.pageLoaded shown load.before pageSize)).feed.entries ↔
        entry ∈ w.feed.entries ∨ entry ∈ shown := by
    intro entry
    rw [hentries]
    exact h.mem_merge fun other hother => hfetches.mem_log hshown hother
  refine ⟨h.increasing, fun entry hentry => ?_, fun other hother => ?_, fun hnone => ?_⟩
  · rcases hmem.1 hentry with hentry | hentry
    · exact h.logged entry hentry
    · exact hfetches.mem_log hshown hentry
  · exact (h.loads other (List.mem_of_mem_eraseIdx hother)).mono List.prefix_rfl
      fun entry hentry => hmem.2 (.inl hentry)
  · rintro entry hentry ⟨older, holder, hlt⟩ ⟨newer, hnewer, hlt'⟩
    rw [hmem] at holder hnewer ⊢
    cases hbefore : load.before with
    | none =>
        have hjoined := hjoins.resolve_left hnone load hload hbefore shown hshown
        exact contiguous_newest h hfetches hbefore hshown hjoined hentry holder hlt hnewer hlt'
    | some cursor =>
        have hcontiguous : Contiguous w := by
          refine h.contiguous fun hnewest => ?_
          rcases hnewest.of_eraseIdx hload with hnil | hleft
          · exact nomatch hbefore.symm.trans hnil
          · exact hnone hleft
        exact contiguous_older h hcontiguous hfetches hbefore hshown hentry holder hlt hnewer hlt'

theorem sound_fail
    (h : Sound pageSize w)
    {i : Nat} {load : Load}
    (hload : w.loads[i]? = some load)
    (hjoins : Joins w (.fail i)) :
    Sound pageSize ((w.settle i).dispatch (.pageFailed load.before)) := by
  refine h.congr ?_ rfl (fun other hother => h.loads other (List.mem_of_mem_eraseIdx hother))
    fun hnone => ?_
  · simp only [World.dispatch, World.settle, reduceFeed]
    split <;> rfl
  · by_cases hnewest : load.before = none
    · exact hjoins.resolve_left hnone load hload hnewest
    · refine h.contiguous fun hbefore => ?_
      rcases hbefore.of_eraseIdx hload with hnil | hleft
      · exact hnewest hnil
      · exact hnone hleft

theorem sound_loadPage
    (h : Sound pageSize w)
    {before : Option Nat}
    (hcursor : ∀ cursor ∈ before, ∃ entry ∈ w.feed.entries, entry.id = cursor) :
    Sound pageSize (w.loadPage before) := by
  refine h.congr ?_ rfl (fun load hload => ?_) fun hnone => h.contiguous fun hnewest => hnone ?_
  · cases before <;> rfl
  · rcases List.mem_append.1 hload with hload | hload
    · exact h.loads load hload
    · rw [List.mem_singleton.1 hload]
      exact ⟨hcursor, fun shown hshown => nomatch hshown⟩
  · obtain ⟨load, hload, hnil⟩ := hnewest
    exact ⟨load, List.mem_append_left _ hload, hnil⟩

theorem sound_answer
    (h : Sound pageSize w)
    {i : Nat} {load : Load}
    (hload : w.loads[i]? = some load) :
    Sound pageSize { w with
      loads := w.loads.set i
        { load with
          page := some (page w.log load.before (min pageSize userNotificationsMaxLimit)) } } := by
  have hfetches := h.loads load (List.mem_of_getElem? hload)
  refine h.congr rfl rfl (fun other hother => ?_) fun hnone => h.contiguous fun hnewest => hnone ?_
  · rcases List.mem_or_eq_of_mem_set hother with hother | rfl
    · exact h.loads other hother
    · refine ⟨hfetches.cursor, fun shown hshown => ⟨w.log, List.prefix_rfl, ?_, ?_⟩⟩
      · exact (Option.some.inj hshown).symm
      · intro cursor hcursor
        obtain ⟨entry, hentry, hid⟩ := hfetches.cursor cursor hcursor
        exact ⟨entry, h.logged entry hentry, hid⟩
  · obtain ⟨other, hother, hnil⟩ := hnewest
    obtain ⟨j, hj⟩ := List.mem_iff_getElem?.1 hother
    obtain ⟨hi, -⟩ := List.getElem?_eq_some_iff.1 hload
    by_cases hij : i = j
    · subst hij
      rw [hload] at hj
      cases hj
      exact ⟨_, List.mem_set hi _, hnil⟩
    · refine ⟨other, List.mem_iff_getElem?.2 ⟨j, ?_⟩, hnil⟩
      rw [List.getElem?_set_ne hij]
      exact hj

theorem sound_step
    {label : Label}
    (h : Sound pageSize w)
    (hjoins : Joins w label)
    (hstep : step pageSize w label = some next) :
    Sound pageSize next := by
  cases label with
  | append request =>
      cases hstep
      exact sound_append h request
  | connect =>
      cases hstep
      exact h.congr rfl rfl h.loads h.contiguous
  | disconnect =>
      cases hstep
      exact h.congr rfl rfl h.loads h.contiguous
  | arrive i readInPlace =>
      simp only [step] at hstep
      split at hstep
      · obtain ⟨arrived, harrived, rfl⟩ := Option.map_eq_some_iff.1 hstep
        exact sound_arrive h harrived hjoins
      · cases hstep
  | prefetch =>
      simp only [step] at hstep
      split at hstep
      · cases hstep
        exact sound_loadPage h fun cursor hcursor => nomatch hcursor
      · cases hstep
  | open_ seenAt =>
      cases hstep
      have hopened : Sound pageSize (w.dispatch (.open_ seenAt)) := by
        refine h.congr ?_ rfl h.loads h.contiguous
        simp only [World.dispatch, reduceFeed]
        split <;> rfl
      exact sound_loadPage hopened fun cursor hcursor => nomatch hcursor
  | close =>
      cases hstep
      exact h.congr rfl rfl h.loads h.contiguous
  | markSeen seenAt =>
      cases hstep
      exact h.congr rfl rfl h.loads h.contiguous
  | loadOlder before =>
      simp only [step] at hstep
      split at hstep
      · rename_i hany
        cases hstep
        refine sound_loadPage h fun cursor hcursor => ?_
        obtain ⟨entry, hentry, hid⟩ := List.any_eq_true.1 hany
        exact ⟨entry, hentry, (of_decide_eq_true hid).trans (Option.some.inj hcursor)⟩
      · cases hstep
  | answer i =>
      obtain ⟨load, hload, rfl⟩ := Option.map_eq_some_iff.1 hstep
      exact sound_answer h (Option.filter_eq_some_iff.1 hload).1
  | land i =>
      obtain ⟨load, hload, hland⟩ := Option.bind_eq_some_iff.1 hstep
      obtain ⟨shown, hshown, rfl⟩ := Option.map_eq_some_iff.1 hland
      exact sound_land h hload hshown hjoins
  | fail i =>
      obtain ⟨load, hload, rfl⟩ := Option.map_eq_some_iff.1 hstep
      exact sound_fail h hload hjoins

/-- In every run whose arrivals, landing pages and failures join what is loaded, the loaded
entries are contiguous in every state without an outstanding load. -/
theorem gapless_of_joins
    (h : (machine pageSize).Reaches Joins w) :
    Gapless w := by
  refine (h.invariant (I := Sound pageSize) ?_ fun _ _ _ => sound_step).gapless
  rintro s rfl
  refine ⟨List.Pairwise.nil, ?_, ?_, fun _ => ?_⟩
  · exact fun entry hentry => nomatch hentry
  · exact fun load hload => nomatch hload
  · exact fun entry hentry => nomatch hentry

end Runs

/-- A notification of an agent's. -/
def message (now : Nat) (text : String) : Request where
  agent := "aria".toList
  kind := "message".toList
  title := "aria".toList
  body := text.toList
  now := now

/-- The newest page is loaded and a notification arrives live. -/
def joinedRun : List Label :=
  [.append (message 1 "a"), .append (message 2 "b"), .connect, .prefetch, .answer 0, .land 0,
    .append (message 3 "c"), .arrive 2 false]

theorem admits_joinedRun : (machine 50).Admits Joins {} joinedRun := by
  decide +kernel

theorem gapless_joinedRun : Gapless ((machine 50).runTo {} joinedRun) :=
  gapless_of_joins
    ((Machine.Reaches.start rfl).runTo joinedRun admits_joinedRun (by decide +kernel))

/-- A notification is logged while the client is disconnected, and the next one arrives live
after it has reconnected. -/
def missedRun : List Label :=
  [.append (message 1 "a"), .append (message 2 "b"), .connect, .prefetch, .answer 0, .land 0,
    .disconnect, .append (message 3 "c"), .connect, .append (message 4 "d"), .arrive 3 false]

/-- No load is outstanding and the missed notification stays missing. -/
theorem missed_not_gapless :
    ∃ w, (machine 50).Reaches Machine.always w ∧
      w.loads.length = 0 ∧ w.feed.entries.map (·.id) = [4, 2, 1] ∧ ¬Gapless w := by
  refine ⟨(machine 50).runTo {} missedRun,
    (Machine.Reaches.start rfl).runTo missedRun (Machine.admits_always _ _ _)
      (by decide +kernel), by decide +kernel, by decide +kernel, fun h => ?_⟩
  have hcontiguous : Contiguous ((machine 50).runTo {} missedRun) :=
    h.contiguous (List.eq_nil_of_length_eq_zero (by decide +kernel))
  exact absurd hcontiguous (by decide +kernel)

end Notifications
end Core
end Vesta
