import Vesta.Core.Chat.Window

/-!
# No hole in the history

`Fits` collects, step by step, the conditions under which the folds keep the tail
a window on the store.  `Sound` adds to the window what the session and the
network owe each other: which rows the client can have missed, and that the
page a reopened socket asks for was answered from a store that holds them all.

In a run whose steps fit, the tail has no hole in any state
(`contiguous_of_fits`); `racedRun` is a run that leaves one.
-/

namespace Vesta
namespace Core
namespace Chat
namespace Network

open Lib

/-- What a step must meet to keep the tail a window on the store. -/
def Fits (w : World) : Label → Prop
  | .opened => w.session.reseeds = false → w.missed = []
  | .deliver natural => ∀ row ∈ w.wire.head?, EventFits natural w.session row
  | .typingTimer natural =>
      ∀ event ∈ w.session.queue.head?, CommitFits w.session.chat event ∧
        DrainFits natural
          (Session.commitReply
            { w.session with typing := false, queue := w.session.queue.tail } event)
  | .flushPacing => FlushFits w.session.chat w.session.queue
  | .seedArrives _ n =>
      SeedFits w.store.rows w.missed w.session.chat ((w.store.first n).page none)
  | .pageArrives _ => ∀ load ∈ w.loading, w.session.chat.cursor = some load.cursor
  | .trimHistory => w.session.loadingMore = true ∨ TrimFits w.session.chat trimHistoryKeep
  | .send .. => Uncut w.session.chat
  | _ => True

instance decidableFits (w : World) : ∀ a, Decidable (Fits w a)
  | .opened => inferInstanceAs (Decidable (_ → _))
  | .deliver natural =>
      decidableOption w.wire.head? fun row => EventFits natural w.session row
  | .typingTimer natural =>
      decidableOption w.session.queue.head? fun event =>
        CommitFits w.session.chat event ∧
          DrainFits natural
            (Session.commitReply
              { w.session with typing := false, queue := w.session.queue.tail } event)
  | .flushPacing => inferInstanceAs (Decidable (FlushFits w.session.chat w.session.queue))
  | .seedArrives _ n =>
      inferInstanceAs (Decidable
        (SeedFits w.store.rows w.missed w.session.chat ((w.store.first n).page none)))
  | .pageArrives _ =>
      decidableOption w.loading fun load => w.session.chat.cursor = some load.cursor
  | .trimHistory => inferInstanceAs (Decidable (_ ∨ _))
  | .send .. => inferInstanceAs (Decidable (Uncut w.session.chat))
  | .stores _ | .closed | .seedFails _ | .retrySeed | .loadMore | .pageFails | .mark .. |
    .remount _ => isTrue trivial

/-- The window, with what the network and the session owe each other. -/
structure Sound (w : World) : Prop where
  window : Window w.store.rows (w.wire.map (·.id)) (ids w.session.queue ++ w.missed)
    w.session.chat
  queued : ∀ event ∈ w.session.queue, ∃ row ∈ w.store.rows, event.id = some row.id
  wired : ∀ row ∈ w.wire, row ∈ w.store.rows
  missed : ∀ id ∈ w.missed, ∃ row ∈ w.store.rows, row.id = id
  opened : w.session.socketOpen = true →
    ∀ id ∈ w.missed, ∃ row ∈ (w.store.first w.openedAt).rows, row.id = id
  reseeded : w.reseeded = true → w.missed = [] ∧ w.session.socketOpen = true
  closed : w.session.socketOpen = false → w.wire = []
  fresh : w.session.sawOpen = false → w.session.queue = [] ∧ w.session.socketOpen = false
  loading : ∀ load ∈ w.loading, ∃ row ∈ (w.store.first load.asked).rows, row.id = load.cursor

section Runs

variable {w next : World}

/-- What the claims of the window say at a state of a run. -/
theorem Sound.contiguous
    (h : Sound w) :
    Contiguous w := by
  have hwaiting : ∀ row ∈ w.store.rows, Above w.session.chat row.id →
      row.id ∈ ids w.session.chat.messages ∨ Waiting w row.id := by
    intro row hrow habove
    rcases h.window.covered row hrow habove with hheld | hlate | hwire
    · exact Or.inl hheld
    · right
      rcases List.mem_append.1 hlate with hqueue | hmissed
      · exact Or.inl hqueue
      · refine Or.inr (Or.inr ⟨?_, hmissed⟩)
        rw [Bool.eq_false_iff]
        intro hreseeded
        rw [(h.reseeded hreseeded).1] at hmissed
        cases hmissed
    · exact Or.inr (Or.inr (Or.inl hwire))
  constructor
  · intro oldest holdest row hrow hle
    have hmem := (List.min?_eq_some_iff.1 holdest).1
    exact hwaiting row hrow fun c hc =>
      Nat.le_trans ((h.window.cursor c hc).2 oldest hmem) hle
  · intro oldest holdest
    obtain ⟨hmem, hmin⟩ := List.min?_eq_some_iff.1 holdest
    cases hcursor : w.session.chat.cursor with
    | some c =>
        obtain ⟨hheld, hle⟩ := h.window.cursor c hcursor
        exact Nat.le_antisymm (hle oldest hmem) (hmin c hheld)
    | none =>
        intro row hrow hlt
        refine (hwaiting row hrow fun c hc => ?_).resolve_left fun hheld => ?_
        · rw [hcursor] at hc
          cases hc
        · exact absurd (hmin row.id hheld) (Nat.not_le.2 hlt)

/-- A state whose rows, shown ids and cursor are those of another. -/
theorem Window.congr
    {rows : List StoredRow} {wire late : List Nat} {chat chat' : ChatState}
    (h : Window rows wire late chat)
    (hids : ids chat'.messages = ids chat.messages)
    (hshown : chat'.shownIds = chat.shownIds)
    (hcursor : chat'.cursor = chat.cursor) :
    Window rows wire late chat' :=
  h.update hcursor (hids ▸ List.Subset.refl _) (fun _ hid => Or.inl (hids ▸ hid))
    (fun _ hid _ => Or.inr hid) (fun _ hid _ => Or.inr (Or.inr hid))
    (fun _ hid => Or.inl (hshown ▸ hid))

/-- A row that is stored is late or on the wire. -/
theorem Window.store
    {rows : List StoredRow} {wire wire' late late' : List Nat} {chat : ChatState}
    {row : StoredRow}
    (h : Window rows wire late chat)
    (hwire : wire ⊆ wire')
    (hlate : late ⊆ late')
    (hrow : row.id ∈ late' ∨ row.id ∈ wire') :
    Window (rows ++ [row]) wire' late' chat := by
  have hold : ∀ {id}, (∃ row ∈ rows, row.id = id) → ∃ other ∈ rows ++ [row], other.id = id := by
    rintro id ⟨other, hother, rfl⟩
    exact ⟨other, List.mem_append_left _ hother, rfl⟩
  constructor
  · intro other hother habove
    rcases List.mem_append.1 hother with hother | hother
    · rcases h.covered other hother habove with hmem | hmem | hmem
      · exact Or.inl hmem
      · exact Or.inr (Or.inl (hlate hmem))
      · exact Or.inr (Or.inr (hwire hmem))
    · rw [List.mem_singleton.1 hother]
      exact Or.inr hrow
  · intro id hid
    exact ⟨hold (h.shown id hid).1, fun habove =>
      ((h.shown id hid).2 habove).imp_right fun hmem => hlate hmem⟩
  · exact fun id hid => hold (h.stored id hid)
  · exact h.cursor

theorem Window.repostParked
    {rows : List StoredRow} {wire late : List Nat} {chat : ChatState}
    (h : Window rows wire late chat) :
    Window rows wire late (Session.repostParked chat) := by
  have hfold : ∀ (sends : List RetryableSend) {chat : ChatState},
      Window rows wire late chat →
        Window rows wire late (sends.foldl
          (fun chat send => markSend chat send.intentId (some .sending)) chat) := by
    intro sends
    induction sends with
    | nil => exact fun h => h
    | cons send sends ih => exact fun h => ih (h.congr (ids_markSend _ _ _) rfl rfl)
  exact hfold (retryableSends chat) h

/-- A row in a snapshot is in every later one. -/
theorem exists_mem_first
    {store : Store} {m n id : Nat}
    (hle : m ≤ n)
    (h : ∃ row ∈ (store.first m).rows, row.id = id) :
    ∃ row ∈ (store.first n).rows, row.id = id := by
  obtain ⟨row, hrow, hid⟩ := h
  exact ⟨row, (List.take_sublist_take_left hle).subset hrow, hid⟩

theorem exists_mem_first_append
    {store : Store} {row : StoredRow} {n id : Nat}
    (hlt : ∀ old ∈ store.rows, old.id < row.id)
    (h : ∃ old ∈ (store.first n).rows, old.id = id) :
    ∃ old ∈ ((store.append row hlt).first n).rows, old.id = id := by
  obtain ⟨old, hold, hid⟩ := h
  have htake : ((store.append row hlt).first n).rows =
      store.rows.take n ++ [row].take (n - store.rows.length) := List.take_append
  exact ⟨old, htake ▸ List.mem_append_left _ hold, hid⟩

/-- A callback that keeps the chat, with fewer replies or the same waiting. -/
theorem Sound.session
    {session : Session} {wire : List StoredRow}
    (h : Sound w)
    (hopen : session.socketOpen = w.session.socketOpen)
    (hsaw : session.sawOpen = w.session.sawOpen)
    (hwire : wire ⊆ w.wire)
    (hfresh : session.sawOpen = false → session.queue = [])
    (hqueued : ∀ event ∈ session.queue, ∃ row ∈ w.store.rows, event.id = some row.id)
    (hwindow : Window w.store.rows (wire.map (·.id)) (ids session.queue ++ w.missed)
      session.chat) :
    Sound { w with session := session, wire := wire } where
  window := hwindow
  queued := hqueued
  wired := fun row hrow => h.wired row (hwire hrow)
  missed := h.missed
  opened := fun hnow => h.opened (hopen ▸ hnow)
  reseeded := fun hnow => ⟨(h.reseeded hnow).1, hopen.trans (h.reseeded hnow).2⟩
  closed := fun hnow => by
    have hnil := h.closed (hopen ▸ hnow)
    rw [hnil] at hwire
    exact List.subset_nil.1 hwire
  fresh := fun hnow => ⟨hfresh hnow, hopen.trans (h.fresh (hsaw ▸ hnow)).2⟩
  loading := h.loading

/-- A callback that changes the tail alone. -/
theorem Sound.chat
    {chat : ChatState}
    (h : Sound w)
    (hwindow : Window w.store.rows (w.wire.map (·.id)) (ids w.session.queue ++ w.missed) chat) :
    Sound { w with session := { w.session with chat := chat } } :=
  h.session rfl rfl (List.Subset.refl _) (fun hnow => (h.fresh hnow).1) h.queued hwindow

theorem Sound.stores
    {row : StoredRow}
    (h : Sound w)
    (hlt : ∀ old ∈ w.store.rows, old.id < row.id) :
    Sound
      { w with
        store := w.store.append row hlt
        wire := if w.session.socketOpen then w.wire ++ [row] else w.wire
        missed := if w.session.socketOpen then w.missed else w.missed ++ [row.id] } := by
  have hold : ∀ {id}, (∃ other ∈ w.store.rows, other.id = id) →
      ∃ other ∈ w.store.rows ++ [row], other.id = id := by
    rintro id ⟨other, hother, rfl⟩
    exact ⟨other, List.mem_append_left _ hother, rfl⟩
  have hqueued : ∀ event ∈ w.session.queue,
      ∃ other ∈ w.store.rows ++ [row], event.id = some other.id := by
    intro event hevent
    obtain ⟨other, hother, hid⟩ := h.queued event hevent
    exact ⟨other, List.mem_append_left _ hother, hid⟩
  have hloading : ∀ load ∈ w.loading,
      ∃ other ∈ ((w.store.append row hlt).first load.asked).rows, other.id = load.cursor :=
    fun load hload => exists_mem_first_append hlt (h.loading load hload)
  cases hopen : w.session.socketOpen with
  | true =>
      refine ⟨?_, hqueued, ?_, ?_, ?_, ?_, ?_, h.fresh, hloading⟩
      · rw [if_pos rfl, if_pos rfl, List.map_append]
        exact h.window.store (List.subset_append_left _ _) (List.Subset.refl _)
          (Or.inr (List.mem_append_right _ List.mem_cons_self))
      · intro other hother
        rw [if_pos rfl] at hother
        rcases List.mem_append.1 hother with hother | hother
        · exact List.mem_append_left _ (h.wired other hother)
        · exact List.mem_append_right _ hother
      · exact fun id hid => hold (h.missed id hid)
      · exact fun hnow id hid => exists_mem_first_append hlt (h.opened hnow id hid)
      · exact h.reseeded
      · intro hnow
        rw [hopen] at hnow
        cases hnow
  | false =>
      have hnot : w.reseeded = false := by
        rw [Bool.eq_false_iff]
        intro hnow
        rw [(h.reseeded hnow).2] at hopen
        cases hopen
      refine ⟨?_, hqueued, ?_, ?_, ?_, ?_, ?_, h.fresh, hloading⟩
      · rw [if_neg Bool.false_ne_true, if_neg Bool.false_ne_true]
        refine h.window.store (List.Subset.refl _) ?_ (Or.inl ?_)
        · rw [← List.append_assoc]
          exact List.subset_append_left _ _
        · exact List.mem_append_right _ (List.mem_append_right _ List.mem_cons_self)
      · rw [if_neg Bool.false_ne_true]
        exact fun other hother => List.mem_append_left _ (h.wired other hother)
      · rw [if_neg Bool.false_ne_true]
        intro id hid
        rcases List.mem_append.1 hid with hid | hid
        · exact hold (h.missed id hid)
        · exact ⟨row, List.mem_append_right _ List.mem_cons_self, (List.mem_singleton.1 hid).symm⟩
      · intro hnow
        rw [hopen] at hnow
        cases hnow
      · intro hnow
        rw [hnot] at hnow
        cases hnow
      · rw [if_neg Bool.false_ne_true]
        exact h.closed

/-- The rows that an emptied queue loses are missed. -/
theorem Window.unqueue
    {rows : List StoredRow} {wire lost : List Nat} {s : Session} {missed : List Nat}
    (h : Window rows wire (ids s.queue ++ missed) s.chat)
    (hwire : ∀ id ∈ wire, id ∈ lost) :
    Window rows [] (missed ++ unheld s ++ lost) s.chat := by
  refine h.update rfl (List.Subset.refl _) (fun id hid => Or.inl hid) ?_ ?_
    (fun id hid => Or.inl hid)
  · intro id hid _
    by_cases hheld : id ∈ ids s.chat.messages
    · exact Or.inl hheld
    · refine Or.inr (List.mem_append_left _ ?_)
      rcases List.mem_append.1 hid with hqueue | hmissed
      · exact List.mem_append_right _ (List.mem_filter.2 ⟨hqueue, decide_eq_true hheld⟩)
      · exact List.mem_append_left _ hmissed
  · exact fun id hid _ => Or.inr (Or.inl (List.mem_append_right _ (hwire id hid)))

theorem Sound.unheld_stored
    (h : Sound w) :
    ∀ id ∈ unheld w.session, ∃ row ∈ w.store.rows, row.id = id := by
  intro id hid
  obtain ⟨event, hevent, heventId⟩ := mem_ids.1 (List.mem_filter.1 hid).1
  obtain ⟨row, hrow, hrowId⟩ := h.queued event hevent
  exact ⟨row, hrow, Option.some_inj.1 (hrowId.symm.trans heventId)⟩

theorem Sound.opens
    (h : Sound w)
    (hfits : w.session.reseeds = false → w.missed = [])
    (hclosed : w.session.socketOpen = false) :
    Sound
      { w with
        session := w.session.onOpen
        seeds := if w.session.reseeds then w.seeds ++ [w.store.rows.length] else w.seeds
        openedAt := w.store.rows.length
        missed := w.missed ++ unheld w.session
        reseeded := !w.session.reseeds } := by
  have hmissed : ∀ id ∈ w.missed ++ unheld w.session, ∃ row ∈ w.store.rows, row.id = id := by
    intro id hid
    rcases List.mem_append.1 hid with hid | hid
    · exact h.missed id hid
    · exact h.unheld_stored id hid
  have hnil := h.closed hclosed
  have hall : (w.store.first w.store.rows.length).rows = w.store.rows := List.take_length
  refine ⟨?_, fun event hevent => (nomatch hevent), h.wired, hmissed, fun _ => ?_, ?_,
    fun hnow => (nomatch hnow), fun hnow => (nomatch hnow), h.loading⟩
  · have hlost : ∀ id ∈ w.wire.map (·.id), id ∈ ([] : List Nat) := by
      rw [hnil]
      exact fun id hid => hid
    have hwindow := h.window.unqueue hlost
    rw [List.append_nil] at hwindow
    rw [hnil]
    exact hwindow.repostParked
  · rw [hall]
    exact hmissed
  · intro hnow
    have hskips : w.session.reseeds = false := by simpa using hnow
    have hsaw : w.session.sawOpen = false := (Bool.or_eq_false_iff.1 hskips).1
    refine ⟨?_, rfl⟩
    rw [hfits hskips, unheld, (h.fresh hsaw).1]
    rfl

theorem Sound.closes
    (h : Sound w)
    (hopen : w.session.socketOpen = true) :
    Sound
      { w with
        session := w.session.onClosed
        wire := []
        missed := w.missed ++ w.wire.map (·.id)
        reseeded := false } := by
  have hmissed : ∀ id ∈ w.missed ++ w.wire.map (·.id), ∃ row ∈ w.store.rows, row.id = id := by
    intro id hid
    rcases List.mem_append.1 hid with hid | hid
    · exact h.missed id hid
    · obtain ⟨row, hrow, rfl⟩ := List.mem_map.1 hid
      exact ⟨row, h.wired row hrow, rfl⟩
  refine ⟨?_, h.queued, fun row hrow => (nomatch hrow), hmissed, fun hnow => (nomatch hnow),
    fun hnow => (nomatch hnow), fun _ => rfl, fun hnow => ?_, h.loading⟩
  · refine h.window.update rfl (List.Subset.refl _) (fun id hid => Or.inl hid) ?_ ?_
      (fun id hid => Or.inl hid)
    · intro id hid _
      rw [← List.append_assoc]
      exact Or.inr (List.mem_append_left _ hid)
    · intro id hid _
      exact Or.inr (Or.inl (List.mem_append_right _ (List.mem_append_right _ hid)))
  · have hshut := (h.fresh hnow).2
    rw [hopen] at hshut
    cases hshut

/-- The pages that the store answers close what the client has missed. -/
theorem Sound.seedArrives
    {n : Nat} {seeds : List Nat}
    (h : Sound w)
    (hfits : SeedFits w.store.rows w.missed w.session.chat ((w.store.first n).page none)) :
    Sound
      { w with
        session := w.session.onSeed ((w.store.first n).page none)
        seeds := seeds
        missed := stillMissed ((w.store.first n).page none) w.missed
        reseeded := w.reseeded || (w.session.socketOpen && w.openedAt ≤ n) } := by
  have hpage := (w.store.first n).pageOf_page none
  have hsub : stillMissed ((w.store.first n).page none) w.missed ⊆ w.missed :=
    fun id hid => (List.mem_filter.1 hid).1
  refine ⟨?_, h.queued, h.wired, fun id hid => h.missed id (hsub hid),
    fun hnow id hid => h.opened hnow id (hsub hid), ?_, h.closed, h.fresh, h.loading⟩
  · cases hkeeps : keepsCursor w.session.chat ((w.store.first n).page none) with
    | true =>
        refine h.window.seed_join (fun id hid => ?_) hkeeps hfits
        obtain ⟨row, hrow, hrowId⟩ := (hpage.stored id hid).1
        exact ⟨row, List.mem_of_mem_take hrow, hrowId⟩
    | false => exact h.window.seed_restart hpage hkeeps hfits
  · intro hnow
    rcases Bool.or_eq_true_iff.1 hnow with hold | hnew
    · obtain ⟨hnil, hopen⟩ := h.reseeded hold
      rw [hnil]
      exact ⟨rfl, hopen⟩
    · obtain ⟨hopen, hle⟩ := Bool.and_eq_true_iff.1 hnew
      refine ⟨?_, hopen⟩
      -- what was missed before the open is in the snapshot of the page
      rw [stillMissed, List.filter_eq_nil_iff]
      intro id hid hstill
      obtain ⟨hout, hbelow⟩ := of_decide_eq_true hstill
      obtain ⟨row, hrow, rfl⟩ :=
        exists_mem_first (of_decide_eq_true hle) (h.opened hopen id hid)
      rcases hpage.complete row hrow (fun c hc => nomatch hc) with hin | ⟨oldest, holdest, hlt⟩
      · exact hout hin
      · exact absurd (hbelow oldest (Option.mem_toList.2 holdest)) (Nat.not_le.2 hlt)

theorem Sound.typingTimer
    {natural : Bool} {session : Session}
    (h : Sound w)
    (hfits : Fits w (.typingTimer natural))
    (htimer : w.session.onTypingTimer natural = some session) :
    Sound { w with session := session } := by
  rw [Session.onTypingTimer] at htimer
  split at htimer
  · rename_i first rest _ hqueue
    cases htimer
    have hfits := hfits first (by rw [hqueue]; rfl)
    rw [hqueue, List.tail_cons] at hfits
    have hqueued : ∀ event ∈ rest, ∃ row ∈ w.store.rows, event.id = some row.id :=
      fun event hevent => h.queued event (hqueue ▸ List.mem_cons_of_mem _ hevent)
    have hwindow := h.window
    rw [hqueue] at hwindow
    have hcommitted := hwindow.commit
      (h.queued first (hqueue ▸ List.mem_cons_self)) hfits.1
    obtain ⟨chat, queue, typing, announced, heq, hsub, hnext⟩ :=
      Window.drain natural
        (Session.commitReply { w.session with typing := false, queue := rest } first)
        hcommitted hqueued hfits.2
    rw [heq]
    refine h.session rfl rfl (List.Subset.refl _) (fun hnow => ?_)
      (fun event hevent => hqueued event (hsub hevent)) hnext
    have hnil := (h.fresh hnow).1
    rw [hqueue] at hnil
    cases hnil
  · cases htimer

/-- A session that holds nothing has missed all rows. -/
theorem window_initialChatState (rows : List StoredRow) :
    Window rows [] (rows.map (·.id)) initialChatState where
  covered := fun _ hrow _ => Or.inr (Or.inl (List.mem_map_of_mem hrow))
  shown := fun id hid => absurd hid (Finset.notMem_empty id)
  stored := fun _ hid => absurd hid List.not_mem_nil
  cursor := fun c hc => absurd hc (Option.not_mem_none c)

theorem initial_sound (store : Store) : Sound (initial store) where
  window := window_initialChatState store.rows
  queued := fun _ hevent => absurd hevent List.not_mem_nil
  wired := fun _ hrow => absurd hrow List.not_mem_nil
  missed := fun _ hid => List.mem_map.1 hid
  opened := fun hnow => nomatch hnow
  reseeded := fun hnow => nomatch hnow
  closed := fun _ => rfl
  fresh := fun _ => ⟨rfl, rfl⟩
  loading := fun load hload => absurd hload (Option.not_mem_none load)

theorem Sound.remount
    (h : Sound w)
    (keepsHold : Bool) :
    Sound
      { w with
        session :=
          Session.create (if keepsHold then w.session.chat else initialChatState)
        wire := []
        seeds := [w.store.rows.length]
        loading := none
        missed :=
          if keepsHold then w.missed ++ unheld w.session ++ w.wire.map (·.id)
          else w.store.rows.map (·.id)
        reseeded := false } := by
  have hmissed : ∀ id ∈ w.missed ++ unheld w.session ++ w.wire.map (·.id),
      ∃ row ∈ w.store.rows, row.id = id := by
    intro id hid
    rcases List.mem_append.1 hid with hid | hid
    · rcases List.mem_append.1 hid with hid | hid
      · exact h.missed id hid
      · exact h.unheld_stored id hid
    · obtain ⟨row, hrow, rfl⟩ := List.mem_map.1 hid
      exact ⟨row, h.wired row hrow, rfl⟩
  refine ⟨?_, fun event hevent => (nomatch hevent), fun row hrow => (nomatch hrow), ?_,
    fun hnow => (nomatch hnow), fun hnow => (nomatch hnow), fun _ => rfl, fun _ => ⟨rfl, rfl⟩,
    fun load hload => (nomatch hload)⟩
  · cases keepsHold with
    | true => exact h.window.unqueue fun id hid => hid
    | false => exact window_initialChatState w.store.rows
  · cases keepsHold with
    | true => exact hmissed
    | false => exact fun id hid => List.mem_map.1 hid

theorem Sound.step
    {a : Label}
    (h : Sound w)
    (hfits : Fits w a)
    (hstep : step w a = some next) :
    Sound next := by
  cases a with
  | stores row =>
      simp only [Network.step] at hstep
      split at hstep
      · rename_i hlt
        cases hstep
        exact h.stores hlt
      · cases hstep
  | opened =>
      simp only [Network.step] at hstep
      split at hstep
      · cases hstep
      · rename_i hclosed
        cases hstep
        exact h.opens hfits (Bool.not_eq_true _ ▸ hclosed)
  | closed =>
      simp only [Network.step] at hstep
      split at hstep
      · cases hstep
        rename_i hopen
        exact h.closes hopen
      · cases hstep
  | deliver natural =>
      simp only [Network.step] at hstep
      split at hstep
      · cases hstep
      · rename_i row rest hwire
        cases hstep
        have hwindow := h.window
        rw [hwire, List.map_cons] at hwindow
        obtain ⟨chat, queue, typing, announced, hevent, hqueued, hnext⟩ := hwindow.event
          (h.wired row (hwire ▸ List.mem_cons_self)) h.queued (hfits row (by rw [hwire]; rfl))
        rw [hevent]
        refine h.session rfl rfl (hwire ▸ List.subset_cons_self _ _) (fun hnow => ?_) hqueued hnext
        -- nothing is on the wire before the first open
        rw [h.closed (h.fresh hnow).2] at hwire
        cases hwire
  | typingTimer natural =>
      obtain ⟨session, htimer, rfl⟩ := Option.map_eq_some_iff.1 hstep
      exact h.typingTimer hfits htimer
  | flushPacing =>
      cases hstep
      rw [w.session.flushQueue_eq]
      exact h.session rfl rfl (List.Subset.refl _) (fun _ => rfl)
        (fun event hevent => nomatch hevent) (h.window.flush h.queued hfits)
  | seedArrives i n =>
      simp only [Network.step] at hstep
      split at hstep
      · cases hstep
      · split at hstep
        · cases hstep
          exact h.seedArrives hfits
        · cases hstep
  | seedFails i =>
      simp only [Network.step] at hstep
      split at hstep
      · cases hstep
        rw [Session.onSeedFailed]
        split <;> exact { h with }
      · cases hstep
  | retrySeed =>
      simp only [Network.step] at hstep
      split at hstep
      · cases hstep
        exact { h with }
      · cases hstep
  | loadMore =>
      obtain ⟨cursor, hmore, rfl⟩ := Option.map_eq_some_iff.1 hstep
      refine { h with loading := fun load hload => ?_ }
      cases hload
      have hcursor : w.session.chat.cursor = some cursor := by
        rw [Session.loadMore] at hmore
        split at hmore
        · cases hmore
        · exact hmore
      obtain ⟨row, hrow, hid⟩ := h.window.stored cursor (h.window.cursor cursor hcursor).1
      refine ⟨row, ?_, hid⟩
      change row ∈ w.store.rows.take w.store.rows.length
      rw [List.take_length]
      exact hrow
  | pageArrives n =>
      simp only [Network.step] at hstep
      split at hstep
      · cases hstep
      · rename_i load hload
        split at hstep
        · rename_i hn
          cases hstep
          have hwindow := h.window.prepend
            (exists_mem_first hn.1 (h.loading load hload)) (hfits load hload)
          exact { h with
            window := hwindow
            loading := fun load hload => nomatch hload }
        · cases hstep
  | pageFails =>
      simp only [Network.step] at hstep
      split at hstep
      · cases hstep
      · cases hstep
        exact { h with loading := fun load hload => nomatch hload }
  | trimHistory =>
      cases hstep
      rw [Session.trimHistory]
      split
      · exact h
      · rename_i hidle
        exact h.chat (h.window.trim (hfits.resolve_left hidle))
  | send text inputMethod intentId attachments now =>
      cases hstep
      refine h.chat (h.window.congr ?_ rfl rfl)
      exact (ids_append_of_uncut hfits).trans (List.append_nil _)
  | mark intentId send =>
      cases hstep
      exact h.chat (h.window.congr (ids_markSend _ _ _) rfl rfl)
  | remount keepsHold =>
      cases hstep
      exact h.remount keepsHold

end Runs

/-- The rows of a store that its user sent. -/
def sentRows (first count : Nat) : List StoredRow :=
  (List.range count).map fun i =>
    { id := first + i, ts := "", body := .user "hello" none none none }

/-- A store of so many rows. -/
def sentStore (count : Nat) : Store where
  rows := sentRows 1 count
  increasing := by
    rw [sentRows, List.pairwise_map]
    exact List.pairwise_lt_range.imp fun h => Nat.add_lt_add_left h 1

theorem starts_sentStore (count : Nat) : machine.start (initial (sentStore count)) :=
  ⟨sentStore count, rfl⟩

/-- The newest page, an older one, a reply that is paced, a reconnect after a missed row. -/
def scrolledRun : List Label :=
  [.seedArrives 0 60, .opened, .loadMore, .pageArrives 60,
    .stores { id := 61, ts := "", body := .chat "hi" none }, .deliver true, .typingTimer true,
    .closed, .stores { id := 62, ts := "", body := .chat "still there" none }, .opened,
    .seedArrives 0 62, .trimHistory]

/-- Ten rows are held when the connection drops.  Sixty more are stored before it is back,
and one comes live before the newest page does. -/
def racedRun : List Label :=
  [.seedArrives 0 10, .opened, .closed] ++ (sentRows 11 60).map .stores ++
    [.opened, .stores { id := 71, ts := "", body := .user "hello" none none none },
      .deliver true, .seedArrives 0 71]

end Network
end Chat
end Core
end Vesta
