import Vesta.Core.Chat.Network

/-!
# The tail as a window on the store

Scrolling back asks for the page above the cursor, so the tail has no hole when
two things hold: from the cursor on each row of the store is held or on its way,
and the cursor is the oldest row held.  `Window` states both, and what a shown id
stands for.

Of the folds that change the tail, those that leave the cursor alone are covered
by one lemma, `Window.update`.  The merge of a page, a trim and a page of older
history move the cursor and have a lemma each, with the condition it needs.
-/

namespace Vesta
namespace Core
namespace Chat
namespace Network

open Lib

/-- A condition on what an option holds is decided on that. -/
def decidableOption {α : Type} (o : Option α) (p : α → Prop) [∀ a, Decidable (p a)] :
    Decidable (∀ a ∈ o, p a) :=
  match o with
  | none => isTrue fun _ ha => nomatch ha
  | some a =>
      decidable_of_iff (p a) ⟨fun hp _ ha => Option.some_inj.1 ha ▸ hp, fun hall => hall a rfl⟩

/-- An id from the cursor on. -/
def Above (chat : ChatState) (id : Nat) : Prop :=
  ∀ c ∈ chat.cursor, c ≤ id

instance (chat : ChatState) (id : Nat) : Decidable (Above chat id) :=
  decidableOption chat.cursor fun c => c ≤ id

/-- One more row would cut none with an id off the tail. -/
def Uncut (chat : ChatState) : Prop :=
  ids (chat.messages.take (chat.messages.length + 1 - maxMessages)) = []

instance (chat : ChatState) : Decidable (Uncut chat) :=
  inferInstanceAs (Decidable (_ = _))

/-- From the cursor on each stored row is held, late or on the wire; a shown one is held or
late; and the cursor is the oldest row held. -/
structure Window (rows : List StoredRow) (wire late : List Nat) (chat : ChatState) : Prop where
  covered : ∀ row ∈ rows, Above chat row.id →
    row.id ∈ ids chat.messages ∨ row.id ∈ late ∨ row.id ∈ wire
  shown : ∀ id ∈ chat.shownIds, (∃ row ∈ rows, row.id = id) ∧
    (Above chat id → id ∈ ids chat.messages ∨ id ∈ late)
  stored : ∀ id ∈ ids chat.messages, ∃ row ∈ rows, row.id = id
  cursor : ∀ c ∈ chat.cursor, c ∈ ids chat.messages ∧ ∀ id ∈ ids chat.messages, c ≤ id

section Fold

variable {rows : List StoredRow} {wire wire' late late' : List Nat} {chat chat' : ChatState}

/-- A step that keeps the rows held and the cursor, and takes only rows from the cursor on. -/
theorem Window.update
    (h : Window rows wire late chat)
    (hcursor : chat'.cursor = chat.cursor)
    (hheld : ids chat.messages ⊆ ids chat'.messages)
    (hnew : ∀ id ∈ ids chat'.messages, id ∈ ids chat.messages ∨
      ((∃ row ∈ rows, row.id = id) ∧ Above chat id))
    (hlate : ∀ id ∈ late, Above chat id → id ∈ ids chat'.messages ∨ id ∈ late')
    (hwire : ∀ id ∈ wire, Above chat id →
      id ∈ ids chat'.messages ∨ id ∈ late' ∨ id ∈ wire')
    (hshown : ∀ id ∈ chat'.shownIds, id ∈ chat.shownIds ∨
      ((∃ row ∈ rows, row.id = id) ∧ (Above chat id → id ∈ ids chat'.messages ∨ id ∈ late'))) :
    Window rows wire' late' chat' := by
  have habove : ∀ {id}, Above chat' id ↔ Above chat id := by
    intro id
    rw [Above, Above, hcursor]
  constructor
  · intro row hrow hid
    rw [habove] at hid
    rcases h.covered row hrow hid with hmem | hmem | hmem
    · exact Or.inl (hheld hmem)
    · exact (hlate _ hmem hid).imp_right Or.inl
    · exact hwire _ hmem hid
  · intro id hid
    rw [habove]
    rcases hshown id hid with hold | hold
    · refine ⟨(h.shown id hold).1, fun hid => ?_⟩
      rcases (h.shown id hold).2 hid with hmem | hmem
      · exact Or.inl (hheld hmem)
      · exact hlate id hmem hid
    · exact hold
  · intro id hid
    exact (hnew id hid).elim (h.stored id) fun hrow => hrow.1
  · intro c hc
    rw [hcursor] at hc
    refine ⟨hheld (h.cursor c hc).1, fun id hid => ?_⟩
    exact (hnew id hid).elim ((h.cursor c hc).2 id) fun hrow => hrow.2 c hc

theorem ids_append_of_uncut
    {message : ChatMessage}
    (h : Uncut chat) :
    ids (chat.append message).messages = ids chat.messages ++ message.id.toList := by
  have hsplit : ids chat.messages =
      ids (chat.messages.take (chat.messages.length + 1 - maxMessages)) ++
        ids (chat.messages.drop (chat.messages.length + 1 - maxMessages)) := by
    rw [← ids_append, List.take_append_drop]
  rw [Uncut] at h
  rw [messages_append, ids_append, hsplit, h, List.nil_append]
  cases hid : message.id <;> simp [ids, hid]

/-- A stored row that was late or on the wire is put at the end of the tail. -/
theorem Window.append
    {row : StoredRow} {message : ChatMessage}
    (h : Window rows wire late chat)
    (hrow : row ∈ rows)
    (hmessage : message.id = some row.id)
    (huncut : Uncut chat)
    (habove : Above chat row.id)
    (hlate : ∀ id ∈ late, id = row.id ∨ id ∈ late')
    (hwire : ∀ id ∈ wire, id = row.id ∨ id ∈ wire')
    (hshown : ∀ id ∈ chat'.shownIds, id ∈ chat.shownIds ∨ id = row.id)
    (hcursor : chat'.cursor = chat.cursor)
    (hmessages : chat'.messages = (chat.append message).messages) :
    Window rows wire' late' chat' := by
  have hids : ids chat'.messages = ids chat.messages ++ [row.id] := by
    rw [hmessages, ids_append_of_uncut huncut, hmessage]
    rfl
  have hrowIn : row.id ∈ ids chat'.messages := by
    rw [hids]
    exact List.mem_append_right _ List.mem_cons_self
  refine h.update hcursor ?_ ?_ ?_ ?_ ?_
  · rw [hids]
    exact List.subset_append_left _ _
  · intro id hid
    rw [hids] at hid
    rcases List.mem_append.1 hid with hold | hlast
    · exact Or.inl hold
    · rw [List.mem_singleton.1 hlast]
      exact Or.inr ⟨⟨row, hrow, rfl⟩, habove⟩
  · intro id hid _
    rcases hlate id hid with rfl | hid
    · exact Or.inl hrowIn
    · exact Or.inr hid
  · intro id hid _
    rcases hwire id hid with rfl | hid
    · exact Or.inl hrowIn
    · exact Or.inr (Or.inr hid)
  · intro id hid
    rcases hshown id hid with hid | rfl
    · exact Or.inl hid
    · exact Or.inr ⟨⟨row, hrow, rfl⟩, fun _ => Or.inl hrowIn⟩

/-! ### Replies -/

/-- The commit of a reply that is not held cuts nothing off, and the reply is not older than
the tail. -/
def CommitFits (chat : ChatState) (event : ChatMessage) : Prop :=
  ∀ id ∈ event.id, id ∈ ids chat.messages ∨ (Uncut chat ∧ Above chat id)

instance (chat : ChatState) (event : ChatMessage) : Decidable (CommitFits chat event) :=
  decidableOption event.id fun id => id ∈ ids chat.messages ∨ (Uncut chat ∧ Above chat id)

/-- The commits of a flush, one after the other. -/
def FlushFits (chat : ChatState) : List ChatMessage → Prop
  | [] => True
  | event :: queue => CommitFits chat event ∧ FlushFits (commitPacedChat chat event) queue

instance decidableFlushFits :
    ∀ (queue : List ChatMessage) (chat : ChatState), Decidable (FlushFits chat queue)
  | [], _ => isTrue trivial
  | event :: queue, chat =>
      have := decidableFlushFits queue (commitPacedChat chat event)
      inferInstanceAs
        (Decidable (CommitFits chat event ∧ FlushFits (commitPacedChat chat event) queue))

theorem Window.commit
    {event : ChatMessage} {queue : List ChatMessage} {missed : List Nat}
    (h : Window rows wire (ids (event :: queue) ++ missed) chat)
    (hrow : ∃ row ∈ rows, event.id = some row.id)
    (hfits : CommitFits chat event) :
    Window rows wire (ids queue ++ missed) (commitPacedChat chat event) := by
  obtain ⟨row, hrow, hid⟩ := hrow
  have hlate : ∀ id ∈ ids (event :: queue) ++ missed, id = row.id ∨ id ∈ ids queue ++ missed := by
    intro id hmem
    have hcons : ids (event :: queue) = row.id :: ids queue := by
      rw [ids, List.filterMap_cons, hid]
      rfl
    rw [hcons, List.cons_append] at hmem
    exact List.mem_cons.1 hmem
  rcases commitPacedChat_cases chat event with ⟨⟨id, hevent, hheld⟩, hcommit⟩ | ⟨hfresh, hcommit⟩
  · rw [hid] at hevent
    cases hevent
    rw [hcommit]
    refine h.update rfl (List.Subset.refl _) (fun id hmem => Or.inl hmem) ?_
      (fun id hmem _ => Or.inr (Or.inr hmem)) (fun id hmem => Or.inl hmem)
    intro id hmem _
    rcases hlate id hmem with rfl | hmem
    · exact Or.inl hheld
    · exact Or.inr hmem
  · have hopen := (hfits row.id hid).resolve_left (hfresh row.id hid)
    rw [hcommit]
    exact h.append hrow hid hopen.1 hopen.2 hlate (fun id hmem => Or.inr hmem)
      (fun id hmem => Or.inl hmem) rfl rfl

theorem Window.flush
    {queue : List ChatMessage} {missed : List Nat}
    (h : Window rows wire (ids queue ++ missed) chat)
    (hstored : ∀ event ∈ queue, ∃ row ∈ rows, event.id = some row.id)
    (hfits : FlushFits chat queue) :
    Window rows wire missed (queue.foldl commitPacedChat chat) := by
  induction queue generalizing chat with
  | nil => exact h
  | cons event queue ih =>
      rw [List.foldl_cons]
      exact ih (h.commit (hstored event List.mem_cons_self) hfits.1)
        (fun other hmem => hstored other (List.mem_cons_of_mem _ hmem)) hfits.2

/-- What the end of a pacing step flushes. -/
def DrainFits (natural : Bool) (s : Session) : Prop :=
  s.typing = false → flushThreshold < s.queue.length ∨ natural = false → FlushFits s.chat s.queue

instance (natural : Bool) (s : Session) : Decidable (DrainFits natural s) :=
  inferInstanceAs (Decidable (_ → _ → FlushFits s.chat s.queue))

/-- A pacing step commits what it flushes and changes nothing else of the tail. -/
theorem Window.drain
    (natural : Bool) (s : Session)
    {missed : List Nat}
    (h : Window rows wire (ids s.queue ++ missed) s.chat)
    (hstored : ∀ event ∈ s.queue, ∃ row ∈ rows, event.id = some row.id)
    (hfits : DrainFits natural s) :
    ∃ chat queue typing announced,
      s.drainQueue natural =
        { s with chat := chat, queue := queue, typing := typing, announced := announced } ∧
      queue ⊆ s.queue ∧ Window rows wire (ids queue ++ missed) chat := by
  rw [Session.drainQueue]
  split
  · exact ⟨_, _, _, _, rfl, List.Subset.refl _, h⟩
  · rename_i hwaits
    have htyping : s.typing = false := by
      cases htyping : s.typing with
      | false => rfl
      | true => simp [htyping] at hwaits
    split
    · rename_i hflush
      rw [Bool.or_eq_true, decide_eq_true_eq, Bool.not_eq_true'] at hflush
      rw [s.flushQueue_eq]
      exact ⟨_, _, _, _, rfl, List.nil_subset _, h.flush hstored (hfits htyping hflush)⟩
    · exact ⟨_, _, _, _, rfl, List.Subset.refl _, h⟩

/-! ### Live rows -/

/-- The echo of an intent finds its bubble, on no other id; or it is older than the tail. -/
def EchoKeeps (chat : ChatState) (intentId : String) (id : Nat) : Prop :=
  if ∃ message ∈ chat.messages, message.intentId = some intentId then
    Above chat id ∧
      ∀ message ∈ chat.messages, message.intentId = some intentId →
        message.id = none ∨ message.id = some id
  else
    ¬Above chat id

instance (chat : ChatState) (intentId : String) (id : Nat) :
    Decidable (EchoKeeps chat intentId id) :=
  inferInstanceAs (Decidable (ite _ _ _))

theorem mem_ids_confirmed
    {event : ChatMessage} {intentId : String} {id : Nat} :
    id ∈ ids (chat.confirmed event intentId).messages ↔
      ∃ message ∈ chat.messages,
        (if message.intentId = some intentId then event.id <|> message.id else message.id) =
          some id := by
  rw [mem_ids]
  constructor
  · rintro ⟨confirmed, hmem, hid⟩
    obtain ⟨message, hmessage, rfl⟩ := List.mem_map.1 hmem
    exact ⟨message, hmessage, id_confirm event intentId message ▸ hid⟩
  · rintro ⟨message, hmessage, hid⟩
    exact ⟨_, List.mem_map_of_mem hmessage, (id_confirm event intentId message).trans hid⟩

theorem Window.confirm
    {row : StoredRow} {event : ChatMessage} {intentId : String}
    (h : Window rows (row.id :: wire) late chat)
    (hrow : row ∈ rows)
    (hid : event.id = some row.id)
    (hfits : EchoKeeps chat intentId row.id) :
    Window rows wire late (chat.confirmed event intentId) := by
  have hshown : ∀ id ∈ (chat.confirmed event intentId).shownIds,
      id ∈ chat.shownIds ∨ id = row.id := by
    intro id hmem
    rcases Finset.mem_union.1 hmem with hold | hnew
    · exact Or.inl hold
    · rw [hid] at hnew
      exact Or.inr (Finset.mem_singleton.1 hnew)
  rw [EchoKeeps] at hfits
  split at hfits
  · rename_i hbubble
    obtain ⟨bubble, hbubbleMem, hbubbleIntent⟩ := hbubble
    have hrowIn : row.id ∈ ids (chat.confirmed event intentId).messages := by
      refine mem_ids_confirmed.2 ⟨bubble, hbubbleMem, ?_⟩
      rw [if_pos hbubbleIntent, hid]
      rfl
    refine h.update rfl ?_ ?_ (fun id hmem _ => Or.inr hmem) ?_ ?_
    · intro id hmem
      obtain ⟨message, hmessage, hold⟩ := mem_ids.1 hmem
      refine mem_ids_confirmed.2 ⟨message, hmessage, ?_⟩
      split
      · rename_i hintent
        have hsame := (hfits.2 message hmessage hintent).resolve_left (hold ▸ Option.some_ne_none id)
        rw [hid, ← hsame, hold]
        rfl
      · exact hold
    · intro id hmem
      obtain ⟨message, hmessage, hnew⟩ := mem_ids_confirmed.1 hmem
      split at hnew
      · rw [hid] at hnew
        cases hnew
        exact Or.inr ⟨⟨row, hrow, rfl⟩, hfits.1⟩
      · exact Or.inl (mem_ids.2 ⟨message, hmessage, hnew⟩)
    · intro id hmem _
      rcases List.mem_cons.1 hmem with rfl | hmem
      · exact Or.inl hrowIn
      · exact Or.inr (Or.inr hmem)
    · intro id hmem
      rcases hshown id hmem with hold | rfl
      · exact Or.inl hold
      · exact Or.inr ⟨⟨row, hrow, rfl⟩, fun _ => Or.inl hrowIn⟩
  · rename_i hnone
    -- no bubble is left: the rows stay as they are
    have hids : ∀ id, id ∈ ids (chat.confirmed event intentId).messages ↔
        id ∈ ids chat.messages := by
      intro id
      rw [mem_ids_confirmed, mem_ids]
      refine exists_congr fun message => and_congr_right fun hmessage => ?_
      rw [if_neg fun hintent => hnone ⟨message, hmessage, hintent⟩]
    refine h.update rfl (fun id hmem => (hids id).2 hmem) (fun id hmem => Or.inl ((hids id).1 hmem))
      (fun id hmem _ => Or.inr hmem) ?_ ?_
    · intro id hmem habove
      rcases List.mem_cons.1 hmem with rfl | hmem
      · exact absurd habove hfits
      · exact Or.inr (Or.inr hmem)
    · intro id hmem
      rcases hshown id hmem with hold | rfl
      · exact Or.inl hold
      · exact Or.inr ⟨⟨row, hrow, rfl⟩, fun habove => absurd habove hfits⟩

/-- A live row keeps the window: the echo finds its bubble, the replies that are flushed and a
row that is put at the end cut nothing off and are not older than the tail. -/
def EventFits (natural : Bool) (s : Session) (row : StoredRow) : Prop :=
  (∀ intentId ∈ s.chat.confirmedBy row.message, EchoKeeps s.chat intentId row.id) ∧
  ((s.chat.confirmedBy row.message).isNone = true → s.chat.ignores row.message = false →
    if row.message.isChat = true then
      DrainFits natural
        { s with chat := s.chat.shown row.message, queue := s.queue ++ [row.message] }
    else
      Uncut s.chat ∧ Above s.chat row.id)

instance (natural : Bool) (s : Session) (row : StoredRow) :
    Decidable (EventFits natural s row) :=
  have := decidableOption (s.chat.confirmedBy row.message)
    fun intentId => EchoKeeps s.chat intentId row.id
  inferInstanceAs (Decidable (_ ∧ (_ → _ → ite _ _ _)))

theorem mem_shownIds_of_ignores
    {row : StoredRow}
    (h : chat.ignores row.message = true) :
    row.id ∈ chat.shownIds := by
  have hrow : isChatRow row.message = true := by
    obtain ⟨id, ts, body⟩ := row
    cases body <;> rfl
  rw [ChatState.ignores, hrow] at h
  simpa [StoredRow.message] using h

theorem Window.event
    {natural : Bool} {s : Session} {row : StoredRow} {missed : List Nat}
    (h : Window rows (row.id :: wire) (ids s.queue ++ missed) s.chat)
    (hrow : row ∈ rows)
    (hstored : ∀ event ∈ s.queue, ∃ row ∈ rows, event.id = some row.id)
    (hfits : EventFits natural s row) :
    ∃ chat queue typing announced,
      s.onEvent natural row.message =
        { s with chat := chat, queue := queue, typing := typing, announced := announced } ∧
      (∀ event ∈ queue, ∃ row ∈ rows, event.id = some row.id) ∧
        Window rows wire (ids queue ++ missed) chat := by
  have hid : row.message.id = some row.id := rfl
  have hshown : ∀ id ∈ (s.chat.shown row.message).shownIds,
      id ∈ s.chat.shownIds ∨ id = row.id := by
    intro id hmem
    exact (Finset.mem_union.1 hmem).imp_right Finset.mem_singleton.1
  have hwire : ∀ id ∈ row.id :: wire, id = row.id ∨ id ∈ wire := fun id hmem => List.mem_cons.1 hmem
  rw [Session.onEvent]
  rcases foldLiveEvent_cases s.chat row.message with ⟨intentId, hconfirmed, hfold⟩ |
    ⟨hconfirmed, hignored, hfold⟩ | ⟨hconfirmed, hignored, hchat, hfold⟩ |
    ⟨hconfirmed, hignored, hchat, hfold⟩
  · rw [hfold]
    exact ⟨_, _, _, _, rfl, hstored, h.confirm hrow hid (hfits.1 intentId hconfirmed)⟩
  · rw [hfold]
    refine ⟨_, _, _, _, rfl, hstored, ?_⟩
    have hknown := (h.shown row.id (mem_shownIds_of_ignores hignored)).2
    refine h.update rfl (List.Subset.refl _) (fun id hmem => Or.inl hmem)
      (fun id hmem _ => Or.inr hmem) ?_ (fun id hmem => Or.inl hmem)
    intro id hmem habove
    rcases hwire id hmem with rfl | hmem
    · exact (hknown habove).imp_right Or.inl
    · exact Or.inr (Or.inr hmem)
  · have hdrain := hfits.2 (by rw [hconfirmed]; rfl) hignored
    rw [if_pos hchat] at hdrain
    rw [hfold]
    have hqueued : ∀ event ∈ s.queue ++ [row.message], ∃ row ∈ rows, event.id = some row.id := by
      intro event hmem
      rcases List.mem_append.1 hmem with hold | hlast
      · exact hstored event hold
      · rw [List.mem_singleton.1 hlast]
        exact ⟨row, hrow, rfl⟩
    have hids : ids (s.queue ++ [row.message]) = ids s.queue ++ [row.id] := ids_append _ _
    have hwindow : Window rows wire (ids (s.queue ++ [row.message]) ++ missed)
        (s.chat.shown row.message) := by
      have hlast : row.id ∈ ids (s.queue ++ [row.message]) ++ missed := by
        rw [hids]
        exact List.mem_append_left _ (List.mem_append_right _ List.mem_cons_self)
      refine h.update rfl (List.Subset.refl _) (fun id hmem => Or.inl hmem) ?_ ?_ ?_
      · intro id hmem _
        rw [hids]
        rcases List.mem_append.1 hmem with hmem | hmem
        · exact Or.inr (List.mem_append_left _ (List.mem_append_left _ hmem))
        · exact Or.inr (List.mem_append_right _ hmem)
      · intro id hmem _
        rcases hwire id hmem with rfl | hmem
        · exact Or.inr (Or.inl hlast)
        · exact Or.inr (Or.inr hmem)
      · intro id hmem
        rcases hshown id hmem with hold | rfl
        · exact Or.inl hold
        · exact Or.inr ⟨⟨row, hrow, rfl⟩, fun _ => Or.inr hlast⟩
    obtain ⟨chat, queue, typing, announced, heq, hsub, hnext⟩ :=
      Window.drain natural
        { s with chat := s.chat.shown row.message, queue := s.queue ++ [row.message] }
        hwindow hqueued hdrain
    exact ⟨chat, queue, typing, announced, heq, fun event hmem => hqueued event (hsub hmem), hnext⟩
  · have hopen := hfits.2 (by rw [hconfirmed]; rfl) hignored
    rw [if_neg (Bool.eq_false_iff.1 hchat)] at hopen
    rw [hfold]
    refine ⟨_, _, _, _, rfl, hstored, ?_⟩
    exact h.append hrow hid hopen.1 hopen.2 (fun id hmem => Or.inr hmem) hwire
      hshown rfl rfl

/-! ### Older history -/

/-- A trim cuts at an id: what it drops is older than all it keeps, and the first row it keeps
is the oldest. -/
def TrimFits (chat : ChatState) (keep : Nat) : Prop :=
  chat.messages.length ≤ keep ∨
    ∀ oldest ∈ (ids (newest keep chat.messages)).head?,
      ∀ id ∈ ids chat.messages,
        id ∈ ids (newest keep chat.messages) ∧ oldest ≤ id ∨
          id ∉ ids (newest keep chat.messages) ∧ id < oldest

instance (chat : ChatState) (keep : Nat) : Decidable (TrimFits chat keep) :=
  have := decidableOption (ids (newest keep chat.messages)).head? fun oldest =>
    ∀ id ∈ ids chat.messages,
      id ∈ ids (newest keep chat.messages) ∧ oldest ≤ id ∨
        id ∉ ids (newest keep chat.messages) ∧ id < oldest
  inferInstanceAs (Decidable (_ ∨ _))

theorem Window.trim
    {keep : Nat}
    (h : Window rows wire late chat)
    (hfits : TrimFits chat keep) :
    Window rows wire late (trimTail chat keep) := by
  rcases trimTail_cases chat keep with ⟨-, htrim⟩ | ⟨hlong, oldest, rest, hids, htrim⟩
  · rw [htrim]
    exact h
  · have hcut := hfits.resolve_left (Nat.not_le.2 hlong) oldest (by rw [hids]; rfl)
    have hsub : ids (newest keep chat.messages) ⊆ ids chat.messages :=
      (ids_sublist (newest_suffix keep chat.messages).sublist).subset
    have holdest : oldest ∈ ids (newest keep chat.messages) := hids ▸ List.mem_cons_self
    -- the new cursor is a row that was held
    have habove : ∀ {id}, oldest ≤ id → Above chat id :=
      fun hle c hc => Nat.le_trans ((h.cursor c hc).2 oldest (hsub holdest)) hle
    have hkept : ∀ {id}, oldest ≤ id → id ∈ ids chat.messages →
        id ∈ ids (newest keep chat.messages) := by
      intro id hle hmem
      rcases hcut id hmem with ⟨hin, -⟩ | ⟨-, hlt⟩
      · exact hin
      · exact absurd hle (Nat.not_le.2 hlt)
    rw [htrim]
    constructor
    · intro row hrow hid
      have hle : oldest ≤ row.id := hid oldest rfl
      exact (h.covered row hrow (habove hle)).imp_left (hkept hle)
    · intro id hid
      have hshown := h.shown id (Finset.mem_filter.1 hid).1
      refine ⟨hshown.1, fun habove' => ?_⟩
      have hle : oldest ≤ id := habove' oldest rfl
      exact (hshown.2 (habove hle)).imp_left (hkept hle)
    · exact fun id hid => h.stored id (hsub hid)
    · intro c hc
      cases hc
      refine ⟨holdest, fun id hid => ?_⟩
      rcases hcut id (hsub hid) with ⟨-, hle⟩ | ⟨hout, -⟩
      · exact hle
      · exact absurd hid hout

/-- The page right above the cursor goes on top of the tail. -/
theorem Window.prepend
    {store : Store} {n c : Nat}
    (h : Window store.rows wire late chat)
    (hc : ∃ row ∈ (store.first n).rows, row.id = c)
    (hcursor : chat.cursor = some c) :
    Window store.rows wire late (prependPage chat ((store.first n).page (some c))) := by
  have hpage := (store.first n).pageOf_page (some c)
  have hheld : ∀ {id}, id ∈ ids (prependPage chat ((store.first n).page (some c))).messages ↔
      id ∈ ids ((store.first n).page (some c)).events ∨ id ∈ ids chat.messages := by
    intro id
    rw [prependPage, ids_append, List.mem_append]
  have hfirst : ∀ {row}, row ∈ (store.first n).rows → row ∈ store.rows :=
    fun hrow => List.mem_of_mem_take hrow
  -- a row above the cursor that the new one reaches is on the page
  have hreach : ∀ row ∈ store.rows,
      Above (prependPage chat ((store.first n).page (some c))) row.id →
        Above chat row.id ∨ row.id ∈ ids ((store.first n).page (some c)).events := by
    intro row hrow habove
    by_cases hlt : row.id < c
    · right
      obtain ⟨other, hother, rfl⟩ := hc
      have hin := Store.mem_first_of_lt hrow hother hlt
      have hbelow : ∀ c ∈ some other.id, row.id < c := fun c hc => Option.some_inj.1 hc ▸ hlt
      cases hnext : ((store.first n).page (some other.id)).cursor with
      | none => exact hpage.whole hnext row hin hbelow
      | some next =>
          refine (hpage.complete row hin hbelow).resolve_right ?_
          rintro ⟨oldest, holdest, hold⟩
          have hsame : oldest = next :=
            Option.some_inj.1 (holdest.symm.trans (hpage.cursor next hnext))
          exact absurd (habove next hnext) (Nat.not_le.2 (hsame ▸ hold))
    · left
      intro c' hc'
      rw [hcursor] at hc'
      cases hc'
      exact Nat.not_lt.1 hlt
  constructor
  · intro row hrow habove
    rw [hheld]
    rcases hreach row hrow habove with hold | hnew
    · exact (h.covered row hrow hold).imp_left Or.inr
    · exact Or.inl (Or.inl hnew)
  · intro id hid
    rcases Finset.mem_union.1 hid with hold | hnew
    · obtain ⟨⟨row, hrow, rfl⟩, hknown⟩ := h.shown id hold
      refine ⟨⟨row, hrow, rfl⟩, fun habove => ?_⟩
      rw [hheld]
      rcases hreach row hrow habove with hup | hpageIn
      · exact (hknown hup).imp_left Or.inr
      · exact Or.inl (Or.inl hpageIn)
    · have hin := List.mem_toFinset.1 hnew
      obtain ⟨row, hrow, hrowId⟩ := (hpage.stored id hin).1
      exact ⟨⟨row, hfirst hrow, hrowId⟩, fun _ => Or.inl (hheld.2 (Or.inl hin))⟩
  · intro id hid
    rcases hheld.1 hid with hin | hin
    · obtain ⟨row, hrow, hrowId⟩ := (hpage.stored id hin).1
      exact ⟨row, hfirst hrow, hrowId⟩
    · exact h.stored id hin
  · intro next hnext
    obtain ⟨hin, hmin⟩ := List.min?_eq_some_iff.1 (hpage.cursor next hnext)
    refine ⟨hheld.2 (Or.inl hin), fun id hid => ?_⟩
    rcases hheld.1 hid with hold | hold
    · exact hmin id hold
    · -- the page is below the old cursor, which is below the rows held
      have hlt := (hpage.stored next hin).2 c rfl
      exact Nat.le_of_lt (Nat.lt_of_lt_of_le hlt ((h.cursor c hcursor).2 id hold))

/-! ### The newest page -/

/-- An id older than all of a page. -/
def Below (page : HistoryPage) (id : Nat) : Prop :=
  ∃ oldest ∈ ((ids page.events).min?).toList, id < oldest

instance (page : HistoryPage) (id : Nat) : Decidable (Below page id) :=
  inferInstanceAs (Decidable (∃ oldest ∈ ((ids page.events).min?).toList, id < oldest))

/-- The rows of the tail after a merge, before it is capped. -/
def merged (chat : ChatState) (page : HistoryPage) : List ChatMessage :=
  (partitionHeld chat (indexPage page)).kept ++ page.events ++
    (partitionHeld chat (indexPage page)).newer

/-- A merge keeps the cursor when the page joins what is held and a page was merged before. -/
def keepsCursor (chat : ChatState) (page : HistoryPage) : Bool :=
  (partitionHeld chat (indexPage page)).joined && chat.historyLoaded

/-- A merge cuts no row off.  One that keeps the cursor brings no row above it, and each row
missed from the cursor on is not older than the page.  One that takes the cursor of the page
keeps no row above the page and leaves no hole up to where the old cursor was.  And a bubble
that the page confirms stands on no id of another row. -/
def SeedFits
    (rows : List StoredRow) (missed : List Nat) (chat : ChatState) (page : HistoryPage) : Prop :=
  ids ((merged chat page).take ((merged chat page).length - maxMessages)) = [] ∧
  if keepsCursor chat page = true then
    (∀ id ∈ ids page.events, Above chat id) ∧
    (∀ id ∈ missed, Above chat id → ¬Below page id) ∧
    ∀ message ∈ chat.messages, placement chat (indexPage page) message = .dropped →
      ∀ id ∈ message.id, id ∈ ids page.events
  else
    (partitionHeld chat (indexPage page)).kept = [] ∧
    (∀ row ∈ rows, ¬Above chat row.id → row.id ∈ ids page.events ∨ Below page row.id) ∧
    ∀ message ∈ chat.messages, placement chat (indexPage page) message = .dropped →
      ∀ id ∈ message.id, id ∈ ids page.events ∨ Below page id

instance (rows : List StoredRow) (missed : List Nat) (chat : ChatState) (page : HistoryPage) :
    Decidable (SeedFits rows missed chat page) :=
  have (message : ChatMessage) := decidableOption message.id fun id => id ∈ ids page.events
  have (message : ChatMessage) := decidableOption message.id fun id =>
    id ∈ ids page.events ∨ Below page id
  inferInstanceAs (Decidable (_ ∧ ite _ (_ ∧ _ ∧ _) (_ ∧ _ ∧ _)))

section Seed

variable {page : HistoryPage}

theorem below_iff {id : Nat} :
    Below page id ↔ (indexPage page).oldestPageId.any (id < ·) = true := by
  rw [Below, indexPage]
  cases (ids page.events).min? <;> simp

theorem ids_seedTail
    (h : ids ((merged chat page).take ((merged chat page).length - maxMessages)) = []) :
    ids (seedTail chat page).messages = ids (merged chat page) := by
  have hsplit : ids (merged chat page) =
      ids ((merged chat page).take ((merged chat page).length - maxMessages)) ++
        ids ((merged chat page).drop ((merged chat page).length - maxMessages)) := by
    rw [← ids_append, List.take_append_drop]
  rw [hsplit, h, List.nil_append, ← capTail_eq_drop]
  rfl

theorem mem_ids_merged {id : Nat} :
    id ∈ ids (merged chat page) ↔
      id ∈ ids (partitionHeld chat (indexPage page)).kept ∨ id ∈ ids page.events ∨
        id ∈ ids (partitionHeld chat (indexPage page)).newer := by
  rw [merged, ids_append, ids_append, List.mem_append, List.mem_append, or_assoc]

/-- Where a held row with an id goes. -/
theorem held_cases
    (page : HistoryPage)
    {message : ChatMessage} {id : Nat}
    (hmem : message ∈ chat.messages)
    (hid : message.id = some id) :
    placement chat (indexPage page) message = .dropped ∨ id ∈ ids page.events ∨
      (Below page id ∧ message ∈ (partitionHeld chat (indexPage page)).older) ∨
        (¬Below page id ∧ message ∈ (partitionHeld chat (indexPage page)).newer) := by
  cases hplace : placement chat (indexPage page) message with
  | dropped => exact Or.inl rfl
  | overlapping =>
      right; left
      rw [placement, hid] at hplace
      split at hplace
      · cases hplace
      · simp only [] at hplace
        split at hplace
        · rename_i hpage
          exact List.mem_toFinset.1 hpage
        · split at hplace <;> cases hplace
  | older =>
      right; right; left
      exact ⟨below_iff.2 ((placement_of_id hid).1 hplace).2,
        List.mem_filter.2 ⟨hmem, decide_eq_true hplace⟩⟩
  | newer =>
      right; right; right
      refine ⟨fun hbelow => ?_, List.mem_filter.2 ⟨hmem, decide_eq_true hplace⟩⟩
      have hnot := ((placement_of_id hid).2 hplace).2
      rw [below_iff.1 hbelow] at hnot
      cases hnot

theorem mem_stillMissed
    {missed : List Nat} {id : Nat}
    (hmissed : id ∈ missed)
    (hpage : id ∉ ids page.events)
    (hbelow : ¬Below page id) :
    id ∈ stillMissed page missed := by
  refine List.mem_filter.2 ⟨hmissed, decide_eq_true ⟨hpage, fun oldest holdest => ?_⟩⟩
  exact Nat.not_lt.1 fun hlt => hbelow ⟨oldest, holdest, hlt⟩

/-- A merge that keeps the cursor. -/
theorem Window.seed_join
    {queue missed : List Nat}
    (h : Window rows wire (queue ++ missed) chat)
    (hstored : ∀ id ∈ ids page.events, ∃ row ∈ rows, row.id = id)
    (hkeeps : keepsCursor chat page = true)
    (hfits : SeedFits rows missed chat page) :
    Window rows wire (queue ++ stillMissed page missed) (seedTail chat page) := by
  obtain ⟨huncut, hfits⟩ := hfits
  rw [if_pos hkeeps] at hfits
  obtain ⟨hpageAbove, hmissed, hdropped⟩ := hfits
  have hjoined : (partitionHeld chat (indexPage page)).joined = true :=
    (Bool.and_eq_true_iff.1 hkeeps).1
  have hkept : (partitionHeld chat (indexPage page)).kept =
      (partitionHeld chat (indexPage page)).older := by
    rw [HeldRows.kept, if_pos hjoined]
  have hheld : ∀ {id}, id ∈ ids (seedTail chat page).messages ↔ id ∈ ids (merged chat page) := by
    intro id
    rw [ids_seedTail huncut]
  have hpageIn : ∀ {id}, id ∈ ids page.events → id ∈ ids (seedTail chat page).messages :=
    fun hmem => hheld.2 (mem_ids_merged.2 (Or.inr (Or.inl hmem)))
  refine h.update ?_ ?_ ?_ ?_ (fun id hmem _ => Or.inr (Or.inr hmem)) ?_
  · exact if_pos hkeeps
  · intro id hid
    obtain ⟨message, hmem, hmessage⟩ := mem_ids.1 hid
    rcases held_cases page hmem hmessage with hdrop | hpage | ⟨-, hold⟩ | ⟨-, hnew⟩
    · exact hpageIn (hdropped message hmem hdrop id hmessage)
    · exact hpageIn hpage
    · exact hheld.2 (mem_ids_merged.2 (Or.inl (hkept ▸ mem_ids.2 ⟨message, hold, hmessage⟩)))
    · exact hheld.2 (mem_ids_merged.2 (Or.inr (Or.inr (mem_ids.2 ⟨message, hnew, hmessage⟩))))
  · intro id hid
    rcases mem_ids_merged.1 (hheld.1 hid) with hold | hpage | hnew
    · exact Or.inl ((ids_sublist (kept_sublist chat _)).subset hold)
    · exact Or.inr ⟨hstored id hpage, hpageAbove id hpage⟩
    · exact Or.inl ((ids_sublist List.filter_sublist).subset hnew)
  · intro id hid habove
    by_cases hpage : id ∈ ids page.events
    · exact Or.inl (hpageIn hpage)
    · right
      rcases List.mem_append.1 hid with hqueue | hmiss
      · exact List.mem_append_left _ hqueue
      · exact List.mem_append_right _
          (mem_stillMissed hmiss hpage (hmissed id hmiss habove))
  · intro id hid
    rcases Finset.mem_union.1 hid with hold | hpage
    · exact Or.inl hold
    · have hpage := List.mem_toFinset.1 hpage
      exact Or.inr ⟨hstored id hpage, fun _ => Or.inl (hpageIn hpage)⟩

/-- A merge that takes the cursor of the page. -/
theorem Window.seed_restart
    {store : Store} {n : Nat} {queue missed : List Nat}
    (h : Window store.rows wire (queue ++ missed) chat)
    (hpage : PageOf (store.first n).rows none page)
    (hkeeps : keepsCursor chat page = false)
    (hfits : SeedFits store.rows missed chat page) :
    Window store.rows wire (queue ++ stillMissed page missed) (seedTail chat page) := by
  obtain ⟨huncut, hfits⟩ := hfits
  rw [hkeeps, if_neg Bool.false_ne_true] at hfits
  obtain ⟨hkept, hgap, hdropped⟩ := hfits
  have hcursor : (seedTail chat page).cursor = page.cursor :=
    if_neg (by rw [← keepsCursor, hkeeps]; exact Bool.false_ne_true)
  have hheld : ∀ {id}, id ∈ ids (seedTail chat page).messages ↔
      id ∈ ids page.events ∨ id ∈ ids (partitionHeld chat (indexPage page)).newer := by
    intro id
    rw [ids_seedTail huncut, mem_ids_merged, hkept]
    exact or_iff_right List.not_mem_nil
  -- a row from the new cursor on is on the page or was from the old one on
  have hbase : ∀ row ∈ store.rows, Above (seedTail chat page) row.id →
      row.id ∈ ids page.events ∨ (Above chat row.id ∧ ¬Below page row.id) := by
    intro row hrow habove
    by_cases hbelow : Below page row.id
    · left
      obtain ⟨oldest, holdest, hlt⟩ := hbelow
      have hmin : (ids page.events).min? = some oldest := Option.mem_toList.1 holdest
      obtain ⟨other, hother, rfl⟩ :=
        (hpage.stored oldest (List.min?_eq_some_iff.1 hmin).1).1
      have hin := Store.mem_first_of_lt hrow hother hlt
      cases hnext : page.cursor with
      | none => exact hpage.whole hnext row hin fun c hc => nomatch hc
      | some next =>
          have hsame : other.id = next :=
            Option.some_inj.1 (hmin.symm.trans (hpage.cursor next hnext))
          have hle : next ≤ row.id := habove next (hcursor.trans hnext)
          exact absurd hle (Nat.not_le.2 (hsame ▸ hlt))
    · by_cases hup : Above chat row.id
      · exact Or.inr ⟨hup, hbelow⟩
      · exact Or.inl ((hgap row hrow hup).resolve_right hbelow)
  have hstay : ∀ {id}, id ∈ ids chat.messages → ¬Below page id →
      id ∈ ids (seedTail chat page).messages := by
    intro id hid hbelow
    obtain ⟨message, hmem, hmessage⟩ := mem_ids.1 hid
    rw [hheld]
    rcases held_cases page hmem hmessage with hdrop | hin | ⟨hold, -⟩ | ⟨-, hnew⟩
    · exact Or.inl ((hdropped message hmem hdrop id hmessage).resolve_right hbelow)
    · exact Or.inl hin
    · exact absurd hold hbelow
    · exact Or.inr (mem_ids.2 ⟨message, hnew, hmessage⟩)
  have hlate : ∀ {id}, id ∈ queue ++ missed → ¬Below page id →
      id ∈ ids (seedTail chat page).messages ∨ id ∈ queue ++ stillMissed page missed := by
    intro id hid hbelow
    by_cases hin : id ∈ ids page.events
    · exact Or.inl (hheld.2 (Or.inl hin))
    · right
      rcases List.mem_append.1 hid with hqueue | hmiss
      · exact List.mem_append_left _ hqueue
      · exact List.mem_append_right _ (mem_stillMissed hmiss hin hbelow)
  have hpageStored : ∀ id ∈ ids page.events, ∃ row ∈ store.rows, row.id = id := by
    intro id hid
    obtain ⟨row, hrow, hrowId⟩ := (hpage.stored id hid).1
    exact ⟨row, List.mem_of_mem_take hrow, hrowId⟩
  constructor
  · intro row hrow habove
    rcases hbase row hrow habove with hin | ⟨hup, hbelow⟩
    · exact Or.inl (hheld.2 (Or.inl hin))
    · rcases h.covered row hrow hup with hmem | hmem | hmem
      · exact Or.inl (hstay hmem hbelow)
      · exact (hlate hmem hbelow).imp_right Or.inl
      · exact Or.inr (Or.inr hmem)
  · intro id hid
    rcases Finset.mem_union.1 hid with hold | hnew
    · obtain ⟨⟨row, hrow, rfl⟩, hknown⟩ := h.shown id hold
      refine ⟨⟨row, hrow, rfl⟩, fun habove => ?_⟩
      rcases hbase row hrow habove with hin | ⟨hup, hbelow⟩
      · exact Or.inl (hheld.2 (Or.inl hin))
      · rcases hknown hup with hmem | hmem
        · exact Or.inl (hstay hmem hbelow)
        · exact hlate hmem hbelow
    · have hin := List.mem_toFinset.1 hnew
      exact ⟨hpageStored id hin, fun _ => Or.inl (hheld.2 (Or.inl hin))⟩
  · intro id hid
    rcases hheld.1 hid with hin | hin
    · exact hpageStored id hin
    · exact h.stored id ((ids_sublist List.filter_sublist).subset hin)
  · intro next hnext
    rw [hcursor] at hnext
    obtain ⟨hin, hmin⟩ := List.min?_eq_some_iff.1 (hpage.cursor next hnext)
    refine ⟨hheld.2 (Or.inl hin), fun id hid => ?_⟩
    rcases hheld.1 hid with hold | hnewer
    · exact hmin id hold
    · obtain ⟨message, hmem, hmessage⟩ := mem_ids.1 hnewer
      have hnot := ((placement_of_id hmessage).2
        (of_decide_eq_true (List.mem_filter.1 hmem).2)).2
      refine Nat.not_lt.1 fun hlt => ?_
      rw [below_iff.1 ⟨next, Option.mem_toList.2 (hpage.cursor next hnext), hlt⟩] at hnot
      cases hnot

end Seed

end Fold

end Network
end Chat
end Core
end Vesta
