import Vesta.Core.Chat.StreamModel
import Vesta.Lib.Machine
import Mathlib.Data.List.Count

/-!
# One row for each server id

A row of the store comes to a client over the live socket, any number of times,
and on pages of the history.  Four folds put rows into the tail or change their
ids.  Two of them check the rows that are held: the merge of the newest page and
the commit of a paced reply.  The other two trust something else.  The fold of a
live event trusts the set of shown ids, and the confirmation of a bubble the
intent alone.  A page of older history is put above the tail unchecked.

`NoTwin` says when such a step meets no second row on the same id, and
`rows_unique_iff` that these are exactly the runs without twins.
-/

namespace Vesta
namespace Core
namespace Chat

open Lib

/-- No two rows carry the same server id. -/
def RowsUnique (state : ChatState) : Prop :=
  (ids state.messages).Nodup

instance (state : ChatState) : Decidable (RowsUnique state) :=
  inferInstanceAs (Decidable (ids state.messages).Nodup)

/-- At most one row carries the intent of an echo or its id: these are the rows that stand on
its id once it is folded. -/
def EchoFits (messages : List ChatMessage) (event : ChatMessage) (intentId : String) : Prop :=
  ∀ id ∈ event.id,
    (messages.countP fun message =>
      decide (message.intentId = some intentId ∨ message.id = some id)) ≤ 1

/-- None of the rows that an append leaves in the tail carries the id of the new one. -/
def AppendFits (messages : List ChatMessage) (event : ChatMessage) : Prop :=
  ∀ id ∈ event.id, id ∉ ids (messages.drop (messages.length + 1 - maxMessages))

/-- A live event meets no row on its id that the set of shown ids does not know. -/
def LiveFits (state : ChatState) (event : ChatMessage) : Prop :=
  match state.confirmedBy event with
  | some intentId => EchoFits state.messages event intentId
  | none =>
      state.ignores event = true ∨ event.isChat = true ∨ AppendFits state.messages event

/-- A step that meets no second row on an id it puts into the tail. -/
def NoTwin (state : ChatState) : Operation → Prop
  | .foldLiveEvent event => LiveFits state event.message
  | .prependPage page => ∀ id ∈ ids page.events, id ∉ ids state.messages
  | _ => True

/-- The model as a machine: any operation with any input may come next. -/
def machine : Machine ChatState Operation where
  start := fun state => state = initialChatState
  step := fun state operation => some (state.apply operation)

section Steps

variable {state : ChatState} {event : ChatMessage}

theorem ids_concat (messages : List ChatMessage) :
    ids (messages ++ [event]) = ids messages ++ event.id.toList := by
  rw [ids_append]
  cases hid : event.id <;> simp [ids, hid]

/-- A row put behind others leaves the ids apart exactly when its own is not among them. -/
theorem nodup_concat_iff
    {messages : List ChatMessage}
    (h : (ids messages).Nodup) :
    (ids (messages ++ [event])).Nodup ↔ ∀ id ∈ event.id, id ∉ ids messages := by
  rw [ids_concat, List.nodup_append]
  constructor
  · rintro ⟨_, _, hne⟩ id hid hmem
    exact hne id hmem id (Option.mem_toList.2 hid) rfl
  · intro hfresh
    refine ⟨h, ?_, ?_⟩
    · cases event.id <;> simp
    · rintro a ha b hb rfl
      exact hfresh a (Option.mem_toList.1 hb) ha

theorem rowsUnique_append_iff
    (h : RowsUnique state) :
    RowsUnique (state.append event) ↔ AppendFits state.messages event := by
  rw [RowsUnique, messages_append]
  exact nodup_concat_iff (h.sublist (ids_sublist (List.drop_sublist _ _)))

theorem count_ids (id : Nat) (messages : List ChatMessage) :
    (ids messages).count id = messages.countP fun message => message.id == some id := by
  rw [ids, List.count_filterMap]

/-- An echo leaves the ids apart exactly when one row at most ends up on its id. -/
theorem nodup_confirm_iff
    {messages : List ChatMessage} {intentId : String}
    (h : (ids messages).Nodup) :
    (ids (messages.map (confirm event intentId))).Nodup ↔ EchoFits messages event intentId := by
  rw [List.nodup_iff_count_le_one] at h ⊢
  have hcount : ∀ id, (ids (messages.map (confirm event intentId))).count id =
      messages.countP fun message => (confirm event intentId message).id == some id := by
    intro id
    rw [count_ids, List.countP_map]
    rfl
  have hecho : ∀ id ∈ event.id, (ids (messages.map (confirm event intentId))).count id =
      messages.countP fun message =>
        decide (message.intentId = some intentId ∨ message.id = some id) := by
    intro id hid
    rw [hcount]
    refine List.countP_congr fun message _ => ?_
    rw [id_confirm, Option.mem_def.1 hid]
    by_cases hintent : message.intentId = some intentId <;> simp [hintent]
  constructor
  · intro hunique id hid
    rw [← hecho id hid]
    exact hunique id
  · intro hfits id
    by_cases hid : id ∈ event.id
    · rw [hecho id hid]
      exact hfits id hid
    · -- any other id stays on the rows that have it
      refine Nat.le_trans ?_ (h id)
      rw [hcount, count_ids]
      refine List.countP_mono_left fun message _ => ?_
      rw [id_confirm]
      cases hevent : event.id with
      | none => simp
      | some other =>
          have hother : other ≠ id := fun heq => hid (heq ▸ hevent)
          by_cases hintent : message.intentId = some intentId <;> simp [hintent, hother]

/-- The merge of the newest page: the rows that stay above it and below it are on none of
its ids, and on other sides of its oldest. -/
theorem rowsUnique_seedTail
    (h : RowsUnique state)
    (page : HistoryPage) :
    RowsUnique (seedTail state page) := by
  have hkept : (ids (partitionHeld state (indexPage page)).kept).Nodup :=
    h.sublist (ids_sublist (kept_sublist state _))
  have hnewer : (ids (partitionHeld state (indexPage page)).newer).Nodup :=
    h.sublist (ids_sublist List.filter_sublist)
  have hkeptPlace : ∀ id ∈ ids (partitionHeld state (indexPage page)).kept,
      id ∉ ids page.events ∧ (indexPage page).oldestPageId.any (id < ·) = true := by
    intro id hid
    obtain ⟨message, hmem, hmessage⟩ := mem_ids.1 hid
    have hplace := (placement_of_id hmessage).1 (placement_of_mem_kept hmem)
    exact ⟨fun hpage => hplace.1 (List.mem_toFinset.2 hpage), hplace.2⟩
  have hnewerPlace : ∀ id ∈ ids (partitionHeld state (indexPage page)).newer,
      id ∉ ids page.events ∧ (indexPage page).oldestPageId.any (id < ·) = false := by
    intro id hid
    obtain ⟨message, hmem, hmessage⟩ := mem_ids.1 hid
    have hnew := of_decide_eq_true (List.mem_filter.1 hmem).2
    have hplace := (placement_of_id hmessage).2 hnew
    exact ⟨fun hpage => hplace.1 (List.mem_toFinset.2 hpage), hplace.2⟩
  refine List.Nodup.sublist (ids_sublist ((capTail_eq_drop _) ▸ List.drop_sublist _ _)) ?_
  rw [ids_append, ids_append, List.nodup_append, List.nodup_append]
  refine ⟨⟨hkept, page.distinct, ?_⟩, hnewer, ?_⟩
  · rintro a ha b hb rfl
    exact (hkeptPlace a ha).1 hb
  · rintro a ha b hb rfl
    rcases List.mem_append.1 ha with ha | ha
    · have hold := (hkeptPlace a ha).2
      rw [(hnewerPlace a hb).2] at hold
      cases hold
    · exact (hnewerPlace a hb).1 ha

theorem rowsUnique_foldLiveEvent_iff
    (h : RowsUnique state) :
    RowsUnique (foldLiveEvent state event).1 ↔ LiveFits state event := by
  rw [LiveFits]
  rcases foldLiveEvent_cases state event with ⟨intentId, hconfirmed, hfold⟩ |
    ⟨hconfirmed, hignored, hfold⟩ | ⟨hconfirmed, _, hchat, hfold⟩ |
    ⟨hconfirmed, hignored, hchat, hfold⟩
  · rw [hfold, hconfirmed]
    exact nodup_confirm_iff h
  · rw [hfold, hconfirmed]
    exact iff_of_true h (Or.inl hignored)
  · rw [hfold, hconfirmed]
    exact iff_of_true h (Or.inr (Or.inl hchat))
  · rw [hfold, hconfirmed, rowsUnique_append_iff (show RowsUnique (state.shown event) from h)]
    simp [hignored, hchat, ChatState.shown]

/-- A paced reply is put behind rows none of which carries its id. -/
theorem rowsUnique_commitPacedChat
    (h : RowsUnique state) :
    RowsUnique (commitPacedChat state event) := by
  rcases commitPacedChat_cases state event with ⟨-, hcommit⟩ | ⟨hfresh, hcommit⟩
  · rw [hcommit]
    exact h
  · rw [hcommit, rowsUnique_append_iff h]
    exact fun id hid hmem =>
      hfresh id hid ((ids_sublist (List.drop_sublist _ _)).subset hmem)

theorem rowsUnique_prependPage_iff
    (h : RowsUnique state)
    (page : HistoryPage) :
    RowsUnique (prependPage state page) ↔ ∀ id ∈ ids page.events, id ∉ ids state.messages := by
  rw [RowsUnique, prependPage, ids_append, List.nodup_append]
  constructor
  · rintro ⟨_, _, hne⟩ id hpage hheld
    exact hne id hpage id hheld rfl
  · intro hfresh
    refine ⟨page.distinct, h, ?_⟩
    rintro a ha b hb rfl
    exact hfresh a ha hb

/-- A step keeps the ids apart exactly when it meets no twin. -/
theorem rowsUnique_apply_iff
    (h : RowsUnique state)
    (operation : Operation) :
    RowsUnique (state.apply operation) ↔ NoTwin state operation := by
  cases operation with
  | seedTail page => exact iff_of_true (rowsUnique_seedTail h page) trivial
  | foldLiveEvent event => exact rowsUnique_foldLiveEvent_iff h
  | commitPacedChat event => exact iff_of_true (rowsUnique_commitPacedChat h) trivial
  | beginSend text inputMethod intentId attachments now =>
      refine iff_of_true ?_ trivial
      have hpending :
          RowsUnique { state with pendingIntents := insert intentId state.pendingIntents } := h
      exact (rowsUnique_append_iff hpending).2 fun id hid => absurd hid (Option.not_mem_none id)
  | markSend intentId send =>
      refine iff_of_true ?_ trivial
      exact (congrArg List.Nodup (ids_markSend state intentId (some send))).mpr h
  | trimTail keep =>
      exact iff_of_true (h.sublist (ids_sublist (trimTail_suffix state keep).sublist)) trivial
  | prependPage page => exact rowsUnique_prependPage_iff h page

end Steps

/-- On a run the rows of the tail always carry ids of their own if and only if no step of it
meets a twin of a row it puts there. -/
theorem rows_unique_iff (run : List Operation) :
    machine.Admits (fun state operation => ∀ next ∈ machine.step state operation,
        RowsUnique next) initialChatState run ↔
      machine.Admits NoTwin initialChatState run := by
  refine machine.admits_iff_invariant ?_ (fun _ _ _ hstuck => nomatch hstuck) run List.nodup_nil
  rintro state operation next h hstep
  cases hstep
  exact rowsUnique_apply_iff h operation

/-- A message is sent, a row from another device comes before its echo, and 98 rows later the
tail is trimmed: the cut falls between the two.  Then the user scrolls up. -/
def overtakenRun : List Operation :=
  [.seedTail ⟨[sentRow 1 none], none, by decide, by decide⟩,
    .beginSend "hello" .typed "send-1" none "",
    .foldLiveEvent ⟨sentRow 2 none, rfl⟩,
    .foldLiveEvent ⟨sentRow 3 (some "send-1"), rfl⟩] ++
  (List.range 98).map (fun i => .foldLiveEvent ⟨sentRow (i + 4) none, rfl⟩) ++
  [.trimTail trimHistoryKeep,
    .prependPage ⟨[sentRow 1 none, sentRow 2 none], none, by decide, by decide⟩]

/-- The page below the cursor brings back a row that the trim kept. -/
theorem rows_not_unique :
    ¬∀ state, machine.Reaches Machine.always state → RowsUnique state := by
  intro hall
  have hstart : machine.Reaches Machine.always initialChatState := .start rfl
  have hreach := hstart.runTo overtakenRun (Machine.admits_always _ _ _) (by decide +kernel)
  exact absurd (hall _ hreach) (by decide +kernel)

end Chat
end Core
end Vesta
