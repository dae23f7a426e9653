import Vesta.Lib.Program
import Vesta.Moneypot.Pot

/-!
# Nets and the settle-up

The net of a member is what the member paid less what the member's shares are.  The
settle-up pairs the debtor who owes most with the creditor who is owed most, lets the debtor
pay as much as both allow, and goes on with whichever of the two is not square yet.

An expense adds its amount to one net and takes its shares from others, so the nets sum to
zero as long as the shares sum to the amount.  While they do, the open debts are the open
credits, and the last payment squares two members at once.
-/

namespace Vesta
namespace Moneypot

open Lib
open Agent (strip)

section Nets

variable {Rate : Type}

/-- `dict.fromkeys(members, 0)` -/
def fromKeys (members : List Text) : Dict Text Int :=
  members.foldl (fun nets member => nets.put member 0) ⟨[], List.nodup_nil⟩

def Entry.apply (nets : Dict Text Int) : Entry Rate → Dict Text Int
  | .expense e =>
      e.split.entries.foldl (fun nets entry => Tally.add entry.1 (-entry.2) nets)
        (Tally.add e.payer e.amount nets)
  | .transfer t => Tally.add t.recipient (-t.amount) (Tally.add t.sender t.amount nets)

/-- Net per member: positive is owed, negative owes. -/
def computeNets (pot : Pot Rate) : Dict Text Int :=
  pot.entries.foldl Entry.apply (fromKeys pot.members)

end Nets

/-! ## The settle-up -/

structure Payment where
  debtor : Text
  creditor : Text
  cents : Int
deriving DecidableEq

/-- The nets after a payment. -/
def Payment.apply (nets : Dict Text Int) (payment : Payment) : Dict Text Int :=
  Tally.add payment.creditor (-payment.cents) (Tally.add payment.debtor payment.cents nets)

/-- The nets after all payments. -/
def payAll (nets : Dict Text Int) (payments : List Payment) : Dict Text Int :=
  payments.foldl Payment.apply nets

/-- The loop of the settle-up over the debtors and creditors that are left. -/
def settleLoop : Nat → List Text → List Text → Dict Text Int → Option (List Payment)
  | _, [], _, _ => some []
  | _, _ :: _, [], _ => some []
  | 0, _ :: _, _ :: _, _ => none
  | fuel + 1, d :: debtors, c :: creditors, rem =>
      let pay := min (-Tally.amount rem d) (Tally.amount rem c)
      let payment := ⟨d, c, pay⟩
      let rem := payment.apply rem
      let debtors := if Tally.amount rem d = 0 then debtors else d :: debtors
      let creditors := if Tally.amount rem c = 0 then creditors else c :: creditors
      (settleLoop fuel debtors creditors rem).map fun payments =>
        if 0 < pay then payment :: payments else payments

/-- The members with a positive net, the greatest first. -/
def creditors (nets : Dict Text Int) : List Text :=
  ((nets.entries.filter fun entry => 0 < entry.2).map Prod.fst).mergeSort fun a b =>
    Tally.amount nets b ≤ Tally.amount nets a

/-- The members with a negative net, the least first. -/
def debtors (nets : Dict Text Int) : List Text :=
  ((nets.entries.filter fun entry => entry.2 < 0).map Prod.fst).mergeSort fun a b =>
    Tally.amount nets a ≤ Tally.amount nets b

/-- Greedy settle-up; each turn of the loop squares a debtor or a creditor. -/
def settleUp (nets : Dict Text Int) : Option (List Payment) :=
  settleLoop ((debtors nets).length + (creditors nets).length) (debtors nets) (creditors nets) nets

/-! ## Splits sum to the total -/

theorem total_foldl_put
    (share : Nat → Int)
    {members : List Text} {split : Dict Text Int} {n : Nat}
    (hnodup : members.Nodup)
    (hfresh : ∀ member ∈ members, member ∉ split.keys) :
    Tally.total ((members.zipIdx n).foldl
        (fun split entry => split.put entry.1 (share entry.2)) split) =
      Tally.total split + sumOver share (List.range' n members.length) := by
  induction members generalizing split n with
  | nil => simp [sumOver]
  | cons member members ih =>
      obtain ⟨hother, hnodup⟩ := List.nodup_cons.1 hnodup
      have hmember := hfresh member List.mem_cons_self
      rw [List.zipIdx_cons, List.foldl_cons, ih hnodup, Tally.total_put,
        Tally.amount_eq_zero_of_not_mem hmember, List.length_cons, List.range'_succ, sumOver]
      · rw [sub_zero, add_assoc]
      · intro other hmem hkeys
        rw [Dict.keys_put, if_neg hmember, List.mem_append, List.mem_singleton] at hkeys
        rcases hkeys with hkeys | rfl
        · exact hfresh other (List.mem_cons_of_mem _ hmem) hkeys
        · exact hother hmem

theorem keys_foldl_put
    (share : Nat → Int)
    {members : List Text} {split : Dict Text Int} {n : Nat} {name : Text}
    (h : name ∈ ((members.zipIdx n).foldl
        (fun split entry => split.put entry.1 (share entry.2)) split).keys) :
    name ∈ split.keys ∨ name ∈ members := by
  induction members generalizing split n with
  | nil => exact Or.inl h
  | cons member members ih =>
      rw [List.zipIdx_cons, List.foldl_cons] at h
      rcases ih h with h | h
      · rw [Dict.keys_put] at h
        split at h
        · exact Or.inl h
        · rcases List.mem_append.1 h with h | h
          · exact Or.inl h
          · exact Or.inr (List.mem_singleton.1 h ▸ List.mem_cons_self)
      · exact Or.inr (List.mem_cons_of_mem _ h)

/-- The first members, as many as pennies are left over, get one more. -/
theorem sumOver_equal_shares (base rem : Int) (n : Nat) :
    sumOver (fun i : Nat => base + if (i : Int) < rem then 1 else 0) (List.range' 0 n) =
      n * base + max 0 (min rem n) := by
  induction n with
  | zero => simp [sumOver]
  | succ n ih =>
      rw [List.range'_concat, sumOver_append, ih]
      have hlast : (0 : Nat) + 1 * n = n := by omega
      simp only [hlast, sumOver]
      push_cast
      rw [add_mul]
      split
      · omega
      · omega

theorem total_splitEqual
    {members : List Text}
    (hnodup : members.Nodup)
    (hne : members ≠ [])
    (total : Int) :
    Tally.total (splitEqual total members) = total := by
  have hlength : (0 : Int) < members.length := by
    have := List.length_pos_iff.2 hne
    omega
  have hrem := Int.emod_nonneg total hlength.ne'
  have hless := Int.emod_lt_of_pos total hlength
  have hsplit := Int.mul_ediv_add_emod total members.length
  rw [splitEqual, shares, total_foldl_put (fun i => total / members.length +
    if (i : Int) < total % members.length then 1 else 0) hnodup (by simp [Dict.keys]),
    sumOver_equal_shares]
  simp only [Tally.total, sumOver]
  omega

theorem exists_foldl_greater (entries : List (Text × Int)) (best : Text × Int) :
    ∃ entry ∈ best :: entries, entries.foldl greater (some best) = some entry := by
  induction entries generalizing best with
  | nil => exact ⟨best, List.mem_cons_self, rfl⟩
  | cons next entries ih =>
      rw [List.foldl_cons, greater]
      split
      · obtain ⟨entry, hentry, heq⟩ := ih next
        exact ⟨entry, List.mem_cons_of_mem _ hentry, heq⟩
      · obtain ⟨entry, hentry, heq⟩ := ih best
        refine ⟨entry, ?_, heq⟩
        rcases List.mem_cons.1 hentry with rfl | hentry
        · exact List.mem_cons_self
        · exact List.mem_cons_of_mem _ (List.mem_cons_of_mem _ hentry)

/-- A split that is not empty has a member with the greatest share. -/
theorem exists_biggest
    {split : Dict Text Int}
    (h : split.keys ≠ []) :
    ∃ member ∈ split.keys, biggest split = some member := by
  obtain ⟨entries, hnodup⟩ := split
  cases entries with
  | nil => exact absurd rfl h
  | cons first entries =>
      obtain ⟨entry, hentry, heq⟩ := exists_foldl_greater entries first
      refine ⟨entry.1, List.mem_map_of_mem hentry, ?_⟩
      rw [biggest, List.foldl_cons, greater, heq]
      rfl

/-- The shares of an amount among some members: they sum to it. -/
structure Shares (members : List Text) (amount : Int) (split : Dict Text Int) : Prop where
  total : Tally.total split = amount
  keys : ∀ name ∈ split.keys, name ∈ members

theorem shares_splitEqual
    {members all : List Text}
    (hnodup : members.Nodup)
    (hne : members ≠ [])
    (hsub : ∀ name ∈ members, name ∈ all)
    (total : Int) :
    Shares all total (splitEqual total members) where
  total := total_splitEqual hnodup hne total
  keys name hname := by
    rcases keys_foldl_put (fun i => total / members.length +
        if (i : Int) < total % members.length then 1 else 0) hname with hname | hname
    · cases hname
    · exact hsub name hname

section Splits

variable {Rate : Type} {P : Platform Rate}

theorem shares_subsetSplit
    {members forList : List Text} {total : Int} {split : Dict Text Int}
    (h : subsetSplit members total forList = .ok split) :
    Shares members total split := by
  rw [subsetSplit] at h
  split at h
  · cases h
  · rename_i hne
    split at h
    · cases h
    · rename_i hnodup
      split at h
      · cases h
      · rename_i hmembers
        cases h
        refine shares_splitEqual (nodup_iff_hasDuplicates.2 (by simpa using hnodup)) ?_ ?_ total
        · rintro rfl
          exact hne rfl
        · intro name hname
          simpa using List.find?_eq_none.1 hmembers name hname

/-- The names of a custom split are members, and there is one if the request names one. -/
theorem keys_originalShares
    {members : List Text} {splitMap : List (Text × Text)} {split origShares : Dict Text Int}
    (h : originalShares P members split splitMap = .ok origShares)
    (hsplit : ∀ name ∈ split.keys, name ∈ members) :
    (∀ name ∈ origShares.keys, name ∈ members) ∧
      (split.keys ≠ [] ∨ splitMap ≠ [] → origShares.keys ≠ []) := by
  induction splitMap generalizing split with
  | nil =>
      cases h
      exact ⟨hsplit, by simp⟩
  | cons part rest ih =>
      rw [originalShares] at h
      split at h
      · rename_i hname
        split at h
        · cases h
        · rename_i cents _
          have hkeys := Dict.keys_put (strip part.1) cents split
          obtain ⟨hmembers, hsome⟩ := ih h (by
            intro name hmem
            rw [hkeys] at hmem
            split at hmem
            · exact hsplit name hmem
            · rcases List.mem_append.1 hmem with hmem | hmem
              · exact hsplit name hmem
              · rw [List.mem_singleton.1 hmem]
                simpa using hname)
          refine ⟨hmembers, fun _ => hsome (Or.inl ?_)⟩
          rw [hkeys]
          split
          · rename_i hmem
            exact List.ne_nil_of_mem hmem
          · simp
      · cases h

theorem shares_customSplit
    {members : List Text} {origTotal baseTotal : Int} {rate : Rate} {currency : Text}
    {splitMap : List (Text × Text)} {split : Dict Text Int}
    (h : customSplit P members origTotal baseTotal rate currency splitMap = .ok split) :
    Shares members baseTotal split := by
  rw [customSplit] at h
  split at h
  · cases h
  · rename_i hne
    split at h
    · cases h
    · rename_i origShares horig
      split at h
      · obtain ⟨hmembers, hsome⟩ := keys_originalShares horig (by simp [Dict.keys])
        have hkeys : origShares.keys ≠ [] := hsome (Or.inr (by simpa using hne))
        simp only at h
        split at h
        · rename_i hdrift
          cases h
          exact ⟨by omega, by simpa using hmembers⟩
        · have hkeys' : (origShares.modify fun _ cents => P.convert cents rate).keys ≠ [] := by
            simpa using hkeys
          obtain ⟨member, hmember, hbiggest⟩ := exists_biggest hkeys'
          rw [hbiggest] at h
          cases h
          refine ⟨?_, ?_⟩
          · rw [Tally.total_add]
            omega
          · rw [Tally.keys_add_of_mem hmember]
            simpa using hmembers
      · cases h

theorem shares_resolveSplit
    {members : List Text} {origTotal baseTotal : Int} {rate : Rate} {currency : Text}
    {forList : Option (List Text)} {splitMap : Option (List (Text × Text))}
    {split : Dict Text Int}
    (hnodup : members.Nodup)
    (hne : members ≠ [])
    (h : resolveSplit P members origTotal baseTotal rate currency forList splitMap = .ok split) :
    Shares members baseTotal split := by
  cases splitMap with
  | some splitMap => exact shares_customSplit h
  | none =>
      cases forList with
      | some forList => exact shares_subsetSplit h
      | none =>
          cases h
          exact shares_splitEqual hnodup hne (fun _ hname => hname) baseTotal

end Splits

/-! ## What every reachable pot keeps -/

section Kept

variable {Rate : Type}

/-- An entry among the members of its pot. -/
inductive EntrySound (members : List Text) : Entry Rate → Prop
  | expense {e : Expense Rate} :
      e.payer ∈ members →
      Shares members e.amount e.split →
      EntrySound members (.expense e)
  | transfer {t : Transfer Rate} :
      t.sender ∈ members →
      t.recipient ∈ members →
      EntrySound members (.transfer t)

structure PotSound (pot : Pot Rate) : Prop where
  nodup : pot.members.Nodup
  nonempty : pot.members ≠ []
  entries : ∀ entry ∈ pot.entries, EntrySound pot.members entry

/-- Every pot is sound. -/
def Sound (data : Data Rate) : Prop := ∀ id pot, data.get id = some pot → PotSound pot

theorem EntrySound.mono
    {members more : List Text} {entry : Entry Rate}
    (hsub : ∀ name ∈ members, name ∈ more)
    (h : EntrySound members entry) :
    EntrySound more entry := by
  cases h with
  | expense hpayer hshares =>
      exact .expense (hsub _ hpayer)
        ⟨hshares.total, fun name hname => hsub name (hshares.keys name hname)⟩
  | transfer hsender hrecipient => exact .transfer (hsub _ hsender) (hsub _ hrecipient)

theorem Sound.put
    {data : Data Rate} {id : Text} {pot : Pot Rate}
    (h : Sound data)
    (hpot : PotSound pot) :
    Sound (data.put id pot) := by
  intro name other hget
  rw [Dict.get_put] at hget
  split at hget
  · cases hget
    exact hpot
  · exact h name other hget

theorem getPot_eq_ok
    {data : Data Rate} {id : Text} {pot : Pot Rate}
    (h : getPot data id = .ok pot) :
    data.get id = some pot := by
  rw [getPot] at h
  split at h
  · rename_i hget
    cases h
    exact hget
  · cases h

theorem PotSound.append
    {pot : Pot Rate} {entry : Entry Rate}
    (h : PotSound pot)
    (hentry : EntrySound pot.members entry) :
    PotSound { pot with entries := pot.entries ++ [entry] } where
  nodup := h.nodup
  nonempty := h.nonempty
  entries other hother := by
    rcases List.mem_append.1 hother with hother | hother
    · exact h.entries other hother
    · rw [List.mem_singleton.1 hother]
      exact hentry

variable {P : Platform Rate}

theorem Sound.createPot
    {data next : Data Rate} {id currency : Text} {members : Members}
    (h : Sound data)
    (hok : createPot P data id currency members = .ok next) :
    Sound next := by
  rw [Moneypot.createPot] at hok
  split at hok
  · cases hok
  · split at hok
    · cases hok
    · split at hok
      · cases hok
      · rename_i hne
        split at hok
        · cases hok
        · rename_i hnodup
          split at hok
          · cases hok
          · cases hok
            refine h.put ⟨?_, ?_, by simp⟩
            · exact nodup_iff_hasDuplicates.2 (by simpa using hnodup)
            · exact fun hnil => hne (List.isEmpty_iff.2 hnil)

theorem Sound.addMember
    {data next : Data Rate} {id name : Text}
    (h : Sound data)
    (hok : addMember data id name = .ok next) :
    Sound next := by
  obtain ⟨pot, hpot, hok⟩ := ok_of_bind hok
  have hsound := h id pot (getPot_eq_ok hpot)
  simp only at hok
  split at hok
  · cases hok
  · split at hok
    · cases hok
    · rename_i hnew
      cases hok
      refine h.put ⟨?_, by simp, fun entry hentry => ?_⟩
      · refine List.nodup_append.2 ⟨hsound.nodup, List.nodup_singleton _, ?_⟩
        rintro other hother _ hmem rfl
        rw [List.mem_singleton.1 hmem] at hother
        exact hnew (by simpa using hother)
      · exact (hsound.entries entry hentry).mono fun other => List.mem_append_left _

/-- A member that a request names and the pot has. -/
theorem mem_of_filter_contains
    {name : Option Text} {members : List Text} {member : Text}
    (h : name.filter members.contains = some member) :
    member ∈ members := by
  obtain ⟨-, hmem⟩ := Option.filter_eq_some_iff.1 h
  simpa using hmem

theorem Sound.addExpense
    {data next : Data Rate} {id : Text} {request : ExpenseRequest Rate}
    (h : Sound data)
    (hok : addExpense P data id request = .ok next) :
    Sound next := by
  obtain ⟨pot, hpot, hok⟩ := ok_of_bind hok
  have hsound := h id pot (getPot_eq_ok hpot)
  split at hok
  · cases hok
  · rename_i payer hpayer
    obtain ⟨origTotal, -, hok⟩ := ok_of_bind hok
    split at hok
    · cases hok
    · obtain ⟨rate, -, hok⟩ := ok_of_bind hok
      obtain ⟨split, hsplit, hok⟩ := ok_of_bind hok
      cases hok
      exact h.put (hsound.append (.expense (mem_of_filter_contains hpayer)
        (shares_resolveSplit hsound.nodup hsound.nonempty hsplit)))

theorem Sound.addTransfer
    {data next : Data Rate} {id : Text} {request : TransferRequest Rate}
    (h : Sound data)
    (hok : addTransfer P data id request = .ok next) :
    Sound next := by
  obtain ⟨pot, hpot, hok⟩ := ok_of_bind hok
  have hsound := h id pot (getPot_eq_ok hpot)
  split at hok
  · cases hok
  · cases hok
  · rename_i sender recipient hsender hrecipient
    split at hok
    · cases hok
    · obtain ⟨origAmount, -, hok⟩ := ok_of_bind hok
      split at hok
      · cases hok
      · obtain ⟨rate, -, hok⟩ := ok_of_bind hok
        cases hok
        exact h.put (hsound.append (.transfer (mem_of_filter_contains hsender)
          (mem_of_filter_contains hrecipient)))

theorem Sound.removeEntry
    {data next : Data Rate} {id : Text} {entryId : Int}
    (h : Sound data)
    (hok : removeEntry data id entryId = .ok next) :
    Sound next := by
  obtain ⟨pot, hpot, hok⟩ := ok_of_bind hok
  have hsound := h id pot (getPot_eq_ok hpot)
  simp only at hok
  split at hok
  · cases hok
  · cases hok
    exact h.put ⟨hsound.nodup, hsound.nonempty, fun entry hentry =>
      hsound.entries entry (List.mem_of_mem_filter hentry)⟩

theorem Sound.perform
    {data next : Data Rate} {command : Command Rate}
    (h : Sound data)
    (hok : perform P data command = .ok next) :
    Sound next := by
  cases command with
  | createPot id currency members => exact h.createPot hok
  | addMember id name => exact h.addMember hok
  | addExpense id request => exact h.addExpense hok
  | addTransfer id request => exact h.addTransfer hok
  | removeEntry id entryId => exact h.removeEntry hok

/-- After any commands every pot is sound. -/
theorem sound_of_reaches
    {data : Data Rate}
    (h : (machine P).Reaches Machine.always data) :
    Sound data := by
  refine h.invariant ?_ ?_
  · rintro data rfl id pot hget
    cases hget
  · rintro data command next hsound - hstep
    simp only [machine] at hstep
    split at hstep
    · rename_i hok
      cases hstep
      exact hsound.perform hok
    · cases hstep
      exact hsound

end Kept

/-! ## The nets sum to zero -/

section Zero

variable {Rate : Type}

theorem keys_fromKeys
    {members : List Text} {nets : Dict Text Int}
    (hnodup : members.Nodup)
    (hfresh : ∀ member ∈ members, member ∉ nets.keys) :
    (members.foldl (fun nets member => nets.put member 0) nets).keys = nets.keys ++ members := by
  induction members generalizing nets with
  | nil => simp
  | cons member members ih =>
      obtain ⟨hother, hnodup⟩ := List.nodup_cons.1 hnodup
      have hkeys : (nets.put member 0).keys = nets.keys ++ [member] := by
        rw [Dict.keys_put, if_neg (hfresh member List.mem_cons_self)]
      rw [List.foldl_cons, ih hnodup, hkeys, List.append_assoc, List.singleton_append]
      intro other hmem hin
      rw [hkeys] at hin
      rcases List.mem_append.1 hin with hin | hin
      · exact hfresh other (List.mem_cons_of_mem _ hmem) hin
      · exact hother (List.mem_singleton.1 hin ▸ hmem)

theorem total_fromKeys
    {members : List Text} {nets : Dict Text Int}
    (hnodup : members.Nodup)
    (hfresh : ∀ member ∈ members, member ∉ nets.keys) :
    Tally.total (members.foldl (fun nets member => nets.put member 0) nets) =
      Tally.total nets := by
  induction members generalizing nets with
  | nil => rfl
  | cons member members ih =>
      obtain ⟨hother, hnodup⟩ := List.nodup_cons.1 hnodup
      have hmember := hfresh member List.mem_cons_self
      rw [List.foldl_cons, ih hnodup, Tally.total_put, Tally.amount_eq_zero_of_not_mem hmember,
        sub_zero, add_zero]
      intro other hmem hin
      rw [Dict.keys_put, if_neg hmember] at hin
      rcases List.mem_append.1 hin with hin | hin
      · exact hfresh other (List.mem_cons_of_mem _ hmem) hin
      · exact hother (List.mem_singleton.1 hin ▸ hmem)

theorem total_foldl_shares (entries : List (Text × Int)) (nets : Dict Text Int) :
    Tally.total (entries.foldl (fun nets entry => Tally.add entry.1 (-entry.2) nets) nets) =
      Tally.total nets - sumOver Prod.snd entries := by
  induction entries generalizing nets with
  | nil => simp [sumOver]
  | cons entry entries ih =>
      rw [List.foldl_cons, ih, Tally.total_add, sumOver]
      omega

theorem keys_foldl_shares
    {entries : List (Text × Int)} {nets : Dict Text Int}
    (h : ∀ entry ∈ entries, entry.1 ∈ nets.keys) :
    (entries.foldl (fun nets entry => Tally.add entry.1 (-entry.2) nets) nets).keys =
      nets.keys := by
  induction entries generalizing nets with
  | nil => rfl
  | cons entry entries ih =>
      have hkeys := Tally.keys_add_of_mem (h entry List.mem_cons_self) (-entry.2)
      rw [List.foldl_cons, ih, hkeys]
      intro other hother
      rw [hkeys]
      exact h other (List.mem_cons_of_mem _ hother)

/-- What an entry adds to the net of one member it takes from those of others. -/
theorem EntrySound.apply
    {members : List Text} {entry : Entry Rate} {nets : Dict Text Int}
    (h : EntrySound members entry)
    (hkeys : nets.keys = members) :
    (entry.apply nets).keys = members ∧ Tally.total (entry.apply nets) = Tally.total nets := by
  cases h with
  | @expense e hpayer hshares =>
      have hadd : (Tally.add e.payer e.amount nets).keys = members := by
        rw [Tally.keys_add_of_mem (hkeys ▸ hpayer), hkeys]
      have hsplit : sumOver Prod.snd e.split.entries = e.amount := hshares.total
      refine ⟨?_, ?_⟩
      · rw [Entry.apply, keys_foldl_shares, hadd]
        intro share hshare
        rw [hadd]
        exact hshares.keys share.1 (List.mem_map_of_mem hshare)
      · rw [Entry.apply, total_foldl_shares, Tally.total_add, hsplit]
        omega
  | @transfer t hsender hrecipient =>
      have hadd : (Tally.add t.sender t.amount nets).keys = members := by
        rw [Tally.keys_add_of_mem (hkeys ▸ hsender), hkeys]
      refine ⟨?_, ?_⟩
      · rw [Entry.apply, Tally.keys_add_of_mem (hadd ▸ hrecipient), hadd]
      · rw [Entry.apply, Tally.total_add, Tally.total_add]
        omega

/-- The nets are those of the members, and they sum to zero. -/
theorem PotSound.nets
    {pot : Pot Rate}
    (h : PotSound pot) :
    (computeNets pot).keys = pot.members ∧ Tally.total (computeNets pot) = 0 := by
  have hfold : ∀ (entries : List (Entry Rate)) (nets : Dict Text Int),
      (∀ entry ∈ entries, EntrySound pot.members entry) → nets.keys = pot.members →
        (entries.foldl Entry.apply nets).keys = pot.members ∧
          Tally.total (entries.foldl Entry.apply nets) = Tally.total nets := by
    intro entries
    induction entries with
    | nil => exact fun nets _ hkeys => ⟨hkeys, rfl⟩
    | cons entry entries ih =>
        intro nets hentries hkeys
        obtain ⟨hkeys, htotal⟩ := (hentries entry List.mem_cons_self).apply hkeys
        obtain ⟨hkeys', htotal'⟩ :=
          ih _ (fun other hother => hentries other (List.mem_cons_of_mem _ hother)) hkeys
        exact ⟨hkeys', htotal'.trans htotal⟩
  have hkeys : (fromKeys pot.members).keys = pot.members :=
    keys_fromKeys h.nodup (by simp [Dict.keys])
  obtain ⟨hkeys, htotal⟩ := hfold pot.entries (fromKeys pot.members) h.entries hkeys
  refine ⟨hkeys, htotal.trans ?_⟩
  rw [fromKeys, total_fromKeys h.nodup (by simp [Dict.keys])]
  rfl

end Zero

/-! ## The settle-up ends square -/

/-- Debts and credits that are open: they are equal, and every other net is zero. -/
structure Open (debtors creditors : List Text) (rem : Dict Text Int) : Prop where
  owes : ∀ d ∈ debtors, Tally.amount rem d < 0
  owed : ∀ c ∈ creditors, 0 < Tally.amount rem c
  debtorsNodup : debtors.Nodup
  creditorsNodup : creditors.Nodup
  equal : sumOver (Tally.amount rem) debtors + sumOver (Tally.amount rem) creditors = 0
  square : ∀ name, name ∉ debtors → name ∉ creditors → Tally.amount rem name = 0

/-- Payments that make open debts and credits square. -/
structure Clears
    (debtors creditors : List Text) (rem : Dict Text Int) (payments : List Payment) : Prop where
  between : ∀ p ∈ payments, p.debtor ∈ debtors ∧ p.creditor ∈ creditors ∧ 0 < p.cents
  few : payments = [] ∨ payments.length + 1 ≤ debtors.length + creditors.length
  square : ∀ name, Tally.amount (payAll rem payments) name = 0

theorem amount_apply (rem : Dict Text Int) (payment : Payment) (name : Text) :
    Tally.amount (payment.apply rem) name =
      Tally.amount rem name + (if name = payment.debtor then payment.cents else 0) -
        (if name = payment.creditor then payment.cents else 0) := by
  rw [Payment.apply, Tally.amount_add, Tally.amount_add]
  split <;> split <;> omega

section Loop

variable {debtors creditors : List Text} {rem : Dict Text Int}

/-- Without debtors there are no creditors, and the other way round. -/
theorem Open.nil_iff
    (h : Open debtors creditors rem) :
    debtors = [] ↔ creditors = [] := by
  have hequal := h.equal
  constructor
  · rintro rfl
    cases creditors with
    | nil => rfl
    | cons c creditors =>
        have hfirst := h.owed c List.mem_cons_self
        have hrest := sumOver_nonneg fun k hk => (h.owed k (List.mem_cons_of_mem c hk)).le
        simp only [sumOver] at hequal
        omega
  · rintro rfl
    cases debtors with
    | nil => rfl
    | cons d debtors =>
        have hfirst := h.owes d List.mem_cons_self
        have hrest : 0 ≤ sumOver (fun k => -Tally.amount rem k) debtors :=
          sumOver_nonneg fun k hk => by
            have := h.owes k (List.mem_cons_of_mem d hk)
            omega
        rw [sumOver_neg] at hrest
        simp only [sumOver] at hequal
        omega

/-- The debtors and creditors that one turn of the loop leaves. -/
def left (rem : Dict Text Int) (name : Text) (names : List Text) : List Text :=
  if Tally.amount rem name = 0 then names else name :: names

theorem mem_of_mem_left
    {name other : Text} {names : List Text}
    (h : other ∈ left rem name names) :
    other ∈ name :: names := by
  rw [left] at h
  split at h
  · exact List.mem_cons_of_mem _ h
  · exact h

theorem sumOver_left (rem : Dict Text Int) (name : Text) (names : List Text) :
    sumOver (Tally.amount rem) (left rem name names) =
      Tally.amount rem name + sumOver (Tally.amount rem) names := by
  rw [left]
  split
  · rename_i hzero
    rw [hzero, zero_add]
  · rfl

variable {d c : Text} {cents : Int}

/-- A turn of the loop leaves open what it does not square. -/
theorem Open.pay
    (h : Open (d :: debtors) (c :: creditors) rem)
    (hdebt : cents ≤ -Tally.amount rem d)
    (hcredit : cents ≤ Tally.amount rem c) :
    Open (left (Payment.apply rem ⟨d, c, cents⟩) d debtors)
      (left (Payment.apply rem ⟨d, c, cents⟩) c creditors) (Payment.apply rem ⟨d, c, cents⟩) := by
  obtain ⟨hd, hdebtors⟩ := List.nodup_cons.1 h.debtorsNodup
  obtain ⟨hc, hcreditors⟩ := List.nodup_cons.1 h.creditorsNodup
  have hdifferent : ∀ x ∈ d :: debtors, ∀ y ∈ c :: creditors, x ≠ y := by
    rintro x hx y hy rfl
    have := h.owes x hx
    have := h.owed x hy
    omega
  have hdc : d ≠ c := hdifferent d List.mem_cons_self c List.mem_cons_self
  have hamount := amount_apply rem ⟨d, c, cents⟩
  have hamountD : Tally.amount (Payment.apply rem ⟨d, c, cents⟩) d = Tally.amount rem d + cents := by
    simp [hamount, hdc]
  have hamountC : Tally.amount (Payment.apply rem ⟨d, c, cents⟩) c = Tally.amount rem c - cents := by
    simp [hamount, hdc.symm]
  have hother : ∀ x, x ≠ d → x ≠ c →
      Tally.amount (Payment.apply rem ⟨d, c, cents⟩) x = Tally.amount rem x := by
    intro x hxd hxc
    simp [hamount, hxd, hxc]
  have hsumD : sumOver (Tally.amount (Payment.apply rem ⟨d, c, cents⟩)) debtors =
      sumOver (Tally.amount rem) debtors :=
    sumOver_congr fun x hx => hother x (ne_of_mem_of_not_mem hx hd)
      (hdifferent x (List.mem_cons_of_mem _ hx) c List.mem_cons_self)
  have hsumC : sumOver (Tally.amount (Payment.apply rem ⟨d, c, cents⟩)) creditors =
      sumOver (Tally.amount rem) creditors :=
    sumOver_congr fun x hx => hother x
      (hdifferent d List.mem_cons_self x (List.mem_cons_of_mem _ hx)).symm
      (ne_of_mem_of_not_mem hx hc)
  generalize hrem : Payment.apply rem ⟨d, c, cents⟩ = rem' at *
  constructor
  · intro x hx
    by_cases hxd : x = d
    · subst hxd
      rw [left] at hx
      split at hx
      · exact absurd hx hd
      · rw [hamountD] at *
        omega
    · have hmem := mem_of_mem_left hx
      rw [hother x hxd (hdifferent x hmem c List.mem_cons_self)]
      exact h.owes x hmem
  · intro x hx
    by_cases hxc : x = c
    · subst hxc
      rw [left] at hx
      split at hx
      · exact absurd hx hc
      · rw [hamountC] at *
        omega
    · have hmem := mem_of_mem_left hx
      rw [hother x (hdifferent d List.mem_cons_self x hmem).symm hxc]
      exact h.owed x hmem
  · rw [left]
    split
    · exact hdebtors
    · exact h.debtorsNodup
  · rw [left]
    split
    · exact hcreditors
    · exact h.creditorsNodup
  · have hequal := h.equal
    rw [sumOver_left, sumOver_left, hamountD, hamountC, hsumD, hsumC]
    simp only [sumOver] at hequal
    omega
  · intro x hxd hxc
    by_cases heqd : x = d
    · subst heqd
      by_contra hne
      exact hxd (by rw [left, if_neg hne]; exact List.mem_cons_self)
    · by_cases heqc : x = c
      · subst heqc
        by_contra hne
        exact hxc (by rw [left, if_neg hne]; exact List.mem_cons_self)
      · rw [hother x heqd heqc]
        refine h.square x (fun hx => hxd ?_) (fun hx => hxc ?_)
        · have hmem := (List.mem_cons.1 hx).resolve_left heqd
          rw [left]
          split
          · exact hmem
          · exact hx
        · have hmem := (List.mem_cons.1 hx).resolve_left heqc
          rw [left]
          split
          · exact hmem
          · exact hx

/-- One of the two is square after a turn, and when it is the last one both are. -/
theorem length_left
    (hpay : cents = min (-Tally.amount rem d) (Tally.amount rem c))
    (hdc : d ≠ c) :
    (left (Payment.apply rem ⟨d, c, cents⟩) d debtors).length +
        (left (Payment.apply rem ⟨d, c, cents⟩) c creditors).length ≤
      debtors.length + creditors.length + 1 := by
  have hamountD : Tally.amount (Payment.apply rem ⟨d, c, cents⟩) d = Tally.amount rem d + cents := by
    simp [amount_apply, hdc]
  have hamountC : Tally.amount (Payment.apply rem ⟨d, c, cents⟩) c = Tally.amount rem c - cents := by
    simp [amount_apply, hdc.symm]
  rw [left, left, hamountD, hamountC]
  split
  · split
    · omega
    · rw [List.length_cons]
      omega
  · rw [if_pos (by omega), List.length_cons]
    omega

/-- Enough turns square everything, with fewer payments than there are debtors and creditors. -/
theorem Open.settles
    {fuel : Nat}
    (h : Open debtors creditors rem)
    (hfuel : debtors.length + creditors.length ≤ fuel) :
    ∃ payments, settleLoop fuel debtors creditors rem = some payments ∧
      Clears debtors creditors rem payments := by
  induction fuel generalizing debtors creditors rem with
  | zero =>
      have hnil : debtors = [] := List.length_eq_zero_iff.1 (by omega)
      have hnil' := h.nil_iff.1 hnil
      subst hnil hnil'
      exact ⟨[], rfl, by simp, Or.inl rfl, fun name => h.square name (by simp) (by simp)⟩
  | succ fuel ih =>
      cases debtors with
      | nil =>
          have hnil := h.nil_iff.1 rfl
          subst hnil
          exact ⟨[], rfl, by simp, Or.inl rfl, fun name => h.square name (by simp) (by simp)⟩
      | cons d debtors =>
          cases creditors with
          | nil => cases h.nil_iff.2 rfl
          | cons c creditors =>
              have howes := h.owes d List.mem_cons_self
              have howed := h.owed c List.mem_cons_self
              have hdc : d ≠ c := by
                rintro rfl
                omega
              generalize hpay : min (-Tally.amount rem d) (Tally.amount rem c) = cents
              have hpos : 0 < cents := by omega
              have hdebt : cents ≤ -Tally.amount rem d := by omega
              have hcredit : cents ≤ Tally.amount rem c := by omega
              have hnext := h.pay hdebt hcredit
              have hlength :
                  (left (Payment.apply rem ⟨d, c, cents⟩) d debtors).length +
                      (left (Payment.apply rem ⟨d, c, cents⟩) c creditors).length ≤
                    debtors.length + creditors.length + 1 :=
                length_left hpay.symm hdc
              simp only [List.length_cons] at hfuel
              obtain ⟨payments, hrun, hclears⟩ := ih hnext (by omega)
              refine ⟨⟨d, c, cents⟩ :: payments, ?_, ?_, ?_, ?_⟩
              · simp only [settleLoop, hpay, if_pos hpos]
                simp only [left] at hrun
                rw [hrun]
                rfl
              · intro p hp
                rcases List.mem_cons.1 hp with rfl | hp
                · exact ⟨List.mem_cons_self, List.mem_cons_self, hpos⟩
                · obtain ⟨hdebtor, hcreditor, hcents⟩ := hclears.between p hp
                  exact ⟨mem_of_mem_left hdebtor, mem_of_mem_left hcreditor, hcents⟩
              · refine Or.inr ?_
                simp only [List.length_cons]
                rcases hclears.few with rfl | hfew
                · simp only [List.length_nil]
                  omega
                · omega
              · exact hclears.square

end Loop

/-- Payments that settle the nets. -/
structure Settles (nets : Dict Text Int) (payments : List Payment) : Prop where
  positive : ∀ p ∈ payments, 0 < p.cents
  debtor : ∀ p ∈ payments, Tally.amount nets p.debtor < 0
  creditor : ∀ p ∈ payments, 0 < Tally.amount nets p.creditor
  few : payments.length ≤ (nets.keys.filter fun name => Tally.amount nets name ≠ 0).length - 1
  square : ∀ name, Tally.amount (payAll nets payments) name = 0

theorem mem_debtors {nets : Dict Text Int} {name : Text} :
    name ∈ debtors nets ↔ name ∈ nets.keys ∧ Tally.amount nets name < 0 := by
  rw [debtors, List.mem_mergeSort, List.mem_map, Dict.keys]
  constructor
  · rintro ⟨entry, hentry, rfl⟩
    obtain ⟨hentry, hneg⟩ := List.mem_filter.1 hentry
    refine ⟨List.mem_map_of_mem hentry, ?_⟩
    rw [Tally.amount, Dict.get_of_mem hentry]
    simpa using hneg
  · rintro ⟨hname, hneg⟩
    obtain ⟨entry, hentry, rfl⟩ := List.mem_map.1 hname
    rw [Tally.amount, Dict.get_of_mem hentry] at hneg
    exact ⟨entry, List.mem_filter.2 ⟨hentry, by simpa using hneg⟩, rfl⟩

theorem mem_creditors {nets : Dict Text Int} {name : Text} :
    name ∈ creditors nets ↔ name ∈ nets.keys ∧ 0 < Tally.amount nets name := by
  rw [creditors, List.mem_mergeSort, List.mem_map, Dict.keys]
  constructor
  · rintro ⟨entry, hentry, rfl⟩
    obtain ⟨hentry, hpos⟩ := List.mem_filter.1 hentry
    refine ⟨List.mem_map_of_mem hentry, ?_⟩
    rw [Tally.amount, Dict.get_of_mem hentry]
    simpa using hpos
  · rintro ⟨hname, hpos⟩
    obtain ⟨entry, hentry, rfl⟩ := List.mem_map.1 hname
    rw [Tally.amount, Dict.get_of_mem hentry] at hpos
    exact ⟨entry, List.mem_filter.2 ⟨hentry, by simpa using hpos⟩, rfl⟩

theorem nodup_sorted
    {nets : Dict Text Int} (p : Text × Int → Bool) (le : Text → Text → Bool) :
    (((nets.entries.filter p).map Prod.fst).mergeSort le).Nodup :=
  (List.mergeSort_perm _ _).nodup_iff.2
    (nets.nodup.sublist (List.filter_sublist.map Prod.fst))

/-- The debtors and the creditors are the members whose net is not zero. -/
theorem perm_nonzero (nets : Dict Text Int) :
    (debtors nets ++ creditors nets).Perm
      (nets.keys.filter fun name => Tally.amount nets name ≠ 0) := by
  refine (List.perm_ext_iff_of_nodup ?_ (nets.nodup.filter _)).2 fun name => ?_
  · refine List.nodup_append.2 ⟨nodup_sorted _ _, nodup_sorted _ _, ?_⟩
    rintro name hdebtor _ hcreditor rfl
    have hneg := (mem_debtors.1 hdebtor).2
    have hpos := (mem_creditors.1 hcreditor).2
    omega
  · rw [List.mem_append, mem_debtors, mem_creditors, List.mem_filter, ← and_or_left,
      decide_eq_true_iff, ← lt_or_lt_iff_ne]
    rfl

/-- Nets that sum to zero are debts and credits of the same size. -/
theorem open_nets
    {nets : Dict Text Int}
    (h : Tally.total nets = 0) :
    Open (debtors nets) (creditors nets) nets where
  owes d hd := (mem_debtors.1 hd).2
  owed c hc := (mem_creditors.1 hc).2
  debtorsNodup := nodup_sorted _ _
  creditorsNodup := nodup_sorted _ _
  equal := by
    rw [← sumOver_append, sumOver_perm (perm_nonzero nets),
      sumOver_filter _ (by simp), ← Tally.total_eq_sumOver, h]
  square name hdebtor hcreditor := by
    by_cases hname : name ∈ nets.keys
    · have hnonneg : ¬Tally.amount nets name < 0 := fun hneg =>
        hdebtor (mem_debtors.2 ⟨hname, hneg⟩)
      have hnonpos : ¬0 < Tally.amount nets name := fun hpos =>
        hcreditor (mem_creditors.2 ⟨hname, hpos⟩)
      omega
    · exact Tally.amount_eq_zero_of_not_mem hname

theorem settleUp_settles
    {nets : Dict Text Int}
    (h : Tally.total nets = 0) :
    ∃ payments, settleUp nets = some payments ∧ Settles nets payments := by
  obtain ⟨payments, hrun, hclears⟩ := (open_nets h).settles le_rfl
  refine ⟨payments, hrun, ?_, ?_, ?_, ?_, hclears.square⟩
  · exact fun p hp => (hclears.between p hp).2.2
  · exact fun p hp => (mem_debtors.1 (hclears.between p hp).1).2
  · exact fun p hp => (mem_creditors.1 (hclears.between p hp).2.1).2
  · rw [← (perm_nonzero nets).length_eq, List.length_append]
    rcases hclears.few with rfl | hfew
    · exact Nat.zero_le _
    · omega

/-- In every pot that commands lead to, the shares of each expense sum to its amount, the nets
are those of the members and sum to zero, and the settle-up ends with them square. -/
theorem pots_balance
    {Rate : Type} (P : Platform Rate)
    {data : Data Rate} {id : Text} {pot : Pot Rate}
    (hdata : (machine P).Reaches Machine.always data)
    (hpot : data.get id = some pot) :
    (∀ e, .expense e ∈ pot.entries → Tally.total e.split = e.amount) ∧
      (computeNets pot).keys = pot.members ∧
      Tally.total (computeNets pot) = 0 ∧
      ∃ payments, settleUp (computeNets pot) = some payments ∧
        Settles (computeNets pot) payments := by
  have hsound := sound_of_reaches hdata id pot hpot
  obtain ⟨hkeys, htotal⟩ := hsound.nets
  refine ⟨fun e he => ?_, hkeys, htotal, settleUp_settles htotal⟩
  cases hsound.entries _ he with
  | expense _ hshares => exact hshares.total

/-- Amounts in whole units and a single currency. -/
def wholeUnits : Platform Unit where
  decimal raw := if raw == "10".toList then some (.finite 10 0) else none
  upper := id
  parseRate _ := none
  one := ()
  convert cents _ := cents

/-- Three members, one of whom pays ten for all. -/
def tripCommands : List (Command Unit) :=
  [.createPot "trip".toList "GBP".toList (.csv "Ann,Bob,Cy".toList),
   .addExpense "trip".toList { payer := some "Ann".toList, amount := "10".toList }]

def trip : Data Unit := (machine wholeUnits).runTo ⟨[], List.nodup_nil⟩ tripCommands

theorem pots_balance_trip :
    ((trip.get "trip".toList).map fun pot => Tally.amount (computeNets pot) "Ann".toList) =
        some 666 ∧
      ∃ pot, trip.get "trip".toList = some pot ∧
        Tally.total (computeNets pot) = 0 ∧
        ∃ payments, settleUp (computeNets pot) = some payments ∧
          Settles (computeNets pot) payments := by
  have hrun : ((machine wholeUnits).exec ⟨[], List.nodup_nil⟩ tripCommands).isSome = true := by
    decide
  have hreaches : (machine wholeUnits).Reaches Machine.always trip :=
    Machine.Reaches.runTo (.start rfl) tripCommands (Machine.admits_always _ _ _) hrun
  have hsome : (trip.get "trip".toList).isSome = true := by decide
  obtain ⟨-, -, hzero, hsettled⟩ :=
    pots_balance wholeUnits hreaches (Option.some_get hsome).symm
  exact ⟨by decide, (trip.get "trip".toList).get hsome, (Option.some_get hsome).symm, hzero,
    hsettled⟩

end Moneypot
end Vesta
