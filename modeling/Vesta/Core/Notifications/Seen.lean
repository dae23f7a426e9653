import Mathlib.Order.Nat
import Vesta.Lib.Machine
import Vesta.Vestad.UserNotificationLog

/-!
# The seen watermark

The gateway keeps the second of the user's last catch-up, and a client takes every entry
stamped after it for unseen.  Both stamps are readings of the gateway's clock in whole
seconds, so an entry of the second of the catch-up counts as seen, and a clock that is set
back takes entries across the watermark.

The file that the watermark is saved in is read at a start only and is left out.
-/

namespace Vesta
namespace Core
namespace Notifications
namespace Seen

open Lib
open Vestad.UserNotificationLog (LoggedUserNotification Request newEntry)

/-! ## The two scalars and the split -/

/-- The two parts of a page. -/
structure FeedSplit where
  unseen : List LoggedUserNotification
  seen : List LoggedUserNotification

/-- Split a page on the watermark. -/
def splitBySeen (entries : List LoggedUserNotification) (seenAt : Nat) : FeedSplit :=
  entries.foldl
    (fun split entry =>
      if seenAt < entry.at_ then
        { split with unseen := split.unseen ++ [entry] }
      else
        { split with seen := split.seen ++ [entry] })
    { unseen := [], seen := [] }

/-- Whether anything arrived past the watermark. -/
def feedHasUnseen (lastAt seenAt : Option Nat) : Bool := decide (seenAt.getD 0 < lastAt.getD 0)

/-- The stamp of the newest entry. -/
def lastAt (entries : List LoggedUserNotification) : Option Nat :=
  entries.getLast?.map (·.at_)

theorem foldl_split
    (entries : List LoggedUserNotification) (seenAt : Nat) (split : FeedSplit) :
    entries.foldl
        (fun split entry =>
          if seenAt < entry.at_ then
            { split with unseen := split.unseen ++ [entry] }
          else
            { split with seen := split.seen ++ [entry] })
        split =
      { unseen := split.unseen ++ entries.filter fun entry => seenAt < entry.at_
        seen := split.seen ++ entries.filter fun entry => entry.at_ ≤ seenAt } := by
  induction entries generalizing split with
  | nil => simp
  | cons entry entries ih =>
      rw [List.foldl_cons, ih]
      by_cases hlate : seenAt < entry.at_
      · have hnot : ¬ entry.at_ ≤ seenAt := Nat.not_le.2 hlate
        simp [hlate, hnot]
      · have hle : entry.at_ ≤ seenAt := Nat.not_lt.1 hlate
        simp [hlate, hle]

theorem mem_unseen
    {entries : List LoggedUserNotification} {seenAt : Nat} {entry : LoggedUserNotification} :
    entry ∈ (splitBySeen entries seenAt).unseen ↔ entry ∈ entries ∧ seenAt < entry.at_ := by
  rw [splitBySeen, foldl_split]
  simp

theorem mem_seen
    {entries : List LoggedUserNotification} {seenAt : Nat} {entry : LoggedUserNotification} :
    entry ∈ (splitBySeen entries seenAt).seen ↔ entry ∈ entries ∧ entry.at_ ≤ seenAt := by
  rw [splitBySeen, foldl_split]
  simp

/-! ## Appends and catch-ups -/

/-- The log and its watermark, and how many entries it had at the last catch-up, if there was
one since the start. -/
structure World where
  entries : List LoggedUserNotification
  seenAt : Nat
  caughtUp : Option Nat

inductive Label
  | append (request : Request)
  /-- `mark_seen_now` with a reading of the clock. -/
  | markSeenNow (now : Nat)

def step (w : World) : Label → Option World
  | .append request => some { w with entries := w.entries ++ [newEntry w.entries request] }
  | .markSeenNow now =>
      some { w with seenAt := now, caughtUp := some w.entries.length }

/-- The gateway starts with any log and watermark. -/
def machine : Machine World Label where
  start w := w.caughtUp = none
  step := step

/-- Seen is what was there at the last catch-up, unseen what came after it: on a page of the
log, newest first, and by the two scalars. -/
structure ByCatchUp (w : World) (count : Nat) : Prop where
  seen : ∀ entry ∈ w.entries.take count,
    entry ∈ (splitBySeen w.entries.reverse w.seenAt).seen ∧
      entry ∉ (splitBySeen w.entries.reverse w.seenAt).unseen
  unseen : ∀ entry ∈ w.entries.drop count,
    entry ∈ (splitBySeen w.entries.reverse w.seenAt).unseen ∧
      feedHasUnseen (lastAt w.entries) (some w.seenAt) = true

/-- The law of the watermark: nothing is said before the first catch-up. -/
def Law (w : World) : Prop := ∀ count, w.caughtUp = some count → ByCatchUp w count

/-- The clock reads in order: after a catch-up an append reads a later second than it, and a
catch-up no earlier one than the stamp of any entry. -/
def InOrder (w : World) : Label → Prop
  | .append request => w.caughtUp ≠ none → w.seenAt < request.now
  | .markSeenNow now => ∀ entry ∈ w.entries, entry.at_ ≤ now

/-- The last catch-up was of entries that are still in the log. -/
def Kept (w : World) : Prop := ∀ count, w.caughtUp = some count → count ≤ w.entries.length

theorem Kept.step
    {w t : World} {a : Label}
    (h : Kept w)
    (hstep : Seen.step w a = some t) :
    Kept t := by
  cases a with
  | append request =>
      cases hstep
      intro count hcount
      rw [List.length_append]
      exact (h count hcount).trans (Nat.le_add_right _ _)
  | markSeenNow now =>
      cases hstep
      intro count hcount
      exact (Option.some.inj hcount).ge

/-- The law in terms of the stamps. -/
theorem byCatchUp_iff
    {w : World} {count : Nat} :
    ByCatchUp w count ↔
      (∀ entry ∈ w.entries.take count, entry.at_ ≤ w.seenAt) ∧
        ∀ entry ∈ w.entries.drop count, w.seenAt < entry.at_ := by
  constructor
  · intro h
    exact ⟨fun entry hentry => (mem_seen.1 (h.seen entry hentry).1).2,
      fun entry hentry => (mem_unseen.1 (h.unseen entry hentry).1).2⟩
  · rintro ⟨hseen, hunseen⟩
    refine ⟨fun entry hentry => ⟨?_, ?_⟩, fun entry hentry => ⟨?_, ?_⟩⟩
    · exact mem_seen.2 ⟨List.mem_reverse.2 (List.mem_of_mem_take hentry), hseen entry hentry⟩
    · intro hmem
      exact Nat.not_lt.2 (hseen entry hentry) (mem_unseen.1 hmem).2
    · exact mem_unseen.2 ⟨List.mem_reverse.2 (List.mem_of_mem_drop hentry), hunseen entry hentry⟩
    · -- the newest entry of the log came after the catch-up too
      obtain ⟨last, hlast⟩ : ∃ last, (w.entries.drop count).getLast? = some last :=
        Option.ne_none_iff_exists'.1 fun hnone => by
          rw [List.getLast?_eq_none_iff.1 hnone] at hentry
          cases hentry
      have hnewest : w.entries.getLast? = some last := by
        rw [← List.take_append_drop count w.entries, List.getLast?_append, hlast]
        rfl
      have hlate := hunseen last (List.mem_of_getLast? hlast)
      rw [feedHasUnseen, lastAt, hnewest, decide_eq_true_eq]
      exact hlate

/-- A step from a state of the law keeps it exactly if its reading is in order. -/
theorem law_step_iff
    {w t : World} {a : Label}
    (hkept : Kept w)
    (hlaw : Law w)
    (hstep : step w a = some t) :
    Law t ↔ InOrder w a := by
  cases a with
  | append request =>
      cases hstep
      have hiff (count : Nat) (hcount : w.caughtUp = some count) :
          ByCatchUp { w with entries := w.entries ++ [newEntry w.entries request] } count ↔
            w.seenAt < request.now := by
        obtain ⟨hseen, hunseen⟩ := byCatchUp_iff.1 (hlaw count hcount)
        rw [byCatchUp_iff]
        dsimp only
        rw [List.take_append_of_le_length (hkept count hcount),
          List.drop_append_of_le_length (hkept count hcount)]
        constructor
        · rintro ⟨-, hlate⟩
          exact hlate (newEntry w.entries request) (by simp)
        · intro hlate
          refine ⟨hseen, fun entry hentry => ?_⟩
          rcases List.mem_append.1 hentry with hold | hnew
          · exact hunseen entry hold
          · rw [List.mem_singleton.1 hnew]
            exact hlate
      constructor
      · intro h hsome
        obtain ⟨count, hcount⟩ := Option.ne_none_iff_exists'.1 hsome
        exact (hiff count hcount).1 (h count hcount)
      · intro h count hcount
        exact (hiff count hcount).2 (h (by rw [hcount]; exact Option.some_ne_none count))
  | markSeenNow now =>
      cases hstep
      constructor
      · intro h entry hentry
        refine (byCatchUp_iff.1 (h w.entries.length rfl)).1 entry ?_
        rw [List.take_length]
        exact hentry
      · intro h count hcount
        obtain rfl : w.entries.length = count := Option.some.inj hcount
        rw [byCatchUp_iff]
        dsimp only
        rw [List.take_length, List.drop_length]
        exact ⟨h, fun entry hentry => absurd hentry List.not_mem_nil⟩

/-- From any start, seen is what was there at the last catch-up and unseen what came after it
in every state of a run, if and only if all its clock readings are in order. -/
theorem law_always_iff
    (w : World)
    (run : List Label)
    (hstart : machine.start w) :
    machine.Admits (fun s a => ∀ t ∈ machine.step s a, Law t) w run ↔
      machine.Admits InOrder w run := by
  have hnone (count : Nat) : w.caughtUp ≠ some count := by
    rw [show w.caughtUp = none from hstart]
    exact (Option.some_ne_none count).symm
  refine machine.admits_iff_within (I := Law) (J := Kept)
    (fun _ _ _ hkept hstep => hkept.step hstep)
    (fun _ _ _ hkept hlaw hstep => law_step_iff hkept hlaw hstep) ?_ run
    (fun count hcount => absurd hcount (hnone count))
    fun count hcount => absurd hcount (hnone count)
  intro s a _ _ hstuck
  cases a <;> cases hstuck

/-! ### One second -/

def empty : World where
  entries := []
  seenAt := 0
  caughtUp := none

/-- A reminder of some second. -/
def reminder (now : Nat) : Request where
  agent := "sam".toList
  kind := "task".toList
  title := "Reminder".toList
  body := []
  now

/-- A catch-up and an append in the same second: the entry is never unseen. -/
theorem same_second_seen :
    let w := machine.runTo empty [.markSeenNow 100, .append (reminder 100)]
    w.caughtUp = some 0 ∧ w.entries = [newEntry [] (reminder 100)] ∧
      (splitBySeen w.entries.reverse w.seenAt).unseen = [] ∧
      feedHasUnseen (lastAt w.entries) (some w.seenAt) = false := by
  decide

/-- A catch-up with an entry before it and one after it, each in its own second. -/
theorem law_always_ordered :
    machine.Admits (fun s a => ∀ t ∈ machine.step s a, Law t) empty
      [.append (reminder 99), .markSeenNow 100, .append (reminder 101)] := by
  refine (law_always_iff empty _ rfl).2 ⟨fun h => absurd rfl h, fun t ht => ?_⟩
  cases ht
  refine ⟨?_, fun t ht => ?_⟩
  · intro entry hentry
    rw [List.mem_singleton.1 hentry]
    decide
  · cases ht
    exact ⟨fun _ => by decide, fun _ _ => trivial⟩

end Seen
end Notifications
end Core
end Vesta
