import Mathlib.Data.List.Sort
import Mathlib.Data.List.Dedup
import Vesta.Vestad.Docker.Names

/-!
# The tags of rebuild snapshots

A rebuild keeps the agent's filesystem in an image whose tag carries the user,
the agent's name and the second at which it was taken.  The boot pass reads
the tags of all images back and groups those of this user by agent, each
agent's seconds in increasing order.
-/

namespace Vesta
namespace Vestad
namespace Docker

def rebuildSnapshotPrefix (user : String) : String := "vesta-rebuild-" ++ user ++ ":"

/-- The tag of the snapshot of an agent that is taken at an epoch second. -/
def rebuildSnapshotTag (user name : String) (ts : Nat) : String :=
  String.ofList <|
    (rebuildSnapshotPrefix user).toList ++ (name.toList ++ '_' :: Nat.toDigits 10 ts)

/-- Split at the last underscore. -/
def rsplitOnce : List Char → Option (List Char × List Char)
  | [] => none
  | c :: cs =>
      match rsplitOnce cs with
      | some (before, after) => some (c :: before, after)
      | none => if c = '_' then some ([], cs) else none

/-- Read a decimal number. -/
def parseSecs (cs : List Char) : Option Nat :=
  if cs ≠ [] ∧ cs.all isAsciiDigit then some (Nat.ofDigitChars 10 cs 0) else none

/-- Split a rebuild snapshot tag of this user into the agent it belongs to and the epoch second it
was taken at. -/
def parseRebuildSnapshot (user tag : String) : Option (String × Nat) :=
  match tag.toList.dropPrefix? (rebuildSnapshotPrefix user).toList with
  | none => none
  | some rest =>
      match rsplitOnce rest with
      | none => none
      | some (name, ts) =>
          if name = [] then none
          else (parseSecs ts).map fun n => (String.ofList name, n)

/-- The snapshots among the images' tags, grouped by agent and ordered oldest first. -/
def rebuildSnapshotsByAgent (user : String) (tags : List String) : List (String × List Nat) :=
  let found := tags.filterMap (parseRebuildSnapshot user)
  (found.map (·.1)).dedup.map fun name =>
    (name, ((found.filter (·.1 = name)).map (·.2)).insertionSort (· ≤ ·))

example :
    rebuildSnapshotsByAgent "ann"
        ["vesta-rebuild-ann:bot_12", "vesta-rebuild-ann:bot_7", "vesta-rebuild-bob:bot_3"] =
      [("bot", [7, 12])] := by
  decide

theorem rsplitOnce_eq_none
    {cs : List Char}
    (h : '_' ∉ cs) :
    rsplitOnce cs = none := by
  induction cs with
  | nil => rfl
  | cons c cs ih =>
      have hc : c ≠ '_' := fun hc => h (by simp [hc])
      simp [rsplitOnce, ih (fun hmem => h (List.mem_cons_of_mem _ hmem)), hc]

theorem rsplitOnce_append
    (before : List Char) {after : List Char}
    (h : '_' ∉ after) :
    rsplitOnce (before ++ '_' :: after) = some (before, after) := by
  induction before with
  | nil => simp [rsplitOnce, rsplitOnce_eq_none h]
  | cons c cs ih => simp [rsplitOnce, ih]

theorem isAsciiDigit_of_mem_toDigits
    {n : Nat} {c : Char}
    (h : c ∈ Nat.toDigits 10 n) :
    isAsciiDigit c = true := by
  have hdigit := Nat.isDigit_of_mem_toDigits (by decide) (by decide) h
  simpa [Char.isDigit, isAsciiDigit, Char.le_def] using hdigit

theorem parseSecs_toDigits (n : Nat) : parseSecs (Nat.toDigits 10 n) = some n := by
  have hne : Nat.toDigits 10 n ≠ [] := by
    intro h
    have := Nat.length_toDigits_pos (b := 10) (n := n)
    simp [h] at this
  have hall : (Nat.toDigits 10 n).all isAsciiDigit = true :=
    List.all_eq_true.2 fun c hc => isAsciiDigit_of_mem_toDigits hc
  rw [parseSecs, if_pos ⟨hne, hall⟩, Nat.ofDigitChars_ten_toDigits]

/-- A tag names its agent, whatever underscores the name has. -/
theorem parseRebuildSnapshot_tag
    (user : String) {name : String} (ts : Nat)
    (hname : name ≠ "") :
    parseRebuildSnapshot user (rebuildSnapshotTag user name ts) = some (name, ts) := by
  have hdigits : '_' ∉ Nat.toDigits 10 ts := fun h =>
    absurd (isAsciiDigit_of_mem_toDigits h) (by decide)
  have hne : name.toList ≠ [] := by simpa using hname
  have hdrop :
      (rebuildSnapshotTag user name ts).toList.dropPrefix? (rebuildSnapshotPrefix user).toList =
        some (name.toList ++ '_' :: Nat.toDigits 10 ts) := by
    rw [rebuildSnapshotTag, String.toList_ofList]
    exact List.dropPrefix?_append_of_beq _ (beq_self_eq_true _)
  simp [parseRebuildSnapshot, hdrop, rsplitOnce_append _ hdigits, hne, parseSecs_toDigits]

theorem mem_rebuildSnapshotsByAgent
    {user : String} {tags : List String} {name : String} {tss : List Nat} :
    (name, tss) ∈ rebuildSnapshotsByAgent user tags ↔
      (∃ ts, (name, ts) ∈ tags.filterMap (parseRebuildSnapshot user)) ∧
        tss =
          (((tags.filterMap (parseRebuildSnapshot user)).filter (·.1 = name)).map
            (·.2)).insertionSort (· ≤ ·) := by
  simp only [rebuildSnapshotsByAgent, List.mem_map, List.mem_dedup, Prod.mk.injEq]
  constructor
  · rintro ⟨_, ⟨⟨_, ts⟩, hmem, rfl⟩, rfl, rfl⟩
    exact ⟨⟨ts, hmem⟩, rfl⟩
  · rintro ⟨⟨ts, hmem⟩, rfl⟩
    exact ⟨name, ⟨(name, ts), hmem, rfl⟩, rfl, rfl⟩

end Docker
end Vestad
end Vesta
