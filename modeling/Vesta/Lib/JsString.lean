import Mathlib.Data.List.DropRight
import Mathlib.Tactic.SplitIfs
import Vesta.Lib.Text

/-!
# Strings of UTF-16 code units

A JavaScript string is a list of code units: a character beyond the first plane is two of
them, and a unit of such a pair may also stand alone, so that not every string is a text.

Replacing a pattern goes through a string once and does not look at what it put in.  A
string is written in tokens when each of them is a reference, from its start to its stop,
or a single unit that starts none; replacing one reference then replaces whole tokens.
-/

namespace Vesta
namespace Lib
namespace JsString

/-- `String.fromCodePoint`. -/
def fromCodePoint (n : Nat) : List Nat :=
  if n < 0x10000 then [n]
  else [0xD800 + (n - 0x10000) / 0x400, 0xDC00 + (n - 0x10000) % 0x400]

/-- The code units of a text. -/
def units (text : Text) : List Nat := text.flatMap fun c => fromCodePoint c.toNat

/-- The units that `String.prototype.trim` removes. -/
def isSpace (n : Nat) : Bool :=
  (9 ≤ n && n ≤ 13) || n == 32 || n == 0xA0 || n == 0x1680 || (0x2000 ≤ n && n ≤ 0x200A) ||
    n == 0x2028 || n == 0x2029 || n == 0x202F || n == 0x205F || n == 0x3000 || n == 0xFEFF

def trim (text : List Nat) : List Nat := (text.dropWhile isSpace).rdropWhile isSpace

section Replacing

variable {α : Type} [DecidableEq α]

/-- Replace a pattern from here on, when the next units still belong to one that was
replaced. -/
def replaceFrom (pattern replacement : List α) : Nat → List α → List α
  | _, [] => []
  | skip + 1, _ :: rest => replaceFrom pattern replacement skip rest
  | 0, c :: rest =>
      if pattern.isPrefixOf (c :: rest) then
        replacement ++ replaceFrom pattern replacement (pattern.length - 1) rest
      else
        c :: replaceFrom pattern replacement 0 rest

/-- `String.prototype.replaceAll`. -/
def replaceAll (pattern replacement text : List α) : List α :=
  replaceFrom pattern replacement 0 text

/-- What is put between a start and a stop. -/
structure IsReference (start stop : α) (token : List α) : Prop where
  ends : ∃ name, token = start :: (name ++ [stop]) ∧ start ∉ name ∧ stop ∉ name
  distinct : start ≠ stop

/-- A reference, or a single unit that starts none. -/
def IsToken (start stop : α) (token : List α) : Prop :=
  IsReference start stop token ∨ ∃ c, c ≠ start ∧ token = [c]

variable {start stop : α} {pattern token : List α}

theorem replaceFrom_skip (replacement taken rest : List α) :
    replaceFrom pattern replacement taken.length (taken ++ rest) =
      replaceFrom pattern replacement 0 rest := by
  induction taken with
  | nil => rfl
  | cons c taken ih => exact ih

/-- Units that do not start the pattern stay. -/
theorem replaceFrom_stays
    (hpattern : IsReference start stop pattern)
    {taken : List α}
    (htaken : start ∉ taken)
    (replacement rest : List α) :
    replaceFrom pattern replacement 0 (taken ++ rest) =
      taken ++ replaceFrom pattern replacement 0 rest := by
  induction taken with
  | nil => rfl
  | cons c taken ih =>
      obtain ⟨hc, htaken⟩ := not_or.1 (mt List.mem_cons.2 htaken)
      obtain ⟨name, rfl, -⟩ := hpattern.ends
      have hfront : ¬(start :: (name ++ [stop])).isPrefixOf (c :: (taken ++ rest)) = true := by
        simp [List.isPrefixOf, hc]
      rw [List.cons_append, replaceFrom, if_neg hfront, ih htaken]
      rfl

omit [DecidableEq α] in
/-- A list up to its first stop is told by what follows. -/
theorem eq_of_append_stop
    {a b rest rest' : List α}
    (ha : stop ∉ a)
    (hb : stop ∉ b)
    (h : a ++ stop :: rest = b ++ stop :: rest') :
    a = b := by
  induction a generalizing b with
  | nil =>
      cases b with
      | nil => rfl
      | cons d b =>
          cases h
          exact absurd List.mem_cons_self hb
  | cons c a ih =>
      cases b with
      | nil =>
          cases h
          exact absurd List.mem_cons_self ha
      | cons d b =>
          obtain ⟨rfl, htail⟩ := List.cons.inj h
          rw [ih (fun hmem => ha (List.mem_cons_of_mem _ hmem))
            (fun hmem => hb (List.mem_cons_of_mem _ hmem)) htail]

/-- A reference is at the front of a string only where the string begins with it as a
token. -/
theorem isPrefixOf_reference_iff
    (hpattern : IsReference start stop pattern)
    (htoken : IsReference start stop token)
    (rest : List α) :
    pattern.isPrefixOf (token ++ rest) = true ↔ token = pattern := by
  rw [List.isPrefixOf_iff_prefix]
  constructor
  · rintro ⟨tail, htail⟩
    obtain ⟨name, rfl, -, hname⟩ := hpattern.ends
    obtain ⟨other, rfl, -, hother⟩ := htoken.ends
    have hrest : name ++ stop :: tail = other ++ stop :: rest := by
      simpa using htail
    rw [eq_of_append_stop hname hother hrest]
  · rintro rfl
    exact List.prefix_append _ _

/-- Replacing a reference in a string of tokens replaces the tokens that are it. -/
theorem replaceAll_flatten
    (replacement : List α)
    (hpattern : IsReference start stop pattern)
    {tokens : List (List α)}
    (htokens : ∀ token ∈ tokens, IsToken start stop token) :
    replaceAll pattern replacement tokens.flatten =
      (tokens.map fun token => if token = pattern then replacement else token).flatten := by
  rw [replaceAll]
  induction tokens with
  | nil => rfl
  | cons token tokens ih =>
      have ih := ih fun other hmem => htokens other (List.mem_cons_of_mem _ hmem)
      rw [List.flatten_cons, List.map_cons, List.flatten_cons, ← ih]
      rcases htokens token List.mem_cons_self with href | ⟨c, hc, rfl⟩
      · obtain ⟨name, hname, hstart, -⟩ := href.ends
        have hfront := isPrefixOf_reference_iff hpattern href tokens.flatten
        have hstays : start ∉ name ++ [stop] := by
          simp [hstart, href.distinct]
        rw [hname, List.cons_append] at hfront ⊢
        rw [replaceFrom]
        by_cases heq : start :: (name ++ [stop]) = pattern
        · rw [if_pos (hfront.2 heq), if_pos heq, ← heq]
          have hlength : (start :: (name ++ [stop])).length - 1 = (name ++ [stop]).length := by
            simp
          rw [hlength, replaceFrom_skip]
        · rw [if_neg fun h => heq (hfront.1 h), if_neg heq, replaceFrom_stays hpattern hstays]
          rfl
      · have hne : ¬[c] = pattern := by
          rintro rfl
          obtain ⟨name, hname, -⟩ := hpattern.ends
          exact hc (List.cons.inj hname).1
        rw [if_neg hne]
        exact replaceFrom_stays hpattern (by simpa using fun h => hc h.symm) _ _

/-- Tokens stay tokens when one becomes a single unit that starts none. -/
theorem isToken_replaced
    {c : α}
    (hc : c ≠ start)
    (h : IsToken start stop token) :
    IsToken start stop (if token = pattern then [c] else token) := by
  split
  · exact Or.inr ⟨c, hc, rfl⟩
  · exact h

end Replacing

/-! ## The code units of a text -/

theorem units_append (a b : Text) : units (a ++ b) = units a ++ units b :=
  List.flatMap_append

theorem units_cons (c : Char) (text : Text) :
    units (c :: text) = fromCodePoint c.toNat ++ units text :=
  rfl

theorem fromCodePoint_of_lt
    {n : Nat}
    (h : n < 0x10000) :
    fromCodePoint n = [n] :=
  if_pos h

/-- The units of a character beyond the first plane are surrogates. -/
theorem surrogate_of_mem
    {n unit : Nat}
    (h : ¬n < 0x10000)
    (hmem : unit ∈ fromCodePoint n) :
    0xD800 ≤ unit := by
  rw [fromCodePoint, if_neg h] at hmem
  rcases List.mem_cons.1 hmem with rfl | hmem
  · omega
  · rw [List.mem_singleton.1 hmem]
    omega

/-- A unit before the surrogates is a character of its own. -/
theorem mem_units_iff
    {unit : Nat} {text : Text}
    (hunit : unit < 0xD800) :
    unit ∈ units text ↔ ∃ c ∈ text, c.toNat = unit := by
  rw [units, List.mem_flatMap]
  refine exists_congr fun c => and_congr_right fun _ => ?_
  by_cases hc : c.toNat < 0x10000
  · rw [fromCodePoint_of_lt hc, List.mem_singleton, eq_comm]
  · constructor
    · intro hmem
      have hsurrogate := surrogate_of_mem hc hmem
      omega
    · intro heq
      omega

theorem toNat_lt (c : Char) : c.toNat < 0x110000 := by
  rcases c.valid with hlow | ⟨-, hhigh⟩
  · exact Nat.lt_trans hlow (by decide)
  · exact hhigh

/-- The units tell the text. -/
theorem units_injective
    {a b : Text}
    (h : units a = units b) :
    a = b := by
  -- no character of the first plane is a surrogate
  have hplane : ∀ c : Char, c.toNat < 0x10000 → c.toNat < 0xD800 ∨ 0xE000 ≤ c.toNat := by
    intro c hc
    rcases c.valid with hlow | ⟨hhigh, -⟩
    · exact Or.inl hlow
    · exact Or.inr (Nat.succ_le_of_lt hhigh)
  induction a generalizing b with
  | nil =>
      cases b with
      | nil => rfl
      | cons d b =>
          rw [units_cons, fromCodePoint] at h
          split_ifs at h <;> cases h
  | cons c a ih =>
      cases b with
      | nil =>
          rw [units_cons, fromCodePoint] at h
          split_ifs at h <;> cases h
      | cons d b =>
          rw [units_cons, units_cons] at h
          have hcMax := toNat_lt c
          have hdMax := toNat_lt d
          by_cases hc : c.toNat < 0x10000 <;> by_cases hd : d.toNat < 0x10000
          · rw [fromCodePoint_of_lt hc, fromCodePoint_of_lt hd] at h
            obtain ⟨hhead, htail⟩ := List.cons.inj h
            rw [Char.toNat_inj.1 hhead, ih htail]
          · rw [fromCodePoint_of_lt hc, fromCodePoint, if_neg hd] at h
            have hhead := (List.cons.inj h).1
            have := hplane c hc
            omega
          · rw [fromCodePoint_of_lt hd, fromCodePoint, if_neg hc] at h
            have hhead := (List.cons.inj h).1
            have := hplane d hd
            omega
          · rw [fromCodePoint, if_neg hc, fromCodePoint, if_neg hd] at h
            obtain ⟨hhigh, htail⟩ := List.cons.inj h
            obtain ⟨hlow, htail⟩ := List.cons.inj htail
            have hhead : c.toNat = d.toNat := by omega
            rw [Char.toNat_inj.1 hhead, ih htail]

end JsString
end Lib
end Vesta
