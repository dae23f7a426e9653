import Mathlib.Data.List.TakeWhile
import Vesta.Lib.JsString
import Vesta.Lib.Markup

/-!
# Decoding entities

The app decodes a value in several passes: each named entity, the ampersand's last, and
then the numeric ones over what the named ones became.  The named passes undo what Python's
`escape` and `quoteattr` wrote, and the numeric one what `quoteattr` wrote of white space.
A text that holds a numeric entity itself is decoded once more than it was encoded.
-/

namespace Vesta
namespace Core
namespace Notifications
namespace Content

open Lib JsString

/-! ## Entities -/

def isDigit (n : Nat) : Bool := 48 ≤ n && n ≤ 57

def isHexDigit (n : Nat) : Bool := isDigit n || (65 ≤ n && n ≤ 70) || (97 ≤ n && n ≤ 102)

def digitValue (n : Nat) : Nat :=
  if n ≤ 57 then n - 48 else if n ≤ 70 then n - 55 else n - 87

def parseDigits (base : Nat) (digits : List Nat) : Nat :=
  digits.foldl (fun value digit => base * value + digitValue digit) 0

/-- Digits and a semicolon: the number, and how many units they take. -/
def readDigits (digit : Nat → Bool) (base : Nat) (text : List Nat) : Option (Nat × Nat) :=
  let digits := text.takeWhile digit
  if digits ≠ [] ∧ (text.drop digits.length).head? = some 59 then
    some (parseDigits base digits, digits.length + 1)
  else
    none

/-- What follows the ampersand of a numeric entity: the code point, and how many units the
entity goes on for.  One beyond the last code point stays as it stands. -/
def numericEntity (text : List Nat) : Option (Nat × Nat) :=
  match text with
  | 35 :: lead :: rest =>
      let read :=
        if lead = 120 ∨ lead = 88 then
          (readDigits isHexDigit 16 rest).map fun read => (read.1, read.2 + 2)
        else
          (readDigits isDigit 10 (lead :: rest)).map fun read => (read.1, read.2 + 1)
      read.filter fun read => read.1 ≤ 0x10FFFF
  | _ => none

/-- Replace the numeric entities from here on, when the next units belong to one. -/
def replaceNumeric : Nat → List Nat → List Nat
  | _, [] => []
  | skip + 1, _ :: rest => replaceNumeric skip rest
  | 0, c :: rest =>
      match (if c = 38 then numericEntity rest else none) with
      | some (codePoint, length) => fromCodePoint codePoint ++ replaceNumeric length rest
      | none => c :: replaceNumeric 0 rest

/-- The named entities, in the order they are replaced. -/
def namedEntities : List (Text × Char) :=
  [("&lt;".toList, '<'), ("&gt;".toList, '>'), ("&quot;".toList, Markup.doubleQuote),
   ("&apos;".toList, Markup.singleQuote), ("&amp;".toList, '&')]

def replaceNamed (value : List Nat) : List Nat :=
  namedEntities.foldl
    (fun value entity => replaceAll (units entity.1) [entity.2.toNat] value) value

def decodeXml (value : List Nat) : List Nat := replaceNumeric 0 (replaceNamed value)

/-- A text that holds a numeric entity. -/
def hasNumeric : List Nat → Bool
  | [] => false
  | c :: rest => (c == 38 && (numericEntity rest).isSome) || hasNumeric rest

/-! ## Numeric entities -/

section Numeric

variable {text : List Nat}

/-- The units of which an entity has three and what it stands for at most one. -/
def isMark (n : Nat) : Bool := n == 38 || n == 35 || n == 59

def marks (text : List Nat) : Nat := text.countP isMark

theorem marks_append (a b : List Nat) : marks (a ++ b) = marks a + marks b :=
  List.countP_append

theorem marks_cons (n : Nat) (text : List Nat) :
    marks (n :: text) = marks text + if isMark n then 1 else 0 :=
  List.countP_cons

theorem marks_fromCodePoint (n : Nat) : marks (fromCodePoint n) ≤ 1 := by
  by_cases h : n < 0x10000
  · rw [fromCodePoint_of_lt h]
    exact List.countP_le_length
  · have hnone : marks (fromCodePoint n) = 0 := by
      refine List.countP_eq_zero.2 fun unit hmem => ?_
      have hsurrogate := surrogate_of_mem h hmem
      simp only [isMark, Bool.or_eq_true, beq_iff_eq]
      omega
    omega

/-- The white space that `quoteattr` writes as numeric entities. -/
def spaced (n : Nat) : List Nat :=
  if n = 10 then units "&#10;".toList
  else if n = 13 then units "&#13;".toList
  else if n = 9 then units "&#9;".toList
  else [n]

/-- White space is written from an ampersand on, and anything else as it is. -/
theorem spaced_cases (n : Nat) :
    (n ∈ [9, 10, 13] ∧ ∃ tail, spaced n = 38 :: tail ∧
      ∀ rest, replaceNumeric 0 (spaced n ++ rest) = n :: replaceNumeric 0 rest) ∨
    (n ∉ [9, 10, 13] ∧ spaced n = [n]) := by
  by_cases hten : n = 10
  · exact Or.inl ⟨by simp [hten], _, by rw [hten]; rfl, fun rest => by rw [hten]; rfl⟩
  · by_cases hthirteen : n = 13
    · exact Or.inl ⟨by simp [hthirteen], _, by rw [hthirteen]; rfl,
        fun rest => by rw [hthirteen]; rfl⟩
    · by_cases hnine : n = 9
      · exact Or.inl ⟨by simp [hnine], _, by rw [hnine]; rfl, fun rest => by rw [hnine]; rfl⟩
      · exact Or.inr ⟨by simp [hten, hthirteen, hnine],
          by rw [spaced, if_neg hten, if_neg hthirteen, if_neg hnine]⟩

section Digits

variable {digit : Nat → Bool}

/-- The digits at the front of a text are the same when its white space is written out, and
so is what follows them. -/
theorem takeWhile_spaced
    (hdigit : ∀ n ∈ [9, 10, 13, 38], digit n = false)
    (text : List Nat) :
    (text.flatMap spaced).takeWhile digit = text.takeWhile digit ∧
      (text.flatMap spaced).drop (text.takeWhile digit).length =
        (text.drop (text.takeWhile digit).length).flatMap spaced := by
  induction text with
  | nil => exact ⟨rfl, rfl⟩
  | cons n text ih =>
      rw [List.flatMap_cons]
      rcases spaced_cases n with ⟨hspace, tail, hspaced, -⟩ | ⟨-, hspaced⟩
      · have hn : digit n = false := by
          refine hdigit n ?_
          simp only [List.mem_cons, List.not_mem_nil, or_false] at hspace ⊢
          omega
        simp [hspaced, hn, hdigit 38 (by decide)]
      · rw [hspaced]
        cases hn : digit n with
        | true => simp [hn, ih.1, ih.2]
        | false => simp [hn, hspaced]

theorem head?_spaced (text : List Nat) :
    (text.flatMap spaced).head? = some 59 ↔ text.head? = some 59 := by
  cases text with
  | nil => exact Iff.rfl
  | cons n text =>
      rw [List.flatMap_cons]
      rcases spaced_cases n with ⟨hspace, tail, hspaced, -⟩ | ⟨-, hspaced⟩
      · rw [hspaced]
        simp only [List.mem_cons, List.not_mem_nil, or_false] at hspace
        simp only [List.cons_append, List.head?_cons, Option.some_inj]
        omega
      · rw [hspaced]
        rfl

theorem readDigits_spaced
    (base : Nat)
    (hdigit : ∀ n ∈ [9, 10, 13, 38], digit n = false)
    (text : List Nat) :
    readDigits digit base (text.flatMap spaced) = readDigits digit base text := by
  obtain ⟨htake, hdrop⟩ := takeWhile_spaced hdigit text
  simp only [readDigits, htake, hdrop, head?_spaced]

/-- Where digits and a semicolon are read. -/
theorem readDigits_some
    {base : Nat} {text : List Nat} {read : Nat × Nat}
    (h : readDigits digit base text = some read) :
    ∃ digits rest, text = digits ++ 59 :: rest ∧ (∀ n ∈ digits, digit n = true) ∧
      read.2 = digits.length + 1 := by
  rw [readDigits] at h
  split at h
  · rename_i hread
    cases h
    obtain ⟨tail, htail⟩ := List.head?_eq_some_iff.1 hread.2
    refine ⟨text.takeWhile digit, tail, ?_, fun n hmem => List.mem_takeWhile_imp hmem, rfl⟩
    rw [← htail]
    exact (List.prefix_iff_eq_append.1 (List.takeWhile_prefix digit)).symm
  · cases h

end Digits

theorem hexDigit_false : ∀ n ∈ [9, 10, 13, 38], isHexDigit n = false := by decide

theorem digit_false : ∀ n ∈ [9, 10, 13, 38], isDigit n = false := by decide

theorem numericEntity_spaced (text : List Nat) :
    numericEntity (text.flatMap spaced) = numericEntity text := by
  have hother : ∀ n rest, n ≠ 35 → numericEntity (n :: rest) = none := by
    intro n rest hn
    rw [numericEntity]
    rintro lead tail heq
    exact hn (List.cons.inj heq).1
  cases text with
  | nil => rfl
  | cons n text =>
      by_cases hn : n = 35
      · subst hn
        cases text with
        | nil => rfl
        | cons lead text =>
            have hfront : ((35 :: lead :: text : List Nat)).flatMap spaced =
                35 :: (spaced lead ++ text.flatMap spaced) := rfl
            have hlead := readDigits_spaced 10 digit_false (lead :: text)
            rw [List.flatMap_cons] at hlead
            rw [hfront]
            rcases spaced_cases lead with ⟨hspace, tail, hspaced, -⟩ | ⟨-, hspaced⟩
            · have hx : ¬(lead = 120 ∨ lead = 88) := by
                simp only [List.mem_cons, List.not_mem_nil, or_false] at hspace
                omega
              rw [hspaced, List.cons_append] at hlead ⊢
              rw [numericEntity, numericEntity, if_neg hx, if_neg (by decide), hlead]
            · rw [hspaced, List.singleton_append] at hlead ⊢
              rw [numericEntity, numericEntity, hlead, readDigits_spaced 16 hexDigit_false]
      · rw [List.flatMap_cons, hother n text hn]
        rcases spaced_cases n with ⟨-, tail, hspaced, -⟩ | ⟨-, hspaced⟩
        · rw [hspaced]
          exact hother 38 _ (by decide)
        · rw [hspaced]
          exact hother n _ hn

/-- A numeric entity goes on to its semicolon, with its hash before and no white space. -/
theorem numericEntity_some
    {text : List Nat} {read : Nat × Nat}
    (h : numericEntity text = some read) :
    ∃ inner rest, text = inner ++ 59 :: rest ∧ 35 ∈ inner ∧
      (∀ n ∈ inner, n ∉ [9, 10, 13]) ∧ read.2 = inner.length + 1 := by
  have hclear : ∀ digit : Nat → Bool, (∀ n ∈ [9, 10, 13, 38], digit n = false) →
      ∀ n, digit n = true → n ∉ [9, 10, 13] := by
    intro digit hdigit n hn hspace
    rw [hdigit n (by
      simp only [List.mem_cons, List.not_mem_nil, or_false] at hspace ⊢
      omega)] at hn
    cases hn
  unfold numericEntity at h
  split at h
  · rename_i lead rest
    have h := (Option.filter_eq_some_iff.1 h).1
    split at h
    · rename_i hlead
      obtain ⟨found, hfound, rfl⟩ := Option.map_eq_some_iff.1 h
      obtain ⟨digits, tail, htext, hdigits, hlength⟩ := readDigits_some hfound
      refine ⟨35 :: lead :: digits, tail, by rw [htext]; rfl, List.mem_cons_self, ?_, by
        simp [hlength]⟩
      intro n hmem
      rcases List.mem_cons.1 hmem with rfl | hmem
      · decide
      · rcases List.mem_cons.1 hmem with rfl | hmem
        · simp only [List.mem_cons, List.not_mem_nil, or_false]
          omega
        · exact hclear isHexDigit hexDigit_false n (hdigits n hmem)
    · obtain ⟨found, hfound, rfl⟩ := Option.map_eq_some_iff.1 h
      obtain ⟨digits, tail, htext, hdigits, hlength⟩ := readDigits_some hfound
      refine ⟨35 :: digits, tail, by rw [htext]; rfl, List.mem_cons_self, ?_, by
        simp [hlength]⟩
      intro n hmem
      rcases List.mem_cons.1 hmem with rfl | hmem
      · decide
      · exact hclear isDigit digit_false n (hdigits n hmem)
  · cases h

/-- Writing white space out is undone by the numeric pass, and changes nothing else of it. -/
theorem replaceNumeric_spaced
    (skip : Nat) {text : List Nat}
    (hskip : ∀ n ∈ text.take skip, n ∉ [9, 10, 13]) :
    replaceNumeric skip (text.flatMap spaced) = replaceNumeric skip text := by
  induction text generalizing skip with
  | nil => rfl
  | cons n text ih =>
      rw [List.flatMap_cons]
      cases skip with
      | succ skip =>
          rw [List.take_succ_cons] at hskip
          rcases spaced_cases n with ⟨hspace, -⟩ | ⟨-, hspaced⟩
          · exact absurd hspace (hskip n List.mem_cons_self)
          · rw [hspaced]
            exact ih skip fun m hmem => hskip m (List.mem_cons_of_mem _ hmem)
      | zero =>
          have hrest := ih 0 fun m hmem => absurd hmem List.not_mem_nil
          rcases spaced_cases n with ⟨hspace, -, -, hundone⟩ | ⟨-, hspaced⟩
          · have hn : n ≠ 38 := by
              simp only [List.mem_cons, List.not_mem_nil, or_false] at hspace
              omega
            rw [hundone, hrest, replaceNumeric, if_neg hn]
          · rw [hspaced, List.singleton_append, replaceNumeric, replaceNumeric,
              numericEntity_spaced, hrest]
            split
            · rename_i codePoint length hentity
              split at hentity
              · obtain ⟨inner, rest, rfl, -, hclear, hlength⟩ := numericEntity_some hentity
                rw [ih length fun m hmem => ?_]
                have htaken : (inner ++ [59]).length = length := by
                  rw [List.length_append]
                  exact hlength.symm
                have hmem' : m ∈ inner ++ [59] := by
                  have hshape : inner ++ 59 :: rest = (inner ++ [59]) ++ rest := by simp
                  rw [hshape, List.take_left' htaken] at hmem
                  exact hmem
                rcases List.mem_append.1 hmem' with hinner | hstop
                · exact hclear m hinner
                · rw [List.mem_singleton.1 hstop]
                  decide
              · cases hentity
            · rfl

theorem marks_replaceNumeric
    (skip : Nat) (text : List Nat) :
    marks (replaceNumeric skip text) ≤ marks (text.drop skip) ∧
      (hasNumeric (text.drop skip) = true →
        marks (replaceNumeric skip text) < marks (text.drop skip)) := by
  induction text generalizing skip with
  | nil =>
      have hempty : ([] : List Nat).drop skip = [] := List.drop_nil
      rw [hempty]
      cases skip <;> exact ⟨Nat.le_refl _, fun h => absurd h Bool.false_ne_true⟩
  | cons n text ih =>
      cases skip with
      | succ skip => exact ih skip
      | zero =>
          rw [List.drop_zero, replaceNumeric, marks_cons]
          split
          · rename_i codePoint length hentity
            split at hentity
            · rename_i hn
              obtain ⟨inner, rest, rfl, hhash, -, hlength⟩ := numericEntity_some hentity
              have hlength : (inner ++ [59]).length = length := by
                rw [List.length_append]
                exact hlength.symm
              have hshape : inner ++ 59 :: rest = (inner ++ [59]) ++ rest := by simp
              have hmarks : 2 ≤ marks (inner ++ [59]) := by
                have hpos : 0 < marks inner := List.countP_pos_iff.2 ⟨35, hhash, by decide⟩
                have hstop : marks [59] = 1 := by decide
                rw [marks_append]
                omega
              have hfirst := marks_fromCodePoint codePoint
              have hrest := (ih length).1
              rw [hshape, List.drop_left' hlength] at hrest
              rw [hshape, marks_append, marks_append (inner ++ [59])]
              omega
            · cases hentity
          · rename_i hentity
            have hrest := ih 0
            rw [List.drop_zero] at hrest
            rw [marks_cons]
            refine ⟨by omega, fun hnumeric => ?_⟩
            have hlater : hasNumeric text = true := by
              rw [hasNumeric, Bool.or_eq_true, Bool.and_eq_true, beq_iff_eq] at hnumeric
              rcases hnumeric with ⟨hn, hsome⟩ | hlater
              · rw [if_pos hn] at hentity
                rw [hentity] at hsome
                cases hsome
              · exact hlater
            have hless := hrest.2 hlater
            omega

/-- The numeric pass keeps a text without numeric entities. -/
theorem replaceNumeric_of_none
    (h : hasNumeric text = false) :
    replaceNumeric 0 text = text := by
  induction text with
  | nil => rfl
  | cons n text ih =>
      rw [hasNumeric, Bool.or_eq_false_iff, Bool.and_eq_false_iff] at h
      have hnone : (if n = 38 then numericEntity text else none) = none := by
        split
        · rename_i hn
          rcases h.1 with hne | hnone
          · simp [hn] at hne
          · simpa using hnone
        · rfl
      rw [replaceNumeric, hnone, ih h.2]

theorem marks_trim (text : List Nat) : marks (trim text) = marks text := by
  have hblank : ∀ n, isSpace n = true → isMark n = false := by
    intro n hn
    by_contra hmark
    simp only [isMark, Bool.not_eq_false, Bool.or_eq_true, beq_iff_eq] at hmark
    rcases hmark with (rfl | rfl) | rfl <;> exact absurd hn (by decide)
  have hdrop : ∀ text : List Nat, marks (text.dropWhile isSpace) = marks text := by
    intro text
    induction text with
    | nil => rfl
    | cons n text ih =>
        rw [List.dropWhile_cons]
        split
        · rename_i hn
          rw [ih, marks_cons, hblank n hn]
          rfl
        · rfl
  have hreverse : ∀ text : List Nat, marks text.reverse = marks text :=
    fun text => List.countP_reverse
  rw [trim, List.rdropWhile, hreverse, hdrop, hreverse, hdrop]

/-- The numeric pass keeps a text exactly when there is no numeric entity in it. -/
theorem replaceNumeric_eq_iff (text : List Nat) :
    replaceNumeric 0 text = text ↔ hasNumeric text = false := by
  refine ⟨fun h => ?_, replaceNumeric_of_none⟩
  by_contra hnumeric
  have hless := (marks_replaceNumeric 0 text).2 (by simpa using hnumeric)
  rw [h, List.drop_zero] at hless
  exact Nat.lt_irrefl _ hless

/-- Trimming hides no numeric entity that was replaced. -/
theorem trim_replaceNumeric_eq_iff (text : List Nat) :
    trim (replaceNumeric 0 text) = trim text ↔ hasNumeric text = false := by
  refine ⟨fun h => ?_, fun h => by rw [replaceNumeric_of_none h]⟩
  by_contra hnumeric
  have hless := (marks_replaceNumeric 0 text).2 (by simpa using hnumeric)
  have hsame := congrArg marks h
  rw [marks_trim, marks_trim] at hsame
  rw [hsame, List.drop_zero] at hless
  exact Nat.lt_irrefl _ hless

end Numeric

/-! ## Decoding what was encoded -/

section Named

/-- What the named pass makes of a token. -/
def replaceToken (token : List Nat) : List Nat :=
  namedEntities.foldl
    (fun token entity => if token = units entity.1 then [entity.2.toNat] else token) token

/-- Replacing entities that do not become an ampersand leaves tokens. -/
theorem replaceAll_entities
    (entities : List (Text × Char))
    (hentities : ∀ entity ∈ entities,
      IsReference 38 59 (units entity.1) ∧ entity.2.toNat ≠ 38)
    {tokens : List (List Nat)}
    (htokens : ∀ token ∈ tokens, IsToken 38 59 token) :
    let replaced := tokens.map fun token => entities.foldl
      (fun token entity => if token = units entity.1 then [entity.2.toNat] else token) token
    entities.foldl (fun value entity => replaceAll (units entity.1) [entity.2.toNat] value)
        tokens.flatten = replaced.flatten ∧
      ∀ token ∈ replaced, IsToken 38 59 token := by
  induction entities generalizing tokens with
  | nil =>
      have hsame : tokens.map (fun token => token) = tokens := List.map_id' tokens
      dsimp only [List.foldl_nil]
      rw [hsame]
      exact ⟨rfl, htokens⟩
  | cons entity entities ih =>
      obtain ⟨href, hne⟩ := hentities entity List.mem_cons_self
      have hnext : ∀ token ∈ tokens.map
          (fun token => if token = units entity.1 then [entity.2.toNat] else token),
          IsToken 38 59 token := by
        intro token hmem
        obtain ⟨first, hfirst, rfl⟩ := List.mem_map.1 hmem
        exact isToken_replaced hne (htokens first hfirst)
      have hrest := ih (fun other hmem => hentities other (List.mem_cons_of_mem _ hmem)) hnext
      simp only [List.foldl_cons, replaceAll_flatten [entity.2.toNat] href htokens]
      simpa only [List.map_map, Function.comp_def] using hrest

theorem reference_named :
    ∀ entity ∈ namedEntities, IsReference 38 59 (units entity.1) := by
  intro entity hmem
  have hname : ∃ name, units entity.1 = 38 :: (name ++ [59]) ∧ 38 ∉ name ∧ 59 ∉ name := by
    simp only [namedEntities, List.mem_cons, List.not_mem_nil, or_false] at hmem
    rcases hmem with rfl | rfl | rfl | rfl | rfl
    · exact ⟨units "lt".toList, by decide, by decide, by decide⟩
    · exact ⟨units "gt".toList, by decide, by decide, by decide⟩
    · exact ⟨units "quot".toList, by decide, by decide, by decide⟩
    · exact ⟨units "apos".toList, by decide, by decide, by decide⟩
    · exact ⟨units "amp".toList, by decide, by decide, by decide⟩
  exact ⟨hname, by decide⟩

/-- The ampersand comes last, so no pass sees what another one put in. -/
theorem replaceNamed_flatten
    {tokens : List (List Nat)}
    (htokens : ∀ token ∈ tokens, IsToken 38 59 token) :
    replaceNamed tokens.flatten = (tokens.map replaceToken).flatten := by
  have hsplit : namedEntities = namedEntities.dropLast ++ [("&amp;".toList, '&')] := by decide
  have hfront := replaceAll_entities namedEntities.dropLast
    (fun entity hmem => ⟨reference_named entity (List.dropLast_subset _ hmem), by
      revert entity
      decide⟩) htokens
  have hamp : IsReference 38 59 (units "&amp;".toList) :=
    reference_named ("&amp;".toList, '&') (by decide)
  have hlast := replaceAll_flatten ['&'.toNat] hamp hfront.2
  rw [replaceNamed, hsplit, List.foldl_append, hfront.1, List.foldl_cons, List.foldl_nil, hlast,
    List.map_map]
  refine congrArg List.flatten (List.map_congr_left fun token _ => ?_)
  rw [replaceToken, hsplit, List.foldl_append]
  rfl

/-- How a character is written, in tokens. -/
def tokens (write : Char → Text) (c : Char) : List (List Nat) :=
  if write c = [c] then (fromCodePoint c.toNat).map fun unit => [unit] else [units (write c)]

/-- A writer whose texts the named pass turns into their units, except for some that it
leaves written as `left` says. -/
structure Undone (write : Char → Text) (left : Nat → List Nat) : Prop where
  isToken : ∀ c, ∀ token ∈ tokens write c, IsToken 38 59 token
  replaced : ∀ c, ((tokens write c).map replaceToken).flatten =
    (fromCodePoint c.toNat).flatMap left

theorem flatten_tokens (write : Char → Text) (c : Char) :
    (tokens write c).flatten = units (write c) := by
  rw [tokens]
  split
  · rename_i hplain
    rw [hplain, units_cons, ← List.flatMap_def]
    simp [units]
  · simp

theorem replaceNamed_written
    {write : Char → Text} {left : Nat → List Nat}
    (h : Undone write left)
    (text : Text) :
    replaceNamed (units (text.flatMap write)) = (units text).flatMap left := by
  have hwritten : units (text.flatMap write) = (text.flatMap (tokens write)).flatten := by
    induction text with
    | nil => rfl
    | cons c text ih =>
        rw [List.flatMap_cons, List.flatMap_cons, units_append, ih, List.flatten_append,
          flatten_tokens]
  have htokens : ∀ token ∈ text.flatMap (tokens write), IsToken 38 59 token := by
    intro token hmem
    obtain ⟨c, -, htoken⟩ := List.mem_flatMap.1 hmem
    exact h.isToken c token htoken
  rw [hwritten, replaceNamed_flatten htokens]
  clear hwritten htokens
  induction text with
  | nil => rfl
  | cons c text ih =>
      rw [List.flatMap_cons, List.map_append, List.flatten_append, ih, h.replaced, units_cons,
        List.flatMap_append]

theorem replaceToken_singleton (n : Nat) : replaceToken [n] = [n] := by
  have hne : ∀ entity ∈ namedEntities, [n] ≠ units entity.1 := by
    intro entity hmem heq
    obtain ⟨name, hname, -⟩ := (reference_named entity hmem).ends
    rw [hname] at heq
    have hlength := congrArg List.length heq
    simp at hlength
  rw [replaceToken]
  generalize namedEntities = entities at hne
  induction entities with
  | nil => rfl
  | cons entity entities ih =>
      rw [List.foldl_cons, if_neg (hne entity List.mem_cons_self)]
      exact ih fun other hmem => hne other (List.mem_cons_of_mem _ hmem)

/-- A character that is written as it is, and is not left written otherwise. -/
theorem undone_plain
    {write : Char → Text} {left : Nat → List Nat} {c : Char}
    (hplain : write c = [c])
    (hamp : c ≠ '&')
    (hleft : ∀ unit ∈ fromCodePoint c.toNat, left unit = [unit]) :
    (∀ token ∈ tokens write c, IsToken 38 59 token) ∧
      ((tokens write c).map replaceToken).flatten = (fromCodePoint c.toNat).flatMap left := by
  rw [tokens, if_pos hplain]
  constructor
  · intro token hmem
    obtain ⟨unit, hunit, rfl⟩ := List.mem_map.1 hmem
    refine Or.inr ⟨unit, ?_, rfl⟩
    rintro rfl
    by_cases hc : c.toNat < 0x10000
    · rw [fromCodePoint_of_lt hc, List.mem_singleton] at hunit
      exact hamp (Char.toNat_inj.1 hunit.symm)
    · have hsurrogate := surrogate_of_mem hc hunit
      omega
  · rw [List.map_map, ← List.flatMap_def]
    refine List.flatMap_congr fun unit hunit => ?_
    rw [Function.comp_apply, replaceToken_singleton, hleft unit hunit]

/-- A character that is written as a reference. -/
theorem undone_reference
    {write : Char → Text} {left : Nat → List Nat} {c : Char}
    (token : Text)
    (hwrite : write c = token)
    (hne : token ≠ [c])
    (href : IsReference 38 59 (units token))
    (hreplaced : replaceToken (units token) = (fromCodePoint c.toNat).flatMap left) :
    (∀ token ∈ tokens write c, IsToken 38 59 token) ∧
      ((tokens write c).map replaceToken).flatten = (fromCodePoint c.toNat).flatMap left := by
  rw [tokens, if_neg (hwrite ▸ hne), hwrite]
  constructor
  · intro other hmem
    rw [List.mem_singleton.1 hmem]
    exact Or.inl href
  · rw [List.map_singleton, List.flatten_singleton, hreplaced]

/-- The references of the writers. -/
theorem reference_written :
    ∀ token ∈ ["&amp;".toList, "&gt;".toList, "&lt;".toList, "&quot;".toList, "&#10;".toList,
      "&#13;".toList, "&#9;".toList], IsReference 38 59 (units token) := by
  intro token hmem
  have hname : ∃ name, units token = 38 :: (name ++ [59]) ∧ 38 ∉ name ∧ 59 ∉ name := by
    simp only [List.mem_cons, List.not_mem_nil, or_false] at hmem
    rcases hmem with rfl | rfl | rfl | rfl | rfl | rfl | rfl
    · exact ⟨units "amp".toList, by decide, by decide, by decide⟩
    · exact ⟨units "gt".toList, by decide, by decide, by decide⟩
    · exact ⟨units "lt".toList, by decide, by decide, by decide⟩
    · exact ⟨units "quot".toList, by decide, by decide, by decide⟩
    · exact ⟨units "#10".toList, by decide, by decide, by decide⟩
    · exact ⟨units "#13".toList, by decide, by decide, by decide⟩
    · exact ⟨units "#9".toList, by decide, by decide, by decide⟩
  exact ⟨hname, by decide⟩

theorem spaced_of_mem
    {c : Char} {unit : Nat}
    (hn : c ≠ '\n')
    (hr : c ≠ '\r')
    (ht : c ≠ '\t')
    (hmem : unit ∈ fromCodePoint c.toNat) :
    spaced unit = [unit] := by
  have hspace : ∀ d : Char, c ≠ d → d.toNat < 0xD800 → unit ≠ d.toNat := by
    rintro d hne hlow rfl
    by_cases hc : c.toNat < 0x10000
    · rw [fromCodePoint_of_lt hc, List.mem_singleton] at hmem
      exact hne (Char.toNat_inj.1 hmem.symm)
    · have hsurrogate := surrogate_of_mem hc hmem
      omega
  have hten : unit ≠ 10 := hspace '\n' hn (by decide)
  have hthirteen : unit ≠ 13 := hspace '\r' hr (by decide)
  have hnine : unit ≠ 9 := hspace '\t' ht (by decide)
  rw [spaced, if_neg hten, if_neg hthirteen, if_neg hnine]

theorem undone_escapeChar : Undone Markup.escapeChar fun unit => [unit] := by
  have hboth : ∀ c, (∀ token ∈ tokens Markup.escapeChar c, IsToken 38 59 token) ∧
      ((tokens Markup.escapeChar c).map replaceToken).flatten =
        (fromCodePoint c.toNat).flatMap fun unit => [unit] := by
    intro c
    by_cases hamp : c = '&'
    · subst hamp
      exact undone_reference "&amp;".toList (by decide) (by decide)
        (reference_written _ (by decide)) (by decide)
    by_cases hgt : c = '>'
    · subst hgt
      exact undone_reference "&gt;".toList (by decide) (by decide)
        (reference_written _ (by decide)) (by decide)
    by_cases hlt : c = '<'
    · subst hlt
      exact undone_reference "&lt;".toList (by decide) (by decide)
        (reference_written _ (by decide)) (by decide)
    refine undone_plain ?_ hamp fun _ _ => rfl
    rw [Markup.escapeChar, if_neg hamp, if_neg hgt, if_neg hlt]
  exact ⟨fun c => (hboth c).1, fun c => (hboth c).2⟩

/-- The writers of attribute values, with double quotes written out or not. -/
theorem undone_escapeSpace
    {write : Char → Text}
    (hspecial : ∀ c ∈ ['&', '>', '<', '\n', '\r', '\t'], write c = Markup.escapeSpace c)
    (hquote : write Markup.doubleQuote = [Markup.doubleQuote] ∨
      write Markup.doubleQuote = "&quot;".toList)
    (hplain : ∀ c ∉ ['&', '>', '<', '\n', '\r', '\t', Markup.doubleQuote], write c = [c]) :
    Undone write spaced := by
  have hboth : ∀ c, (∀ token ∈ tokens write c, IsToken 38 59 token) ∧
      ((tokens write c).map replaceToken).flatten =
        (fromCodePoint c.toNat).flatMap spaced := by
    intro c
    by_cases hamp : c = '&'
    · subst hamp
      exact undone_reference "&amp;".toList (hspecial _ (by decide)) (by decide)
        (reference_written _ (by decide)) (by decide)
    by_cases hgt : c = '>'
    · subst hgt
      exact undone_reference "&gt;".toList (hspecial _ (by decide)) (by decide)
        (reference_written _ (by decide)) (by decide)
    by_cases hlt : c = '<'
    · subst hlt
      exact undone_reference "&lt;".toList (hspecial _ (by decide)) (by decide)
        (reference_written _ (by decide)) (by decide)
    by_cases hn : c = '\n'
    · subst hn
      exact undone_reference "&#10;".toList (hspecial _ (by decide)) (by decide)
        (reference_written _ (by decide)) (by decide)
    by_cases hr : c = '\r'
    · subst hr
      exact undone_reference "&#13;".toList (hspecial _ (by decide)) (by decide)
        (reference_written _ (by decide)) (by decide)
    by_cases ht : c = '\t'
    · subst ht
      exact undone_reference "&#9;".toList (hspecial _ (by decide)) (by decide)
        (reference_written _ (by decide)) (by decide)
    by_cases hq : c = Markup.doubleQuote
    · subst hq
      rcases hquote with hself | hquot
      · exact undone_plain hself (by decide) (by decide)
      · exact undone_reference _ hquot (by decide) (reference_written _ (by decide)) (by decide)
    exact undone_plain (hplain c (by simp [hamp, hgt, hlt, hn, hr, ht, hq])) hamp
      fun unit hmem => spaced_of_mem hn hr ht hmem
  exact ⟨fun c => (hboth c).1, fun c => (hboth c).2⟩

theorem escapeSpace_plain
    {c : Char}
    (h : c ∉ ['&', '>', '<', '\n', '\r', '\t']) :
    Markup.escapeSpace c = [c] := by
  simp only [List.mem_cons, List.not_mem_nil, or_false, not_or] at h
  obtain ⟨hamp, hgt, hlt, hn, hr, ht⟩ := h
  rw [Markup.escapeSpace, if_neg hn, if_neg hr, if_neg ht, Markup.escapeChar, if_neg hamp,
    if_neg hgt, if_neg hlt]

/-- What an escaped content decodes to. -/
theorem decodeXml_escape (text : Text) :
    decodeXml (units (Markup.escape text)) = replaceNumeric 0 (units text) := by
  rw [decodeXml, Markup.escape, replaceNamed_written undone_escapeChar, List.flatMap_singleton']

/-- How `quoteattr` puts a value between quotes, and what it decodes to. -/
theorem quoteattr_read (value : Text) :
    ∃ quote written, (quote = Markup.doubleQuote ∨ quote = Markup.singleQuote) ∧
      Markup.quoteattr value = quote :: (written ++ [quote]) ∧ quote ∉ written ∧
        '>' ∉ written ∧ decodeXml (units written) = replaceNumeric 0 (units value) := by
  have hdecoded : ∀ write : Char → Text, Undone write spaced →
      decodeXml (units (value.flatMap write)) = replaceNumeric 0 (units value) := by
    intro write hwrite
    rw [decodeXml, replaceNamed_written hwrite]
    exact replaceNumeric_spaced 0 fun n hmem => absurd hmem List.not_mem_nil
  have hspace : Undone Markup.escapeSpace spaced := by
    refine undone_escapeSpace (fun _ _ => rfl) (Or.inl (by decide)) fun c hc => ?_
    refine escapeSpace_plain fun hmem => hc ?_
    exact List.mem_append_left [Markup.doubleQuote] hmem
  have hquoted : Undone (fun c => (Markup.escapeSpace c).flatMap Markup.escapeQuote) spaced := by
    refine undone_escapeSpace (forall_mem_of_all (by decide)) (Or.inr (by decide)) fun c hc => ?_
    have hplain : Markup.escapeSpace c = [c] :=
      escapeSpace_plain fun hmem => hc (List.mem_append_left [Markup.doubleQuote] hmem)
    have hne : c ≠ Markup.doubleQuote := by
      rintro rfl
      exact hc (by decide)
    rw [hplain, List.flatMap_singleton, Markup.escapeQuote, if_neg hne]
  have hopen : ∀ c, '>' ∉ Markup.escapeSpace c := by
    have hescaped : ∀ c ∈ ['&', '>', '<', '\n', '\r', '\t'],
        '>' ∉ Markup.escapeSpace c := forall_mem_of_all (by decide)
    intro c hmem
    by_cases hspecial : c ∈ ['&', '>', '<', '\n', '\r', '\t']
    · exact hescaped c hspecial hmem
    · rw [escapeSpace_plain hspecial, List.mem_singleton] at hmem
      exact hspecial (hmem ▸ by decide)
  rw [Markup.quoteattr]
  split
  · split
    · refine ⟨Markup.doubleQuote, (value.flatMap Markup.escapeSpace).flatMap Markup.escapeQuote,
        Or.inl rfl, rfl, ?_, ?_, ?_⟩
      · intro hmem
        obtain ⟨c, -, hc⟩ := List.mem_flatMap.1 hmem
        rw [Markup.escapeQuote] at hc
        split at hc
        · exact absurd hc (by decide)
        · rename_i hne
          exact hne (List.mem_singleton.1 hc).symm
      · intro hmem
        obtain ⟨c, hc, hquote⟩ := List.mem_flatMap.1 hmem
        rw [Markup.escapeQuote] at hquote
        split at hquote
        · exact absurd hquote (by decide)
        · obtain ⟨d, -, hd⟩ := List.mem_flatMap.1 hc
          exact hopen d (List.mem_singleton.1 hquote ▸ hd)
      · rw [List.flatMap_assoc]
        exact hdecoded _ hquoted
    · rename_i hsingle
      refine ⟨Markup.singleQuote, _, Or.inr rfl, rfl, hsingle, ?_, hdecoded _ hspace⟩
      exact Markup.not_mem_flatMap hopen value
  · rename_i hdouble
    refine ⟨Markup.doubleQuote, _, Or.inl rfl, rfl, hdouble, ?_, hdecoded _ hspace⟩
    exact Markup.not_mem_flatMap hopen value

theorem amp_not_mem_units
    {text : Text}
    (h : '&' ∉ text) :
    38 ∉ units text := by
  rw [mem_units_iff (by decide)]
  rintro ⟨c, hc, hvalue⟩
  obtain rfl : c = '&' := Char.toNat_inj.1 hvalue
  exact h hc

theorem hasNumeric_plain
    {value : List Nat}
    (h : 38 ∉ value) :
    hasNumeric value = false := by
  induction value with
  | nil => rfl
  | cons unit value ih =>
      obtain ⟨hunit, hvalue⟩ := not_or.1 (mt List.mem_cons.2 h)
      rw [hasNumeric, ih hvalue, Bool.or_false, Bool.and_eq_false_iff]
      exact Or.inl (by simpa using fun heq => hunit heq.symm)

/-- A text without an ampersand decodes to itself. -/
theorem decodeXml_plain
    {text : Text}
    (h : '&' ∉ text) :
    decodeXml (units text) = units text := by
  have hamp := amp_not_mem_units h
  generalize units text = value at hamp
  have htokens : ∀ token ∈ value.map (fun unit => [unit]), IsToken 38 59 token := by
    intro token hmem
    obtain ⟨unit, hunit, rfl⟩ := List.mem_map.1 hmem
    exact Or.inr ⟨unit, fun heq => hamp (heq ▸ hunit), rfl⟩
  have hflat : (value.map fun unit => [unit]).flatten = value := by
    rw [← List.flatMap_def, List.flatMap_singleton']
  have hnamed : replaceNamed value = value := by
    have hreplaced := replaceNamed_flatten htokens
    rw [List.map_map, hflat] at hreplaced
    rw [hreplaced]
    simp only [Function.comp_def, replaceToken_singleton]
    exact hflat
  rw [decodeXml, hnamed, replaceNumeric_of_none (hasNumeric_plain hamp)]

end Named

end Content
end Notifications
end Core
end Vesta
