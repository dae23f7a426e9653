import Vesta.Lib.Program
import Vesta.Reminders.DayOfWeek

/-!
# The weekdays of a reminder

The rewritten field names the weekdays of a crontab's field, but for a range from 0 to 7,
which the rewriting takes for Sunday alone: both ends become 0.
-/

namespace Vesta
namespace Reminders

open Lib
open Lib.Cron
open Agent (isSpace strip)

/-! ## Digits of other scripts -/

theorem isDigit_ofNat
    {d : Nat}
    (h : d < 10) :
    (Char.ofNat (48 + d)).isDigit = true ∧ (Char.ofNat (48 + d)).toNat = 48 + d := by
  have hall : ∀ d < 10,
      (Char.ofNat (48 + d)).isDigit = true ∧ (Char.ofNat (48 + d)).toNat = 48 + d := by decide
  exact hall d h

theorem toNat_of_isDigit
    {c : Char}
    (h : c.isDigit = true) :
    48 ≤ c.toNat ∧ c.toNat ≤ 57 := isDigit_iff.1 h

theorem isLower_toLower
    {c : Char}
    (h : c.isUpper = true) :
    c.toLower.isLower = true := by
  have hrange := isUpper_iff.1 h
  have hval : c.toLower.val = c.val + 32 := by
    have hdef : c.toLower = _ := dif_pos hrange
    rw [hdef]
    rfl
  have hnat : c.toLower.toNat = (c.toNat + 32) % 2 ^ 32 := by
    rw [Char.toNat, hval, UInt32.toNat_add]
    rfl
  rw [isLower_iff, hnat]
  omega

theorem letter_of_toLower
    {c : Char}
    (h : c.toLower.isLower = true) :
    c.isUpper = true ∨ c.isLower = true := by
  by_cases hupper : c.isUpper = true
  · exact .inl hupper
  · rw [toLower_of_not_isUpper hupper] at h
    exact .inr h

theorem ascii_of_letter
    {c : Char}
    (hletter : c.isUpper = true ∨ c.isLower = true) :
    c.toNat < 128 ∧ c.isDigit = false := by
  rw [isUpper_iff, isLower_iff] at hletter
  rw [← Bool.not_eq_true, isDigit_iff]
  omega

namespace UnicodeDigits

variable (U : UnicodeDigits)

/-- The ASCII digit of a decimal digit. -/
def asciiDigit (c : Char) : Char :=
  match U.decimal c with
  | none => c
  | some d => Char.ofNat (48 + d)

/-- The text with ASCII digits for its decimal digits. -/
def asciiDigits (text : Text) : Text := text.map U.asciiDigit

variable {U}

theorem asciiDigit_of_ascii
    {c : Char}
    (h : c.toNat < 128) :
    U.asciiDigit c = c := by
  by_cases hdigit : c.isDigit = true
  · have hrange := toNat_of_isDigit hdigit
    have hsum : 48 + (c.toNat - 48) = c.toNat := by omega
    simp only [asciiDigit, U.decimal_ascii c hdigit, hsum, Char.ofNat_toNat]
  · simp only [asciiDigit, U.decimal_other c h (by simpa using hdigit)]

theorem isDigit_asciiDigit (c : Char) :
    (U.asciiDigit c).isDigit = (U.decimal c).isSome := by
  cases hdecimal : U.decimal c with
  | none =>
      have hdigit : c.isDigit = false := by
        by_contra hdigit
        rw [U.decimal_ascii c (by simpa using hdigit)] at hdecimal
        cases hdecimal
      simpa [asciiDigit, hdecimal] using hdigit
  | some d =>
      simpa [asciiDigit, hdecimal] using (isDigit_ofNat (U.decimal_lt c d hdecimal)).1

theorem asciiDigit_eq_iff
    {c x : Char}
    (hascii : x.toNat < 128)
    (hx : x.isDigit = false) :
    U.asciiDigit c = x ↔ c = x := by
  constructor
  · intro h
    have hnone : U.decimal c = none := by
      have hdigit := isDigit_asciiDigit (U := U) c
      rw [h, hx] at hdigit
      simpa using hdigit.symm
    simpa [asciiDigit, hnone] using h
  · rintro rfl
    exact asciiDigit_of_ascii hascii

theorem asciiDigits_of_ascii
    {text : Text}
    (h : ∀ c ∈ text, c.toNat < 128) :
    U.asciiDigits text = text := by
  induction text with
  | nil => rfl
  | cons c text ih =>
      rw [List.forall_mem_cons] at h
      rw [asciiDigits, List.map_cons, asciiDigit_of_ascii h.1]
      exact congrArg (c :: ·) (ih h.2)

@[simp] theorem length_asciiDigits (text : Text) : (U.asciiDigits text).length = text.length :=
  List.length_map _

theorem mem_asciiDigits
    {text : Text} {x : Char}
    (hascii : x.toNat < 128)
    (hx : x.isDigit = false) :
    x ∈ U.asciiDigits text ↔ x ∈ text := by
  rw [asciiDigits, List.mem_map]
  constructor
  · rintro ⟨c, hc, heq⟩
    rwa [← (asciiDigit_eq_iff hascii hx).1 heq]
  · intro hmem
    exact ⟨x, hmem, asciiDigit_of_ascii hascii⟩

/-- A text whose digits are read at a separator has that separator. -/
theorem asciiDigits_eq_append_cons
    {text first last : Text} {x : Char}
    (hascii : x.toNat < 128)
    (hx : x.isDigit = false)
    (h : U.asciiDigits text = first ++ x :: last) :
    ∃ a b, text = a ++ x :: b ∧ U.asciiDigits a = first ∧ U.asciiDigits b = last := by
  rw [asciiDigits] at h
  obtain ⟨a, rest, rfl, ha, hrest⟩ := List.map_eq_append_iff.1 h
  obtain ⟨c, b, rfl, hc, hb⟩ := List.map_eq_cons_iff.1 hrest
  rw [(asciiDigit_eq_iff hascii hx).1 hc]
  exact ⟨a, b, rfl, ha, hb⟩

theorem asciiDigits_eq_singleton
    {text : Text} {x : Char}
    (hascii : x.toNat < 128)
    (hx : x.isDigit = false)
    (h : U.asciiDigits text = [x]) :
    text = [x] := by
  rw [asciiDigits, List.map_eq_singleton_iff] at h
  obtain ⟨c, rfl, hc⟩ := h
  rw [(asciiDigit_eq_iff hascii hx).1 hc]

theorem asciiDigits_append_cons
    {x : Char}
    (hascii : x.toNat < 128)
    (a b : Text) :
    U.asciiDigits (a ++ x :: b) = U.asciiDigits a ++ x :: U.asciiDigits b := by
  rw [asciiDigits, List.map_append, List.map_cons, asciiDigit_of_ascii hascii]
  rfl

theorem splitOn_asciiDigits
    {x : Char}
    (hascii : x.toNat < 128)
    (hx : x.isDigit = false)
    (text : Text) :
    (U.asciiDigits text).splitOn x = (text.splitOn x).map U.asciiDigits := by
  induction text with
  | nil => simp [asciiDigits]
  | cons c text ih =>
      rw [asciiDigits, List.map_cons, List.splitOn_cons_eq_if_modifyHead,
        List.splitOn_cons_eq_if_modifyHead]
      rw [asciiDigits] at ih
      obtain ⟨first, rest, hsplit⟩ := List.exists_cons_of_ne_nil (List.splitOn_ne_nil x text)
      by_cases hc : c = x
      · simp [hc, asciiDigit_of_ascii hascii, ih, asciiDigits]
      · have hne : U.asciiDigit c ≠ x := fun heq => hc ((asciiDigit_eq_iff hascii hx).1 heq)
        simp [hc, hne, ih, hsplit, asciiDigits]

end UnicodeDigits

/-! ## Numerals -/

namespace UnicodeDigits

variable {U : UnicodeDigits}

theorem foldlM_decimal
    {text : Text} {acc n : Nat} :
    text.foldlM (fun n c => (U.decimal c).map (10 * n + ·)) acc = some n ↔
      (∀ c ∈ text, (U.decimal c).isSome = true) ∧
        n = (U.asciiDigits text).foldl (fun n c => 10 * n + (c.toNat - 48)) acc := by
  induction text generalizing acc with
  | nil => exact ⟨fun h => ⟨by simp, (Option.some.inj h).symm⟩, fun h => congrArg some h.2.symm⟩
  | cons c text ih =>
      rw [List.foldlM_cons, asciiDigits, List.map_cons, List.foldl_cons, List.forall_mem_cons]
      cases hdecimal : U.decimal c with
      | none => simp
      | some d =>
          have hnat := (isDigit_ofNat (U.decimal_lt c d hdecimal)).2
          have hdigit : (U.asciiDigit c).toNat - 48 = d := by
            simp only [asciiDigit, hdecimal, hnat]
            omega
          rw [hdigit, Option.map_some, Option.bind_eq_bind, Option.bind_some, ih, asciiDigits]
          simp only [Option.isSome_some, true_and]

theorem int_ok_iff
    {text : Text} {n : Nat} :
    U.int text = .ok n ↔
      text.length ≤ intMaxStrDigits ∧ (∀ c ∈ text, (U.decimal c).isSome = true) ∧
        n = numeral (U.asciiDigits text) := by
  rw [int]
  split
  · rename_i hlong
    constructor
    · intro h
      cases h
    · rintro ⟨hshort, -⟩
      omega
  · rename_i hshort
    have hfold :
        text.foldlM (fun n c => (U.decimal c).map (10 * n + ·)) 0 = some n ↔
          (∀ c ∈ text, (U.decimal c).isSome = true) ∧ n = numeral (U.asciiDigits text) :=
      foldlM_decimal
    rw [← hfold, and_iff_right (not_lt.1 hshort)]
    split
    · rename_i hnone
      simp only [hnone, reduceCtorEq]
    · rename_i m hsome
      rw [hsome, Except.ok.injEq, Option.some.injEq]

/-- A text of digits that `int` converts is a numeral, its digits read. -/
theorem numeral_iff
    {text : Text} {n : Nat} :
    (U.isdigit text = true ∧ U.int text = .ok n) ↔
      IsNumeral (some intMaxStrDigits) (U.asciiDigits text) ∧ n = numeral (U.asciiDigits text) := by
  rw [int_ok_iff]
  constructor
  · rintro ⟨hdigit, hshort, hdecimal, heq⟩
    refine ⟨⟨?_, ?_, ?_⟩, heq⟩
    · rintro hnil
      have hlength := congrArg List.length hnil
      rw [length_asciiDigits, List.length_nil, List.length_eq_zero_iff] at hlength
      simp [isdigit, hlength] at hdigit
    · intro c hc
      obtain ⟨d, hd, rfl⟩ := List.mem_map.1 hc
      rw [isDigit_asciiDigit]
      exact hdecimal d hd
    · intro most hmost
      cases hmost
      rwa [length_asciiDigits]
  · rintro ⟨hnumeral, heq⟩
    have hdecimal : ∀ c ∈ text, (U.decimal c).isSome = true := by
      intro c hc
      rw [← isDigit_asciiDigit]
      exact hnumeral.digits _ (List.mem_map_of_mem hc)
    refine ⟨?_, ?_, hdecimal, heq⟩
    · have hne : text ≠ [] := by
        rintro rfl
        exact hnumeral.nonempty rfl
      simp only [isdigit, Bool.and_eq_true, List.all_eq_true]
      exact ⟨by simpa using hne, fun c hc => U.isDigit_decimal c (hdecimal c hc)⟩
    · have hshort := hnumeral.short _ rfl
      rwa [length_asciiDigits] at hshort

/-- A decimal digit is no letter. -/
theorem not_letter_of_decimal
    {c : Char}
    (h : (U.decimal c).isSome = true) :
    ¬(c.isUpper = true ∨ c.isLower = true) := by
  intro hletter
  obtain ⟨hascii, hdigit⟩ := ascii_of_letter hletter
  rw [U.decimal_other c hascii hdigit] at h
  cases h

end UnicodeDigits

/-! ## Values -/

/-- A field of a cron expression: a text without whitespace. -/
def Unspaced (text : Text) : Prop := ∀ c ∈ text, isSpace c = false

theorem strip_of_unspaced
    {text : Text}
    (h : Unspaced text) :
    strip text = text := by
  have hhead : text.dropWhile isSpace = text := by
    cases text with
    | nil => rfl
    | cons c text => rw [List.dropWhile_cons_of_neg (by simp [h c List.mem_cons_self])]
  rw [strip, hhead, List.rdropWhile_eq_self_iff]
  intro hne
  simp [h _ (List.getLast_mem hne)]

theorem idxOf_dayNames
    {text : Text} {day : Nat} :
    dayNames.idxOf? text = some day ↔ dayNames[day]? = some text := by
  have hnodup : dayNames.Nodup := by decide
  rw [List.idxOf?, List.findIdx?_eq_some_iff_getElem, List.getElem?_eq_some_iff]
  constructor
  · rintro ⟨hlt, heq, -⟩
    exact ⟨hlt, by simpa using heq⟩
  · rintro ⟨hlt, rfl⟩
    refine ⟨hlt, by simp, fun j hj => ?_⟩
    have hne : dayNames[j] ≠ dayNames[day] := by
      intro heq
      exact absurd ((List.Nodup.getElem_inj_iff hnodup).1 heq) (by omega)
    simpa using hne

namespace UnicodeDigits

variable {U : UnicodeDigits}

theorem lower_of_decimal
    {text : Text}
    (h : ∀ c ∈ lower text, (U.decimal c).isSome = true) :
    lower text = text := by
  induction text with
  | nil => rfl
  | cons c text ih =>
      rw [lower, List.map_cons, List.forall_mem_cons] at h
      have hupper : ¬c.isUpper = true :=
        fun hupper => not_letter_of_decimal h.1 (.inr (isLower_toLower hupper))
      rw [lower, List.map_cons, toLower_of_not_isUpper hupper]
      exact congrArg (c :: ·) (ih h.2)

/-- Reading its digits changes no name. -/
theorem asciiDigits_of_dayName
    {text : Text} {day : Nat}
    (h : dayNames[day]? = some (lower text)) :
    U.asciiDigits text = text := by
  apply asciiDigits_of_ascii
  intro c hc
  exact (ascii_of_letter (letter_of_toLower
    (isLower_of_dayName h _ (List.mem_map_of_mem hc)))).1

theorem dayName_of_asciiDigits
    {text : Text} {day : Nat}
    (h : dayNames[day]? = some (lower (U.asciiDigits text))) :
    U.asciiDigits text = text := by
  rw [asciiDigits]
  refine (List.map_congr_left fun c hc => ?_).trans (List.map_id text)
  have hlower : (U.asciiDigit c).toLower.isLower = true :=
    isLower_of_dayName h _ (List.mem_map_of_mem (List.mem_map_of_mem hc))
  have hdigit := (ascii_of_letter (letter_of_toLower hlower)).2
  rw [isDigit_asciiDigit, Option.isSome_eq_false_iff, Option.isNone_iff_eq_none] at hdigit
  simp only [asciiDigit, hdigit, id]

theorem dowSingle_ok_iff
    {token : Text} {day : Nat}
    (hspace : Unspaced token) :
    U.dowSingle token = .ok day ↔
      ∃ n, Value (some intMaxStrDigits) (U.asciiDigits token) n ∧ day = n % 7 := by
  have htok : lower (strip token) = lower token := by rw [strip_of_unspaced hspace]
  simp only [dowSingle, htok]
  constructor
  · intro h
    split at h
    · rename_i i hi
      cases h
      have hname := idxOf_dayNames.1 hi
      refine ⟨day, .name ?_, (Nat.mod_eq_of_lt (lt_of_dayName hname)).symm⟩
      rw [asciiDigits_of_dayName hname]
      exact hname
    · split at h
      · cases h
      · rename_i hdigit
        obtain ⟨number, hint, h⟩ := ok_of_bind h
        have hsame := lower_of_decimal (int_ok_iff.1 hint).2.1
        rw [hsame] at hdigit hint
        obtain ⟨hnumeral, heq⟩ := numeral_iff.1 ⟨by simpa using hdigit, hint⟩
        split at h
        · rename_i hseven
          cases h
          exact ⟨number, heq ▸ .number hnumeral (by omega), by rw [hseven]⟩
        · split at h
          · rename_i hle
            cases h
            exact ⟨day, heq ▸ .number hnumeral (by omega), by omega⟩
          · cases h
  · rintro ⟨n, hvalue, rfl⟩
    generalize htext : U.asciiDigits token = text at hvalue
    cases hvalue with
    | number hnumeral hle =>
        subst htext
        obtain ⟨hdigit, hint⟩ := numeral_iff.2 ⟨hnumeral, rfl⟩
        have hdecimal := (int_ok_iff.1 hint).2.1
        have hsame : lower token = token := by
          refine (List.map_congr_left fun c hc => ?_).trans (List.map_id token)
          exact toLower_of_not_isUpper
            fun hupper => not_letter_of_decimal (hdecimal c hc) (.inl hupper)
        have hnone : dayNames.idxOf? token = none := by
          cases hidx : dayNames.idxOf? token with
          | none => rfl
          | some day =>
              have hname := idxOf_dayNames.1 hidx
              obtain ⟨c, hc⟩ := List.exists_mem_of_ne_nil token fun hnil => by
                rw [hnil] at hnumeral
                exact hnumeral.nonempty rfl
              exact absurd (.inr (isLower_of_dayName hname c hc))
                (not_letter_of_decimal (hdecimal c hc))
        rw [hsame, hnone]
        simp only [hdigit, hint, Bool.not_true, Bool.false_eq_true, if_false]
        show (if numeral (U.asciiDigits token) = 7 then (.ok 0 : Except DowError Nat)
          else if numeral (U.asciiDigits token) ≤ 6 then .ok (numeral (U.asciiDigits token))
          else .error (.badValue token)) = _
        split
        · rename_i hseven
          rw [hseven]
        · rw [if_pos (by omega), Nat.mod_eq_of_lt (by omega)]
    | name hname =>
        subst htext
        have hsame := dayName_of_asciiDigits hname
        rw [hsame] at hname
        have hidx : dayNames.idxOf? (lower token) = some n := idxOf_dayNames.2 hname
        rw [hidx, Nat.mod_eq_of_lt (lt_of_dayName hname)]

end UnicodeDigits

/-! ## Items -/

theorem partition_append_cons
    {sep : Char} {a : Text}
    (h : sep ∉ a)
    (b : Text) :
    partition sep (a ++ sep :: b) = (a, b) := by
  have hall : ∀ c ∈ a, (c != sep) = true := by
    intro c hc
    simp only [bne_iff_ne]
    rintro rfl
    exact h hc
  rw [partition, List.takeWhile_append_of_pos hall, List.dropWhile_append_of_pos hall]
  simp

/-- A text with a separator is what stands before its first one and what stands behind. -/
theorem exists_partition
    {sep : Char} {text : Text}
    (h : text.contains sep = true) :
    ∃ a b, sep ∉ a ∧ text = a ++ sep :: b ∧ partition sep text = (a, b) := by
  obtain ⟨a, b, rfl, ha⟩ := List.eq_append_cons_of_mem (List.contains_iff_mem.1 h)
  exact ⟨a, b, ha, rfl, partition_append_cons ha b⟩

theorem isStar_iff
    {text : Text} :
    isStar text = true ↔ text = ['*'] ∨ text = ['?'] := by
  constructor
  · intro h
    rw [isStar.eq_def] at h
    split at h
    · exact .inl rfl
    · exact .inr rfl
    · cases h
  · rintro (rfl | rfl) <;> rfl

theorem Unspaced.append
    {a b : Text}
    (h : Unspaced (a ++ b)) :
    Unspaced a ∧ Unspaced b :=
  List.forall_mem_append.1 h

/-- The first and the last day of a base, as the range of an item has them. -/
def bounds : Base → Nat × Nat
  | .every => (0, 6)
  | .range low high => (low % 7, high % 7)

def indices (item : Item) : List Nat :=
  dowRange (bounds item.base).1 (bounds item.base).2 item.step

namespace UnicodeDigits

variable {U : UnicodeDigits}

theorem dowBounds_ok_iff
    {part : Text} {low high : Nat}
    (hspace : Unspaced part) :
    U.dowBounds part = .ok (low, high) ↔
      ∃ base, ReadsBase (some intMaxStrDigits) (U.asciiDigits part) base ∧
        (low, high) = bounds base := by
  rw [dowBounds, strip_of_unspaced hspace]
  constructor
  · intro h
    split at h
    · rename_i hstar
      cases h
      rcases isStar_iff.1 hstar with rfl | rfl
      · have hself : U.asciiDigits ['*'] = ['*'] := asciiDigits_of_ascii (by simp)
        exact ⟨.every, by rw [hself]; exact .star, rfl⟩
      · have hself : U.asciiDigits ['?'] = ['?'] := asciiDigits_of_ascii (by simp)
        exact ⟨.every, by rw [hself]; exact .question, rfl⟩
    · split at h
      · rename_i hdash
        obtain ⟨first, last, hfirst, rfl, hpartition⟩ := exists_partition hdash
        rw [hpartition] at h
        obtain ⟨low', hlow, h⟩ := ok_of_bind h
        obtain ⟨high', hhigh, h⟩ := ok_of_bind h
        cases h
        obtain ⟨hspaceFirst, hspaceLast⟩ := hspace.append
        obtain ⟨m, hm, rfl⟩ := (dowSingle_ok_iff hspaceFirst).1 hlow
        obtain ⟨n, hn, rfl⟩ := (dowSingle_ok_iff (Unspaced.append (a := ['-']) hspaceLast).2).1 hhigh
        refine ⟨.range m n, ?_, rfl⟩
        rw [asciiDigits_append_cons (by decide)]
        exact .range hm hn
      · obtain ⟨day, hday, h⟩ := ok_of_bind h
        cases h
        obtain ⟨n, hn, rfl⟩ := (dowSingle_ok_iff hspace).1 hday
        exact ⟨.range n n, .value hn, rfl⟩
  · rintro ⟨base, hbase, heq⟩
    rw [heq]
    generalize htext : U.asciiDigits part = text at hbase
    cases hbase with
    | star =>
        rw [asciiDigits_eq_singleton (by decide) rfl htext]
        rfl
    | question =>
        rw [asciiDigits_eq_singleton (by decide) rfl htext]
        rfl
    | @value text n hv =>
        subst htext
        have hstar : ¬isStar part = true := by
          intro hstar
          rcases isStar_iff.1 hstar with rfl | rfl
          · exact hv.not_mem (c := '*') rfl ((mem_asciiDigits (by decide) rfl).2 (by simp))
          · exact hv.not_mem (c := '?') rfl ((mem_asciiDigits (by decide) rfl).2 (by simp))
        have hdash : ¬part.contains '-' = true := by
          rw [List.contains_iff_mem, ← mem_asciiDigits (U := U) (by decide) rfl]
          exact hv.not_mem rfl
        rw [if_neg hstar, if_neg hdash, (dowSingle_ok_iff hspace).2 ⟨n, hv, rfl⟩]
        rfl
    | @range first last m n hlow hhigh =>
        obtain ⟨a, b, rfl, rfl, rfl⟩ := asciiDigits_eq_append_cons (by decide) rfl htext
        have hfirst : '-' ∉ a := by
          rw [← mem_asciiDigits (U := U) (by decide) rfl]
          exact hlow.not_mem rfl
        have hstar : ¬isStar (a ++ '-' :: b) = true := by
          intro hstar
          have hmem : '-' ∈ a ++ '-' :: b := by simp
          rcases isStar_iff.1 hstar with heq | heq
          · simp [heq] at hmem
          · simp [heq] at hmem
        have hdash : (a ++ '-' :: b).contains '-' = true := by simp
        obtain ⟨hspaceFirst, hspaceLast⟩ := hspace.append
        have hspaceLast := (Unspaced.append (a := ['-']) hspaceLast).2
        rw [if_neg hstar, if_pos hdash, partition_append_cons hfirst]
        simp only [(dowSingle_ok_iff hspaceFirst).2 ⟨m, hlow, rfl⟩,
          (dowSingle_ok_iff hspaceLast).2 ⟨n, hhigh, rfl⟩]
        rfl

theorem dowPartToIndices_of_ok
    {part body : Text} {step low high : Nat}
    (hstep : U.dowStep part = .ok (body, step))
    (hbounds : U.dowBounds body = .ok (low, high)) :
    U.dowPartToIndices part = .ok (dowRange low high step) := by
  simp only [dowPartToIndices, hstep]
  show (U.dowBounds body >>= fun pair => .ok (dowRange pair.1 pair.2 step)) = _
  rw [hbounds]
  rfl

/-- An item is expanded exactly if it is well formed with its digits read. -/
theorem dowPartToIndices_ok_iff
    {part : Text} {days : List Nat}
    (hspace : Unspaced part) :
    U.dowPartToIndices part = .ok days ↔
      ∃ item, ReadsItem (some intMaxStrDigits) (U.asciiDigits part) item ∧ days = indices item := by
  constructor
  · intro h
    obtain ⟨⟨body, step⟩, hstep, h⟩ := ok_of_bind h
    obtain ⟨⟨low, high⟩, hbounds, h⟩ := ok_of_bind h
    cases h
    rw [dowStep] at hstep
    split at hstep
    · rename_i hslash
      obtain ⟨first, last, hfirst, rfl, hpartition⟩ := exists_partition hslash
      rw [hpartition] at hstep
      simp only at hstep
      split at hstep
      · cases hstep
      · rename_i hdigit
        obtain ⟨k, hint, hstep⟩ := ok_of_bind hstep
        split at hstep
        · cases hstep
        · rename_i hzero
          cases hstep
          obtain ⟨hnumeral, rfl⟩ := numeral_iff.1 ⟨by simpa using hdigit, hint⟩
          obtain ⟨base, hbase, heq⟩ := (dowBounds_ok_iff hspace.append.1).1 hbounds
          refine ⟨⟨base, _⟩, ?_, by rw [indices, ← heq]⟩
          rw [asciiDigits_append_cons (by decide)]
          exact .stepped hbase hnumeral (by omega)
    · cases hstep
      obtain ⟨base, hbase, heq⟩ := (dowBounds_ok_iff hspace).1 hbounds
      exact ⟨⟨base, 1⟩, .plain hbase, by rw [indices, ← heq]⟩
  · rintro ⟨item, hitem, rfl⟩
    generalize htext : U.asciiDigits part = text at hitem
    cases hitem with
    | plain hbase =>
        subst htext
        have hslash : ¬part.contains '/' = true := by
          rw [List.contains_iff_mem, ← mem_asciiDigits (U := U) (by decide) rfl]
          exact hbase.not_mem
        have hbounds := (dowBounds_ok_iff hspace).2 ⟨_, hbase, rfl⟩
        have hstep : U.dowStep part = .ok (part, 1) := by rw [dowStep, if_neg hslash]
        exact dowPartToIndices_of_ok hstep hbounds
    | stepped hbase hnumeral hpos =>
        obtain ⟨a, b, rfl, rfl, rfl⟩ := asciiDigits_eq_append_cons (by decide) rfl htext
        have hfirst : '/' ∉ a := by
          rw [← mem_asciiDigits (U := U) (by decide) rfl]
          exact hbase.not_mem
        have hslash : (a ++ '/' :: b).contains '/' = true := by simp
        obtain ⟨hdigit, hint⟩ := numeral_iff.2 ⟨hnumeral, rfl⟩
        have hbounds := (dowBounds_ok_iff hspace.append.1).2 ⟨_, hbase, rfl⟩
        have hstep : U.dowStep (a ++ '/' :: b) = .ok (a, numeral (U.asciiDigits b)) := by
          rw [dowStep, if_pos hslash, partition_append_cons hfirst]
          simp only [hdigit, hint, Bool.not_true, Bool.false_eq_true, if_false]
          exact if_neg (by omega)
        exact dowPartToIndices_of_ok hstep hbounds

theorem dowIndices_ok_iff
    {parts : List Text} {days : List Nat}
    (hspace : ∀ part ∈ parts, Unspaced part) :
    U.dowIndices parts = .ok days ↔
      ∃ items, List.Forall₂ (ReadsItem (some intMaxStrDigits)) (parts.map U.asciiDigits) items ∧
        days = items.flatMap indices := by
  induction parts generalizing days with
  | nil =>
      constructor
      · intro h
        cases h
        exact ⟨[], .nil, rfl⟩
      · rintro ⟨items, hitems, rfl⟩
        cases hitems
        rfl
  | cons part parts ih =>
      rw [List.forall_mem_cons] at hspace
      constructor
      · intro h
        obtain ⟨first, hfirst, h⟩ := ok_of_bind h
        obtain ⟨rest, hrest, h⟩ := ok_of_bind h
        cases h
        obtain ⟨item, hitem, rfl⟩ := (dowPartToIndices_ok_iff hspace.1).1 hfirst
        obtain ⟨items, hitems, rfl⟩ := (ih hspace.2).1 hrest
        exact ⟨item :: items, .cons hitem hitems, rfl⟩
      · rintro ⟨items, hitems, rfl⟩
        rw [List.map_cons] at hitems
        cases hitems with
        | @cons _ item _ items hitem hitems =>
            rw [dowIndices, (dowPartToIndices_ok_iff hspace.1).2 ⟨item, hitem, rfl⟩,
              (ih hspace.2).2 ⟨items, hitems, rfl⟩]
            rfl

end UnicodeDigits

/-! ## Fields -/

theorem Unspaced.splitOn
    {field : Text}
    (h : Unspaced field) :
    ∀ part ∈ field.splitOn ',', Unspaced part := by
  have hback : [','].intercalate (field.splitOn ',') = field := List.intercalate_splitOn ','
  intro part hpart c hc
  apply h
  rw [← hback]
  exact mem_intercalate_of_mem hpart hc

/-- The text that a reading is rewritten to. -/
def rewritten (field : Text) (items : List Item) : Text :=
  if isStar field then ['*'] else namesText (items.flatMap indices)

namespace UnicodeDigits

variable {U : UnicodeDigits}

theorem normalizeDow_ok_iff
    {field out : Text}
    (hspace : Unspaced field) :
    U.normalizeDow field = .ok out ↔
      ∃ items, Reads (some intMaxStrDigits) (U.asciiDigits field) items ∧
        out = rewritten field items := by
  rw [normalizeDow, strip_of_unspaced hspace]
  simp only [Reads, splitOn_asciiDigits (U := U) (x := ',') (by decide) rfl]
  constructor
  · intro h
    split at h
    · rename_i hstar
      cases h
      refine ⟨[⟨.every, 1⟩], ?_, (if_pos hstar).symm⟩
      rcases isStar_iff.1 hstar with rfl | rfl
      · have hself : U.asciiDigits ['*'] = ['*'] := asciiDigits_of_ascii (by simp)
        rw [List.splitOn_eq_singleton (by decide), List.map_singleton, hself]
        exact .cons (.plain .star) .nil
      · have hself : U.asciiDigits ['?'] = ['?'] := asciiDigits_of_ascii (by simp)
        rw [List.splitOn_eq_singleton (by decide), List.map_singleton, hself]
        exact .cons (.plain .question) .nil
    · rename_i hstar
      obtain ⟨days, hdays, h⟩ := ok_of_bind h
      cases h
      obtain ⟨items, hitems, rfl⟩ := (dowIndices_ok_iff hspace.splitOn).1 hdays
      exact ⟨items, hitems, (if_neg hstar).symm⟩
  · rintro ⟨items, hitems, rfl⟩
    rw [rewritten]
    split
    · rfl
    · rw [(dowIndices_ok_iff hspace.splitOn).2 ⟨items, hitems, rfl⟩]
      rfl

end UnicodeDigits

/-! ## The days of an item -/

theorem mem_dowRange
    {low high step day : Nat}
    (hstep : 0 < step) :
    day ∈ dowRange low high step ↔
      ∃ j, j * step ≤ (((high : Int) - low) % 7).toNat ∧ (low + j * step) % 7 = day := by
  simp only [dowRange, List.mem_map, List.mem_range, Nat.lt_succ_iff,
    Nat.le_div_iff_mul_le hstep]

theorem mem_indices
    {item : Item} {day : Nat}
    (h : item.Sound)
    (hbase : item.base ≠ .range 0 7) :
    day ∈ indices item ↔ item.Denotes day := by
  obtain ⟨base, step⟩ := item
  have hstep : 0 < step := h.step
  rw [indices, mem_dowRange hstep]
  cases base with
  | every =>
      simp only [bounds, Item.Denotes, Base.low, Base.top, Nat.zero_add]
      constructor
      · rintro ⟨j, hj, rfl⟩
        exact ⟨j, by omega, rfl⟩
      · rintro ⟨j, hj, rfl⟩
        rcases Nat.lt_or_eq_of_le hj with hlt | heq
        · exact ⟨j, by omega, rfl⟩
        · exact ⟨0, by omega, by rw [heq, Nat.zero_mul]⟩
  | range low high =>
      obtain ⟨hlow, hhigh⟩ := h.bounds low high rfl
      have hspan :
          low + ((((high % 7 : Nat) : Int) - (low % 7 : Nat)) % 7).toNat =
            (Base.range low high).top := by
        have hne : ¬(low = 0 ∧ high = 7) := by
          rintro ⟨rfl, rfl⟩
          exact hbase rfl
        simp only [Base.top]
        split <;> omega
      simp only [bounds, Item.Denotes, Base.low]
      constructor
      · rintro ⟨j, hj, rfl⟩
        exact ⟨j, by omega, by omega⟩
      · rintro ⟨j, hj, rfl⟩
        exact ⟨j, by omega, by omega⟩

/-- Of the days from 0 to 7 the rewriting has Sunday alone. -/
theorem mem_indices_sundays
    {item : Item} {day : Nat}
    (h : item.Sound)
    (hbase : item.base = .range 0 7) :
    day ∈ indices item ↔ day = 0 := by
  rw [indices, mem_dowRange h.step, hbase]
  constructor
  · rintro ⟨j, hj, rfl⟩
    have hzero : j * item.step = 0 := Nat.le_zero.1 hj
    simp [bounds, hzero]
  · rintro rfl
    exact ⟨0, by simp [bounds], by simp [bounds]⟩

theorem zero_mem_days
    {item : Item}
    (hbase : item.base = .range 0 7) :
    item.Denotes 0 :=
  ⟨0, by simp [hbase, Base.low, Base.top], by simp [hbase, Base.low]⟩

/-! ## The rewritten field -/

/-- The weekdays among some indices, in the order of the scheduler. -/
def weekdays (days : List Nat) : List Nat := apschedulerDowOrder.filter days.contains

theorem mem_weekdays
    {days : List Nat} {day : Nat}
    (h : ∀ d ∈ days, d < 7) :
    day ∈ weekdays days ↔ day ∈ days := by
  rw [weekdays, List.mem_filter, List.contains_iff_mem, and_iff_right_iff_imp]
  intro hday
  have horder : ∀ d < 7, d ∈ apschedulerDowOrder := by decide
  exact horder day (h day hday)

theorem lt_of_mem_weekdays
    {days : List Nat} {day : Nat}
    (h : day ∈ weekdays days) :
    day < 7 := by
  have horder : ∀ d ∈ apschedulerDowOrder, d < 7 := by decide
  exact horder day (List.mem_of_mem_filter h)

theorem weekdays_weekdays (days : List Nat) : weekdays (weekdays days) = weekdays days := by
  apply List.filter_congr
  intro day hday
  rw [Bool.eq_iff_iff, List.contains_iff_mem, List.contains_iff_mem, weekdays, List.mem_filter,
    List.contains_iff_mem, and_iff_right hday]

/-- The item of one weekday. -/
def single (day : Nat) : Item := ⟨.range day day, 1⟩

theorem dayName_facts
    {day : Nat}
    (h : day < 7) :
    dayNames[day]? = some ((dayName day).map Char.toLower) ∧
      (∀ c ∈ dayName day, c.isLower = true ∧ isSpace c = false) ∧
        indices (single day) = [day] := by
  have hall : ∀ day < 7,
      dayNames[day]? = some ((dayName day).map Char.toLower) ∧
        ((dayName day).all fun c => c.isLower && !isSpace c) = true ∧
          indices (single day) = [day] := by decide
  obtain ⟨hname, hchars, hindices⟩ := hall day h
  refine ⟨hname, fun c hc => ?_, hindices⟩
  simpa using List.all_eq_true.1 hchars c hc

theorem denotes_single
    {day d : Nat}
    (h : day < 7) :
    (single day).Denotes d ↔ d = day := by
  simp only [single, Item.Denotes, Base.low, Base.top, le_refl, if_true]
  constructor
  · rintro ⟨j, hj, rfl⟩
    omega
  · rintro rfl
    exact ⟨0, by omega, by omega⟩

theorem reads_namesText
    {limit : Option Nat} {days : List Nat}
    (hne : weekdays days ≠ []) :
    Reads limit (namesText days) ((weekdays days).map single) := by
  have hsplit : (namesText days).splitOn ',' = (weekdays days).map dayName := by
    apply List.splitOn_intercalate
    · intro name hname
      obtain ⟨day, hday, rfl⟩ := List.mem_map.1 hname
      intro hcomma
      exact absurd ((dayName_facts (lt_of_mem_weekdays hday)).2.1 ',' hcomma).1 (by decide)
    · exact fun hnil => hne (List.map_eq_nil_iff.1 hnil)
  rw [Reads, hsplit, List.forall₂_map_left_iff, List.forall₂_map_right_iff, List.forall₂_same]
  intro day hday
  exact .plain (.value (.name (dayName_facts (lt_of_mem_weekdays hday)).1))

/-- The rewritten field consists of small letters and commas. -/
theorem mem_namesText
    {days : List Nat} {c : Char}
    (h : c ∈ namesText days) :
    c = ',' ∨ (c.isLower = true ∧ isSpace c = false) := by
  rcases eq_or_mem_of_mem_intercalate h with rfl | ⟨name, hname, hc⟩
  · exact .inl rfl
  · obtain ⟨day, hday, rfl⟩ := List.mem_map.1 hname
    exact .inr ((dayName_facts (lt_of_mem_weekdays hday)).2.1 c hc)

theorem unspaced_namesText (days : List Nat) : Unspaced (namesText days) := by
  intro c hc
  rcases mem_namesText hc with rfl | ⟨-, hspace⟩
  · rfl
  · exact hspace

theorem ascii_namesText (days : List Nat) : ∀ c ∈ namesText days, c.toNat < 128 := by
  intro c hc
  rcases mem_namesText hc with rfl | ⟨hlower, -⟩
  · decide
  · exact (ascii_of_letter (.inr hlower)).1

theorem not_isStar_namesText (days : List Nat) : ¬isStar (namesText days) = true := by
  intro h
  have hnot : ∀ c ∈ namesText days, c ≠ '*' ∧ c ≠ '?' := by
    intro c hc
    rcases mem_namesText hc with rfl | ⟨hlower, -⟩
    · decide
    · constructor
      · rintro rfl
        cases hlower
      · rintro rfl
        cases hlower
  rcases isStar_iff.1 h with heq | heq
  · exact (hnot '*' (by simp [heq])).1 rfl
  · exact (hnot '?' (by simp [heq])).2 rfl

theorem flatMap_single
    {days : List Nat}
    (h : ∀ d ∈ days, d < 7) :
    (days.map single).flatMap indices = days := by
  induction days with
  | nil => rfl
  | cons day days ih =>
      rw [List.forall_mem_cons] at h
      rw [List.map_cons, List.flatMap_cons, (dayName_facts h.1).2.2, ih h.2]
      rfl

/-- What is read in a field is in the range of a weekday. -/
theorem lt_of_mem_indices
    {item : Item} {day : Nat}
    (h : day ∈ indices item) :
    day < 7 := by
  simp only [indices, dowRange, List.mem_map] at h
  obtain ⟨j, -, rfl⟩ := h
  exact Nat.mod_lt _ (by decide)

theorem weekdays_ne_nil
    {limit : Option Nat} {field : Text} {items : List Item}
    (h : Reads limit field items) :
    weekdays (items.flatMap indices) ≠ [] := by
  rw [Reads] at h
  obtain ⟨first, rest, hsplit⟩ := List.exists_cons_of_ne_nil (List.splitOn_ne_nil ',' field)
  rw [hsplit] at h
  cases h with
  | @cons _ item _ items hitem hitems =>
      have hday : ∃ day, day ∈ indices item := by
        refine ⟨_, (mem_dowRange hitem.sound.step).2 ⟨0, by omega, rfl⟩⟩
      obtain ⟨day, hday⟩ := hday
      have hmem : day ∈ weekdays ((item :: items).flatMap indices) := by
        refine (mem_weekdays fun d hd => ?_).2 (List.mem_flatMap.2 ⟨item, List.mem_cons_self, hday⟩)
        obtain ⟨other, -, hd⟩ := List.mem_flatMap.1 hd
        exact lt_of_mem_indices hd
      exact List.ne_nil_of_mem hmem

/-! ## The translation -/

/-- A day-of-week field, as `str.split` gives it. -/
structure Field where
  text : Text
  unspaced : Unspaced text

/-- What is asked of the rewriting of a field: it accepts the well-formed fields, keeps their
days and leaves its own output as it is. -/
structure Translated (U : UnicodeDigits) (field : Field) : Prop where
  accepted : (∃ out, U.normalizeDow field.text = .ok out) ↔ ∃ items, Reads none field.text items
  meaning : ∀ out items, U.normalizeDow field.text = .ok out → Reads none field.text items →
    ∃ items', Reads none out items' ∧ ∀ day, Denotes items' day ↔ Denotes items day
  stable : ∀ out, U.normalizeDow field.text = .ok out → U.normalizeDow out = .ok out

/-- The fields that are rewritten as asked.  A well-formed one has no numeral too long for
`int`; a malformed one has none of its faults in the script of its digits alone; and a day but
Sunday that an item from 0 to 7 denotes is denoted by another kind of item as well. -/
structure Regular (U : UnicodeDigits) (field : Field) : Prop where
  short : (∃ items, Reads none field.text items) →
    ∃ items, Reads (some intMaxStrDigits) field.text items
  ascii : (∃ items, Reads (some intMaxStrDigits) (U.asciiDigits field.text) items) →
    ∃ items, Reads none field.text items
  sundays : ∀ items, Reads none field.text items → ∀ item ∈ items, item.base = .range 0 7 →
    ∀ day, item.Denotes day → day ≠ 0 →
      ∃ other ∈ items, other.base ≠ .range 0 7 ∧ other.Denotes day

variable {U : UnicodeDigits}

theorem asciiDigits_of_reads
    {limit : Option Nat} {field : Text} {items : List Item}
    (h : Reads limit field items) :
    U.asciiDigits field = field :=
  UnicodeDigits.asciiDigits_of_ascii h.ascii

theorem normalizeDow_of_reads
    {field : Field} {items : List Item}
    (h : Reads (some intMaxStrDigits) field.text items) :
    U.normalizeDow field.text = .ok (rewritten field.text items) :=
  (UnicodeDigits.normalizeDow_ok_iff field.unspaced).2 ⟨items, by rwa [asciiDigits_of_reads h], rfl⟩

/-- The output is left as it is. -/
theorem normalizeDow_normalizeDow
    {field : Field} {out : Text}
    (h : U.normalizeDow field.text = .ok out) :
    U.normalizeDow out = .ok out := by
  obtain ⟨items, hitems, rfl⟩ := (UnicodeDigits.normalizeDow_ok_iff field.unspaced).1 h
  rw [rewritten]
  split
  · rfl
  · have hreads :
        Reads (some intMaxStrDigits) (namesText (items.flatMap indices))
          ((weekdays (items.flatMap indices)).map single) :=
      reads_namesText (weekdays_ne_nil hitems)
    rw [(UnicodeDigits.normalizeDow_ok_iff (unspaced_namesText _)).2
      ⟨_, by rwa [UnicodeDigits.asciiDigits_of_ascii (ascii_namesText _)], rfl⟩]
    rw [rewritten, if_neg (not_isStar_namesText _), flatMap_single fun _ => lt_of_mem_weekdays]
    exact congrArg (fun days => Except.ok ([','].intercalate (days.map dayName)))
      (weekdays_weekdays _)

theorem reads_star
    {field : Text}
    (h : isStar field = true) :
    Reads none field [⟨.every, 1⟩] := by
  rcases isStar_iff.1 h with rfl | rfl
  · exact .cons (.plain .star) .nil
  · exact .cons (.plain .question) .nil

/-- The output has a reading; unless the field is a star, its days are the indices. -/
theorem reads_rewritten
    {field : Text} {items : List Item}
    (h : Reads none field items) :
    ∃ items', Reads none (rewritten field items) items' ∧
      ((isStar field = true ∧ items' = items) ∨
        (isStar field = false ∧
          ∀ day, Denotes items' day ↔ ∃ item ∈ items, day ∈ indices item)) := by
  rw [rewritten]
  split
  · rename_i hstar
    exact ⟨_, reads_star rfl, .inl ⟨hstar, (reads_star hstar).unique h⟩⟩
  · rename_i hstar
    refine ⟨_, reads_namesText (weekdays_ne_nil h), .inr ⟨by simpa using hstar, fun day => ?_⟩⟩
    have hlt : ∀ d ∈ items.flatMap indices, d < 7 := by
      intro d hd
      obtain ⟨item, -, hd⟩ := List.mem_flatMap.1 hd
      exact lt_of_mem_indices hd
    rw [← List.mem_flatMap, ← mem_weekdays hlt, Denotes]
    constructor
    · rintro ⟨item, hitem, hday⟩
      obtain ⟨d, hd, rfl⟩ := List.mem_map.1 hitem
      rw [(denotes_single (lt_of_mem_weekdays hd)).1 hday]
      exact hd
    · intro hday
      exact ⟨single day, List.mem_map_of_mem hday,
        (denotes_single (lt_of_mem_weekdays hday)).2 rfl⟩

theorem sound_of_mem
    {limit : Option Nat} {field : Text} {items : List Item}
    (h : Reads limit field items) :
    ∀ item ∈ items, item.Sound := by
  rw [Reads] at h
  generalize field.splitOn ',' = parts at h
  induction h with
  | nil => simp
  | cons hitem _ ih => exact List.forall_mem_cons.2 ⟨hitem.sound, ih⟩

theorem Regular.reads
    {field : Field} {items : List Item}
    (h : Regular U field)
    (hreads : Reads none field.text items) :
    Reads (some intMaxStrDigits) field.text items := by
  obtain ⟨items', hshort⟩ := h.short ⟨items, hreads⟩
  rwa [hreads.unique hshort.unlimited]

theorem Regular.translated
    {field : Field}
    (h : Regular U field) :
    Translated U field where
  accepted := by
    constructor
    · rintro ⟨out, hout⟩
      obtain ⟨items, hitems, -⟩ := (UnicodeDigits.normalizeDow_ok_iff field.unspaced).1 hout
      exact h.ascii ⟨items, hitems⟩
    · rintro ⟨items, hitems⟩
      exact ⟨_, normalizeDow_of_reads (h.reads hitems)⟩
  meaning out items hout hitems := by
    rw [normalizeDow_of_reads (h.reads hitems)] at hout
    cases hout
    obtain ⟨items', hitems', ⟨-, rfl⟩ | ⟨-, hdays⟩⟩ := reads_rewritten hitems
    · exact ⟨items', hitems', fun day => Iff.rfl⟩
    · refine ⟨items', hitems', fun day => (hdays day).trans ?_⟩
      constructor
      · rintro ⟨item, hitem, hday⟩
        have hsound := sound_of_mem hitems item hitem
        by_cases hbase : item.base = .range 0 7
        · rw [(mem_indices_sundays hsound hbase).1 hday]
          exact ⟨item, hitem, zero_mem_days hbase⟩
        · exact ⟨item, hitem, (mem_indices hsound hbase).1 hday⟩
      · rintro ⟨item, hitem, hday⟩
        have hsound := sound_of_mem hitems item hitem
        by_cases hbase : item.base = .range 0 7
        · by_cases hsunday : day = 0
          · exact ⟨item, hitem, (mem_indices_sundays hsound hbase).2 hsunday⟩
          · obtain ⟨other, hother, hbase', hday'⟩ :=
              h.sundays items hitems item hitem hbase day hday hsunday
            exact ⟨other, hother, (mem_indices (sound_of_mem hitems other hother) hbase').2 hday'⟩
        · exact ⟨item, hitem, (mem_indices hsound hbase).2 hday⟩
  stable out hout := normalizeDow_normalizeDow hout

theorem Translated.regular
    {field : Field}
    (h : Translated U field) :
    Regular U field := by
  have hshort : (∃ items, Reads none field.text items) →
      ∃ items, Reads (some intMaxStrDigits) field.text items := by
    rintro ⟨items, hitems⟩
    obtain ⟨out, hout⟩ := h.accepted.2 ⟨items, hitems⟩
    obtain ⟨items', hitems', -⟩ := (UnicodeDigits.normalizeDow_ok_iff field.unspaced).1 hout
    rw [asciiDigits_of_reads hitems] at hitems'
    exact ⟨items', hitems'⟩
  refine ⟨hshort, ?_, ?_⟩
  · rintro ⟨items, hitems⟩
    exact h.accepted.1
      ⟨_, (UnicodeDigits.normalizeDow_ok_iff field.unspaced).2 ⟨items, hitems, rfl⟩⟩
  · intro items hitems item hitem hbase day hday hsunday
    obtain ⟨items', hitems'⟩ := hshort ⟨items, hitems⟩
    rw [← hitems.unique hitems'.unlimited] at hitems'
    obtain ⟨named, hnamed, hmeaning⟩ := h.meaning _ items (normalizeDow_of_reads hitems') hitems
    obtain ⟨named', hnamed', hdays⟩ := reads_rewritten hitems
    rw [hnamed.unique hnamed'] at hmeaning
    rcases hdays with ⟨hstar, -⟩ | ⟨-, hdays⟩
    · rw [hitems.unique (reads_star hstar), List.mem_singleton] at hitem
      rw [hitem] at hbase
      cases hbase
    · obtain ⟨other, hother, hindex⟩ := (hdays day).1 ((hmeaning day).2 ⟨item, hitem, hday⟩)
      have hsound := sound_of_mem hitems other hother
      have hbase' : other.base ≠ .range 0 7 :=
        fun heq => hsunday ((mem_indices_sundays hsound heq).1 hindex)
      exact ⟨other, hother, hbase', (mem_indices hsound hbase').1 hindex⟩

/-- A field is rewritten as asked exactly if it is regular. -/
theorem normalizeDow_translated_iff (U : UnicodeDigits) (field : Field) :
    Translated U field ↔ Regular U field :=
  ⟨Translated.regular, Regular.translated⟩

theorem lt_of_digit
    {c : Char} {d : Nat}
    (h : (if c.isDigit then some (c.toNat - 48) else none) = some d) :
    d < 10 := by
  split at h
  · rename_i hdigit
    have hrange := toNat_of_isDigit hdigit
    cases h
    omega
  · cases h

theorem isDigit_of_isSome
    {c : Char}
    (h : (if c.isDigit then some (c.toNat - 48) else none).isSome = true) :
    c.isDigit = true := by
  split at h
  · assumption
  · cases h

theorem decimal_of_isDigit
    {c : Char}
    (h : c.isDigit = true) :
    (if c.isDigit then some (c.toNat - 48) else none) = some (c.toNat - 48) :=
  if_pos h

theorem decimal_of_not_isDigit
    {c : Char}
    (h : c.isDigit = false) :
    (if c.isDigit then some (c.toNat - 48) else none) = none :=
  if_neg (Bool.eq_false_iff.1 h)

/-- The digits of ASCII alone. -/
def UnicodeDigits.basic : UnicodeDigits where
  decimal c := if c.isDigit then some (c.toNat - 48) else none
  isDigit c := c.isDigit
  decimal_ascii _ h := decimal_of_isDigit h
  decimal_other _ _ h := decimal_of_not_isDigit h
  decimal_lt _ _ h := lt_of_digit h
  isDigit_decimal _ h := isDigit_of_isSome h

def everyDay : Field where
  text := ['0', '-', '7']
  unspaced := show ∀ c ∈ ['0', '-', '7'], isSpace c = false by simp [isSpace]

/-- The field of every day by number, `0-7`, becomes that of Sundays. -/
theorem every_day_becomes_sunday :
    UnicodeDigits.basic.normalizeDow everyDay.text = .ok ['s', 'u', 'n'] ∧
      ¬Translated .basic everyDay := by
  have hzero : Value none ['0'] (numeral ['0']) :=
    .number ⟨by decide, by simp, by simp⟩ (by decide)
  have hseven : Value none ['7'] (numeral ['7']) :=
    .number ⟨by decide, by simp, by simp⟩ (by decide)
  have hreads : Reads none everyDay.text [⟨.range 0 7, 1⟩] :=
    .cons (.plain (.range hzero hseven)) .nil
  refine ⟨by decide, fun h => ?_⟩
  obtain ⟨other, hother, hbase, -⟩ := h.regular.sundays _ hreads ⟨.range 0 7, 1⟩
    List.mem_cons_self rfl 1 ⟨1, by decide, by decide⟩ (by decide)
  rw [List.mem_singleton] at hother
  exact hbase (by rw [hother])

end Reminders
end Vesta
