import Mathlib.Data.List.Basic

/-!
# Texts as lists of characters

The string functions of the source act on texts character by character, so a text
is its list of characters.  The pieces of a split are texts without the separator,
and joining such pieces and splitting again gives them back.  Files hold the UTF-8
bytes of a text, and need not be valid when a write was cut.
-/

namespace Vesta
namespace Lib

abbrev Text := List Char

/-! ## ASCII letters and digits -/

theorem isUpper_iff {c : Char} : c.isUpper = true ↔ 65 ≤ c.toNat ∧ c.toNat ≤ 90 := by
  exact decide_eq_true_iff

theorem isLower_iff {c : Char} : c.isLower = true ↔ 97 ≤ c.toNat ∧ c.toNat ≤ 122 := by
  exact (Bool.and_eq_true_iff).trans (and_congr decide_eq_true_iff decide_eq_true_iff)

theorem isDigit_iff {c : Char} : c.isDigit = true ↔ 48 ≤ c.toNat ∧ c.toNat ≤ 57 :=
  Char.isDigit_iff_toNat

theorem isAlphanum_iff {c : Char} :
    c.isAlphanum = true ↔ (c.isUpper = true ∨ c.isLower = true) ∨ c.isDigit = true := by
  exact Bool.or_eq_true_iff.trans (or_congr_left Bool.or_eq_true_iff)

/-! ## Prefixes and bytes -/

/-- `str::strip_prefix`. -/
def stripPrefix : Text → Text → Option Text
  | [], text => some text
  | _ :: _, [] => none
  | p :: ps, c :: cs => if p = c then stripPrefix ps cs else none

/-- The bytes of a text. -/
def utf8 (text : Text) : List UInt8 := text.flatMap String.utf8EncodeChar

/-- The text that the bytes encode, when they are valid. -/
def fromUtf8 (bytes : List UInt8) : Option Text :=
  bytes.toByteArray.utf8Decode?.map Array.toList

theorem fromUtf8_utf8 (text : Text) : fromUtf8 (utf8 text) = some text := by
  have hencode : (utf8 text).toByteArray = text.utf8Encode := rfl
  rw [fromUtf8, hencode, List.utf8Decode?_utf8Encode]
  rfl

theorem utf8_of_fromUtf8
    {bytes : List UInt8} {text : Text}
    (h : fromUtf8 bytes = some text) :
    utf8 text = bytes := by
  obtain ⟨chars, hchars, rfl⟩ := Option.map_eq_some_iff.1 h
  have hsome : bytes.toByteArray.utf8Decode?.isSome = true := by rw [hchars]; rfl
  have hback := ByteArray.utf8Encode_get_utf8Decode? (h := hsome)
  simp only [hchars, Option.get_some] at hback
  have hencode : (utf8 chars.toList).toByteArray = bytes.toByteArray := hback
  have hdata := congrArg (fun a => a.data.toList) hencode
  simpa using hdata

theorem utf8_append (a b : Text) : utf8 (a ++ b) = utf8 a ++ utf8 b :=
  List.flatMap_append

theorem utf8_eq_nil_iff {text : Text} : utf8 text = [] ↔ text = [] := by
  cases text with
  | nil => exact iff_of_true rfl rfl
  | cons c text => simp [utf8, String.utf8EncodeChar_ne_nil]

theorem utf8_take_append_drop (text : Text) (n : Nat) :
    utf8 (text.take n) ++ utf8 (text.drop n) = utf8 text := by
  rw [← utf8_append, List.take_append_drop]

/-- Only the line feed is encoded with its byte last. -/
theorem eq_lineFeed_of_getLast?_utf8EncodeChar
    {c : Char}
    (h : (String.utf8EncodeChar c).getLast? = some 10) :
    c = '\n' := by
  have hcode : c.val.toNat = 10 → c = '\n' := fun hc =>
    Char.ext (UInt32.toNat_inj.1 hc)
  have hlast : ∀ n, UInt8.ofNat (n % 64 + 128) ≠ 10 := by
    intro n hn
    have hn := congrArg UInt8.toNat hn
    simp only [UInt8.toNat_ofNat', UInt8.reduceToNat] at hn
    omega
  simp only [String.utf8EncodeChar] at h
  split at h
  · rename_i hsmall
    simp only [List.getLast?_singleton, Option.some.injEq] at h
    have hn := congrArg UInt8.toNat h
    simp only [UInt8.toNat_ofNat', UInt8.reduceToNat] at hn
    exact hcode (by omega)
  · split at h
    · simp only [List.getLast?_cons_cons, List.getLast?_singleton, Option.some.injEq] at h
      exact absurd h (hlast _)
    · split at h <;>
        simp only [List.getLast?_cons_cons, List.getLast?_singleton, Option.some.injEq] at h <;>
        exact absurd h (hlast _)

theorem utf8EncodeChar_of_lt
    {c : Char}
    (h : c.toNat < 128) :
    String.utf8EncodeChar c = [UInt8.ofNat c.toNat] := by
  have hsmall : c.val.toNat ≤ 0x7f := Nat.le_of_lt_succ h
  simp only [String.utf8EncodeChar, if_pos hsmall]
  rfl

/-- The bytes of a character outside ASCII are outside ASCII. -/
theorem le_of_mem_utf8EncodeChar
    {c : Char} {b : UInt8}
    (h : 128 ≤ c.toNat)
    (hb : b ∈ String.utf8EncodeChar c) :
    128 ≤ b.toNat := by
  have hmore : ∀ n, 128 ≤ (UInt8.ofNat (n % 64 + 128)).toNat := fun n => by
    simp only [UInt8.toNat_ofNat']
    omega
  have htwo : ∀ n, 128 ≤ (UInt8.ofNat (n % 32 + 192)).toNat := fun n => by
    simp only [UInt8.toNat_ofNat']
    omega
  have hthree : ∀ n, 128 ≤ (UInt8.ofNat (n % 16 + 224)).toNat := fun n => by
    simp only [UInt8.toNat_ofNat']
    omega
  have hfour : ∀ n, 128 ≤ (UInt8.ofNat (n % 8 + 240)).toNat := fun n => by
    simp only [UInt8.toNat_ofNat']
    omega
  have hlarge : ¬ c.val.toNat ≤ 0x7f := Nat.not_le.2 h
  simp only [String.utf8EncodeChar, if_neg hlarge] at hb
  split at hb
  · simp only [List.mem_cons, List.not_mem_nil, or_false] at hb
    rcases hb with rfl | rfl
    · exact htwo _
    · exact hmore _
  · split at hb
    · simp only [List.mem_cons, List.not_mem_nil, or_false] at hb
      rcases hb with rfl | rfl | rfl
      · exact hthree _
      · exact hmore _
      · exact hmore _
    · simp only [List.mem_cons, List.not_mem_nil, or_false] at hb
      rcases hb with rfl | rfl | rfl | rfl
      · exact hfour _
      · exact hmore _
      · exact hmore _
      · exact hmore _

/-- Pieces after a separator each are the pieces joined, with an empty one in front. -/
theorem flatMap_cons_eq_intercalate
    (c : Char) (parts : List Text) :
    (parts.flatMap fun part => c :: part) = [c].intercalate ([] :: parts) := by
  induction parts with
  | nil => rfl
  | cons part parts ih =>
      rw [List.flatMap_cons, ih]
      cases parts with
      | nil => simp [List.intercalate]
      | cons next parts => simp [List.intercalate]

/-- A check of each character of a text, evaluated as one. -/
theorem forall_mem_of_all
    {p : Char → Prop} [DecidablePred p] {text : Text}
    (h : (text.all fun c => decide (p c)) = true) :
    ∀ c ∈ text, p c :=
  fun c hc => of_decide_eq_true (List.all_eq_true.1 h c hc)

theorem flatMap_splitOn
    (c : Char) (text : Text) :
    ((text.splitOn c).flatMap fun part => c :: part) = c :: text := by
  rw [flatMap_cons_eq_intercalate]
  obtain ⟨first, rest, hsplit⟩ := List.exists_cons_of_ne_nil (List.splitOn_ne_nil c text)
  have hback : List.intercalate [c] (text.splitOn c) = text := List.intercalate_splitOn c
  rw [hsplit] at hback ⊢
  rw [← hback]
  cases rest with
  | nil => simp [List.intercalate]
  | cons next rest => simp [List.intercalate]

theorem eq_or_mem_of_mem_intercalate
    {parts : List Text} {c d : Char}
    (h : d ∈ [c].intercalate parts) :
    d = c ∨ ∃ part ∈ parts, d ∈ part := by
  induction parts with
  | nil => cases h
  | cons part parts ih =>
      cases parts with
      | nil =>
          rw [List.intercalate_singleton] at h
          exact Or.inr ⟨part, List.mem_cons_self, h⟩
      | cons next parts =>
          rw [List.intercalate_cons_cons, List.mem_append, List.mem_append,
            List.mem_singleton] at h
          rcases h with (h | h) | h
          · exact Or.inr ⟨part, List.mem_cons_self, h⟩
          · exact Or.inl h
          · exact (ih h).imp_right fun ⟨other, hother, hd⟩ =>
              ⟨other, List.mem_cons_of_mem _ hother, hd⟩

theorem mem_intercalate_of_mem
    {parts : List Text} {part : Text} {c d : Char}
    (hpart : part ∈ parts)
    (hd : d ∈ part) :
    d ∈ [c].intercalate parts := by
  induction parts with
  | nil => cases hpart
  | cons first parts ih =>
      cases parts with
      | nil =>
          rw [List.mem_singleton.1 hpart] at hd
          rwa [List.intercalate_singleton]
      | cons next parts =>
          rw [List.intercalate_cons_cons, List.mem_append, List.mem_append]
          rcases List.mem_cons.1 hpart with rfl | hpart
          · exact Or.inl (Or.inl hd)
          · exact Or.inr (ih hpart)

theorem stripPrefix_append (lead rest : Text) : stripPrefix lead (lead ++ rest) = some rest := by
  induction lead with
  | nil => rfl
  | cons c lead ih => rw [List.cons_append, stripPrefix, if_pos rfl, ih]

theorem append_of_stripPrefix
    {lead text rest : Text}
    (h : stripPrefix lead text = some rest) :
    text = lead ++ rest := by
  induction lead generalizing text with
  | nil => exact Option.some_inj.1 h
  | cons p lead ih =>
      cases text with
      | nil => cases h
      | cons c text =>
          rw [stripPrefix] at h
          split at h
          · rename_i heq
            rw [heq, ih h, List.cons_append]
          · cases h

/-- No piece of a split contains the character that was split on. -/
theorem not_mem_of_mem_splitOn
    {text piece : Text} {c : Char}
    (h : piece ∈ text.splitOn c) :
    c ∉ piece := by
  induction text generalizing piece with
  | nil =>
      rw [List.splitOn_nil, List.mem_singleton] at h
      simp [h]
  | cons x text ih =>
      rw [List.splitOn_cons_eq_if_modifyHead] at h
      split at h
      · rcases List.mem_cons.1 h with rfl | h
        · simp
        · exact ih h
      · rename_i hx
        obtain ⟨first, rest, hsplit⟩ := List.exists_cons_of_ne_nil (List.splitOn_ne_nil c text)
        rw [hsplit, List.modifyHead_cons] at h
        rcases List.mem_cons.1 h with rfl | h
        · have hfirst : c ∉ first := ih (by rw [hsplit]; exact List.mem_cons_self)
          simp only [List.mem_cons, not_or]
          exact ⟨fun heq => hx (by simp [heq]), hfirst⟩
        · exact ih (by rw [hsplit]; exact List.mem_cons_of_mem _ h)

/-- The bytes of a character tell where they end. -/
theorem utf8EncodeChar_append_inj
    {c d : Char} {x y : List UInt8}
    (h : String.utf8EncodeChar c ++ x = String.utf8EncodeChar d ++ y) :
    c = d ∧ x = y := by
  have hdecode : ∀ (c : Char) (x : List UInt8),
      (String.utf8EncodeChar c ++ x).toByteArray.utf8DecodeChar? 0 = some c := by
    intro c x
    rw [List.toByteArray_append]
    exact ByteArray.utf8DecodeChar?_utf8EncodeChar_append
  have hchar : c = d := Option.some.inj ((hdecode c x).symm.trans (h ▸ hdecode d y))
  subst hchar
  exact ⟨rfl, List.append_cancel_left h⟩

theorem prefix_of_utf8_prefix
    {a b : Text}
    (h : utf8 a <+: utf8 b) :
    a <+: b := by
  induction a generalizing b with
  | nil => exact List.nil_prefix
  | cons c a ih =>
      obtain ⟨rest, hrest⟩ := h
      cases b with
      | nil => simp [utf8, String.utf8EncodeChar_ne_nil] at hrest
      | cons d b =>
          rw [utf8, utf8, List.flatMap_cons, List.flatMap_cons, List.append_assoc] at hrest
          obtain ⟨rfl, htail⟩ := utf8EncodeChar_append_inj hrest
          exact (List.prefix_cons_inj c).2 (ih ⟨rest, htail⟩)

theorem utf8_injective : Function.Injective utf8 := by
  intro a b h
  exact Option.some.inj ((fromUtf8_utf8 a).symm.trans (h ▸ fromUtf8_utf8 b))

end Lib
end Vesta
