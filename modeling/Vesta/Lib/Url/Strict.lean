import Vesta.Lib.Url.Percent

/-!
# Strict percent-decoding

A text is well escaped when two hexadecimal digits follow every percent sign.  Strict
decoding refuses the others, and reads the bytes of the tokens of the well-escaped ones.
Whatever set a text is encoded with, strict decoding reads its bytes back as long as the
set has the percent sign.
-/

namespace Vesta
namespace Lib
namespace Url

/-- Two hexadecimal digits follow every percent sign. -/
def WellEscaped (text : Text) : Prop :=
  ∀ before after, text = before ++ '%' :: after →
    ∃ high low rest, after = high :: low :: rest ∧ (hexValue high).isSome = true ∧
      (hexValue low).isSome = true

def strictDecode : Text → Option (List UInt8)
  | [] => some []
  | c :: rest =>
      if c = '%' then
        match rest with
        | high :: low :: rest =>
            (escapedByte high low).bind fun b => (strictDecode rest).map (b :: ·)
        | _ => none
      else
        (strictDecode rest).map (String.utf8EncodeChar c ++ ·)

section Steps

variable {c high low : Char}
variable {rest : Text}

theorem strictDecode_cons
    (h : c ≠ '%') :
    strictDecode (c :: rest) = (strictDecode rest).map (String.utf8EncodeChar c ++ ·) := by
  conv_lhs => unfold strictDecode
  rw [if_neg h]

theorem strictDecode_percent :
    strictDecode ('%' :: high :: low :: rest) =
      (escapedByte high low).bind fun b => (strictDecode rest).map (b :: ·) := by
  rw [strictDecode, if_pos rfl]

theorem percentDecode_cons
    (h : c ≠ '%') :
    percentDecode (c :: rest) = String.utf8EncodeChar c ++ percentDecode rest := by
  have htokens : tokens ([c] ++ rest) = [c].map Token.plain ++ tokens rest :=
    tokens_append (by simpa using h) rest
  rw [percentDecode, ← List.singleton_append, htokens]
  rfl

theorem percentDecode_percent
    {b : UInt8}
    (h : escapedByte high low = some b) :
    percentDecode ('%' :: high :: low :: rest) = b :: percentDecode rest := by
  rw [percentDecode, tokens, h]
  rfl

theorem escapedByte_isSome :
    (escapedByte high low).isSome = true ↔
      (hexValue high).isSome = true ∧ (hexValue low).isSome = true := by
  rw [escapedByte]
  cases hexValue high <;> cases hexValue low <;> simp

theorem ne_percent_of_hexValue
    (h : (hexValue c).isSome = true) :
    c ≠ '%' := by
  rintro rfl
  exact absurd h (by decide)

theorem wellEscaped_nil : WellEscaped [] := by
  intro before after h
  simp at h

theorem wellEscaped_cons
    (h : c ≠ '%') :
    WellEscaped (c :: rest) ↔ WellEscaped rest := by
  constructor
  · intro hwell before after heq
    exact hwell (c :: before) after (by rw [heq, List.cons_append])
  · intro hwell before after heq
    cases before with
    | nil => exact absurd (List.cons.inj heq).1 h
    | cons d before => exact hwell before after (List.cons.inj heq).2

theorem wellEscaped_percent :
    WellEscaped ('%' :: high :: low :: rest) ↔
      (escapedByte high low).isSome = true ∧ WellEscaped rest := by
  rw [escapedByte_isSome]
  constructor
  · intro hwell
    obtain ⟨high', low', rest', heq, hhigh, hlow⟩ := hwell [] _ rfl
    simp only [List.cons.injEq] at heq
    obtain ⟨rfl, rfl, -⟩ := heq
    refine ⟨⟨hhigh, hlow⟩, fun before after hrest => ?_⟩
    exact hwell ('%' :: high :: low :: before) after (by rw [hrest]; rfl)
  · rintro ⟨⟨hhigh, hlow⟩, hwell⟩ before after heq
    cases before with
    | nil => exact ⟨high, low, rest, (List.cons.inj heq).2.symm, hhigh, hlow⟩
    | cons d before =>
        have htail : high :: low :: rest = before ++ '%' :: after := (List.cons.inj heq).2
        have hlowrest := (wellEscaped_cons (ne_percent_of_hexValue hlow)).2 hwell
        exact (wellEscaped_cons (ne_percent_of_hexValue hhigh)).2 hlowrest before after htail

end Steps

/-- Strict decoding gives the bytes of the tokens of a well-escaped text, and nothing else. -/
theorem strictDecode_eq_some_iff
    {text : Text} {bytes : List UInt8} :
    strictDecode text = some bytes ↔ WellEscaped text ∧ percentDecode text = bytes := by
  induction text using strictDecode.induct generalizing bytes with
  | case1 => simp [strictDecode, wellEscaped_nil, percentDecode, tokens]
  | case2 high low rest ih =>
      rw [strictDecode_percent, wellEscaped_percent]
      cases hbyte : escapedByte high low with
      | none => simp
      | some b =>
          rw [percentDecode_percent hbyte]
          simp [ih, and_assoc]
  | case3 rest hrest =>
      have hnone : strictDecode ('%' :: rest) = none := by
        conv_lhs => unfold strictDecode
        rw [if_pos rfl]
        split
        · rename_i high low tail
          exact absurd rfl (hrest high low tail)
        · rfl
      rw [hnone]
      constructor
      · intro h
        cases h
      · rintro ⟨hwell, -⟩
        obtain ⟨high, low, tail, heq, -, -⟩ := hwell [] rest rfl
        exact absurd heq (hrest high low tail)
  | case4 c rest hc ih =>
      rw [strictDecode_cons hc, wellEscaped_cons hc, percentDecode_cons hc]
      simp [ih]

/-! ## Reading an encoded text back -/

theorem hexValue_hexDigit : ∀ n < 16, hexValue (hexDigit n) = some n := by decide

/-- An encoded byte decodes to itself. -/
theorem escapedByte_hexDigit (b : UInt8) :
    escapedByte (hexDigit (b.toNat / 16)) (hexDigit (b.toNat % 16)) = some b := by
  have hb := b.toNat_lt
  have hvalue : 16 * (b.toNat / 16) + b.toNat % 16 = b.toNat := Nat.div_add_mod _ _
  rw [escapedByte, hexValue_hexDigit _ (by omega), hexValue_hexDigit _ (by omega)]
  simp only [hvalue, UInt8.ofNat_toNat]

theorem strictDecode_percentBytes
    (bytes : List UInt8) (rest : Text) :
    strictDecode (bytes.flatMap percentByte ++ rest) = (strictDecode rest).map (bytes ++ ·) := by
  induction bytes with
  | nil => simp
  | cons b bytes ih =>
      rw [List.flatMap_cons, List.append_assoc, percentByte]
      simp only [List.cons_append, List.nil_append]
      rw [strictDecode_percent, escapedByte_hexDigit, Option.bind_some, ih, Option.map_map]
      rfl

/-- Decoding reads the bytes of whatever was encoded with the percent sign. -/
theorem strictDecode_percentEncode
    {encoded : Char → Bool}
    (hpercent : encoded '%' = true)
    (text : Text) :
    strictDecode (percentEncode encoded text) = some (utf8 text) := by
  induction text with
  | nil => rfl
  | cons c text ih =>
      have hcons : percentEncode encoded (c :: text) =
          (if encoded c then (String.utf8EncodeChar c).flatMap percentByte else [c]) ++
            percentEncode encoded text := rfl
      rw [hcons]
      split
      · rw [strictDecode_percentBytes, ih]
        rfl
      · rename_i hplain
        have hc : c ≠ '%' := by
          rintro rfl
          exact hplain hpercent
        rw [List.singleton_append, strictDecode_cons hc, ih]
        rfl

end Url
end Lib
end Vesta
