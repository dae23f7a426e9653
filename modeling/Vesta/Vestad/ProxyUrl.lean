import Vesta.Lib.Program
import Vesta.Lib.Url.Strict
import Vesta.Vestad.Docker.Names

/-!
# The URL of an agent's proxy

The credentials of the URL are percent-encoded, and are decoded by a loop over their
bytes that takes the two bytes behind a percent sign as a string and has the library
parse it as a number.  The library also takes a plus sign in front of a number, so a
percent sign, a plus sign and one digit decode as if the plus sign were a zero.

The URL crate is a parameter that finds the parts of a URL, of which the user info is
split here.
-/

namespace Vesta
namespace Vestad

open Lib

/-! ## percent_decode -/

/-- `str::is_char_boundary`, where these bytes follow the index. -/
def isCharBoundary : List UInt8 → Bool
  | [] => true
  | b :: _ => b.toNat / 64 != 2

/-- The two bytes behind an index, by `str::get`. -/
def getPair : List UInt8 → Option (List UInt8)
  | high :: low :: rest =>
      if isCharBoundary (high :: low :: rest) && isCharBoundary rest then some [high, low]
      else none
  | _ => none

/-- `to_digit(16)` of a byte as a character. -/
def toDigit (b : UInt8) : Option Nat := Url.hexValue (Char.ofNat b.toNat)

/-- `'+'` and `'%'` as bytes. -/
def plusByte : UInt8 := 0x2B

def percentSign : UInt8 := 0x25

/-- `u8::from_str_radix(_, 16)`, which takes a sign in front of the digits. -/
def fromStrRadix (src : List UInt8) : Option UInt8 :=
  let digits := if src.head? = some plusByte then src.tail else src
  if digits = [] then none
  else
    (digits.foldlM (fun value b =>
      (toDigit b).bind fun digit =>
        if 16 * value + digit < 256 then some (16 * value + digit) else none) 0).map UInt8.ofNat

/-- The loop of `percent_decode`, over the bytes from its index on. -/
def decodeLoop : List UInt8 → Option (List UInt8)
  | [] => some []
  | b :: rest =>
      if b = percentSign then
        (getPair rest).bind fun pair => (fromStrRadix pair).bind fun decoded =>
          match rest with
          | _ :: _ :: rest => (decodeLoop rest).map (decoded :: ·)
          | _ => none
      else
        (decodeLoop rest).map (b :: ·)

def percentDecode (text : Text) : Except String Text :=
  match (decodeLoop (utf8 text)).bind fromUtf8 with
  | some decoded => .ok decoded
  | none => .error "invalid percent-encoding in proxy credentials"

/-! ### What the loop decodes -/

section Loop

variable {c high low : Char}
variable {text rest : Text}

theorem decodeLoop_append
    {bytes : List UInt8}
    (h : ∀ b ∈ bytes, b ≠ percentSign)
    (rest : List UInt8) :
    decodeLoop (bytes ++ rest) = (decodeLoop rest).map (bytes ++ ·) := by
  induction bytes with
  | nil => simp
  | cons b bytes ih =>
      rw [List.forall_mem_cons] at h
      rw [List.cons_append]
      conv_lhs => unfold decodeLoop
      rw [if_neg h.1, ih h.2, Option.map_map]
      rfl

theorem toNat_ofNat_of_lt
    (h : c.toNat < 128) :
    (UInt8.ofNat c.toNat).toNat = c.toNat := by
  simp only [UInt8.toNat_ofNat']
  omega

theorem ne_percentSign_of_mem
    (hc : c ≠ '%')
    {b : UInt8}
    (hb : b ∈ String.utf8EncodeChar c) :
    b ≠ percentSign := by
  rintro rfl
  by_cases hsmall : c.toNat < 128
  · rw [utf8EncodeChar_of_lt hsmall, List.mem_singleton] at hb
    have hnat := congrArg UInt8.toNat hb
    rw [toNat_ofNat_of_lt hsmall] at hnat
    exact hc (Char.toNat_inj.1 hnat.symm)
  · have hlarge := le_of_mem_utf8EncodeChar (Nat.not_lt.1 hsmall) hb
    exact absurd hlarge (by decide)

/-- A character other than the percent sign is taken over. -/
theorem decodeLoop_utf8_cons
    (hc : c ≠ '%') :
    decodeLoop (utf8 (c :: rest)) =
      (decodeLoop (utf8 rest)).map (String.utf8EncodeChar c ++ ·) :=
  decodeLoop_append (fun _ hb => ne_percentSign_of_mem hc hb) (utf8 rest)

theorem decodeLoop_percent (rest : List UInt8) :
    decodeLoop (percentSign :: rest) =
      (getPair rest).bind fun pair => (fromStrRadix pair).bind fun decoded =>
        (decodeLoop (rest.drop 2)).map (decoded :: ·) := by
  conv_lhs => unfold decodeLoop
  rw [if_pos rfl]
  match rest with
  | [] => rfl
  | [_] => rfl
  | _ :: _ :: _ => rfl

/-- The bytes of a text start at a character. -/
theorem isCharBoundary_utf8 : isCharBoundary (utf8 text) = true := by
  cases text with
  | nil => rfl
  | cons c text =>
      have hlead : ∃ b bytes, String.utf8EncodeChar c = b :: bytes ∧ b.toNat / 64 ≠ 2 := by
        unfold String.utf8EncodeChar
        simp only
        split
        · exact ⟨_, _, rfl, by simp only [UInt8.toNat_ofNat']; omega⟩
        · split
          · exact ⟨_, _, rfl, by simp only [UInt8.toNat_ofNat']; omega⟩
          · split
            · exact ⟨_, _, rfl, by simp only [UInt8.toNat_ofNat']; omega⟩
            · exact ⟨_, _, rfl, by simp only [UInt8.toNat_ofNat']; omega⟩
      obtain ⟨b, bytes, hb, hboundary⟩ := hlead
      rw [utf8, List.flatMap_cons, hb, List.cons_append, isCharBoundary]
      simpa using hboundary

theorem toDigit_of_lt
    (h : c.toNat < 128) :
    toDigit (UInt8.ofNat c.toNat) = Url.hexValue c := by
  rw [toDigit, toNat_ofNat_of_lt h, Char.ofNat_toNat]

theorem toDigit_of_le
    {b : UInt8}
    (h : 128 ≤ b.toNat) :
    toDigit b = none := by
  have hb := b.toNat_lt
  have hvalid : b.toNat.isValidChar := .inl (by omega)
  have hnat : (Char.ofNat b.toNat).toNat = b.toNat := by
    rw [Char.ofNat, dif_pos hvalid]
    rfl
  have hdigit (d : Char) (hd : d.toNat < 128) : ¬ Char.ofNat b.toNat ≤ d := by
    intro hle
    have hle' : (Char.ofNat b.toNat).toNat ≤ d.toNat := hle
    omega
  rw [toDigit, Url.hexValue, if_neg fun hc => hdigit '9' (by decide) hc.2,
    if_neg fun hc => hdigit 'F' (by decide) hc.2, if_neg fun hc => hdigit 'f' (by decide) hc.2]

theorem hexValue_lt
    {n : Nat}
    (h : Url.hexValue c = some n) :
    n < 16 := by
  have hle (d : Char) : (c ≤ d ↔ c.toNat ≤ d.toNat) ∧ (d ≤ c ↔ d.toNat ≤ c.toNat) :=
    ⟨Iff.rfl, Iff.rfl⟩
  simp only [Url.hexValue, (hle _).1, (hle _).2] at h
  split at h
  · rename_i hc
    have hnine : '9'.toNat = 57 := rfl
    simp only [Option.some.injEq] at h
    omega
  · split at h
    · rename_i hc
      have hupper : 'F'.toNat = 70 := rfl
      simp only [Option.some.injEq] at h
      omega
    · split at h
      · rename_i hc
        have hlower : 'f'.toNat = 102 := rfl
        simp only [Option.some.injEq] at h
        omega
      · cases h

theorem hexValue_of_le
    (h : 128 ≤ c.toNat) :
    Url.hexValue c = none := by
  have hdigit (d : Char) (hd : d.toNat < 128) : ¬ c ≤ d := by
    intro hle
    have hle' : c.toNat ≤ d.toNat := hle
    omega
  rw [Url.hexValue, if_neg fun hc => hdigit '9' (by decide) hc.2,
    if_neg fun hc => hdigit 'F' (by decide) hc.2, if_neg fun hc => hdigit 'f' (by decide) hc.2]

/-- The number that the library parses from the two characters behind a percent sign. -/
def pairByte (high low : Char) : Option UInt8 :=
  if high = '+' then Url.escapedByte '0' low else Url.escapedByte high low

theorem toDigit_lt
    {b : UInt8} {n : Nat}
    (h : toDigit b = some n) :
    n < 16 :=
  hexValue_lt h

theorem fromStrRadix_plus (low : UInt8) :
    fromStrRadix [plusByte, low] = (toDigit low).map UInt8.ofNat := by
  cases hlow : toDigit low with
  | none => simp [fromStrRadix, hlow]
  | some n =>
      have hn := toDigit_lt hlow
      simp [fromStrRadix, hlow, show n < 256 by omega]

theorem fromStrRadix_digits
    {high : UInt8}
    (h : high ≠ plusByte)
    (low : UInt8) :
    fromStrRadix [high, low] =
      (toDigit high).bind fun m => (toDigit low).map fun n => UInt8.ofNat (16 * m + n) := by
  cases hhigh : toDigit high with
  | none => simp [fromStrRadix, h, hhigh]
  | some m =>
      have hm := toDigit_lt hhigh
      cases hlow : toDigit low with
      | none => simp [fromStrRadix, h, hhigh, hlow]
      | some n =>
          have hn := toDigit_lt hlow
          simp [fromStrRadix, h, hhigh, hlow, show m < 256 by omega,
            show 16 * m + n < 256 by omega]

theorem fromStrRadix_pair
    (hhigh : high.toNat < 128)
    (hlow : low.toNat < 128) :
    fromStrRadix [UInt8.ofNat high.toNat, UInt8.ofNat low.toNat] = pairByte high low := by
  by_cases hsign : high = '+'
  · have hplus : UInt8.ofNat high.toNat = plusByte := by
      rw [hsign]
      rfl
    have hzero : Url.hexValue '0' = some 0 := rfl
    rw [hplus, fromStrRadix_plus, toDigit_of_lt hlow, pairByte, if_pos hsign, Url.escapedByte,
      hzero]
    cases Url.hexValue low <;> simp
  · have hplus : UInt8.ofNat high.toNat ≠ plusByte := by
      intro h
      have hnat := congrArg UInt8.toNat h
      rw [toNat_ofNat_of_lt hhigh] at hnat
      exact hsign (Char.toNat_inj.1 hnat)
    rw [fromStrRadix_digits hplus, toDigit_of_lt hhigh, toDigit_of_lt hlow, pairByte,
      if_neg hsign, Url.escapedByte]
    cases Url.hexValue high <;> cases Url.hexValue low <;> simp

/-- No number is parsed from a pair with a byte outside ASCII. -/
theorem fromStrRadix_of_le
    {high low : UInt8}
    (h : 128 ≤ high.toNat ∨ 128 ≤ low.toNat) :
    fromStrRadix [high, low] = none := by
  by_cases hplus : high = plusByte
  · have hhigh : high.toNat = 43 := by
      rw [hplus]
      rfl
    have hlow : toDigit low = none := toDigit_of_le (by omega)
    rw [hplus, fromStrRadix_plus, hlow]
    rfl
  · rw [fromStrRadix_digits hplus]
    rcases h with h | h
    · rw [toDigit_of_le h]
      rfl
    · rw [toDigit_of_le h]
      cases toDigit high <;> rfl

theorem getPair_bind_of_le
    {high low : UInt8}
    (h : 128 ≤ high.toNat ∨ 128 ≤ low.toNat)
    (rest : List UInt8) :
    (getPair (high :: low :: rest)).bind fromStrRadix = none := by
  rw [getPair]
  split
  · exact fromStrRadix_of_le h
  · rfl

theorem pairByte_of_le
    (h : 128 ≤ high.toNat ∨ 128 ≤ low.toNat) :
    pairByte high low = none := by
  rw [pairByte]
  split
  · rename_i hplus
    have hhigh : high.toNat = 43 := by
      rw [hplus]
      rfl
    rw [Url.escapedByte, hexValue_of_le (c := low) (by omega)]
    split <;> simp_all
  · rw [Url.escapedByte]
    rcases h with h | h
    · rw [hexValue_of_le h]
    · rw [hexValue_of_le h]
      cases Url.hexValue high <;> rfl

/-- What the loop reads behind a percent sign. -/
theorem decodeLoop_utf8_percent :
    decodeLoop (utf8 ('%' :: high :: low :: rest)) =
      (pairByte high low).bind fun b => (decodeLoop (utf8 rest)).map (b :: ·) := by
  have hpercent : utf8 ('%' :: high :: low :: rest) =
      percentSign :: (String.utf8EncodeChar high ++
        (String.utf8EncodeChar low ++ utf8 rest)) := rfl
  by_cases hascii : high.toNat < 128 ∧ low.toNat < 128
  · have hboundary : isCharBoundary
        (UInt8.ofNat high.toNat :: UInt8.ofNat low.toNat :: utf8 rest) = true := by
      rw [isCharBoundary, toNat_ofNat_of_lt hascii.1]
      simp only [bne_iff_ne]
      omega
    rw [hpercent, utf8EncodeChar_of_lt hascii.1, utf8EncodeChar_of_lt hascii.2,
      decodeLoop_percent]
    simp only [List.singleton_append]
    rw [getPair, hboundary, isCharBoundary_utf8, Bool.and_self, if_pos rfl,
      Option.bind_some, fromStrRadix_pair hascii.1 hascii.2]
    rfl
  · -- one of the first two bytes is that of a character outside ASCII
    have hbytes : ∃ b b' bytes, String.utf8EncodeChar high ++
        (String.utf8EncodeChar low ++ utf8 rest) = b :: b' :: bytes ∧
        (128 ≤ b.toNat ∨ 128 ≤ b'.toNat) := by
      obtain ⟨b, bytes, hb⟩ :=
        List.exists_cons_of_ne_nil (@String.utf8EncodeChar_ne_nil high)
      obtain ⟨d, bytes', hd⟩ :=
        List.exists_cons_of_ne_nil (@String.utf8EncodeChar_ne_nil low)
      by_cases hhigh : high.toNat < 128
      · rw [utf8EncodeChar_of_lt hhigh, hd]
        refine ⟨_, d, bytes' ++ utf8 rest, rfl, .inr ?_⟩
        exact le_of_mem_utf8EncodeChar (c := low) (by omega) (by simp [hd])
      · have hlarge : 128 ≤ b.toNat :=
          le_of_mem_utf8EncodeChar (Nat.not_lt.1 hhigh) (by simp [hb])
        rw [hb, hd]
        cases bytes with
        | nil => exact ⟨b, d, bytes' ++ utf8 rest, rfl, .inl hlarge⟩
        | cons b' bytes => exact ⟨b, b', _, rfl, .inl hlarge⟩
    obtain ⟨b, b', bytes, heq, hlarge⟩ := hbytes
    have hnone := getPair_bind_of_le hlarge bytes
    rw [hpercent, heq, decodeLoop_percent, ← Option.bind_assoc, hnone,
      pairByte_of_le (by omega)]
    rfl

/-- A percent sign with at most one character behind it is refused. -/
theorem decodeLoop_utf8_short
    (h : rest.length < 2) :
    decodeLoop (utf8 ('%' :: rest)) = none := by
  have hpercent : utf8 ('%' :: rest) = percentSign :: utf8 rest := rfl
  rw [hpercent, decodeLoop_percent]
  match rest, h with
  | [], _ => rfl
  | [c], _ =>
      have hutf8 : utf8 [c] = String.utf8EncodeChar c := List.append_nil _
      obtain ⟨b, bytes, hb⟩ := List.exists_cons_of_ne_nil (@String.utf8EncodeChar_ne_nil c)
      rw [hutf8, hb]
      cases bytes with
      | nil => rfl
      | cons b' bytes =>
          have hlarge : 128 ≤ b.toNat := by
            apply le_of_mem_utf8EncodeChar (c := c) ?_ (by simp [hb])
            by_contra hsmall
            rw [utf8EncodeChar_of_lt (Nat.not_le.1 hsmall)] at hb
            cases hb
          rw [← Option.bind_assoc, getPair_bind_of_le (.inl hlarge)]
          rfl

end Loop

/-! ### The plus sign of an escape -/

/-- A percent sign, a plus sign and a digit. -/
def PlusEscaped (text : Text) : Prop :=
  ∃ before d after, text = before ++ '%' :: '+' :: d :: after ∧ (Url.hexValue d).isSome = true

/-- The text with a zero for each plus sign between a percent sign and a digit; `percent` says
that a percent sign stands in front. -/
def zeroPlusFrom : Bool → Text → Text
  | _, [] => []
  | percent, c :: rest =>
      (if percent = true ∧ c = '+' ∧ rest.head?.any (fun d => (Url.hexValue d).isSome) = true
        then '0' else c) :: zeroPlusFrom (c == '%') rest

def zeroPlus (text : Text) : Text := zeroPlusFrom false text

section Plus

variable {text : Text}

theorem zeroPlusFrom_false_cons (c : Char) (rest : Text) :
    zeroPlusFrom false (c :: rest) = c :: zeroPlusFrom (c == '%') rest := by
  rw [zeroPlusFrom, if_neg fun h => Bool.false_ne_true h.1]

theorem escapedByte_percent (low : Char) : Url.escapedByte '%' low = none := rfl

/-- The loop decodes strictly, with zeros for the plus signs. -/
theorem decodeLoop_utf8 (text : Text) :
    decodeLoop (utf8 text) = Url.strictDecode (zeroPlus text) := by
  match text with
  | [] => rfl
  | c :: rest =>
      rw [zeroPlus, zeroPlusFrom_false_cons]
      by_cases hc : c = '%'
      · subst hc
        match rest with
        | [] => rfl
        | [a] => exact decodeLoop_utf8_short (by simp)
        | high :: low :: rest =>
            have hpair :
                ∃ high' low', zeroPlusFrom true (high :: low :: rest) =
                    high' :: low' :: zeroPlusFrom (low == '%') rest ∧
                  Url.escapedByte high' low' = pairByte high low := by
              refine ⟨_, _, rfl, ?_⟩
              by_cases hplus : high = '+'
              · subst hplus
                cases hlow : Url.hexValue low with
                | none => simp [hlow, pairByte, Url.escapedByte]
                | some n => simp [hlow, pairByte]
              · by_cases hpercent : high = '%'
                · subst hpercent
                  simp [pairByte, escapedByte_percent]
                · simp [hplus, hpercent, pairByte]
            obtain ⟨high', low', heq, hbyte⟩ := hpair
            have hrest := decodeLoop_utf8 rest
            rw [decodeLoop_utf8_percent, beq_self_eq_true, heq, Url.strictDecode_percent, hbyte]
            cases hvalue : pairByte high low with
            | none => rfl
            | some b =>
                have hlow : low ≠ '%' := by
                  rintro rfl
                  have hnone : pairByte high '%' = none := by
                    rw [pairByte]
                    split
                    · rfl
                    · rw [Url.escapedByte]
                      cases Url.hexValue high <;> rfl
                  rw [hnone] at hvalue
                  cases hvalue
                have hfalse : (low == '%') = false := by simpa using hlow
                rw [hfalse, hrest]
                rfl
      · have hfalse : (c == '%') = false := by simpa using hc
        have hrest := decodeLoop_utf8 rest
        rw [decodeLoop_utf8_cons hc, Url.strictDecode_cons hc, hfalse, hrest]
        rfl
termination_by text.length

theorem percentDecode_eq_ok_iff
    {decoded : Text} :
    percentDecode text = .ok decoded ↔
      Url.WellEscaped (zeroPlus text) ∧
        fromUtf8 (Url.percentDecode (zeroPlus text)) = some decoded := by
  have hstrict : percentDecode text = .ok decoded ↔
      (Url.strictDecode (zeroPlus text)).bind fromUtf8 = some decoded := by
    rw [percentDecode, decodeLoop_utf8]
    cases (Url.strictDecode (zeroPlus text)).bind fromUtf8 <;> simp
  rw [hstrict, Option.bind_eq_some_iff]
  constructor
  · rintro ⟨bytes, hbytes, hdecoded⟩
    obtain ⟨hwell, rfl⟩ := Url.strictDecode_eq_some_iff.1 hbytes
    exact ⟨hwell, hdecoded⟩
  · rintro ⟨hwell, hdecoded⟩
    exact ⟨_, Url.strictDecode_eq_some_iff.2 ⟨hwell, rfl⟩, hdecoded⟩

theorem zeroPlusFrom_eq_self
    {percent : Bool}
    (hhead : percent = true → ¬ ∃ d after, text = '+' :: d :: after ∧
      (Url.hexValue d).isSome = true)
    (hplus : ¬ PlusEscaped text) :
    zeroPlusFrom percent text = text := by
  induction text generalizing percent with
  | nil => rfl
  | cons c rest ih =>
      have hrest : zeroPlusFrom (c == '%') rest = rest := by
        apply ih
        · rintro hc ⟨d, after, rfl, hd⟩
          exact hplus ⟨[], d, after, by rw [beq_iff_eq.1 hc]; rfl, hd⟩
        · rintro ⟨before, d, after, rfl, hd⟩
          exact hplus ⟨c :: before, d, after, rfl, hd⟩
      have hkept : ¬ (percent = true ∧ c = '+' ∧
          rest.head?.any (fun d => (Url.hexValue d).isSome) = true) := by
        rintro ⟨hpercent, rfl, hany⟩
        cases rest with
        | nil => cases hany
        | cons d after => exact hhead hpercent ⟨d, after, rfl, hany⟩
      rw [zeroPlusFrom, if_neg hkept, hrest]

theorem zeroPlus_eq_self
    (h : ¬ PlusEscaped text) :
    zeroPlus text = text :=
  zeroPlusFrom_eq_self (fun hfalse => absurd hfalse Bool.false_ne_true) h

theorem PlusEscaped.not_wellEscaped
    (h : PlusEscaped text) :
    ¬ Url.WellEscaped text := by
  obtain ⟨before, d, after, rfl, -⟩ := h
  intro hwell
  obtain ⟨high, low, rest, heq, hhigh, -⟩ := hwell before _ rfl
  rw [← (List.cons.inj heq).1] at hhigh
  exact absurd hhigh (by decide)

/-- Decoding succeeds on the well-escaped texts of UTF-8 bytes, with what they decode to. -/
def DecodesExactly (text : Text) : Prop :=
  ∀ decoded, percentDecode text = .ok decoded ↔
    Url.WellEscaped text ∧ fromUtf8 (Url.percentDecode text) = some decoded

/-- No plus sign of the text is taken for a zero: there is none in an escape, or the text is
refused with the zeros too. -/
def NoPlusTaken (text : Text) : Prop :=
  PlusEscaped text → Url.WellEscaped (zeroPlus text) →
    fromUtf8 (Url.percentDecode (zeroPlus text)) = none

theorem decodesExactly_iff : DecodesExactly text ↔ NoPlusTaken text := by
  constructor
  · intro h hplus hwell
    cases hdecoded : fromUtf8 (Url.percentDecode (zeroPlus text)) with
    | none => rfl
    | some decoded =>
        have hok := percentDecode_eq_ok_iff.2 ⟨hwell, hdecoded⟩
        exact absurd ((h decoded).1 hok).1 hplus.not_wellEscaped
  · intro h decoded
    rw [percentDecode_eq_ok_iff]
    by_cases hplus : PlusEscaped text
    · constructor
      · rintro ⟨hwell, hdecoded⟩
        rw [h hplus hwell] at hdecoded
        cases hdecoded
      · rintro ⟨hwell, -⟩
        exact absurd hwell hplus.not_wellEscaped
    · rw [zeroPlus_eq_self hplus]

/-- Every text comes back from its percent-encoding. -/
theorem percentDecode_percentEncode
    {encoded : Char → Bool}
    (hpercent : encoded '%' = true)
    (text : Text) :
    percentDecode (Url.percentEncode encoded text) = .ok text := by
  have hstrict := Url.strictDecode_percentEncode hpercent text
  obtain ⟨hwell, hbytes⟩ := Url.strictDecode_eq_some_iff.1 hstrict
  have hnoplus : ¬ PlusEscaped (Url.percentEncode encoded text) :=
    fun hplus => hplus.not_wellEscaped hwell
  rw [percentDecode_eq_ok_iff, zeroPlus_eq_self hnoplus, hbytes]
  exact ⟨hwell, fromUtf8_utf8 text⟩

end Plus

/-! ## ProxyUrl -/

inductive ProxyScheme
  | http
  | socks5
deriving DecidableEq, Repr

def ProxyScheme.urlScheme : ProxyScheme → Text
  | .http => "http".toList
  | .socks5 => "socks5".toList

structure ProxyUrl where
  scheme : ProxyScheme
  host : Text
  port : Nat
  username : Option Text
  password : Option Text
  raw : Text
deriving DecidableEq, Repr

/-- What the URL crate finds in a URL: the user info is what stands before the last `@` of the
authority. -/
structure UrlParts where
  scheme : Text
  userinfo : Text
  hostStr : Option Text
  portOrKnownDefault : Option Nat
deriving DecidableEq, Repr

namespace UrlParts

/-- The userinfo percent-encode set. -/
def userinfoEncoded (c : Char) : Bool :=
  Url.pathEncoded c || ['/', ':', ';', '=', '@', '[', Char.ofNat 92, ']', '|'].contains c

/-- The user name goes up to the first colon. -/
def username (parts : UrlParts) : Text :=
  Url.percentEncode userinfoEncoded (parts.userinfo.takeWhile (· != ':'))

/-- An empty password is none. -/
def password (parts : UrlParts) : Option Text :=
  match (parts.userinfo.dropWhile (· != ':')).tail with
  | [] => none
  | password => some (Url.percentEncode userinfoEncoded password)

end UrlParts

namespace ProxyUrl

def parseScheme (url : UrlParts) : Except String ProxyScheme :=
  if url.scheme = "http".toList then .ok .http
  else if url.scheme = "socks5".toList then .ok .socks5
  else
    .error ("unsupported proxy scheme '" ++ String.ofList url.scheme ++ "': use http or socks5")

/-- The host without the brackets of an address. -/
def parseHost (url : UrlParts) : Except String Text :=
  match (url.hostStr.map fun host =>
      trimEndMatches (· == ']') (host.dropWhile (· == '['))).filter (!·.isEmpty) with
  | some host => .ok host
  | none => .error "proxy url has no host"

def parsePort (url : UrlParts) : Except String Nat :=
  match url.portOrKnownDefault with
  | some port => .ok port
  | none => .error "proxy url has no port"

/-- A credential that is there is decoded. -/
def parseCredential : Option Text → Except String (Option Text)
  | none => .ok none
  | some text => (percentDecode text).map some

/-- `url` is the parser of the URL crate, or the text of its error. -/
def parse (url : Text → Except String UrlParts) (raw : Text) : Except String ProxyUrl := do
  let raw := trimMatches isWhitespace raw
  let url ← (url raw).mapError fun e => "invalid proxy url: " ++ e
  let scheme ← parseScheme url
  let host ← parseHost url
  let port ← parsePort url
  let username ← parseCredential (if url.username.isEmpty then none else some url.username)
  let password ← parseCredential url.password
  return { scheme, host, port, username, password, raw }

/-- `PASSWORD_MASK` -/
def passwordMask : Text := "***".toList

/-- The credentials as they are shown. -/
def credentials (proxy : ProxyUrl) : Text :=
  match proxy.username, proxy.password with
  | some user, some _ => user ++ ':' :: passwordMask ++ ['@']
  | some user, none => user ++ ['@']
  | none, _ => []

def masked (proxy : ProxyUrl) : Text :=
  let host := if proxy.host.contains ':' then '[' :: proxy.host ++ [']'] else proxy.host
  proxy.scheme.urlScheme ++ "://".toList ++ proxy.credentials ++ host ++ ':' ::
    (toString proxy.port).toList

/-- The `Debug` form, where `debugStr` is that of a string. -/
def debug (debugStr : Text → Text) (proxy : ProxyUrl) : Text :=
  "ProxyUrl(".toList ++ debugStr proxy.masked ++ [')']

/-! ### The mask -/

section Masked

variable {url : Text → Except String UrlParts}
variable {raw : Text}
variable {proxy : ProxyUrl}

/-- What a parsed proxy is made of. -/
structure ParsedFrom (parts : UrlParts) (proxy : ProxyUrl) : Prop where
  scheme : parseScheme parts = .ok proxy.scheme
  host : parseHost parts = .ok proxy.host
  port : parsePort parts = .ok proxy.port
  username :
    parseCredential (if parts.username.isEmpty then none else some parts.username) =
      .ok proxy.username
  password : parseCredential parts.password = .ok proxy.password

theorem parsedFrom_of_parse
    (h : parse url raw = .ok proxy)
    {parts : UrlParts}
    (hparts : url (trimMatches isWhitespace raw) = .ok parts) :
    ParsedFrom parts proxy := by
  rw [parse, hparts] at h
  obtain ⟨parts', hok, h⟩ := ok_of_bind h
  cases hok
  obtain ⟨scheme, hscheme, h⟩ := ok_of_bind h
  obtain ⟨host, hhost, h⟩ := ok_of_bind h
  obtain ⟨port, hport, h⟩ := ok_of_bind h
  obtain ⟨username, husername, h⟩ := ok_of_bind h
  obtain ⟨password, hpassword, h⟩ := ok_of_bind h
  cases h
  exact ⟨hscheme, hhost, hport, husername, hpassword⟩

theorem isSome_of_parseCredential
    {text value : Option Text}
    (h : parseCredential text = .ok value) :
    value.isSome = text.isSome := by
  cases text with
  | none =>
      cases h
      rfl
  | some text =>
      rw [parseCredential] at h
      cases hdecoded : percentDecode text with
      | error e =>
          rw [hdecoded] at h
          cases h
      | ok decoded =>
          rw [hdecoded] at h
          cases h
          rfl

/-- The mask tells a password from none, and no password from another. -/
theorem credentials_eq_iff
    {other : ProxyUrl}
    (h : proxy.username = other.username) :
    proxy.credentials = other.credentials ↔
      proxy.username = none ∨ proxy.password.isSome = other.password.isSome := by
  rw [credentials, credentials, ← h]
  cases proxy.username with
  | none => simp
  | some user =>
      cases proxy.password with
      | none => cases other.password <;> simp [passwordMask]
      | some password => cases other.password <;> simp [passwordMask]

theorem masked_eq_iff
    {other : ProxyUrl}
    (hscheme : proxy.scheme = other.scheme)
    (hhost : proxy.host = other.host)
    (hport : proxy.port = other.port) :
    proxy.masked = other.masked ↔ proxy.credentials = other.credentials := by
  rw [masked, masked, hscheme, hhost, hport]
  simp only [List.append_assoc]
  rw [List.append_cancel_left_eq, List.append_cancel_left_eq, List.append_cancel_right_eq]

/-- The `Debug` form shows what the masked form shows. -/
theorem debug_eq
    {other : ProxyUrl} {debugStr : Text → Text}
    (h : proxy.masked = other.masked) :
    debug debugStr proxy = debug debugStr other :=
  congrArg (fun shown => "ProxyUrl(".toList ++ debugStr shown ++ [')']) h

theorem username_append
    {parts : UrlParts}
    {user password : Text}
    (huser : ':' ∉ user)
    (h : parts.userinfo = user ++ ':' :: password) :
    parts.username = Url.percentEncode UrlParts.userinfoEncoded user := by
  have htake : (user ++ ':' :: password).takeWhile (· != ':') = user := by
    rw [List.takeWhile_append_of_pos]
    · simp
    · intro c hc
      have hne : c ≠ ':' := by
        rintro rfl
        exact huser hc
      simpa using hne
  rw [UrlParts.username, h, htake]

theorem isSome_password_append
    {parts : UrlParts}
    {user password : Text}
    (huser : ':' ∉ user)
    (h : parts.userinfo = user ++ ':' :: password) :
    parts.password.isSome = true ↔ password ≠ [] := by
  have hdrop : (user ++ ':' :: password).dropWhile (· != ':') = ':' :: password := by
    rw [List.dropWhile_append_of_pos]
    · simp
    · intro c hc
      have hne : c ≠ ':' := by
        rintro rfl
        exact huser hc
      simpa using hne
  rw [UrlParts.password, h, hdrop, List.tail_cons]
  cases password <;> simp

/-- Two URLs that differ only in the password, which follows the user name and a colon. -/
structure PasswordsApart
    (url : Text → Except String UrlParts)
    (raw other user password otherPassword : Text) : Prop where
  nocolon : ':' ∉ user
  parts : ∃ parts : UrlParts,
    url (trimMatches isWhitespace raw) =
        .ok { parts with userinfo := user ++ ':' :: password } ∧
      url (trimMatches isWhitespace other) =
        .ok { parts with userinfo := user ++ ':' :: otherPassword }

theorem PasswordsApart.masked_eq_iff
    {other user password otherPassword : Text}
    {otherProxy : ProxyUrl}
    (h : PasswordsApart url raw other user password otherPassword)
    (hproxy : parse url raw = .ok proxy)
    (hother : parse url other = .ok otherProxy) :
    proxy.masked = otherProxy.masked ↔
      user = [] ∨ (password = [] ↔ otherPassword = []) := by
  obtain ⟨parts, hparts, hotherParts⟩ := h.parts
  have hfrom := parsedFrom_of_parse hproxy hparts
  have hotherFrom := parsedFrom_of_parse hother hotherParts
  have hscheme : proxy.scheme = otherProxy.scheme :=
    Except.ok.inj (hfrom.scheme.symm.trans hotherFrom.scheme)
  have hhost : proxy.host = otherProxy.host :=
    Except.ok.inj (hfrom.host.symm.trans hotherFrom.host)
  have hport : proxy.port = otherProxy.port :=
    Except.ok.inj (hfrom.port.symm.trans hotherFrom.port)
  have husername := hfrom.username
  have hotherUsername := hotherFrom.username
  rw [username_append h.nocolon rfl] at husername hotherUsername
  have hsame : proxy.username = otherProxy.username :=
    Except.ok.inj (husername.symm.trans hotherUsername)
  have hnone : proxy.username = none ↔ user = [] := by
    have hsome := isSome_of_parseCredential husername
    have hempty : (Url.percentEncode UrlParts.userinfoEncoded user).isEmpty = true ↔
        user = [] := by
      rw [List.isEmpty_iff]
      constructor
      · intro hnil
        have hlength := @Url.length_le_percentEncode UrlParts.userinfoEncoded user
        rw [hnil] at hlength
        exact List.eq_nil_of_length_eq_zero (Nat.le_zero.1 hlength)
      · rintro rfl
        rfl
    rw [← hempty, ← Option.not_isSome_iff_eq_none, hsome]
    split <;> simp_all
  have hpassword : proxy.password.isSome = true ↔ password ≠ [] := by
    rw [isSome_of_parseCredential hfrom.password]
    exact isSome_password_append h.nocolon rfl
  have hotherPassword : otherProxy.password.isSome = true ↔ otherPassword ≠ [] := by
    rw [isSome_of_parseCredential hotherFrom.password]
    exact isSome_password_append h.nocolon rfl
  rw [ProxyUrl.masked_eq_iff hscheme hhost hport, credentials_eq_iff hsame, hnone,
    Bool.eq_iff_iff, hpassword, hotherPassword]
  simp only [ne_eq, not_iff_not]

end Masked

/-- Decoding is exact if and only if no plus sign is taken for a zero, an encoded text comes
back, and URLs that differ in their passwords have one masked and one `Debug` form if and only
if there is no user name or both or none of them has a password. -/
theorem credentials_exact
    (text : Text) :
    (DecodesExactly text ↔ NoPlusTaken text) ∧
      (∀ encoded : Char → Bool, encoded '%' = true →
        percentDecode (Url.percentEncode encoded text) = .ok text) ∧
      ∀ (url : Text → Except String UrlParts) (debugStr : Text → Text)
        (raw other user password otherPassword : Text) (proxy otherProxy : ProxyUrl),
        PasswordsApart url raw other user password otherPassword →
        parse url raw = .ok proxy → parse url other = .ok otherProxy →
          (proxy.masked = otherProxy.masked ↔
              user = [] ∨ (password = [] ↔ otherPassword = [])) ∧
            (proxy.masked = otherProxy.masked →
              debug debugStr proxy = debug debugStr otherProxy) := by
  refine And.intro ?_ (And.intro ?_ ?_)
  · exact decodesExactly_iff
  · intro encoded h
    exact percentDecode_percentEncode h text
  · intro url debugStr raw other user password otherPassword proxy otherProxy h hproxy hother
    refine And.intro (h.masked_eq_iff hproxy hother) ?_
    exact debug_eq

/-- A percent sign, a plus sign and one digit are decoded to the byte of the digit. -/
theorem plus_decoded :
    percentDecode "pw%+5".toList = .ok ("pw".toList ++ [Char.ofNat 5]) ∧
      ¬ Url.WellEscaped "pw%+5".toList := by
  refine ⟨by decide +kernel, fun h => ?_⟩
  obtain ⟨high, low, rest, heq, hhigh, -⟩ := h "pw".toList "+5".toList rfl
  rw [← (List.cons.inj heq).1] at hhigh
  exact absurd hhigh (by decide)

end ProxyUrl

end Vestad
end Vesta
