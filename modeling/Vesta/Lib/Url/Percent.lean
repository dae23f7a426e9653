import Vesta.Lib.Text

/-!
# Percent-encoding

A percent-encoded text is a list of tokens: a character that stands for itself, or an
escape of one byte.  Decoding a text is reading the bytes of its tokens, and encoding it
escapes the bytes of the characters of a set.  No character is encoded shorter than it
stands there, so the length of an encoded text says whether any was left out.
-/

namespace Vesta
namespace Lib
namespace Url

def hexValue (c : Char) : Option Nat :=
  if '0' ≤ c ∧ c ≤ '9' then
    some (c.toNat - 48)
  else if 'A' ≤ c ∧ c ≤ 'F' then
    some (c.toNat - 55)
  else if 'a' ≤ c ∧ c ≤ 'f' then
    some (c.toNat - 87)
  else
    none

/-- The digits of an escape, in upper case. -/
def hexDigit (n : Nat) : Char := (Nat.digitChar n).toUpper

/-- The escape of a byte. -/
def percentByte (b : UInt8) : Text :=
  ['%', hexDigit (b.toNat / 16), hexDigit (b.toNat % 16)]

/-- A character that stands for itself, or the two digits and the byte of an escape. -/
inductive Token
  | plain (c : Char)
  | escape (high low : Char) (b : UInt8)
deriving DecidableEq

namespace Token

def text : Token → Text
  | plain c => [c]
  | escape high low _ => ['%', high, low]

def bytes : Token → List UInt8
  | plain c => String.utf8EncodeChar c
  | escape _ _ b => [b]

def isPlain : Token → Bool
  | plain _ => true
  | escape _ _ _ => false

theorem bytes_of_isPlain
    {t : Token}
    (h : t.isPlain = true) :
    t.bytes = utf8 t.text := by
  cases t with
  | plain c => simp [bytes, text, utf8]
  | escape high low b => cases h

/-- An escape is shorter decoded. -/
theorem length_bytes_lt
    {t : Token}
    (h : t.isPlain = false) :
    t.bytes.length < (utf8 t.text).length := by
  cases t with
  | plain c => cases h
  | escape high low b =>
      have hhigh := List.length_pos_of_ne_nil (@String.utf8EncodeChar_ne_nil high)
      have hmark : (String.utf8EncodeChar '%').length = 1 := by decide
      simp only [bytes, text, utf8, List.flatMap_cons, List.length_append,
        List.length_singleton]
      omega

theorem length_bytes_pos (t : Token) : 0 < t.bytes.length := by
  cases t with
  | plain c => exact List.length_pos_of_ne_nil String.utf8EncodeChar_ne_nil
  | escape high low b => exact Nat.one_pos

end Token

/-- The byte that two hexadecimal digits stand for. -/
def escapedByte (high low : Char) : Option UInt8 :=
  match hexValue high, hexValue low with
  | some h, some l => some (UInt8.ofNat (16 * h + l))
  | _, _ => none

/-- A percent sign that two hexadecimal digits do not follow stands for itself. -/
def tokens : Text → List Token
  | '%' :: high :: low :: rest =>
      match escapedByte high low with
      | some b => .escape high low b :: tokens rest
      | none => .plain '%' :: tokens (high :: low :: rest)
  | c :: rest => .plain c :: tokens rest
  | [] => []

/-- `percent_decode`. -/
def percentDecode (text : Text) : List UInt8 := (tokens text).flatMap Token.bytes

/-- The tokens after those of the first `n` bytes. -/
def dropBytes : Nat → List Token → List Token
  | 0, ts => ts
  | _ + 1, [] => []
  | n + 1, t :: ts => dropBytes (n + 1 - t.bytes.length) ts

theorem tokens_append
    {lead : Text}
    (h : ∀ c ∈ lead, c ≠ '%')
    (text : Text) :
    tokens (lead ++ text) = lead.map Token.plain ++ tokens text := by
  induction lead with
  | nil => rfl
  | cons c lead ih =>
      rw [List.forall_mem_cons] at h
      rw [List.cons_append, tokens, ih h.2]
      · rfl
      · rintro high low rest rfl
        exact absurd rfl h.1

/-- `utf8_percent_encode`: escape the bytes of the characters of a set. -/
def percentEncode (encoded : Char → Bool) (text : Text) : Text :=
  text.flatMap fun c =>
    if encoded c then (String.utf8EncodeChar c).flatMap percentByte else [c]

def isControlEncoded (c : Char) : Bool := c.toNat < 32 || 126 < c.toNat

/-- The special-query percent-encode set. -/
def queryEncoded (c : Char) : Bool :=
  isControlEncoded c || [' ', Char.ofNat 34, '#', '<', '>', Char.ofNat 39].contains c

/-- The path percent-encode set. -/
def pathEncoded (c : Char) : Bool :=
  isControlEncoded c ||
    [' ', Char.ofNat 34, '#', '<', '>', '?', '^', Char.ofNat 96, Char.ofNat 123,
      Char.ofNat 125].contains c

/-! ## What encoding keeps -/

section Encode

variable {encoded : Char → Bool}

/-- A byte as it is encoded: itself when it is a character that the set leaves. -/
def encodeByte (encoded : Char → Bool) (b : UInt8) : Text :=
  if b.toNat < 128 ∧ encoded (Char.ofNat b.toNat) = false then
    [Char.ofNat b.toNat]
  else
    percentByte b

theorem encodeByte_utf8EncodeChar
    (hascii : ∀ c : Char, 128 ≤ c.toNat → encoded c = true)
    (c : Char) :
    (String.utf8EncodeChar c).flatMap (encodeByte encoded) =
      if encoded c then (String.utf8EncodeChar c).flatMap percentByte else [c] := by
  by_cases hc : c.toNat < 128
  · have hb : (UInt8.ofNat c.toNat).toNat = c.toNat := by
      simp only [UInt8.toNat_ofNat']
      omega
    rw [utf8EncodeChar_of_lt hc]
    simp only [List.flatMap_singleton, encodeByte, hb, Char.ofNat_toNat]
    cases hencoded : encoded c <;> simp [hc]
  · rw [if_pos (hascii c (Nat.not_lt.1 hc))]
    refine List.flatMap_congr fun b hb => ?_
    have hlarge := le_of_mem_utf8EncodeChar (Nat.not_lt.1 hc) hb
    rw [encodeByte, if_neg fun h => absurd h.1 (Nat.not_lt.2 hlarge)]

/-- Encoding a text is encoding its bytes, when everything outside ASCII is encoded. -/
theorem percentEncode_eq
    (hascii : ∀ c : Char, 128 ≤ c.toNat → encoded c = true)
    (text : Text) :
    percentEncode encoded text = (utf8 text).flatMap (encodeByte encoded) := by
  rw [percentEncode, utf8, List.flatMap_assoc]
  exact List.flatMap_congr fun c _ => (encodeByte_utf8EncodeChar hascii c).symm

theorem length_encodeByte_le (b : UInt8) : (encodeByte encoded b).length ≤ 3 := by
  rw [encodeByte]
  split <;> simp [percentByte]

theorem percentEncode_append (a b : Text) :
    percentEncode encoded (a ++ b) = percentEncode encoded a ++ percentEncode encoded b :=
  List.flatMap_append

theorem length_percentEncode_singleton (c : Char) :
    0 < (percentEncode encoded [c]).length := by
  rw [percentEncode, List.flatMap_singleton]
  split
  · obtain ⟨b, bytes, hbytes⟩ := List.exists_cons_of_ne_nil (@String.utf8EncodeChar_ne_nil c)
    simp [hbytes, percentByte]
  · simp

theorem length_percentEncode_cons (c : Char) (text : Text) :
    (percentEncode encoded (c :: text)).length =
      (percentEncode encoded [c]).length + (percentEncode encoded text).length := by
  rw [← List.singleton_append, percentEncode_append, List.length_append]

/-- Encoding makes no text shorter. -/
theorem length_le_percentEncode (text : Text) :
    text.length ≤ (percentEncode encoded text).length := by
  induction text with
  | nil => exact Nat.zero_le _
  | cons c text ih =>
      have hc : 0 < (percentEncode encoded [c]).length := length_percentEncode_singleton c
      rw [length_percentEncode_cons, List.length_cons]
      omega

/-- What is left out of a text is missing from its encoding. -/
theorem length_percentEncode_of_sublist
    {a b : Text}
    (h : List.Sublist a b) :
    (percentEncode encoded a).length ≤ (percentEncode encoded b).length ∧
      ((percentEncode encoded a).length = (percentEncode encoded b).length → a = b) := by
  induction h with
  | slnil => exact ⟨Nat.le_refl _, fun _ => rfl⟩
  | cons c _ ih =>
      have hc : 0 < (percentEncode encoded [c]).length := length_percentEncode_singleton c
      rw [length_percentEncode_cons]
      exact ⟨by omega, fun heq => by omega⟩
  | @cons_cons a b c _ ih =>
      rw [length_percentEncode_cons c a, length_percentEncode_cons c b]
      exact ⟨by omega, fun heq => by rw [ih.2 (by omega)]⟩

/-- A text is encoded as itself when the set leaves all of it. -/
theorem percentEncode_of_forall
    {text : Text}
    (h : ∀ c ∈ text, encoded c = false) :
    percentEncode encoded text = text := by
  induction text with
  | nil => rfl
  | cons c text ih =>
      rw [List.forall_mem_cons] at h
      rw [percentEncode, List.flatMap_cons, ← percentEncode, ih h.2, h.1]
      rfl

theorem hexDigit_not_encoded :
    ∀ n < 16, pathEncoded (hexDigit n) = false ∧ queryEncoded (hexDigit n) = false ∧
      hexDigit n ≠ Char.ofNat 92 := by
  decide

/-- The set leaves whatever encoding with it writes, when it leaves the escapes. -/
theorem not_encoded_of_mem_percentEncode
    (hescape : ∀ b, ∀ c ∈ percentByte b, encoded c = false)
    {text : Text} {c : Char}
    (h : c ∈ percentEncode encoded text) :
    encoded c = false := by
  obtain ⟨d, -, hd⟩ := List.mem_flatMap.1 h
  split at hd
  · obtain ⟨b, -, hb⟩ := List.mem_flatMap.1 hd
    exact hescape b c hb
  · rename_i hencoded
    rw [List.mem_singleton.1 hd]
    exact Bool.eq_false_iff.2 hencoded

theorem not_encoded_of_mem_percentByte
    (b : UInt8) {c : Char}
    (h : c ∈ percentByte b) :
    pathEncoded c = false ∧ queryEncoded c = false ∧ c ≠ Char.ofNat 92 := by
  have hb := b.toNat_lt
  simp only [percentByte, List.mem_cons, List.not_mem_nil, or_false] at h
  rcases h with rfl | rfl | rfl
  · decide
  · exact hexDigit_not_encoded _ (by omega)
  · exact hexDigit_not_encoded _ (by omega)

theorem length_flatMap_le
    {α β : Type} {f g : α → List β} {l : List α}
    (hle : ∀ x ∈ l, (g x).length ≤ (f x).length) :
    (l.flatMap g).length ≤ (l.flatMap f).length := by
  induction l with
  | nil => exact Nat.le_refl _
  | cons x l ih =>
      rw [List.forall_mem_cons] at hle
      have hrest := ih hle.2
      simp only [List.flatMap_cons, List.length_append]
      omega

/-- Pieces that are each at most as long and make a list as long are each as long. -/
theorem length_eq_of_flatMap
    {α β : Type} {f g : α → List β} {l : List α}
    (hle : ∀ x ∈ l, (g x).length ≤ (f x).length)
    (hlength : (l.flatMap f).length ≤ (l.flatMap g).length) :
    ∀ x ∈ l, (g x).length = (f x).length := by
  induction l with
  | nil => simp
  | cons x l ih =>
      rw [List.forall_mem_cons] at hle
      have hrest := length_flatMap_le hle.2
      simp only [List.flatMap_cons, List.length_append] at hlength
      rw [List.forall_mem_cons]
      exact ⟨by omega, ih hle.2 (by omega)⟩

/-- Pieces that are each at most as long and make the same list are the same. -/
theorem eq_of_flatMap_eq
    {α β : Type} {f g : α → List β} {l : List α}
    (hle : ∀ x ∈ l, (g x).length ≤ (f x).length)
    (heq : l.flatMap g = l.flatMap f) :
    ∀ x ∈ l, g x = f x := by
  induction l with
  | nil => simp
  | cons x l ih =>
      rw [List.forall_mem_cons] at hle
      have hrest := length_flatMap_le hle.2
      have hlength := congrArg List.length heq
      simp only [List.flatMap_cons, List.length_append] at heq hlength
      obtain ⟨hx, hl⟩ := List.append_inj heq (by omega)
      rw [List.forall_mem_cons]
      exact ⟨hx, ih hle.2 hl⟩

/-- The tokens after those of the first bytes, when what is left starts a character. -/
theorem bytes_dropBytes
    {ts : List Token} {a b : List UInt8}
    (h : ts.flatMap Token.bytes = a ++ b)
    (hb : ∀ x ∈ b.head?, x.toNat < 128) :
    (dropBytes a.length ts).flatMap Token.bytes = b := by
  induction ts generalizing a with
  | nil =>
      obtain ⟨rfl, rfl⟩ := List.append_eq_nil_iff.1 h.symm
      rfl
  | cons t ts ih =>
      cases a with
      | nil => exact h
      | cons x a =>
          rw [List.flatMap_cons, List.append_eq_append_iff] at h
          rcases h with ⟨a', ha, hrest⟩ | ⟨b', hbytes, hrest⟩
          · have hlength : (x :: a).length - t.bytes.length = a'.length := by
              rw [ha, List.length_append]
              omega
            rw [List.length_cons, dropBytes, ← List.length_cons (a := x), hlength]
            exact ih hrest
          · cases b' with
            | nil =>
                rw [List.append_nil] at hbytes
                rw [List.length_cons, dropBytes, ← List.length_cons (a := x), hbytes,
                  Nat.sub_self, dropBytes]
                exact hrest.symm
            | cons y b' =>
                have hy : y.toNat < 128 := hb y (by rw [hrest]; rfl)
                cases t with
                | plain c =>
                    by_cases hc : c.toNat < 128
                    · have hlength := congrArg List.length hbytes
                      simp [Token.bytes, utf8EncodeChar_of_lt hc] at hlength
                    · have hmem : y ∈ String.utf8EncodeChar c := by
                        rw [← Token.bytes, hbytes]
                        simp
                      exact absurd (le_of_mem_utf8EncodeChar (Nat.not_lt.1 hc) hmem)
                        (Nat.not_le.2 hy)
                | escape high low z =>
                    have hlength := congrArg List.length hbytes
                    simp [Token.bytes] at hlength

end Encode

end Url
end Lib
end Vesta
