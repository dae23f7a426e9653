import Vesta.Lib.Text

/-!
# Compact JSON numbers, strings and objects

How a compact writer prints natural numbers, strings and the fields of an object, and
readers that take the printed text off the front of a longer one.  Each reader gives
back what was printed together with the rest, so that the readers of the fields chain.
-/

namespace Vesta
namespace Lib
namespace Json

def quotation : Char := Char.ofNat 34

def backslash : Char := Char.ofNat 92

/-- The escapes with a letter of their own, by the character's code. -/
def shortEscapes : List (Nat × Char) :=
  [(34, quotation), (92, backslash), (8, 'b'), (9, 't'), (10, 'n'), (12, 'f'), (13, 'r')]

/-- One character of a string as it is printed. -/
def escape (c : Char) : Text :=
  match shortEscapes.lookup c.toNat with
  | some letter => [backslash, letter]
  | none =>
      if c.toNat < 32 then
        [backslash, 'u', '0', '0', Nat.digitChar (c.toNat / 16), Nat.digitChar (c.toNat % 16)]
      else
        [c]

/-- A string as it is printed. -/
def printString (text : Text) : Text := quotation :: text.flatMap escape ++ [quotation]

/-- A number as it is printed. -/
def printNat (n : Nat) : Text := Nat.toDigits 10 n

/-- A field of an object, from its key and its printed value. -/
def printField (field : Text × Text) : Text := printString field.1 ++ ':' :: field.2

def printFields : List (Text × Text) → Text
  | [] => []
  | [field] => printField field
  | field :: fields => printField field ++ ',' :: printFields fields

def openBrace : Char := Char.ofNat 123

def closeBrace : Char := Char.ofNat 125

/-- An object as it is printed, from its keys and their printed values in order. -/
def printObject (fields : List (Text × Text)) : Text :=
  openBrace :: printFields fields ++ [closeBrace]

/-- The character that a letter after a backslash stands for. -/
def unescape (letter : Char) : Option Char :=
  (shortEscapes.find? fun e => e.2 = letter).map fun e => Char.ofNat e.1

/-- The value of a hexadecimal digit. -/
def hexValue (c : Char) : Nat :=
  if c.isDigit then c.toNat - 48 else c.toNat - 87

/-- The characters up to the closing quotation mark, and the text after it. -/
def readChars : Text → Option (Text × Text)
  | [] => none
  | c :: rest =>
      if c = quotation then
        some ([], rest)
      else if c = backslash then
        match rest with
        | 'u' :: '0' :: '0' :: high :: low :: rest =>
            (readChars rest).map fun read =>
              (Char.ofNat (16 * hexValue high + hexValue low) :: read.1, read.2)
        | letter :: rest =>
            match unescape letter with
            | none => none
            | some c => (readChars rest).map fun read => (c :: read.1, read.2)
        | [] => none
      else
        (readChars rest).map fun read => (c :: read.1, read.2)

def readString (text : Text) : Option (Text × Text) :=
  match text with
  | c :: rest => if c = quotation then readChars rest else none
  | [] => none

def readNat (text : Text) : Option (Nat × Text) :=
  let digits := text.takeWhile Char.isDigit
  if digits = [] then
    none
  else
    some (Nat.ofDigitChars 10 digits 0, text.dropWhile Char.isDigit)

/-- Read the value of a field with this key. -/
def readField {α : Type} (key : Text) (read : Text → Option (α × Text)) (text : Text) :
    Option (α × Text) :=
  (stripPrefix (printString key ++ [':']) text).bind read

/-- Read one character. -/
def readChar (c : Char) (text : Text) : Option Text :=
  if text.head? = some c then some text.tail else none

example : readString (printString "a\n\x22b".toList ++ ",".toList) =
    some ("a\n\x22b".toList, ",".toList) := by decide

/-- A printed number is read back when no digit follows it. -/
theorem readNat_printNat
    (n : Nat) {rest : Text}
    (hrest : ∀ c ∈ rest.head?, c.isDigit = false) :
    readNat (printNat n ++ rest) = some (n, rest) := by
  have hdigits : ∀ c ∈ printNat n, c.isDigit = true := fun c hc =>
    Nat.isDigit_of_mem_toDigits (by decide) (by decide) hc
  have hne : printNat n ≠ [] := by
    intro h
    have hpos := Nat.length_toDigits_pos (b := 10) (n := n)
    rw [printNat] at h
    simp [h] at hpos
  have htake : (printNat n ++ rest).takeWhile Char.isDigit = printNat n := by
    rw [List.takeWhile_append_of_pos hdigits]
    cases rest with
    | nil => simp
    | cons c rest => simp [hrest c rfl]
  have hdrop : (printNat n ++ rest).dropWhile Char.isDigit = rest := by
    rw [List.dropWhile_append_of_pos hdigits]
    cases rest with
    | nil => rfl
    | cons c rest => simp [hrest c rfl]
  simp only [readNat, htake, hdrop, if_neg hne]
  rw [printNat, Nat.ofDigitChars_ten_toDigits]

theorem readField_printField
    {α : Type} {read : Text → Option (α × Text)} (key value rest : Text) :
    readField key read (printField (key, value) ++ rest) = read (value ++ rest) := by
  have hsplit :
      printField (key, value) ++ rest = (printString key ++ [':']) ++ (value ++ rest) := by
    simp [printField]
  rw [hsplit, readField, stripPrefix_append, Option.bind_some]

theorem shortEscapes_read :
    ∀ e ∈ shortEscapes, unescape e.2 = some (Char.ofNat e.1) ∧ e.2 ≠ 'u' := by
  decide

theorem mem_of_lookup
    {es : List (Nat × Char)} {n : Nat} {letter : Char}
    (h : es.lookup n = some letter) :
    (n, letter) ∈ es := by
  induction es with
  | nil => cases h
  | cons e es ih =>
      rw [List.lookup_cons] at h
      split at h
      · rename_i heq
        rw [beq_iff_eq] at heq
        cases h
        rw [heq]
        exact List.mem_cons_self
      · exact List.mem_cons_of_mem _ (ih h)

theorem hexValue_digitChar : ∀ n < 16, hexValue (Nat.digitChar n) = n := by decide

theorem lookup_quotation : shortEscapes.lookup quotation.toNat = some quotation := by decide

theorem lookup_backslash : shortEscapes.lookup backslash.toNat = some backslash := by decide

theorem readChars_quotation (rest : Text) : readChars (quotation :: rest) = some ([], rest) := by
  rw [readChars.eq_def]
  exact if_pos rfl

theorem readChars_plain
    {c : Char} {rest : Text}
    (hquotation : c ≠ quotation)
    (hbackslash : c ≠ backslash) :
    readChars (c :: rest) = (readChars rest).map fun read => (c :: read.1, read.2) := by
  rw [readChars.eq_def]
  dsimp only
  rw [if_neg hquotation, if_neg hbackslash]

/-- A printed character is read back before the rest. -/
theorem readChars_escape
    (c : Char) (rest : Text) :
    readChars (escape c ++ rest) = (readChars rest).map fun read => (c :: read.1, read.2) := by
  have hback : backslash ≠ quotation := by decide
  rw [escape]
  cases hlookup : shortEscapes.lookup c.toNat with
  | some letter =>
      obtain ⟨hletter, hu⟩ := shortEscapes_read _ (mem_of_lookup hlookup)
      dsimp only at hletter hu
      rw [Char.ofNat_toNat] at hletter
      change readChars (backslash :: letter :: rest) = _
      rw [readChars, if_neg hback, if_pos rfl, hletter]
      intro _ _ _ hletter _
      exact hu hletter
  | none =>
      dsimp only
      split
      · rename_i hsmall
        have hhigh : hexValue (Nat.digitChar (c.toNat / 16)) = c.toNat / 16 :=
          hexValue_digitChar _ (by omega)
        have hlow : hexValue (Nat.digitChar (c.toNat % 16)) = c.toNat % 16 :=
          hexValue_digitChar _ (by omega)
        have hcode : 16 * (c.toNat / 16) + c.toNat % 16 = c.toNat := by omega
        change readChars (backslash :: 'u' :: '0' :: '0' :: Nat.digitChar (c.toNat / 16) ::
          Nat.digitChar (c.toNat % 16) :: rest) = _
        rw [readChars, if_neg hback, if_pos rfl]
        simp only [hhigh, hlow, hcode, Char.ofNat_toNat]
      · have hquotation : c ≠ quotation := by
          rintro rfl
          rw [lookup_quotation] at hlookup
          cases hlookup
        have hbackslash : c ≠ backslash := by
          rintro rfl
          rw [lookup_backslash] at hlookup
          cases hlookup
        rw [List.singleton_append, readChars_plain hquotation hbackslash]

/-- A printed string is read back before the rest. -/
theorem readString_printString (text rest : Text) :
    readString (printString text ++ rest) = some (text, rest) := by
  have hchars : readChars (text.flatMap escape ++ quotation :: rest) = some (text, rest) := by
    induction text with
    | nil => exact readChars_quotation rest
    | cons c text ih =>
        rw [List.flatMap_cons, List.append_assoc, readChars_escape, ih]
        rfl
  rw [printString, List.cons_append, List.cons_append, List.append_assoc,
    List.singleton_append, readString, if_pos rfl]
  exact hchars

/-- A printed character has no control characters in it. -/
theorem le_toNat_of_mem_escape
    {c d : Char}
    (h : d ∈ escape c) :
    32 ≤ d.toNat := by
  have hletters : ∀ e ∈ shortEscapes, 32 ≤ e.2.toNat := by decide
  have hdigits : ∀ n < 16, 32 ≤ (Nat.digitChar n).toNat := by decide
  rw [escape] at h
  cases hlookup : shortEscapes.lookup c.toNat with
  | some letter =>
      rw [hlookup] at h
      simp only [List.mem_cons, List.not_mem_nil, or_false] at h
      rcases h with rfl | rfl
      · decide
      · exact hletters _ (mem_of_lookup hlookup)
  | none =>
      rw [hlookup] at h
      dsimp only at h
      split at h
      · simp only [List.mem_cons, List.not_mem_nil, or_false] at h
        rcases h with rfl | rfl | rfl | rfl | rfl | rfl
        · decide
        · decide
        · decide
        · decide
        · exact hdigits _ (by omega)
        · exact hdigits _ (by omega)
      · rw [List.mem_singleton] at h
        rw [h]
        omega

theorem le_toNat_of_mem_printString
    {text : Text} {d : Char}
    (h : d ∈ printString text) :
    32 ≤ d.toNat := by
  have hquotation : 32 ≤ quotation.toNat := by decide
  simp only [printString, List.cons_append, List.mem_cons, List.mem_append, List.mem_flatMap,
    List.not_mem_nil, or_false] at h
  rcases h with rfl | ⟨c, -, hc⟩ | rfl
  · exact hquotation
  · exact le_toNat_of_mem_escape hc
  · exact hquotation

theorem le_toNat_of_mem_printNat
    {n : Nat} {d : Char}
    (h : d ∈ printNat n) :
    32 ≤ d.toNat := by
  have hdigit : d.isDigit = true := Nat.isDigit_of_mem_toDigits (by decide) (by decide) h
  have hle : (48 : Nat) ≤ d.toNat := (Char.isDigit_iff_toNat.1 hdigit).1
  omega

/-- An object has no control characters when its printed values have none. -/
theorem le_toNat_of_mem_printObject
    {fields : List (Text × Text)} {d : Char}
    (hfields : ∀ field ∈ fields, ∀ c ∈ field.2, 32 ≤ c.toNat)
    (h : d ∈ printObject fields) :
    32 ≤ d.toNat := by
  have hfield :
      ∀ field : Text × Text, (∀ c ∈ field.2, 32 ≤ c.toNat) →
        ∀ c ∈ printField field, 32 ≤ c.toNat := by
    intro field hvalue c hc
    rw [printField, List.mem_append, List.mem_cons] at hc
    rcases hc with hc | rfl | hc
    · exact le_toNat_of_mem_printString hc
    · decide
    · exact hvalue c hc
  have hall : ∀ c ∈ printFields fields, 32 ≤ c.toNat := by
    clear h
    induction fields using printFields.induct with
    | case1 => simp [printFields]
    | case2 field => exact hfield field (hfields field (by simp))
    | case3 field fields hne ih =>
        intro c hc
        rw [printFields.eq_3 _ _ hne, List.mem_append, List.mem_cons] at hc
        rcases hc with hc | rfl | hc
        · exact hfield field (hfields field (by simp)) c hc
        · decide
        · exact ih (fun field hmem => hfields field (List.mem_cons_of_mem _ hmem)) c hc
  rw [printObject, List.cons_append, List.mem_cons, List.mem_append, List.mem_singleton] at h
  rcases h with rfl | h | rfl
  · decide
  · exact hall d h
  · decide

end Json
end Lib
end Vesta
