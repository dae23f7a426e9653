import Mathlib.Data.List.Forall2
import Mathlib.Data.List.Nodup
import Vesta.Lib.Text

/-!
# The day-of-week field of a crontab

A field is a list of items between commas.  An item is a star, a value or a range of
values, each with or without a step; a value is a number from 0 to 7 or the name of a day.
Both 0 and 7 are Sunday, and a range that ends before it starts goes on past Saturday.

A reader may have a limit to the digits of its numerals.
-/

namespace Vesta
namespace Lib
namespace Cron

/-- The names of the days, from Sunday on. -/
def dayNames : List Text :=
  ["sun".toList, "mon".toList, "tue".toList, "wed".toList, "thu".toList, "fri".toList,
    "sat".toList]

/-- The number that a text of digits stands for. -/
def numeral (text : Text) : Nat := text.foldl (fun n c => 10 * n + (c.toNat - 48)) 0

/-! ## Reading -/

section Reading

variable (limit : Option Nat)

structure IsNumeral (text : Text) : Prop where
  nonempty : text ≠ []
  digits : ∀ c ∈ text, c.isDigit = true
  short : ∀ most ∈ limit, text.length ≤ most

inductive Value : Text → Nat → Prop
  | number
      {text : Text}
      (hnumeral : IsNumeral limit text)
      (hle : numeral text ≤ 7) :
      Value text (numeral text)
  | name
      {text : Text} {day : Nat}
      (hname : dayNames[day]? = some (text.map Char.toLower)) :
      Value text day

inductive Base
  | every
  | range (low high : Nat)
deriving DecidableEq

inductive ReadsBase : Text → Base → Prop
  | star : ReadsBase ['*'] .every
  | question : ReadsBase ['?'] .every
  | value
      {text : Text} {n : Nat}
      (h : Value limit text n) :
      ReadsBase text (.range n n)
  | range
      {first last : Text} {low high : Nat}
      (hlow : Value limit first low)
      (hhigh : Value limit last high) :
      ReadsBase (first ++ '-' :: last) (.range low high)

structure Item where
  base : Base
  step : Nat
deriving DecidableEq

inductive ReadsItem : Text → Item → Prop
  | plain
      {text : Text} {base : Base}
      (h : ReadsBase limit text base) :
      ReadsItem text ⟨base, 1⟩
  | stepped
      {text step : Text} {base : Base}
      (h : ReadsBase limit text base)
      (hnumeral : IsNumeral limit step)
      (hpos : 0 < numeral step) :
      ReadsItem (text ++ '/' :: step) ⟨base, numeral step⟩

/-- The items of a field; a field without a reading is malformed. -/
def Reads (field : Text) (items : List Item) : Prop :=
  List.Forall₂ (ReadsItem limit) (field.splitOn ',') items

end Reading

/-! ## Meaning -/

def Base.low : Base → Nat
  | .every => 0
  | .range low _ => low

/-- The last number, past Saturday for a range that ends before it starts. -/
def Base.top : Base → Nat
  | .every => 7
  | .range low high => if low ≤ high then high else high + 7

def Item.Denotes (item : Item) (day : Nat) : Prop :=
  ∃ j, item.base.low + j * item.step ≤ item.base.top ∧
    (item.base.low + j * item.step) % 7 = day

/-- The days of a field. -/
def Denotes (items : List Item) (day : Nat) : Prop := ∃ item ∈ items, item.Denotes day

/-! ## A text has one reading -/

variable {limit : Option Nat}

theorem IsNumeral.unlimited
    {text : Text}
    (h : IsNumeral limit text) :
    IsNumeral none text :=
  ⟨h.nonempty, h.digits, by simp⟩

theorem IsNumeral.not_mem
    {text : Text} {c : Char}
    (h : IsNumeral limit text)
    (hc : c.isDigit = false) :
    c ∉ text :=
  fun hmem => by simp [h.digits c hmem] at hc

theorem lt_of_dayName
    {day : Nat} {text : Text}
    (h : dayNames[day]? = some text) :
    day < 7 :=
  (List.getElem?_eq_some_iff.1 h).1

theorem isLower_of_dayName
    {day : Nat} {text : Text}
    (h : dayNames[day]? = some text) :
    ∀ c ∈ text, c.isLower = true := by
  have hall : (dayNames.all fun name => name.all Char.isLower) = true := by decide
  exact List.all_eq_true.1 (List.all_eq_true.1 hall text (List.mem_of_getElem? h))

theorem toLower_of_not_isUpper
    {c : Char}
    (h : ¬c.isUpper = true) :
    c.toLower = c := by
  exact dif_neg fun hbounds => h (isUpper_iff.2 hbounds)

theorem isAlphanum_of_toLower
    {c : Char}
    (h : c.toLower.isLower = true) :
    c.isAlphanum = true := by
  by_cases hupper : c.isUpper = true
  · exact isAlphanum_iff.2 (.inl (.inl hupper))
  · rw [toLower_of_not_isUpper hupper] at h
    exact isAlphanum_iff.2 (.inl (.inr h))

/-- The characters of a value are letters and digits. -/
theorem Value.isAlphanum
    {text : Text} {n : Nat}
    (h : Value limit text n) :
    ∀ c ∈ text, c.isAlphanum = true := by
  cases h with
  | number hnumeral hle =>
      intro c hc
      simp [Char.isAlphanum, hnumeral.digits c hc]
  | name hname =>
      intro c hc
      exact isAlphanum_of_toLower (isLower_of_dayName hname _ (List.mem_map_of_mem hc))

theorem not_letter_of_isDigit
    {c : Char}
    (h : c.isDigit = true) :
    ¬c.isUpper = true ∧ ¬c.isLower = true := by
  rw [isDigit_iff] at h
  rw [isUpper_iff, isLower_iff]
  omega

/-- A name is no numeral. -/
theorem not_digits_of_dayName
    {text : Text} {day : Nat}
    (hnumeral : IsNumeral limit text)
    (hname : dayNames[day]? = some (text.map Char.toLower)) :
    False := by
  cases text with
  | nil => exact hnumeral.nonempty rfl
  | cons c text =>
      have hdigit : c.isDigit = true := hnumeral.digits c List.mem_cons_self
      have hlower : c.toLower.isLower = true := isLower_of_dayName hname _ List.mem_cons_self
      obtain ⟨hupper, hnot⟩ := not_letter_of_isDigit hdigit
      rw [toLower_of_not_isUpper hupper] at hlower
      exact hnot hlower

theorem Value.unique
    {text : Text} {m n : Nat}
    (hm : Value limit text m)
    (hn : Value limit text n) :
    m = n := by
  cases hm with
  | number hnumeral hle =>
      cases hn with
      | number hnumeral' hle' => rfl
      | name hname => exact (not_digits_of_dayName hnumeral hname).elim
  | name hname =>
      cases hn with
      | number hnumeral hle => exact (not_digits_of_dayName hnumeral hname).elim
      | name hname' =>
          have hnodup : dayNames.Nodup := by decide
          exact (List.getElem?_inj (lt_of_dayName hname) hnodup).1 (hname.trans hname'.symm)

theorem Value.le
    {text : Text} {n : Nat}
    (h : Value limit text n) :
    n ≤ 7 := by
  cases h with
  | number hnumeral hle => exact hle
  | name hname => exact Nat.le_of_lt (lt_of_dayName hname)

/-- A character that is neither a letter nor a digit stands in no value. -/
theorem Value.not_mem
    {text : Text} {n : Nat} {c : Char}
    (h : Value limit text n)
    (hc : c.isAlphanum = false) :
    c ∉ text :=
  fun hmem => by simp [h.isAlphanum c hmem] at hc

theorem ReadsBase.unique
    {text : Text} {base base' : Base}
    (h : ReadsBase limit text base)
    (h' : ReadsBase limit text base') :
    base = base' := by
  cases h with
  | star =>
      generalize htext : ['*'] = text at h'
      cases h' with
      | star => rfl
      | question => rfl
      | value hv => exact absurd (htext ▸ List.mem_cons_self) (hv.not_mem (c := '*') rfl)
      | range hlow hhigh =>
          have hmem : '-' ∈ ['*'] := htext ▸ List.mem_append_right _ List.mem_cons_self
          simp at hmem
  | question =>
      generalize htext : ['?'] = text at h'
      cases h' with
      | star => rfl
      | question => rfl
      | value hv => exact absurd (htext ▸ List.mem_cons_self) (hv.not_mem (c := '?') rfl)
      | range hlow hhigh =>
          have hmem : '-' ∈ ['?'] := htext ▸ List.mem_append_right _ List.mem_cons_self
          simp at hmem
  | value hv =>
      cases h' with
      | star => exact absurd List.mem_cons_self (hv.not_mem (c := '*') rfl)
      | question => exact absurd List.mem_cons_self (hv.not_mem (c := '?') rfl)
      | value hv' => rw [hv.unique hv']
      | range hlow hhigh =>
          exact absurd (List.mem_append_right _ List.mem_cons_self) (hv.not_mem (c := '-') rfl)
  | @range first last low high hlow hhigh =>
      generalize htext : first ++ '-' :: last = text at h'
      have hdash : '-' ∈ text := htext ▸ List.mem_append_right _ List.mem_cons_self
      cases h' with
      | star => simp at hdash
      | question => simp at hdash
      | value hv => exact absurd hdash (hv.not_mem rfl)
      | range hlow' hhigh' =>
          obtain ⟨rfl, -, rfl⟩ :=
            (List.append_cons_inj_of_notMem (hlow.not_mem rfl) (hhigh.not_mem rfl)).1 htext
          rw [hlow.unique hlow', hhigh.unique hhigh']

/-- The base of an item holds no slash. -/
theorem ReadsBase.not_mem
    {text : Text} {base : Base}
    (h : ReadsBase limit text base) :
    '/' ∉ text := by
  cases h with
  | star => decide
  | question => decide
  | value hv => exact hv.not_mem rfl
  | range hlow hhigh =>
      intro hmem
      rcases List.mem_append.1 hmem with hmem | hmem
      · exact hlow.not_mem rfl hmem
      · rcases List.mem_cons.1 hmem with heq | hmem
        · cases heq
        · exact hhigh.not_mem rfl hmem

theorem ReadsItem.unique
    {text : Text} {item item' : Item}
    (h : ReadsItem limit text item)
    (h' : ReadsItem limit text item') :
    item = item' := by
  cases h with
  | plain hbase =>
      cases h' with
      | plain hbase' => rw [hbase.unique hbase']
      | stepped hbase' hnumeral hpos =>
          exact absurd (List.mem_append_right _ List.mem_cons_self) hbase.not_mem
  | @stepped body step base hbase hnumeral hpos =>
      generalize htext : body ++ '/' :: step = text at h'
      cases h' with
      | plain hbase' =>
          exact absurd (htext ▸ List.mem_append_right _ List.mem_cons_self) hbase'.not_mem
      | stepped hbase' hnumeral' hpos' =>
          obtain ⟨rfl, -, rfl⟩ :=
            (List.append_cons_inj_of_notMem hbase.not_mem (hnumeral.not_mem rfl)).1 htext
          rw [hbase.unique hbase']

theorem Reads.unique
    {field : Text} {items items' : List Item}
    (h : Reads limit field items)
    (h' : Reads limit field items') :
    items = items' :=
  List.right_unique_forall₂' (fun _ _ _ h h' => h.unique h') h h'

theorem lt_of_isAlphanum
    {c : Char}
    (h : c.isAlphanum = true) :
    c.toNat < 128 := by
  rw [isAlphanum_iff, isUpper_iff, isLower_iff, isDigit_iff] at h
  omega

theorem ReadsBase.ascii
    {text : Text} {base : Base}
    (h : ReadsBase limit text base) :
    ∀ c ∈ text, c.toNat < 128 := by
  cases h with
  | star => simp
  | question => simp
  | value hv => exact fun c hc => lt_of_isAlphanum (hv.isAlphanum c hc)
  | range hlow hhigh =>
      intro c hc
      rcases List.mem_append.1 hc with hc | hc
      · exact lt_of_isAlphanum (hlow.isAlphanum c hc)
      · rcases List.mem_cons.1 hc with rfl | hc
        · decide
        · exact lt_of_isAlphanum (hhigh.isAlphanum c hc)

theorem ReadsItem.ascii
    {text : Text} {item : Item}
    (h : ReadsItem limit text item) :
    ∀ c ∈ text, c.toNat < 128 := by
  cases h with
  | plain hbase => exact hbase.ascii
  | stepped hbase hnumeral hpos =>
      intro c hc
      rcases List.mem_append.1 hc with hc | hc
      · exact hbase.ascii c hc
      · rcases List.mem_cons.1 hc with rfl | hc
        · decide
        · exact lt_of_isAlphanum (by simp [Char.isAlphanum, hnumeral.digits c hc])

/-- The characters of a well-formed field are ASCII. -/
theorem Reads.ascii
    {field : Text} {items : List Item}
    (h : Reads limit field items) :
    ∀ c ∈ field, c.toNat < 128 := by
  have hparts : ∀ part ∈ field.splitOn ',', ∀ c ∈ part, c.toNat < 128 := by
    rw [Reads] at h
    generalize field.splitOn ',' = parts at h
    induction h with
    | nil => simp
    | cons hitem _ ih => exact List.forall_mem_cons.2 ⟨hitem.ascii, ih⟩
  have hback : [','].intercalate (field.splitOn ',') = field := List.intercalate_splitOn ','
  intro c hc
  rw [← hback] at hc
  rcases eq_or_mem_of_mem_intercalate hc with rfl | ⟨part, hpart, hc⟩
  · decide
  · exact hparts part hpart c hc

/-! ## A limit to the digits -/

theorem Value.unlimited
    {text : Text} {n : Nat}
    (h : Value limit text n) :
    Value none text n := by
  cases h with
  | number hnumeral hle => exact .number hnumeral.unlimited hle
  | name hname => exact .name hname

theorem ReadsBase.unlimited
    {text : Text} {base : Base}
    (h : ReadsBase limit text base) :
    ReadsBase none text base := by
  cases h with
  | star => exact .star
  | question => exact .question
  | value hv => exact .value hv.unlimited
  | range hlow hhigh => exact .range hlow.unlimited hhigh.unlimited

theorem ReadsItem.unlimited
    {text : Text} {item : Item}
    (h : ReadsItem limit text item) :
    ReadsItem none text item := by
  cases h with
  | plain hbase => exact .plain hbase.unlimited
  | stepped hbase hnumeral hpos => exact .stepped hbase.unlimited hnumeral.unlimited hpos

/-- What is read with a limit is read without one. -/
theorem Reads.unlimited
    {field : Text} {items : List Item}
    (h : Reads limit field items) :
    Reads none field items :=
  List.Forall₂.imp (fun _ _ hitem => hitem.unlimited) h

/-! ## The days of an item -/

/-- The numbers of an item are those of the field, and its step is positive. -/
structure Item.Sound (item : Item) : Prop where
  bounds : ∀ low high, item.base = .range low high → low ≤ 7 ∧ high ≤ 7
  step : 0 < item.step

theorem ReadsBase.bounds
    {text : Text} {base : Base}
    (h : ReadsBase limit text base) :
    ∀ low high, base = .range low high → low ≤ 7 ∧ high ≤ 7 := by
  cases h with
  | star => simp
  | question => simp
  | value hv => simp [hv.le]
  | range hlow hhigh => simp [hlow.le, hhigh.le]

theorem ReadsItem.sound
    {text : Text} {item : Item}
    (h : ReadsItem limit text item) :
    item.Sound := by
  cases h with
  | plain hbase => exact ⟨hbase.bounds, Nat.one_pos⟩
  | stepped hbase hnumeral hpos => exact ⟨hbase.bounds, hpos⟩

end Cron
end Lib
end Vesta
