import Vesta.Agent.Notification
import Vesta.Core.Notifications.Entities

/-!
# Reading a notification back

The app splits the `<channel>` element that shows a notification into its attributes and
its message.  The element was written by Python's `escape` and `quoteattr`, and the scan of
the attributes and the decoding of their values have to undo that.

An attribute named `__proto__` never becomes a field: the fields are a JavaScript object
with the usual prototype.
-/

namespace Vesta
namespace Core
namespace Notifications
namespace Content

open Lib JsString Agent

/-! ## The element -/

def isBlank (n : Nat) : Bool := n == 32 || n == 9 || n == 10 || n == 13 || n == 12

def isKeyStart (n : Nat) : Bool := (65 ≤ n && n ≤ 90) || (97 ≤ n && n ≤ 122) || n == 95

def isKeyChar (n : Nat) : Bool := isKeyStart n || isDigit n || n == 46 || n == 45

def protoKey : List Nat := units "__proto__".toList

/-- The fields that were assigned, the last first. -/
abbrev Fields := List (List Nat × List Nat)

/-- `fields[key] = value`; a text is no prototype, so the assignment of one does nothing. -/
def assign (fields : Fields) (key value : List Nat) : Fields :=
  if key = protoKey then fields else (key, value) :: fields

/-- The scan of the attributes: each turn goes on by a unit at least. -/
def parseFrom : Nat → List Nat → Fields → Fields
  | 0, _, fields => fields
  | fuel + 1, text, fields =>
      match text.dropWhile isBlank with
      | [] => fields
      | start :: text =>
          let key := (start :: text).takeWhile isKeyChar
          match ((start :: text).drop key.length).dropWhile isBlank with
          | 61 :: text =>
              match text.dropWhile isBlank with
              | [] => fields
              | quote :: text =>
                  if quote = 34 ∨ quote = 39 then
                    let value := text.takeWhile (· ≠ quote)
                    match text.drop value.length with
                    | [] => fields
                    | _ :: rest =>
                        if key.head?.any isKeyStart then
                          parseFrom fuel rest (assign fields key (decodeXml value))
                        else
                          parseFrom fuel rest fields
                  else
                    parseFrom fuel (quote :: text) fields
          | rest => if key = [] then parseFrom fuel text fields else parseFrom fuel rest fields

def parseAttributes (text : List Nat) : Fields := parseFrom text.length text []

structure ParsedChannel where
  attributes : Fields
  body : List Nat
deriving DecidableEq

def isWordChar (n : Nat) : Bool := isKeyStart n || isDigit n

def dropPrefix (lead text : List Nat) : Option (List Nat) :=
  if lead.isPrefixOf text then some (text.drop lead.length) else none

def dropSuffix (tail text : List Nat) : Option (List Nat) :=
  if tail.isSuffixOf text then some (text.take (text.length - tail.length)) else none

def channelOpening : List Nat := units "<channel".toList

def channelClosing : List Nat := units "</channel>".toList

def parseChannel (summary : List Nat) : Option ParsedChannel :=
  (dropPrefix channelOpening (trim summary)).bind fun text =>
    if text.head?.any isWordChar then none
    else
      let attributes := text.takeWhile (· ≠ 62)
      match text.drop attributes.length with
      | [] => none
      | _ :: text =>
          (dropSuffix channelClosing text).map fun body =>
            { attributes := parseAttributes attributes, body := trim (decodeXml body) }

/-! ## The round trip -/

/-- A key of the reader's grammar. -/
def IsKey (key : Text) : Prop :=
  key.head?.any (fun c => isKeyStart c.toNat) = true ∧
    ∀ c ∈ key, isKeyChar c.toNat = true

/-- A text without the characters that end an attribute's value or its tag, or begin an
entity. -/
def Plain (text : Text) : Prop :=
  Markup.doubleQuote ∉ text ∧ '>' ∉ text ∧ '&' ∉ text

instance (key : Text) : Decidable (IsKey key) :=
  decidable_of_iff
    (key.head?.any (fun c => isKeyStart c.toNat) = true ∧
      key.all (fun c => isKeyChar c.toNat) = true)
    (by rw [IsKey, List.all_eq_true])

instance (text : Text) : Decidable (Plain text) :=
  inferInstanceAs (Decidable (_ ∧ _ ∧ _))

/-- The keys are of the reader's grammar, and what is not escaped holds no markup. -/
structure Legible
    (notif : Agent.Notification) (disposition : Option DeliveredDisposition) : Prop where
  keys : ∀ item ∈ (displayed notif disposition).attributes, IsKey item.1
  source : Plain notif.source
  type : Plain notif.type
  body : ∀ body ∈ notif.body, '&' ∉ body

/-- The reader gives back the attributes that were written, and the message. -/
def RoundTrips
    (notif : Agent.Notification) (disposition : Option DeliveredDisposition) : Prop :=
  ∃ parsed, parseChannel (units (formatForDisplay notif disposition)) = some parsed ∧
    (∀ key value, parsed.attributes.lookup key = some value ↔
      ∃ item ∈ (displayed notif disposition).attributes,
        units item.1 = key ∧ units item.2 = value) ∧
    parsed.body = trim (units (displayed notif disposition).content)

/-- The fields that are shown as attributes, with their texts. -/
def fields (notif : Agent.Notification) : List (Text × Text) :=
  if notif.body.isSome then [] else notif.shown

/-- No text holds a numeric entity, no field is a prototype, and a field that is named as the
disposition agrees with it. -/
structure Readable
    (notif : Agent.Notification) (disposition : Option DeliveredDisposition) : Prop where
  values : ∀ field ∈ fields notif, hasNumeric (units field.2) = false
  content : notif.body = none → ∀ field ∈ notif.contentField, hasNumeric (units field.2) = false
  proto : ∀ field ∈ fields notif, field.1 ≠ "__proto__".toList
  disposition : ∀ delivered ∈ disposition, ∀ field ∈ fields notif,
    field.1 = "disposition".toList → field.2 = delivered.text

/-! ## Scanning what was written -/

section Scanning

theorem takeWhile_append_stop
    {p : Nat → Bool} {taken rest : List Nat} {stop : Nat}
    (htaken : ∀ n ∈ taken, p n = true)
    (hstop : p stop = false) :
    (taken ++ stop :: rest).takeWhile p = taken := by
  rw [List.takeWhile_append_of_pos htaken, List.takeWhile_cons, if_neg (by simp [hstop]),
    List.append_nil]

theorem dropWhile_of_head
    {p : Nat → Bool} {n : Nat} {rest : List Nat}
    (h : p n = false) :
    (n :: rest).dropWhile p = n :: rest := by
  rw [List.dropWhile_cons, if_neg (by simp [h])]

/-- What the scan takes as a key. -/
structure IsKeyUnits (key : List Nat) : Prop where
  start : key.head?.any isKeyStart = true
  all : ∀ n ∈ key, isKeyChar n = true

/-- One turn of the scan reads one attribute that was written. -/
theorem parseFrom_attribute
    {key written : List Nat} {quote : Nat}
    (hkey : IsKeyUnits key)
    (hquote : quote = 34 ∨ quote = 39)
    (hwritten : quote ∉ written)
    (fuel : Nat) (rest : List Nat) (fields : Fields) :
    parseFrom (fuel + 1) (32 :: (key ++ 61 :: quote :: (written ++ quote :: rest))) fields =
      parseFrom fuel rest (assign fields key (decodeXml written)) := by
  obtain ⟨first, key, rfl⟩ : ∃ first tail, key = first :: tail := by
    cases key with
    | nil => exact absurd hkey.start (by simp)
    | cons first tail => exact ⟨first, tail, rfl⟩
  have hfirst : isBlank first = false := by
    have hchar := hkey.all first List.mem_cons_self
    by_contra hblank
    simp only [isBlank, Bool.not_eq_false, Bool.or_eq_true, beq_iff_eq] at hblank
    rcases hblank with (((rfl | rfl) | rfl) | rfl) | rfl <;> exact absurd hchar (by decide)
  have hskip : (32 :: (first :: key ++ 61 :: quote :: (written ++ quote :: rest))).dropWhile
      isBlank = first :: (key ++ 61 :: quote :: (written ++ quote :: rest)) := by
    rw [List.dropWhile_cons, if_pos (by decide)]
    exact dropWhile_of_head hfirst
  have htake : (first :: (key ++ 61 :: quote :: (written ++ quote :: rest))).takeWhile
      isKeyChar = first :: key := by
    rw [← List.cons_append]
    exact takeWhile_append_stop hkey.all (by decide)
  have hdrop : (first :: (key ++ 61 :: quote :: (written ++ quote :: rest))).drop
      (first :: key).length = 61 :: quote :: (written ++ quote :: rest) := by
    rw [← List.cons_append]
    exact List.drop_left
  have hblank : isBlank quote = false := by
    rcases hquote with rfl | rfl <;> decide
  have hvalue : (written ++ quote :: rest).takeWhile (· ≠ quote) = written := by
    refine takeWhile_append_stop (fun n hmem => ?_) (by simp)
    exact decide_eq_true fun heq => hwritten (heq ▸ hmem)
  rw [parseFrom, hskip]
  simp only [htake, hdrop]
  rw [dropWhile_of_head (show isBlank 61 = false by decide)]
  simp only [dropWhile_of_head hblank, if_pos hquote, hvalue, List.drop_left, hkey.start, if_true]

/-- The key, the quote and the written value of an attribute. -/
structure Attribute where
  key : List Nat
  quote : Nat
  written : List Nat

def Attribute.text (item : Attribute) : List Nat :=
  32 :: (item.key ++ 61 :: item.quote :: (item.written ++ [item.quote]))

/-- An attribute that the scan reads as its key and value. -/
structure Attribute.Scans (item : Attribute) : Prop where
  key : IsKeyUnits item.key
  quote : item.quote = 34 ∨ item.quote = 39
  written : item.quote ∉ item.written
  inside : 62 ∉ item.written

theorem parseFrom_attributes
    {items : List Attribute}
    (hitems : ∀ item ∈ items, item.Scans)
    {fuel : Nat}
    (hfuel : items.length ≤ fuel)
    (fields : Fields) :
    parseFrom fuel (items.flatMap Attribute.text) fields =
      items.foldl (fun fields item => assign fields item.key (decodeXml item.written)) fields := by
  induction items generalizing fuel fields with
  | nil => cases fuel <;> rfl
  | cons item items ih =>
      cases fuel with
      | zero => simp at hfuel
      | succ fuel =>
          have hscans := hitems item List.mem_cons_self
          have htext : (item :: items).flatMap Attribute.text =
              32 :: (item.key ++ 61 :: item.quote ::
                (item.written ++ item.quote :: items.flatMap Attribute.text)) := by
            simp [Attribute.text]
          rw [htext, parseFrom_attribute hscans.key hscans.quote hscans.written, List.foldl_cons]
          exact ih (fun other hmem => hitems other (List.mem_cons_of_mem _ hmem))
            (Nat.le_of_succ_le_succ hfuel) _

theorem length_le_flatMap_text (items : List Attribute) :
    items.length ≤ (items.flatMap Attribute.text).length := by
  induction items with
  | nil => exact Nat.le_refl 0
  | cons item items ih =>
      rw [List.flatMap_cons, List.length_append, List.length_cons, Attribute.text,
        List.length_cons]
      omega

/-- No attribute ends the tag. -/
theorem not_mem_flatMap_text
    {items : List Attribute}
    (hitems : ∀ item ∈ items, item.Scans) :
    62 ∉ items.flatMap Attribute.text := by
  intro hmem
  obtain ⟨item, hitem, htext⟩ := List.mem_flatMap.1 hmem
  have hscans := hitems item hitem
  have hkey : 62 ∉ item.key := fun hin => absurd (hscans.key.all 62 hin) (by decide)
  have hquote : item.quote ≠ 62 := by
    rcases hscans.quote with h | h <;> omega
  simp only [Attribute.text, List.mem_cons, List.mem_append, List.not_mem_nil, or_false] at htext
  rcases htext with h | h | h | h | h | h
  · omega
  · exact hkey h
  · omega
  · exact hquote h.symm
  · exact hscans.inside h
  · exact hquote h.symm

/-- An element of attributes that scan is read as these and its content. -/
theorem parseChannel_written
    {items : List Attribute} {content : List Nat}
    (hitems : ∀ item ∈ items, item.Scans)
    (hsome : items ≠ []) :
    parseChannel (channelOpening ++ (items.flatMap Attribute.text ++
        62 :: (content ++ channelClosing))) =
      some
        { attributes := items.foldl
            (fun fields item => assign fields item.key (decodeXml item.written)) []
          body := trim (decodeXml content) } := by
  have htrim : trim (channelOpening ++ (items.flatMap Attribute.text ++
      62 :: (content ++ channelClosing))) =
      channelOpening ++ (items.flatMap Attribute.text ++ 62 :: (content ++ channelClosing)) := by
    have hclosing : channelClosing = channelClosing.dropLast ++ [62] := by decide
    have hopening : channelOpening = 60 :: channelOpening.tail := by decide
    rw [trim, hopening, List.cons_append, dropWhile_of_head (by decide), hclosing]
    simp only [← List.cons_append, ← List.append_assoc]
    exact List.rdropWhile_concat_neg _ _ _ (by decide)
  have hword : (items.flatMap Attribute.text ++ 62 :: (content ++ channelClosing)).head?.any
      isWordChar = false := by
    obtain ⟨item, rest, rfl⟩ := List.exists_cons_of_ne_nil hsome
    rfl
  have htake : (items.flatMap Attribute.text ++ 62 :: (content ++ channelClosing)).takeWhile
      (· ≠ 62) = items.flatMap Attribute.text := by
    refine takeWhile_append_stop (fun n hmem => ?_) (by simp)
    exact decide_eq_true fun heq => not_mem_flatMap_text hitems (heq ▸ hmem)
  have hprefix : dropPrefix channelOpening (channelOpening ++ (items.flatMap Attribute.text ++
      62 :: (content ++ channelClosing))) =
      some (items.flatMap Attribute.text ++ 62 :: (content ++ channelClosing)) := by
    rw [dropPrefix, if_pos (List.isPrefixOf_iff_prefix.2 (List.prefix_append _ _)),
      List.drop_left]
  have hsuffix : dropSuffix channelClosing (content ++ channelClosing) = some content := by
    rw [dropSuffix, if_pos (List.isSuffixOf_iff_suffix.2 (List.suffix_append _ _)),
      List.length_append, Nat.add_sub_cancel, List.take_left]
  rw [parseChannel, htrim, hprefix, Option.bind_some, hword]
  simp only [Bool.false_eq_true, if_false, htake, List.drop_left, hsuffix, Option.map_some]
  rw [parseAttributes, parseFrom_attributes hitems (length_le_flatMap_text items)]

end Scanning

/-! ## The fields that were read -/

section Reading

variable {notif : Agent.Notification} {disposition : Option DeliveredDisposition}

/-- What the reader makes of an attribute. -/
def decoded (item : Text × Text) : List Nat × List Nat :=
  (units item.1, replaceNumeric 0 (units item.2))

def assignAll (pairs : List (List Nat × List Nat)) (start : Fields) : Fields :=
  pairs.foldl (fun fields pair => assign fields pair.1 pair.2) start

theorem lookup_assign (start : Fields) (key value other : List Nat) :
    (assign start key value).lookup other =
      if other = key ∧ key ≠ protoKey then some value else start.lookup other := by
  rw [assign]
  by_cases hproto : key = protoKey
  · rw [if_pos hproto, if_neg fun h => h.2 hproto]
  · rw [if_neg hproto]
    by_cases hkey : other = key
    · rw [hkey, List.lookup_cons_self, if_pos ⟨rfl, hproto⟩]
    · rw [List.lookup_cons, beq_false_of_ne hkey, if_neg fun h => hkey h.1]

/-- Of keys that are given once each the value given is read, and of the others what was
there before. -/
theorem lookup_assignAll
    {pairs : List (List Nat × List Nat)}
    (hnodup : (pairs.map Prod.fst).Nodup)
    (start : Fields) (key value : List Nat) :
    (assignAll pairs start).lookup key = some value ↔
      (key ≠ protoKey ∧ (key, value) ∈ pairs) ∨
        ((key = protoKey ∨ key ∉ pairs.map Prod.fst) ∧ start.lookup key = some value) := by
  induction pairs generalizing start with
  | nil => simp [assignAll]
  | cons pair pairs ih =>
      obtain ⟨first, given⟩ := pair
      obtain ⟨hfirst, hnodup⟩ := List.nodup_cons.1 hnodup
      have hrest := ih hnodup (assign start first given)
      rw [lookup_assign] at hrest
      change (assignAll pairs (assign start first given)).lookup key = some value ↔ _
      rw [hrest]
      have hnone : (first, value) ∉ pairs := fun hmem =>
        hfirst (List.mem_map.2 ⟨(first, value), hmem, rfl⟩)
      by_cases hkey : key = first
      · subst hkey
        by_cases hproto : key = protoKey
        · simp [hproto]
        · rw [if_pos ⟨rfl, hproto⟩]
          constructor
          · rintro (⟨-, hmem⟩ | ⟨-, hgiven⟩)
            · exact absurd hmem hnone
            · cases hgiven
              exact Or.inl ⟨hproto, List.mem_cons_self⟩
          · rintro (⟨-, hmem⟩ | ⟨habsent, -⟩)
            · rcases List.mem_cons.1 hmem with heq | hmem
              · cases heq
                exact Or.inr ⟨Or.inr hfirst, rfl⟩
              · exact absurd hmem hnone
            · rcases habsent with heq | habsent
              · exact absurd heq hproto
              · exact absurd List.mem_cons_self habsent
      · simp only [List.map_cons, List.mem_cons, Prod.mk.injEq, hkey, false_and, false_or,
          if_false]

theorem units_of_lt
    {text : Text}
    (h : ∀ c ∈ text, c.toNat < 0x10000) :
    units text = text.map Char.toNat := by
  induction text with
  | nil => rfl
  | cons c text ih =>
      rw [units_cons, fromCodePoint_of_lt (h c List.mem_cons_self),
        ih fun d hd => h d (List.mem_cons_of_mem _ hd)]
      rfl

theorem IsKey.units
    {key : Text}
    (h : IsKey key) :
    IsKeyUnits (units key) := by
  have hascii : ∀ c ∈ key, c.toNat < 0x10000 := by
    intro c hc
    have hchar := h.2 c hc
    simp only [isKeyChar, isKeyStart, isDigit, Bool.or_eq_true, Bool.and_eq_true,
      decide_eq_true_eq, beq_iff_eq] at hchar
    omega
  rw [units_of_lt hascii]
  constructor
  · rw [List.head?_map, Option.any_map]
    exact h.1
  · intro n hmem
    obtain ⟨c, hc, rfl⟩ := List.mem_map.1 hmem
    exact h.2 c hc

/-- An attribute as it was written, between quotes that it does not contain. -/
def Quoted (item : Markup.Written) : Prop :=
  ∃ quote written, (quote = Markup.doubleQuote ∨ quote = Markup.singleQuote) ∧
    item.written = quote :: (written ++ [quote]) ∧ quote ∉ written ∧ '>' ∉ written ∧
      decodeXml (units written) = replaceNumeric 0 (units item.value)

theorem quoted_literal
    {value : Text}
    (h : Plain value)
    (name : Text) :
    Quoted (literal name value) := by
  refine ⟨Markup.doubleQuote, value, Or.inl rfl, rfl, h.1, h.2.1, ?_⟩
  rw [decodeXml_plain h.2.2]
  exact (replaceNumeric_of_none (hasNumeric_plain (amp_not_mem_units h.2.2))).symm

/-- Attributes that were written so are scanned as their keys and what their values decode
to. -/
theorem exists_attributes
    {items : List Markup.Written}
    (hkeys : ∀ item ∈ items, IsKey item.name)
    (hquoted : ∀ item ∈ items, Quoted item) :
    ∃ scanned : List Attribute, (∀ item ∈ scanned, item.Scans) ∧
      scanned.flatMap Attribute.text =
        units (items.flatMap fun item => ' ' :: item.text) ∧
      scanned.map (fun item => (item.key, decodeXml item.written)) =
        (items.map Markup.Written.attribute).map decoded := by
  induction items with
  | nil => exact ⟨[], fun _ hmem => absurd hmem List.not_mem_nil, rfl, rfl⟩
  | cons item items ih =>
      obtain ⟨scanned, hscans, htext, hpairs⟩ :=
        ih (fun other hmem => hkeys other (List.mem_cons_of_mem _ hmem))
          (fun other hmem => hquoted other (List.mem_cons_of_mem _ hmem))
      obtain ⟨quote, written, hquote, hitem, hown, hinside, hdecoded⟩ :=
        hquoted item List.mem_cons_self
      have hlow : quote.toNat < 0xD800 := by
        rcases hquote with rfl | rfl <;> decide
      have hquoteUnits : units [quote] = [quote.toNat] := by
        rcases hquote with rfl | rfl <;> decide
      refine ⟨⟨units item.name, quote.toNat, units written⟩ :: scanned, ?_, ?_, ?_⟩
      · intro other hmem
        rcases List.mem_cons.1 hmem with rfl | hmem
        · refine ⟨(hkeys item List.mem_cons_self).units, ?_, ?_, ?_⟩
          · rcases hquote with rfl | rfl
            · exact Or.inl (show Markup.doubleQuote.toNat = 34 by decide)
            · exact Or.inr (show Markup.singleQuote.toNat = 39 by decide)
          · rw [mem_units_iff hlow]
            rintro ⟨c, hc, hsame⟩
            exact hown (Char.toNat_inj.1 hsame ▸ hc)
          · rw [mem_units_iff (by decide)]
            rintro ⟨c, hc, hsame⟩
            obtain rfl : c = '>' := Char.toNat_inj.1 hsame
            exact hinside hc
        · exact hscans other hmem
      · have hunits : units (' ' :: item.text) =
            32 :: (units item.name ++ 61 :: quote.toNat :: (units written ++ [quote.toNat])) := by
          have hshape : (' ' :: item.text : Text) =
              [' '] ++ (item.name ++ (['='] ++ ([quote] ++ (written ++ [quote])))) := by
            simp [Markup.Written.text, hitem]
          rw [hshape]
          simp only [units_append, hquoteUnits]
          rfl
        rw [List.flatMap_cons, List.flatMap_cons, units_append, htext, hunits]
        rfl
      · rw [List.map_cons, List.map_cons, List.map_cons, hpairs, hdecoded]
        rfl

theorem plain_disposition (delivered : DeliveredDisposition) : Plain delivered.text := by
  cases delivered with
  | interrupt => exact ⟨by decide, by decide, by decide⟩
  | snooze => exact ⟨by decide, by decide, by decide⟩

theorem quoted_writtenAttributes
    (h : Legible notif disposition) :
    ∀ item ∈ writtenAttributes notif disposition, Quoted item := by
  intro item hmem
  rw [writtenAttributes] at hmem
  rcases List.mem_append.1 hmem with hrouting | hshown
  · rcases List.mem_append.1 hrouting with hfixed | hdelivered
    · rcases List.mem_cons.1 hfixed with rfl | hfixed
      · exact quoted_literal h.source _
      · rw [List.mem_singleton.1 hfixed]
        exact quoted_literal h.type _
    · obtain ⟨delivered, -, rfl⟩ := List.mem_map.1 hdelivered
      exact quoted_literal (plain_disposition delivered) _
  · split at hshown
    · exact absurd hshown List.not_mem_nil
    · obtain ⟨field, -, rfl⟩ := List.mem_map.1 hshown
      exact quoteattr_read field.2

/-- What the reader makes of the element of a notification. -/
theorem parseChannel_formatForDisplay
    (h : Legible notif disposition) :
    parseChannel (units (formatForDisplay notif disposition)) =
      some
        { attributes := assignAll ((displayed notif disposition).attributes.map decoded) []
          body := trim (decodeXml (units (writtenContent notif))) } := by
  have hkeys : ∀ item ∈ writtenAttributes notif disposition, IsKey item.name := by
    intro item hmem
    refine h.keys item.attribute ?_
    rw [← map_attribute_writtenAttributes]
    exact List.mem_map_of_mem hmem
  obtain ⟨scanned, hscans, htext, hpairs⟩ :=
    exists_attributes hkeys (quoted_writtenAttributes h)
  rw [map_attribute_writtenAttributes] at hpairs
  have hsome : scanned ≠ [] := by
    rintro rfl
    cases hpairs
  have hshape : units (formatForDisplay notif disposition) =
      channelOpening ++ (scanned.flatMap Attribute.text ++
        62 :: (units (writtenContent notif) ++ channelClosing)) := by
    have htag : units ('<' :: channel) = channelOpening := by decide
    have hclosing : units (Markup.closing channel) = channelClosing := by decide
    rw [formatForDisplay_eq, Markup.opening, units_append, units_append, units_append, htag,
      units_append, hclosing, htext, List.append_assoc, List.append_assoc]
    rfl
  rw [hshape, parseChannel_written hscans hsome, ← hpairs, assignAll, List.foldl_map]

/-- The attributes that are not fields of the notification. -/
def routed
    (notif : Agent.Notification) (disposition : Option DeliveredDisposition) :
    List (Text × Text) :=
  [("source".toList, notif.source), ("type".toList, notif.type)] ++
    disposition.toList.map fun delivered => ("disposition".toList, delivered.text)

theorem attributes_displayed :
    (displayed notif disposition).attributes = routed notif disposition ++ fields notif :=
  rfl

theorem decoded_plain
    {item : Text × Text}
    (h : '&' ∉ item.2) :
    decoded item = (units item.1, units item.2) :=
  Prod.ext rfl (replaceNumeric_of_none (hasNumeric_plain (amp_not_mem_units h)))

theorem plain_routed
    (h : Legible notif disposition) :
    ∀ item ∈ routed notif disposition, '&' ∉ item.2 := by
  intro item hmem
  rcases List.mem_append.1 hmem with hfixed | hdelivered
  · rcases List.mem_cons.1 hfixed with rfl | hfixed
    · exact h.source.2.2
    · rw [List.mem_singleton.1 hfixed]
      exact h.type.2.2
  · obtain ⟨delivered, -, rfl⟩ := List.mem_map.1 hdelivered
    exact (plain_disposition delivered).2.2

theorem fst_map_decoded (items : List (Text × Text)) :
    (items.map decoded).map Prod.fst = (items.map Prod.fst).map units := by
  rw [List.map_map, List.map_map]
  rfl

theorem nodup_decoded
    {items : List (Text × Text)}
    (h : (items.map Prod.fst).Nodup) :
    ((items.map decoded).map Prod.fst).Nodup := by
  rw [fst_map_decoded]
  exact h.map fun _ _ heq => units_injective heq

theorem nodup_routed : ((routed notif disposition).map Prod.fst).Nodup := by
  cases disposition with
  | none => exact (show ["source".toList, "type".toList].Nodup by decide)
  | some delivered =>
      exact (show ["source".toList, "type".toList, "disposition".toList].Nodup by decide)

theorem routed_key :
    ∀ item ∈ routed notif disposition,
      item.1 ∈ ["source".toList, "type".toList, "disposition".toList] := by
  intro item hmem
  rcases List.mem_append.1 hmem with hfixed | hdelivered
  · rcases List.mem_cons.1 hfixed with rfl | hfixed
    · exact List.mem_cons_self
    · rw [List.mem_singleton.1 hfixed]
      exact List.mem_cons_of_mem _ List.mem_cons_self
  · obtain ⟨delivered, -, rfl⟩ := List.mem_map.1 hdelivered
    exact List.mem_cons_of_mem _ (List.mem_cons_of_mem _ List.mem_cons_self)

theorem routed_not_proto :
    ∀ item ∈ routed notif disposition, units item.1 ≠ protoKey := by
  have hnames : ∀ name ∈ ["source".toList, "type".toList, "disposition".toList],
      units name ≠ protoKey := by decide
  exact fun item hmem => hnames item.1 (routed_key item hmem)

theorem nodup_fields : ((fields notif).map Prod.fst).Nodup := by
  rw [fields]
  split
  · exact List.nodup_nil
  · exact nodup_shown notif

/-- What is read under a key: a field, or else what routed the notification. -/
theorem lookup_read
    (h : Legible notif disposition)
    (key value : List Nat) :
    (assignAll ((displayed notif disposition).attributes.map decoded) []).lookup key =
        some value ↔
      (key ≠ protoKey ∧ (key, value) ∈ (fields notif).map decoded) ∨
        ((key = protoKey ∨ key ∉ (fields notif).map fun field => units field.1) ∧
          ∃ item ∈ routed notif disposition, units item.1 = key ∧ units item.2 = value) := by
  have hrouted : (assignAll ((routed notif disposition).map decoded) []).lookup key =
      some value ↔
        ∃ item ∈ routed notif disposition, units item.1 = key ∧ units item.2 = value := by
    rw [lookup_assignAll (nodup_decoded nodup_routed)]
    constructor
    · rintro (⟨-, hmem⟩ | ⟨-, hnone⟩)
      · obtain ⟨item, hitem, heq⟩ := List.mem_map.1 hmem
        rw [decoded_plain (plain_routed h item hitem)] at heq
        exact ⟨item, hitem, congrArg Prod.fst heq, congrArg Prod.snd heq⟩
      · cases hnone
    · rintro ⟨item, hitem, rfl, rfl⟩
      refine Or.inl ⟨routed_not_proto item hitem, List.mem_map.2 ⟨item, hitem, ?_⟩⟩
      exact decoded_plain (plain_routed h item hitem)
  have hsplit : assignAll ((displayed notif disposition).attributes.map decoded) [] =
      assignAll ((fields notif).map decoded)
        (assignAll ((routed notif disposition).map decoded) []) := by
    rw [attributes_displayed, List.map_append, assignAll, List.foldl_append]
    rfl
  rw [hsplit, lookup_assignAll (nodup_decoded nodup_fields), hrouted, fst_map_decoded,
    List.map_map]
  rfl

/-- The fields are read back exactly when no text of theirs holds a numeric entity, none is a
prototype, and one that is named as the disposition agrees with it. -/
theorem attributes_read_iff
    (h : Legible notif disposition) :
    (∀ key value,
        (assignAll ((displayed notif disposition).attributes.map decoded) []).lookup key =
            some value ↔
          ∃ item ∈ (displayed notif disposition).attributes,
            units item.1 = key ∧ units item.2 = value) ↔
      (∀ field ∈ fields notif, hasNumeric (units field.2) = false) ∧
        (∀ field ∈ fields notif, field.1 ≠ "__proto__".toList) ∧
          ∀ delivered ∈ disposition, ∀ field ∈ fields notif,
            field.1 = "disposition".toList → field.2 = delivered.text := by
  -- a key of a field is given to that field only
  have hunique : ∀ field ∈ fields notif, ∀ value,
      (units field.1, value) ∈ (fields notif).map decoded →
        replaceNumeric 0 (units field.2) = value := by
    intro field hfield value hmem
    obtain ⟨other, hother, heq⟩ := List.mem_map.1 hmem
    have hkey : other.1 = field.1 := units_injective (congrArg Prod.fst heq)
    have hsame : other = field := List.inj_on_of_nodup_map nodup_fields hother hfield hkey
    rw [← hsame]
    exact congrArg Prod.snd heq
  have hkey : ∀ field ∈ fields notif, units field.1 ∈
      (fields notif).map fun field => units field.1 := fun field hmem =>
    List.mem_map.2 ⟨field, hmem, rfl⟩
  simp only [lookup_read h]
  simp only [attributes_displayed, List.mem_append]
  constructor
  · intro hread
    have hfield : ∀ field ∈ fields notif, ∀ item ∈ routed notif disposition ++ fields notif,
        item.1 = field.1 →
          units field.1 ≠ protoKey ∧ replaceNumeric 0 (units field.2) = units item.2 := by
      intro field hmem item hitem hsame
      have hfound := (hread (units field.1) (units item.2)).2
        ⟨item, List.mem_append.1 hitem, congrArg units hsame, rfl⟩
      rcases hfound with ⟨hne, hfound⟩ | ⟨habsent, other, hother, hotherKey, -⟩
      · exact ⟨hne, hunique field hmem _ hfound⟩
      · rcases habsent with hproto | habsent
        · exact absurd (hotherKey.trans hproto) (routed_not_proto other hother)
        · exact absurd (hkey field hmem) habsent
    have hvalues : ∀ field ∈ fields notif, hasNumeric (units field.2) = false :=
      fun field hmem => (replaceNumeric_eq_iff _).1
        (hfield field hmem field (List.mem_append_right _ hmem) rfl).2
    refine ⟨hvalues, fun field hmem hproto => ?_, fun delivered hdelivered field hmem hname => ?_⟩
    · refine (hfield field hmem field (List.mem_append_right _ hmem) rfl).1 ?_
      rw [hproto, protoKey]
    · have hitem : ("disposition".toList, delivered.text) ∈
          routed notif disposition ++ fields notif := by
        refine List.mem_append_left _ (List.mem_append_right _ (List.mem_map.2 ?_))
        exact ⟨delivered, Option.mem_toList.2 hdelivered, rfl⟩
      have hsame := (hfield field hmem _ hitem hname.symm).2
      rw [replaceNumeric_of_none (hvalues field hmem)] at hsame
      exact units_injective hsame
  · rintro ⟨hvalues, hproto, hdisposition⟩ key value
    constructor
    · rintro (⟨-, hmem⟩ | ⟨-, item, hitem, hitemKey, hitemValue⟩)
      · obtain ⟨field, hfield, heq⟩ := List.mem_map.1 hmem
        refine ⟨field, Or.inr hfield, congrArg Prod.fst heq, ?_⟩
        rw [← replaceNumeric_of_none (hvalues field hfield)]
        exact congrArg Prod.snd heq
      · exact ⟨item, Or.inl hitem, hitemKey, hitemValue⟩
    · rintro ⟨item, hitem, rfl, rfl⟩
      have hfield : ∀ field ∈ fields notif, field.1 = item.1 → field.2 = item.2 →
          units item.1 ≠ protoKey ∧
            (units item.1, units item.2) ∈ (fields notif).map decoded := by
        intro field hmem hkeySame hvalueSame
        rw [← hkeySame, ← hvalueSame]
        refine ⟨fun heq => hproto field hmem (units_injective heq), List.mem_map.2 ?_⟩
        exact ⟨field, hmem, Prod.ext rfl (replaceNumeric_of_none (hvalues field hmem))⟩
      rcases hitem with hrouted | hmem
      · by_cases hshadowed : units item.1 ∈ (fields notif).map fun field => units field.1
        · obtain ⟨field, hmem, hsame⟩ := List.mem_map.1 hshadowed
          have hsame : field.1 = item.1 := units_injective hsame
          refine Or.inl (hfield field hmem hsame ?_)
          -- only the disposition shares its name with a field
          have hown : item.1 ≠ "source".toList ∧ item.1 ≠ "type".toList := by
            have hshown : item.1 ∈ notif.shown.map Prod.fst := by
              rw [fields] at hmem
              split at hmem
              · exact absurd hmem List.not_mem_nil
              · exact hsame ▸ List.mem_map_of_mem hmem
            exact ⟨fun heq => source_type_not_shown notif (Or.inl heq) hshown,
              fun heq => source_type_not_shown notif (Or.inr heq) hshown⟩
          rcases List.mem_append.1 hrouted with hfixed | hdelivered
          · rcases List.mem_cons.1 hfixed with rfl | hfixed
            · exact absurd rfl hown.1
            · rw [List.mem_singleton.1 hfixed] at hown
              exact absurd rfl hown.2
          · obtain ⟨delivered, hin, rfl⟩ := List.mem_map.1 hdelivered
            exact hdisposition delivered (Option.mem_toList.1 hin) field hmem hsame
        · exact Or.inr ⟨Or.inr hshadowed, item, hrouted, rfl, rfl⟩
      · exact Or.inl (hfield item hmem rfl rfl)

theorem content_read_iff
    (h : Legible notif disposition) :
    trim (decodeXml (units (writtenContent notif))) =
        trim (units (displayed notif disposition).content) ↔
      (notif.body = none →
        ∀ field ∈ notif.contentField, hasNumeric (units field.2) = false) := by
  rw [writtenContent, displayed]
  cases hbody : notif.body with
  | some body =>
      have hplain : '&' ∉ '\n' :: strip body ++ ['\n'] := by
        have hstrip : '&' ∉ strip body := by
          intro hmem
          refine h.body body hbody ?_
          exact (List.dropWhile_sublist _).subset ((List.rdropWhile_prefix _ _).subset hmem)
        simp [hstrip]
      simp only [reduceCtorEq, false_implies, iff_true]
      rw [decodeXml_plain hplain]
  | none =>
      simp only [true_implies]
      cases hfield : notif.contentField with
      | none => simp [decodeXml_plain]
      | some field =>
          simp only [Option.map_some, Option.getD_some, Option.mem_some_iff, forall_eq']
          rw [decodeXml_escape]
          exact trim_replaceNumeric_eq_iff _

end Reading

/-- A notification is read back as it was written if and only if no text of it holds a numeric
entity, no field of it is named as the prototype of an object, and a field that is named as the
disposition agrees with it. -/
theorem notification_round_trips_iff
    (notif : Agent.Notification) (disposition : Option DeliveredDisposition)
    (h : Legible notif disposition) :
    RoundTrips notif disposition ↔ Readable notif disposition := by
  rw [RoundTrips]
  simp only [parseChannel_formatForDisplay h, Option.some_inj, exists_eq_left']
  rw [attributes_read_iff h, content_read_iff h]
  constructor
  · rintro ⟨⟨hvalues, hproto, hdisposition⟩, hcontent⟩
    exact ⟨hvalues, hcontent, hproto, hdisposition⟩
  · intro hreadable
    exact ⟨⟨hreadable.values, hreadable.proto, hreadable.disposition⟩, hreadable.content⟩

/-- A mail whose subject has quotes, markup, a line break and what looks like an entity. -/
def quotedMail : Agent.Notification where
  timestamp := "2026-03-01T10:00:00".toList
  source := "mail".toList
  type := "message".toList
  extra :=
    [("subject".toList, .str "a \x22b\x22 isn't <c> &amp;\n&nbsp;".toList),
     ("text".toList, .str " see &lt; ".toList)]

theorem notification_round_trips_sample :
    RoundTrips quotedMail (some .interrupt) ∧
      (parseChannel (units (formatForDisplay quotedMail (some .interrupt)))).map (·.body) =
        some (units "see &lt;".toList) := by
  have hlegible : Legible quotedMail (some .interrupt) :=
    ⟨by decide, by decide, by decide, by decide⟩
  have hreadable : Readable quotedMail (some .interrupt) :=
    ⟨by decide, by decide, by decide, by decide⟩
  exact ⟨(notification_round_trips_iff quotedMail (some .interrupt) hlegible).2 hreadable,
    by decide +kernel⟩

/-- A mail about numeric entities. -/
def entityMail : Agent.Notification where
  timestamp := "2026-03-02T10:00:00".toList
  source := "mail".toList
  type := "message".toList
  extra := [("subject".toList, .str "write &#65; for A".toList)]

/-- The numeric pass goes over text that the named one just put back. -/
theorem entity_decoded_twice :
    Legible entityMail none ∧ ¬RoundTrips entityMail none := by
  refine ⟨⟨by decide, by decide, by decide, by decide⟩, ?_⟩
  rintro ⟨parsed, hparsed, hattributes, -⟩
  have hsubject : (parseChannel (units (formatForDisplay entityMail none))).map
      (fun parsed => parsed.attributes.lookup (units "subject".toList)) =
        some (some (units "write A for A".toList)) := by decide +kernel
  rw [hparsed, Option.map_some, Option.some_inj] at hsubject
  obtain ⟨item, hitem, -, hvalue⟩ := (hattributes _ _).1 hsubject
  have hother : ∀ item ∈ (displayed entityMail none).attributes,
      units item.2 ≠ units "write A for A".toList := by decide +kernel
  exact hother item hitem hvalue

end Content
end Notifications
end Core
end Vesta
