import Mathlib.Data.List.TakeWhile
import Vesta.Lib.Text

/-!
# Flat markup: elements with attributes and character content

An element `<name a="v" …>content</name>` holds only characters.  `escape` and `quoteattr`
write a text so that it can stand as content and as an attribute's value.

The reader is as lenient as it can be while delimiters delimit: `<` and `&` are markup
wherever they stand, a quoted value ends at its quote, and any run of other characters is
an attribute's name.  `ReadsIff` says under which condition a written piece is read as its
value, with the reader going on right behind it, whatever follows.
-/

namespace Vesta
namespace Lib
namespace Markup

def doubleQuote : Char := Char.ofNat 34

def singleQuote : Char := Char.ofNat 39

/-- The characters that have references, with their names. -/
def references : List (Text × Char) :=
  [("amp".toList, '&'), ("lt".toList, '<'), ("gt".toList, '>'), ("quot".toList, doubleQuote),
   ("apos".toList, singleQuote), ("#9".toList, '\t'), ("#10".toList, '\n'), ("#13".toList, '\r')]

/-! ## Writing -/

def escapeChar (c : Char) : Text :=
  if c = '&' then "&amp;".toList
  else if c = '>' then "&gt;".toList
  else if c = '<' then "&lt;".toList
  else [c]

def escape (data : Text) : Text := data.flatMap escapeChar

/-- `escape` with the entities that attribute values add. -/
def escapeSpace (c : Char) : Text :=
  if c = '\n' then "&#10;".toList
  else if c = '\r' then "&#13;".toList
  else if c = '\t' then "&#9;".toList
  else escapeChar c

def escapeQuote (c : Char) : Text :=
  if c = doubleQuote then "&quot;".toList else [c]

def quoteattr (data : Text) : Text :=
  let data := data.flatMap escapeSpace
  if doubleQuote ∈ data then
    if singleQuote ∈ data then
      doubleQuote :: data.flatMap escapeQuote ++ [doubleQuote]
    else
      singleQuote :: data ++ [singleQuote]
  else
    doubleQuote :: data ++ [doubleQuote]

/-! ## Reading -/

/-- Decode the references of a text; the name read so far when inside of one. -/
def decodeFrom : Option Text → Text → Option Text
  | none, [] => some []
  | some _, [] => none
  | none, c :: rest =>
      if c = '&' then decodeFrom (some []) rest else (decodeFrom none rest).map (c :: ·)
  | some name, c :: rest =>
      if c = ';' then
        (references.lookup name).bind fun d => (decodeFrom none rest).map (d :: ·)
      else
        decodeFrom (some (name ++ [c])) rest

def decode (text : Text) : Option Text := decodeFrom none text

/-- What a name is not made of. -/
def delimiters : Text :=
  [' ', '\n', '\r', '\t', '=', '>', '<', '/', '&', doubleQuote, singleQuote]

def isNameChar (c : Char) : Bool := !delimiters.contains c

/-- A quoted value and what follows it. -/
def readValue : Text → Option (Text × Text)
  | [] => none
  | q :: rest =>
      if q = doubleQuote ∨ q = singleQuote then
        let raw := rest.takeWhile (· ≠ q)
        if '<' ∈ raw then none
        else (stripPrefix [q] (rest.drop raw.length)).bind fun rest =>
          (decode raw).map fun value => (value, rest)
      else none

def readAttribute (text : Text) : Option ((Text × Text) × Text) :=
  let name := text.takeWhile isNameChar
  if name = [] then none
  else (stripPrefix ['='] (text.drop name.length)).bind fun rest =>
    (readValue rest).map fun read => ((name, read.1), read.2)

/-- The attributes of a start tag, and what follows it. -/
def readAttributes : Nat → Text → Option (List (Text × Text) × Text)
  | _, '>' :: rest => some ([], rest)
  | fuel + 1, ' ' :: rest =>
      (readAttribute rest).bind fun read =>
        (readAttributes fuel read.2).map fun more => (read.1 :: more.1, more.2)
  | _, _ => none

/-- The characters before an end tag, and what follows it. -/
def readContent (name text : Text) : Option (Text × Text) :=
  let raw := text.takeWhile (· ≠ '<')
  (stripPrefix ("</".toList ++ name ++ ['>']) (text.drop raw.length)).bind fun rest =>
    (decode raw).map fun content => (content, rest)

structure Element where
  attributes : List (Text × Text)
  content : Text
deriving DecidableEq

/-- An element with the given name; no attribute is given twice. -/
def readElement (name text : Text) : Option (Element × Text) :=
  (stripPrefix ('<' :: name) text).bind fun rest =>
    (readAttributes text.length rest).bind fun read =>
      if (read.1.map Prod.fst).Nodup then
        (readContent name read.2).map fun content => (⟨read.1, content.1⟩, content.2)
      else none

/-- Elements, one after another with a line break between. -/
def readLines (name : Text) : Nat → Text → Option (List Element)
  | 0, _ => none
  | fuel + 1, text =>
      (readElement name text).bind fun read =>
        match read.2 with
        | [] => some [read.1]
        | c :: rest =>
            if c = '\n' then (readLines name fuel rest).map (read.1 :: ·) else none

def readElements (name text : Text) : Option (List Element) :=
  if text = [] then some [] else readLines name text.length text

/-! ## Decoding -/

/-- Decoding goes on behind what was decoded whole. -/
theorem decodeFrom_append
    {pending : Option Text} {first decoded : Text}
    (h : decodeFrom pending first = some decoded)
    (second : Text) :
    decodeFrom pending (first ++ second) = (decode second).map (decoded ++ ·) := by
  induction first generalizing pending decoded with
  | nil =>
      cases pending with
      | none =>
          obtain rfl : [] = decoded := Option.some.inj h
          simp [decode]
      | some name => exact nomatch h
  | cons c first ih =>
      cases pending with
      | none =>
          rw [decodeFrom] at h
          rw [List.cons_append, decodeFrom]
          split at h
          · rename_i hc
            rw [if_pos hc, ih h]
          · rename_i hc
            obtain ⟨tail, htail, rfl⟩ := Option.map_eq_some_iff.1 h
            rw [if_neg hc, ih htail]
            simp [Function.comp_def]
      | some name =>
          rw [decodeFrom] at h
          rw [List.cons_append, decodeFrom]
          split at h
          · rename_i hc
            obtain ⟨d, hd, hmap⟩ := Option.bind_eq_some_iff.1 h
            obtain ⟨tail, htail, rfl⟩ := Option.map_eq_some_iff.1 hmap
            rw [if_pos hc, ih htail, hd]
            simp [Function.comp_def]
          · rename_i hc
            rw [if_neg hc, ih h]

/-- A text written character by character decodes to itself. -/
theorem decode_flatMap
    {write : Char → Text}
    (hwrite : ∀ c, decode (write c) = some [c])
    (text : Text) :
    decode (text.flatMap write) = some text := by
  induction text with
  | nil => rfl
  | cons c text ih =>
      rw [List.flatMap_cons, decode, decodeFrom_append (hwrite c), ih]
      rfl

theorem decode_plain
    {text : Text}
    (h : '&' ∉ text) :
    decode text = some text := by
  induction text with
  | nil => rfl
  | cons c text ih =>
      obtain ⟨hc, htext⟩ := not_or.1 (mt List.mem_cons.2 h)
      rw [decode, decodeFrom, if_neg fun heq => hc heq.symm, ← decode, ih htext]
      rfl

/-- Decoding never lengthens, and each reference shortens. -/
theorem length_decodeFrom
    {pending : Option Text} {text decoded : Text}
    (h : decodeFrom pending text = some decoded) :
    decoded.length ≤ text.length ∧
      (pending = none → '&' ∈ text → decoded.length < text.length) := by
  induction text generalizing pending decoded with
  | nil =>
      cases pending with
      | none =>
          obtain rfl : [] = decoded := Option.some.inj h
          simp
      | some name => exact nomatch h
  | cons c text ih =>
      cases pending with
      | none =>
          rw [decodeFrom] at h
          split at h
          · have hle := (ih h).1
            exact ⟨by simp; omega, fun _ _ => by simp; omega⟩
          · rename_i hc
            obtain ⟨tail, htail, rfl⟩ := Option.map_eq_some_iff.1 h
            obtain ⟨hle, hlt⟩ := ih htail
            refine ⟨by simpa using hle, fun _ hmem => ?_⟩
            rcases List.mem_cons.1 hmem with heq | hmem
            · exact absurd heq.symm hc
            · simpa using hlt rfl hmem
      | some name =>
          rw [decodeFrom] at h
          split at h
          · obtain ⟨d, -, hmap⟩ := Option.bind_eq_some_iff.1 h
            obtain ⟨tail, htail, rfl⟩ := Option.map_eq_some_iff.1 hmap
            exact ⟨by simpa using (ih htail).1, fun hnone => absurd hnone (Option.some_ne_none name)⟩
          · have hle := (ih h).1
            exact ⟨by simp; omega, fun hnone => absurd hnone (Option.some_ne_none name)⟩

/-- Only a text without references stands for itself, also after it was cut. -/
theorem decode_eq_self_iff
    {raw text : Text}
    (hraw : raw.length ≤ text.length) :
    decode raw = some text ↔ raw = text ∧ '&' ∉ text := by
  constructor
  · intro h
    obtain ⟨hle, hlt⟩ := length_decodeFrom h
    have hplain : '&' ∉ raw := fun hmem => absurd (hlt rfl hmem) (by omega)
    have heq : raw = text := Option.some.inj ((decode_plain hplain).symm.trans h)
    exact ⟨heq, heq ▸ hplain⟩
  · rintro ⟨rfl, hplain⟩
    exact decode_plain hplain

/-! ## What is read back -/

/-- The written piece is read as `value`, up to its end, exactly if `ok`. -/
def ReadsIff {α : Type}
    (read : Text → Option (α × Text)) (written : Text) (value : α) (ok : Prop) : Prop :=
  ∀ rest rest', read (written ++ rest) = some (value, rest') ↔ ok ∧ rest' = rest

theorem ReadsIff.read
    {α : Type} {read : Text → Option (α × Text)} {written : Text} {value : α} {ok : Prop}
    (h : ReadsIff read written value ok)
    (hok : ok)
    (rest : Text) :
    read (written ++ rest) = some (value, rest) :=
  (h rest rest).2 ⟨hok, rfl⟩

theorem takeWhile_stop
    {p : Char → Bool} {stop : Char}
    (hstop : p stop = false)
    (text rest : Text) :
    (text ++ stop :: rest).takeWhile p = text.takeWhile p := by
  induction text with
  | nil => simp [hstop]
  | cons c text ih => rw [List.cons_append, List.takeWhile_cons, List.takeWhile_cons, ih]

theorem length_takeWhile (p : Char → Bool) (text : Text) :
    (text.takeWhile p).length ≤ text.length :=
  (List.takeWhile_prefix p).length_le

/-- A value that does not contain its quote ends there. -/
theorem readValue_quoted
    {q : Char} {written : Text}
    (hq : q = doubleQuote ∨ q = singleQuote)
    (hwritten : q ∉ written)
    (rest : Text) :
    readValue (q :: (written ++ q :: rest)) =
      if '<' ∈ written then none else (decode written).map fun value => (value, rest) := by
  have hall : ∀ c ∈ written, decide (c ≠ q) = true :=
    fun c hc => decide_eq_true fun heq => hwritten (heq ▸ hc)
  have hraw : (written ++ q :: rest).takeWhile (· ≠ q) = written := by
    rw [takeWhile_stop (by simp), List.takeWhile_eq_self_iff.2 hall]
  have hdrop : (written ++ q :: rest).drop written.length = [q] ++ rest := by
    rw [List.drop_left, List.singleton_append]
  rw [readValue, if_pos hq]
  simp only [hraw, hdrop, stripPrefix_append, Option.bind_some]

/-- What may stand between double quotes as it is. -/
def Literal (text : Text) : Prop := doubleQuote ∉ text ∧ '<' ∉ text ∧ '&' ∉ text

theorem readsIff_literal (value : Text) :
    ReadsIff readValue (doubleQuote :: value ++ [doubleQuote]) value (Literal value) := by
  intro rest rest'
  have happend : doubleQuote :: value ++ [doubleQuote] ++ rest =
      doubleQuote :: (value ++ doubleQuote :: rest) := by simp
  rw [happend]
  by_cases hquote : doubleQuote ∈ value
  · refine iff_of_false (fun h => ?_) (fun h => h.1.1 hquote)
    rw [readValue, if_pos (.inl rfl)] at h
    have hraw : (value ++ doubleQuote :: rest).takeWhile (· ≠ doubleQuote) =
        value.takeWhile (· ≠ doubleQuote) := takeWhile_stop (by simp) value rest
    simp only [hraw] at h
    split at h
    · exact nomatch h
    · obtain ⟨tail, -, hmap⟩ := Option.bind_eq_some_iff.1 h
      obtain ⟨decoded, hdecode, hpair⟩ := Option.map_eq_some_iff.1 hmap
      rw [(Prod.mk.inj hpair).1] at hdecode
      obtain ⟨hself, -⟩ := (decode_eq_self_iff (length_takeWhile _ _)).1 hdecode
      have hne := List.takeWhile_eq_self_iff.1 hself doubleQuote hquote
      exact absurd hne (by simp)
  · rw [readValue_quoted (.inl rfl) hquote]
    by_cases hopen : '<' ∈ value
    · simp [Literal, hopen]
    · simp only [hopen, if_false, Option.map_eq_some_iff, Prod.mk.injEq]
      constructor
      · rintro ⟨decoded, hdecode, rfl, rfl⟩
        exact ⟨⟨hquote, hopen, ((decode_eq_self_iff (Nat.le_refl _)).1 hdecode).2⟩, rfl⟩
      · rintro ⟨⟨-, -, hplain⟩, rfl⟩
        exact ⟨value, decode_plain hplain, rfl, rfl⟩

/-! ### Escaped texts -/

theorem decode_escapeChar (c : Char) : decode (escapeChar c) = some [c] := by
  rw [escapeChar]
  split
  · rename_i hc
    rw [hc]
    rfl
  · rename_i hamp
    split
    · rename_i hc
      rw [hc]
      rfl
    · split
      · rename_i hc
        rw [hc]
        rfl
      · exact decode_plain (by simpa using fun h => hamp h.symm)

theorem decode_escapeSpace (c : Char) : decode (escapeSpace c) = some [c] := by
  rw [escapeSpace]
  split
  · rename_i hc
    rw [hc]
    rfl
  · split
    · rename_i hc
      rw [hc]
      rfl
    · split
      · rename_i hc
        rw [hc]
        rfl
      · exact decode_escapeChar c

theorem not_mem_escapeChar (c : Char) : '<' ∉ escapeChar c := by
  rw [escapeChar]
  split
  · decide
  · split
    · decide
    · split
      · decide
      · rename_i hc
        simpa using fun h => hc h.symm

theorem not_mem_escapeSpace (c : Char) : '<' ∉ escapeSpace c := by
  rw [escapeSpace]
  split
  · decide
  · split
    · decide
    · split
      · decide
      · exact not_mem_escapeChar c

theorem not_mem_escapeSpace_quote
    {c : Char}
    (hc : c ≠ doubleQuote) :
    doubleQuote ∉ escapeSpace c := by
  rw [escapeSpace]
  split
  · decide
  · split
    · decide
    · split
      · decide
      · rw [escapeChar]
        split
        · decide
        · split
          · decide
          · split
            · decide
            · simpa using fun h => hc h.symm

theorem not_mem_flatMap
    {write : Char → Text} {d : Char}
    (hwrite : ∀ c, d ∉ write c)
    (text : Text) :
    d ∉ text.flatMap write := by
  intro hmem
  obtain ⟨c, -, hd⟩ := List.mem_flatMap.1 hmem
  exact hwrite c hd

/-- `escape` of a text decodes to it and holds no markup. -/
theorem decode_escape (data : Text) : decode (escape data) = some data :=
  decode_flatMap decode_escapeChar data

theorem not_mem_escape (data : Text) : '<' ∉ escape data :=
  not_mem_flatMap not_mem_escapeChar data

/-- Escaping the double quotes too, in texts that are escaped already. -/
theorem escapeQuote_escapeSpace (data : Text) :
    (data.flatMap escapeSpace).flatMap escapeQuote =
      data.flatMap fun c => if c = doubleQuote then "&quot;".toList else escapeSpace c := by
  rw [List.flatMap_assoc]
  congr 1
  funext c
  by_cases hc : c = doubleQuote
  · rw [if_pos hc, hc]
    rfl
  · rw [if_neg hc]
    have hsame : ∀ written : Text, doubleQuote ∉ written →
        written.flatMap escapeQuote = written := by
      intro written hwritten
      induction written with
      | nil => rfl
      | cons d written ih =>
          obtain ⟨hd, htail⟩ := not_or.1 (mt List.mem_cons.2 hwritten)
          rw [List.flatMap_cons, ih htail, escapeQuote, if_neg fun h => hd h.symm]
          rfl
    exact hsame _ (not_mem_escapeSpace_quote hc)

theorem readsIff_quoted
    {q : Char} {written value : Text}
    (hq : q = doubleQuote ∨ q = singleQuote)
    (hquote : q ∉ written)
    (hopen : '<' ∉ written)
    (hdecode : decode written = some value) :
    ReadsIff readValue (q :: written ++ [q]) value True := by
  intro rest rest'
  have happend : q :: written ++ [q] ++ rest = q :: (written ++ q :: rest) := by simp
  rw [happend, readValue_quoted hq hquote, if_neg hopen, hdecode]
  simp [eq_comm]

/-- Whatever the value is, `quoteattr` writes it so that it is read back. -/
theorem readsIff_quoteattr (value : Text) :
    ReadsIff readValue (quoteattr value) value True := by
  have hopen := not_mem_flatMap not_mem_escapeSpace value
  have hdecode := decode_flatMap decode_escapeSpace value
  rw [quoteattr]
  by_cases hdouble : doubleQuote ∈ value.flatMap escapeSpace
  · by_cases hsingle : singleQuote ∈ value.flatMap escapeSpace
    · simp only [hdouble, hsingle, if_true]
      rw [escapeQuote_escapeSpace]
      refine readsIff_quoted (.inl rfl) (not_mem_flatMap ?_ value) (not_mem_flatMap ?_ value)
        (decode_flatMap ?_ value)
      · intro c
        split
        · decide
        · rename_i hc
          exact not_mem_escapeSpace_quote hc
      · intro c
        split
        · decide
        · exact not_mem_escapeSpace c
      · intro c
        split
        · rename_i hc
          rw [hc]
          rfl
        · exact decode_escapeSpace c
    · simp only [hdouble, hsingle, if_true, if_false]
      exact readsIff_quoted (.inr rfl) hsingle hopen hdecode
  · simp only [hdouble, if_false]
    exact readsIff_quoted (.inl rfl) hdouble hopen hdecode

/-! ### Attributes -/

/-- A name is a run of characters none of which delimits. -/
def IsName (name : Text) : Prop := name ≠ [] ∧ ∀ c ∈ name, isNameChar c = true

theorem readsIff_attribute
    (name : Text)
    {written value : Text} {ok : Prop}
    (h : ReadsIff readValue written value ok) :
    ReadsIff readAttribute (name ++ '=' :: written) (name, value) (IsName name ∧ ok) := by
  intro rest rest'
  have happend : name ++ '=' :: written ++ rest = name ++ '=' :: (written ++ rest) := by simp
  have hraw : (name ++ '=' :: (written ++ rest)).takeWhile isNameChar =
      name.takeWhile isNameChar := takeWhile_stop (by decide) name _
  rw [happend, readAttribute]
  simp only [hraw]
  by_cases hname : ∀ c ∈ name, isNameChar c = true
  · have hall : name.takeWhile isNameChar = name := List.takeWhile_eq_self_iff.2 hname
    have hdrop : (name ++ '=' :: (written ++ rest)).drop name.length =
        ['='] ++ (written ++ rest) := by rw [List.drop_left, List.singleton_append]
    simp only [hall, hdrop, stripPrefix_append, Option.bind_some]
    by_cases hempty : name = []
    · simp [hempty, IsName]
    · rw [if_neg hempty, Option.map_eq_some_iff]
      constructor
      · rintro ⟨⟨value', rest''⟩, hread, hpair⟩
        obtain ⟨hvalue, rfl⟩ := Prod.mk.inj hpair
        obtain rfl : value' = value := (Prod.mk.inj hvalue).2
        obtain ⟨hok, rfl⟩ := (h rest rest'').1 hread
        exact ⟨⟨⟨hempty, hname⟩, hok⟩, rfl⟩
      · rintro ⟨⟨-, hok⟩, rfl⟩
        exact ⟨(value, rest'), (h rest' rest').2 ⟨hok, rfl⟩, rfl⟩
  · refine iff_of_false (fun hread => ?_) (fun hok => hname hok.1.1.2)
    split at hread
    · exact nomatch hread
    · obtain ⟨tail, -, hmap⟩ := Option.bind_eq_some_iff.1 hread
      obtain ⟨read, -, hpair⟩ := Option.map_eq_some_iff.1 hmap
      have hself : name.takeWhile isNameChar = name :=
        (Prod.mk.inj (Prod.mk.inj hpair).1).1
      exact hname (List.takeWhile_eq_self_iff.1 hself)

/-- An attribute as it is written, with the value it is to be read as and when it is. -/
structure Written where
  name : Text
  written : Text
  value : Text
  ok : Prop
  reads : ReadsIff readValue written value ok

def Written.attribute (item : Written) : Text × Text := (item.name, item.value)

def Written.text (item : Written) : Text := item.name ++ '=' :: item.written

theorem readsIff_attributes
    (items : List Written)
    {fuel : Nat}
    (hfuel : items.length ≤ fuel) :
    ReadsIff (readAttributes fuel) (items.flatMap (fun item => ' ' :: item.text) ++ ['>'])
      (items.map Written.attribute) (∀ item ∈ items, IsName item.name ∧ item.ok) := by
  induction items generalizing fuel with
  | nil =>
      intro rest rest'
      have hread : readAttributes fuel ('>' :: rest) = some ([], rest) := by
        cases fuel <;> rfl
      change readAttributes fuel ('>' :: rest) = _ ↔ _
      rw [hread]
      simp [eq_comm]
  | cons item items ih =>
      intro rest rest'
      cases fuel with
      | zero => exact absurd hfuel (Nat.not_succ_le_zero _)
      | succ fuel =>
          have happend : (item :: items).flatMap (fun item => ' ' :: item.text) ++ ['>'] ++ rest =
              ' ' :: (item.text ++ (items.flatMap (fun item => ' ' :: item.text) ++ ['>'] ++ rest)) := by
            simp
          have hattribute := readsIff_attribute item.name item.reads
          have hmore := ih (Nat.le_of_succ_le_succ hfuel)
          rw [happend]
          change (readAttribute _).bind _ = _ ↔ _
          rw [List.forall_mem_cons, List.map_cons]
          constructor
          · intro hread
            obtain ⟨⟨first, tail⟩, hfirst, hmap⟩ := Option.bind_eq_some_iff.1 hread
            obtain ⟨⟨more, tail'⟩, htail, hpair⟩ := Option.map_eq_some_iff.1 hmap
            obtain ⟨hlist, rfl⟩ := Prod.mk.inj hpair
            obtain ⟨rfl, rfl⟩ := List.cons.inj hlist
            obtain ⟨hok, rfl⟩ := (hattribute _ _).1 hfirst
            obtain ⟨hoks, rfl⟩ := (hmore _ _).1 htail
            exact ⟨⟨hok, hoks⟩, rfl⟩
          · rintro ⟨⟨hok, hoks⟩, rfl⟩
            rw [Written.text, hattribute.read hok, Option.bind_some, hmore.read hoks]
            rfl

/-! ### Content and elements -/

/-- The end tag of an element. -/
def closing (name : Text) : Text := "</".toList ++ name ++ ['>']

theorem readContent_of_not_mem
    {written : Text}
    (hopen : '<' ∉ written)
    (name rest : Text) :
    readContent name (written ++ closing name ++ rest) =
      (decode written).map fun content => (content, rest) := by
  have hall : ∀ c ∈ written, decide (c ≠ '<') = true :=
    fun c hc => decide_eq_true fun heq => hopen (heq ▸ hc)
  have happend : written ++ closing name ++ rest =
      written ++ '<' :: ('/' :: (name ++ ['>'] ++ rest)) := by simp [closing]
  have hraw : (written ++ closing name ++ rest).takeWhile (· ≠ '<') = written := by
    rw [happend, takeWhile_stop (by simp), List.takeWhile_eq_self_iff.2 hall]
  have hdrop : (written ++ closing name ++ rest).drop written.length =
      closing name ++ rest := by
    rw [List.append_assoc, List.drop_left]
  rw [readContent]
  simp only [hraw, hdrop]
  rw [show "</".toList ++ name ++ ['>'] = closing name from rfl, stripPrefix_append]
  rfl

/-- `escape` writes any content so that it is read back. -/
theorem readsIff_escape (name content : Text) :
    ReadsIff (readContent name) (escape content ++ closing name) content True := by
  intro rest rest'
  rw [readContent_of_not_mem (not_mem_escape content), decode_escape]
  simp [eq_comm]

/-- Content that is written as it is is read back if it holds no markup. -/
theorem readsIff_content (name content : Text) :
    ReadsIff (readContent name) (content ++ closing name) content
      ('<' ∉ content ∧ '&' ∉ content) := by
  intro rest rest'
  by_cases hopen : '<' ∈ content
  · refine iff_of_false (fun h => ?_) (fun h => h.1.1 hopen)
    have happend : content ++ closing name ++ rest =
        content ++ '<' :: ('/' :: (name ++ ['>'] ++ rest)) := by simp [closing]
    have hraw : (content ++ closing name ++ rest).takeWhile (· ≠ '<') =
        content.takeWhile (· ≠ '<') := by
      rw [happend]
      exact takeWhile_stop (by simp) content _
    rw [readContent] at h
    simp only [hraw] at h
    obtain ⟨tail, -, hmap⟩ := Option.bind_eq_some_iff.1 h
    obtain ⟨decoded, hdecode, hpair⟩ := Option.map_eq_some_iff.1 hmap
    rw [(Prod.mk.inj hpair).1] at hdecode
    obtain ⟨hself, -⟩ := (decode_eq_self_iff (length_takeWhile _ _)).1 hdecode
    have hne := List.takeWhile_eq_self_iff.1 hself '<' hopen
    exact absurd hne (by simp)
  · rw [readContent_of_not_mem hopen]
    simp only [Option.map_eq_some_iff, Prod.mk.injEq]
    constructor
    · rintro ⟨decoded, hdecode, rfl, rfl⟩
      exact ⟨⟨hopen, ((decode_eq_self_iff (Nat.le_refl _)).1 hdecode).2⟩, rfl⟩
    · rintro ⟨⟨-, hplain⟩, rfl⟩
      exact ⟨content, decode_plain hplain, rfl, rfl⟩

/-- The start tag of an element. -/
def opening (name : Text) (items : List Written) : Text :=
  '<' :: name ++ (items.flatMap (fun item => ' ' :: item.text) ++ ['>'])

/-- An element is read back if its attributes are, each under a name of its own, and its
content is. -/
theorem readsIff_element
    (name : Text) (items : List Written)
    {written content : Text} {ok : Prop}
    (h : ReadsIff (readContent name) written content ok) :
    ReadsIff (readElement name) (opening name items ++ written)
      ⟨items.map Written.attribute, content⟩
      ((∀ item ∈ items, IsName item.name ∧ item.ok) ∧ (items.map Written.name).Nodup ∧ ok) := by
  intro rest rest'
  have hnames : (items.map Written.attribute).map Prod.fst = items.map Written.name := by
    rw [List.map_map]
    rfl
  have happend : opening name items ++ written ++ rest = ('<' :: name) ++
      (items.flatMap (fun item => ' ' :: item.text) ++ ['>'] ++ (written ++ rest)) := by
    simp [opening]
  have hfuel : items.length ≤ (opening name items ++ written ++ rest).length := by
    have hlength : items.length ≤ (items.flatMap fun item => ' ' :: item.text).length := by
      clear happend hnames
      induction items with
      | nil => exact Nat.le_refl 0
      | cons item items ih =>
          rw [List.flatMap_cons, List.length_append, List.length_cons, List.length_cons]
          omega
    rw [happend, List.length_append, List.length_append, List.length_append]
    omega
  have hattributes := readsIff_attributes items hfuel
  rw [readElement]
  generalize (opening name items ++ written ++ rest).length = fuel at hattributes
  rw [happend, stripPrefix_append, Option.bind_some]
  constructor
  · intro hread
    obtain ⟨⟨attributes, tail⟩, hlist, hif⟩ := Option.bind_eq_some_iff.1 hread
    split at hif
    · rename_i hnodup
      obtain ⟨⟨content', tail'⟩, hcontent, hpair⟩ := Option.map_eq_some_iff.1 hif
      obtain ⟨helement, rfl⟩ := Prod.mk.inj hpair
      obtain ⟨rfl, rfl⟩ := Element.mk.inj helement
      obtain ⟨hitems, rfl⟩ := (hattributes _ _).1 hlist
      obtain ⟨hok, rfl⟩ := (h _ _).1 hcontent
      exact ⟨⟨hitems, hnames ▸ hnodup, hok⟩, rfl⟩
    · exact nomatch hif
  · rintro ⟨⟨hitems, hnodup, hok⟩, rfl⟩
    rw [hattributes.read hitems, Option.bind_some]
    simp only [hnames, hnodup, if_true, h.read hok]
    rfl

/-- A line of a document: an element as it is written, and when it is read back. -/
structure Line (name : Text) where
  written : Text
  element : Element
  ok : Prop
  reads : ReadsIff (readElement name) written element ok
  ne_nil : written ≠ []

theorem readLines_iff
    {name : Text}
    (line : Line name) (lines : List (Line name))
    {fuel : Nat}
    (hfuel : lines.length < fuel) :
    readLines name fuel (['\n'].intercalate ((line :: lines).map Line.written)) =
        some ((line :: lines).map Line.element) ↔
      ∀ line' ∈ line :: lines, line'.ok := by
  induction lines generalizing line fuel with
  | nil =>
      cases fuel with
      | zero => exact absurd hfuel (Nat.not_lt_zero _)
      | succ fuel =>
          have hreads := line.reads [] []
          rw [List.append_nil] at hreads
          have hone : ['\n'].intercalate ([line].map Line.written) = line.written := by
            simp [List.intercalate]
          rw [hone, readLines]
          constructor
          · intro hread
            obtain ⟨⟨element, tail⟩, helement, hmatch⟩ := Option.bind_eq_some_iff.1 hread
            cases tail with
            | nil =>
                obtain rfl : element = line.element := by simpa using hmatch
                simpa using (hreads.1 helement).1
            | cons c tail =>
                simp only at hmatch
                split at hmatch
                · obtain ⟨more, hmore, hlist⟩ := Option.map_eq_some_iff.1 hmatch
                  obtain ⟨rfl, rfl⟩ := List.cons.inj hlist
                  have htail := ((line.reads [] (c :: tail)).1 (by rwa [List.append_nil])).2
                  exact nomatch htail
                · exact nomatch hmatch
          · intro hok
            rw [hreads.2 ⟨by simpa using hok, rfl⟩]
            rfl
  | cons next lines ih =>
      cases fuel with
      | zero => exact absurd hfuel (Nat.not_lt_zero _)
      | succ fuel =>
          have hreads := line.reads
            ('\n' :: ['\n'].intercalate ((next :: lines).map Line.written))
          have hsplit : ['\n'].intercalate ((line :: next :: lines).map Line.written) =
              line.written ++ '\n' :: ['\n'].intercalate ((next :: lines).map Line.written) := by
            simp [List.intercalate]
          have hmore := ih next (Nat.lt_of_succ_lt_succ hfuel)
          rw [hsplit, readLines, List.forall_mem_cons]
          constructor
          · intro hread
            obtain ⟨⟨element, tail⟩, helement, hmatch⟩ := Option.bind_eq_some_iff.1 hread
            cases tail with
            | nil =>
                have hlist := Option.some.inj hmatch
                simp at hlist
            | cons c tail =>
                simp only at hmatch
                split at hmatch
                · obtain ⟨more, htail, hlist⟩ := Option.map_eq_some_iff.1 hmatch
                  obtain ⟨rfl, rfl⟩ := List.cons.inj hlist
                  obtain ⟨hok, hrest⟩ := (hreads _).1 helement
                  rw [(List.cons.inj hrest).2] at htail
                  exact ⟨hok, hmore.1 htail⟩
                · exact nomatch hmatch
          · rintro ⟨hok, hoks⟩
            rw [line.reads.read hok]
            simp only [Option.bind_some, if_true, hmore.2 hoks]
            rfl

/-- The elements of a document are read back exactly if each of its lines is. -/
theorem readElements_iff
    {name : Text}
    (lines : List (Line name)) :
    readElements name (['\n'].intercalate (lines.map Line.written)) =
        some (lines.map Line.element) ↔
      ∀ line ∈ lines, line.ok := by
  cases lines with
  | nil => simp [readElements, List.intercalate]
  | cons line lines =>
      have hlength : lines.length <
          (['\n'].intercalate ((line :: lines).map Line.written)).length := by
        induction lines generalizing line with
        | nil =>
            have hpos := List.length_pos_iff.2 line.ne_nil
            simpa [List.intercalate] using hpos
        | cons next lines ih =>
            have hnext := ih next
            have hsplit : ['\n'].intercalate ((line :: next :: lines).map Line.written) =
                line.written ++ '\n' :: ['\n'].intercalate ((next :: lines).map Line.written) := by
              simp [List.intercalate]
            rw [hsplit, List.length_append, List.length_cons, List.length_cons]
            omega
      have hne : ['\n'].intercalate ((line :: lines).map Line.written) ≠ [] :=
        List.ne_nil_of_length_pos (Nat.lt_of_le_of_lt (Nat.zero_le _) hlength)
      rw [readElements, if_neg hne]
      exact readLines_iff line lines hlength

end Markup
end Lib
end Vesta
