import Vesta.EmailClient.ContentLines

/-!
# Reading a written line again

A property that was read has a name and parameters whose texts open no quotation and hold no
separator outside of quotes.  Written back, its line is cut where it was cut before, as long
as no value had to be put in quotes: quotes around a value turn its own quotes inside out,
and what is read of it then starts with a quote or is shorter than the value.
-/

namespace Vesta
namespace EmailClient

open Lib
open Lib.Quoted
open Agent (isSpace strip)

/-! ## White space at the ends -/

/-- Neither end of a text is white space. -/
def Stripped (t : Text) : Prop :=
  (∀ c ∈ t.head?, isSpace c = false) ∧ ∀ c ∈ t.getLast?, isSpace c = false

theorem stripped_strip (t : Text) : Stripped (strip t) := by
  constructor
  · intro c hc
    obtain ⟨after, hafter⟩ := List.rdropWhile_prefix isSpace (t.dropWhile isSpace)
    have hhead : (t.dropWhile isSpace).head? = some c := by
      rw [← hafter, List.head?_append, ← strip, Option.mem_def.1 hc]
      rfl
    have hnot := List.head?_dropWhile_not isSpace t
    rw [hhead] at hnot
    exact hnot
  · intro c hc
    rw [strip, List.rdropWhile, List.getLast?_reverse] at hc
    have hnot := List.head?_dropWhile_not isSpace (t.dropWhile isSpace).reverse
    rw [Option.mem_def.1 hc] at hnot
    exact hnot

theorem Stripped.strip
    {t : Text}
    (h : Stripped t) :
    strip t = t := by
  have hdrop : t.dropWhile isSpace = t := by
    cases t with
    | nil => rfl
    | cons c t => rw [List.dropWhile_cons_of_neg (by rw [h.1 c rfl]; exact Bool.false_ne_true)]
  rw [Agent.strip, hdrop, List.rdropWhile_eq_self_iff]
  intro hne
  rw [h.2 _ (List.getLast?_eq_some_getLast hne)]
  exact Bool.false_ne_true

/-! ## Upper case -/

theorem val_toUpper
    {c : Char}
    (h : 'a'.val ≤ c.val ∧ c.val ≤ 'z'.val) :
    c.toUpper.val = c.val + ('A'.val - 'a'.val) := by
  delta Char.toUpper
  rw [dif_pos h]

theorem toUpper_of_not
    {c : Char}
    (h : ¬('a'.val ≤ c.val ∧ c.val ≤ 'z'.val)) :
    c.toUpper = c := by
  delta Char.toUpper
  rw [dif_neg h]

theorem isUpper_toUpper
    {c : Char}
    (h : c.toUpper ≠ c) :
    c.toUpper.isUpper = true := by
  have hlower : 'a'.val ≤ c.val ∧ c.val ≤ 'z'.val := by
    by_contra hnot
    exact h (toUpper_of_not hnot)
  have hle : 97 ≤ c.val.toNat := hlower.1
  have hge : c.val.toNat ≤ 122 := hlower.2
  have hval : c.toUpper.toNat = (c.val + ('A'.val - 'a'.val)).toNat :=
    congrArg UInt32.toNat (val_toUpper hlower)
  have hdiff : ('A'.val - 'a'.val).toNat = 2 ^ 32 - 32 := by decide
  rw [UInt32.toNat_add, hdiff] at hval
  rw [isUpper_iff, hval]
  omega

theorem toUpper_of_isUpper
    {c : Char}
    (h : c.isUpper = true) :
    c.toUpper = c := by
  refine toUpper_of_not fun hlower => ?_
  have hge : 97 ≤ c.toNat := hlower.1
  have hle := (isUpper_iff.1 h).2
  omega

theorem isSpace_of_isUpper
    {c : Char}
    (h : c.isUpper = true) :
    isSpace c = false := by
  obtain ⟨hge, hle⟩ := isUpper_iff.1 h
  simp only [isSpace, Bool.or_eq_false_iff, Bool.and_eq_false_iff, decide_eq_false_iff_not,
    beq_eq_false_iff_ne]
  omega

/-- Characters that upper case neither changes nor makes of another one. -/
structure Fixed (mark : Char) : Prop where
  ascii : mark.toNat < 128
  same : mark.toUpper = mark
  small : mark.isUpper = false

namespace Upper

variable (up : Upper) {mark : Char}

theorem char_fixed (h : Fixed mark) : up.char mark = [mark] := by
  rw [up.ascii mark h.ascii, h.same]

theorem eq_of_mem_char
    (h : Fixed mark)
    {c : Char}
    (hmem : mark ∈ up.char c) :
    c = mark := by
  by_cases hascii : c.toNat < 128
  · rw [up.ascii c hascii, List.mem_singleton] at hmem
    by_contra hne
    have hchanged : c.toUpper ≠ c := fun heq => hne (heq.symm.trans hmem.symm)
    have hupper := isUpper_toUpper hchanged
    rw [← hmem, h.small] at hupper
    cases hupper
  · have hupper := up.foreign c (Nat.not_lt.1 hascii) mark hmem h.ascii
    rw [h.small] at hupper
    cases hupper

theorem mem_text_iff
    (h : Fixed mark)
    {t : Text} :
    mark ∈ up.text t ↔ mark ∈ t := by
  rw [text, List.mem_flatMap]
  constructor
  · rintro ⟨c, hc, hmem⟩
    exact up.eq_of_mem_char h hmem ▸ hc
  · intro hmem
    exact ⟨mark, hmem, by simp [up.char_fixed h]⟩

theorem text_cons (c : Char) (t : Text) : up.text (c :: t) = up.char c ++ up.text t :=
  List.flatMap_cons

@[simp]
theorem text_text (t : Text) : up.text (up.text t) = up.text t := by
  induction t with
  | nil => rfl
  | cons c t ih =>
      have hchar : up.text (up.char c) = up.char c := by
        have hmap : ∀ l : Text, (∀ d ∈ l, up.char d = [d]) → l.flatMap up.char = l := by
          intro l hl
          induction l with
          | nil => rfl
          | cons d l ihl =>
              rw [List.flatMap_cons, hl d List.mem_cons_self,
                ihl fun e he => hl e (List.mem_cons_of_mem _ he)]
              rfl
        exact hmap _ (up.again c)
      rw [text_cons, text, List.flatMap_append]
      exact congrArg₂ (· ++ ·) hchar ih

theorem text_eq_nil_iff {t : Text} : up.text t = [] ↔ t = [] := by
  cases t with
  | nil => exact iff_of_true rfl rfl
  | cons c t => simp [text_cons, up.ne_nil c]

theorem fixed_quote : Fixed '"' := ⟨by decide, by decide, by decide⟩

theorem openAfter_text (inQuotes : Bool) (t : Text) :
    openAfter inQuotes (up.text t) = openAfter inQuotes t := by
  induction t generalizing inQuotes with
  | nil => rfl
  | cons c t ih =>
      have hchar : openAfter inQuotes (up.char c) = toggle inQuotes c := by
        by_cases hc : c = '"'
        · rw [hc, up.char_fixed fixed_quote]
          rfl
        · rw [openAfter_of_not_mem fun hmem => hc (up.eq_of_mem_char fixed_quote hmem),
            toggle_of_ne hc]
      rw [text_cons, openAfter_append, hchar, ih, openAfter_cons]

theorem bare_text
    (h : Fixed mark)
    {inQuotes : Bool} {t : Text}
    (hbare : Bare mark inQuotes t) :
    Bare mark inQuotes (up.text t) := by
  induction t generalizing inQuotes with
  | nil => trivial
  | cons c t ih =>
      have hchar : openAfter inQuotes (up.char c) = toggle inQuotes c := by
        simpa [text, openAfter] using up.openAfter_text inQuotes [c]
      rw [text_cons, bare_append, hchar]
      refine ⟨?_, ih hbare.2⟩
      by_cases hc : c = mark
      · rw [hc, up.char_fixed h]
        exact ⟨hc ▸ hbare.1, trivial⟩
      · exact bare_of_not_mem fun hmem => hc (up.eq_of_mem_char h hmem)

end Upper

/-- Upper case makes no white space. -/
theorem Stripped.text
    {up : Upper}
    {t : Text}
    (h : Stripped t) :
    Stripped (up.text t) := by
  have hmem : ∀ {d c}, isSpace d = false → c ∈ up.char d → isSpace c = false :=
    fun hd hc => up.unspaced _ hd _ hc
  constructor
  · intro c hc
    cases t with
    | nil => cases hc
    | cons d t =>
        rw [up.text_cons, List.head?_append_of_ne_nil _ (up.ne_nil d)] at hc
        exact hmem (h.1 d rfl) (List.mem_of_mem_head? hc)
  · intro c hc
    rcases List.eq_nil_or_concat' t with rfl | ⟨init, d, rfl⟩
    · cases hc
    · rw [Upper.text, List.flatMap_append, List.flatMap_singleton,
        List.getLast?_append_of_ne_nil _ (up.ne_nil d)] at hc
      exact hmem (h.2 d (by simp)) (List.mem_of_mem_getLast? hc)

/-! ## Sound properties -/

/-- No line is broken inside the text. -/
def Unbroken (t : Text) : Prop := '\n' ∉ t ∧ '\r' ∉ t

/-- A line does not go on another one. -/
def Unindented (line : Text) : Prop := ∀ c ∈ line.head?, c ≠ ' ' ∧ c ≠ '\t'

/-- A parameter as it was read. -/
def rawField (key value : Text) : Text :=
  if value = [] then key else key ++ '=' :: value

/-- A text between two separators. -/
structure Piece (t : Text) : Prop where
  closed : openAfter false t = false
  semicolon : Bare ';' false t
  colon : Bare ':' false t

/-- A parameter that can be read. -/
structure SoundParam (up : Upper) (key value : Text) : Prop where
  ne_nil : key ≠ []
  upper : up.text key = key
  equals : '=' ∉ key
  piece : Piece (rawField key value)
  unbroken : Unbroken key ∧ Unbroken value

def beginName : Text := "BEGIN".toList

def endName : Text := "END".toList

/-- A property that can be read inside a component. -/
structure Property.Sound (up : Upper) (p : Property) : Prop where
  upper : up.text p.name = p.name
  piece : Piece p.name
  ne_begin : p.name ≠ beginName
  ne_end : p.name ≠ endName
  unindented : Unindented p.name
  unbroken : Unbroken p.name ∧ Unbroken p.value
  params : ∀ param ∈ p.params.entries, SoundParam up param.1 param.2

/-! ## What is read is sound -/

section Reading

variable {up : Upper}

theorem fixed_semicolon : Fixed ';' := ⟨by decide, by decide, by decide⟩

theorem fixed_colon : Fixed ':' := ⟨by decide, by decide, by decide⟩

theorem fixed_equals : Fixed '=' := ⟨by decide, by decide, by decide⟩

theorem fixed_space : Fixed ' ' := ⟨by decide, by decide, by decide⟩

theorem fixed_tab : Fixed '\t' := ⟨by decide, by decide, by decide⟩

theorem fixed_lineFeed : Fixed '\n' := ⟨by decide, by decide, by decide⟩

theorem fixed_return : Fixed '\r' := ⟨by decide, by decide, by decide⟩

theorem Unbroken.text
    {t : Text}
    (h : Unbroken t) :
    Unbroken (up.text t) :=
  ⟨fun hmem => h.1 ((up.mem_text_iff fixed_lineFeed).1 hmem),
    fun hmem => h.2 ((up.mem_text_iff fixed_return).1 hmem)⟩

theorem Unindented.text
    {t : Text}
    (h : Unindented t) :
    Unindented (up.text t) := by
  cases t with
  | nil => exact fun c hc => absurd hc (Option.not_mem_none c)
  | cons d t =>
      obtain ⟨first, rest, hchar⟩ := List.exists_cons_of_ne_nil (up.ne_nil d)
      have hd := h d rfl
      have hmem : first ∈ up.char d := by
        rw [hchar]
        exact List.mem_cons_self
      intro c hc
      rw [up.text_cons, hchar] at hc
      have hfirst : first = c := Option.some.inj hc
      subst hfirst
      exact ⟨fun heq => hd.1 (up.eq_of_mem_char fixed_space (heq ▸ hmem)),
        fun heq => hd.2 (up.eq_of_mem_char fixed_tab (heq ▸ hmem))⟩

theorem Unbroken.mono
    {t part : Text}
    (h : Unbroken t)
    (hsubset : part ⊆ t) :
    Unbroken part :=
  ⟨fun hmem => h.1 (hsubset hmem), fun hmem => h.2 (hsubset hmem)⟩

theorem Piece.text
    {t : Text}
    (h : Piece t) :
    Piece (up.text t) where
  closed := by rw [up.openAfter_text, h.closed]
  semicolon := up.bare_text fixed_semicolon h.semicolon
  colon := up.bare_text fixed_colon h.colon

/-- A part is its key, or goes on behind an equals sign. -/
theorem partition_cases (part : Text) :
    '=' ∉ (partition part).1 ∧
      (part = (partition part).1 ∧ (partition part).2 = [] ∨
        part = (partition part).1 ++ '=' :: (partition part).2) := by
  have hsplit := List.takeWhile_append_dropWhile (p := fun c : Char => c != '=') (l := part)
  constructor
  · intro hmem
    have hne := List.mem_takeWhile_imp hmem
    simp at hne
  · cases hdrop : part.dropWhile (fun c : Char => c != '=') with
    | nil =>
        rw [hdrop, List.append_nil] at hsplit
        exact .inl ⟨hsplit.symm, by rw [partition, hdrop]; rfl⟩
    | cons c rest =>
        have hc : c = '=' := by
          have hhead := List.head?_dropWhile_not (fun c : Char => c != '=') part
          rw [hdrop] at hhead
          simpa using hhead
        rw [hdrop, hc] at hsplit
        exact .inr (by rw [partition, hdrop]; exact hsplit.symm)

theorem partition_rawField
    {key value : Text}
    (h : '=' ∉ key) :
    partition (rawField key value) = (key, value) := by
  have hkey : ∀ c ∈ key, (c != '=') = true := fun c hc =>
    bne_iff_ne.2 fun heq => h (heq ▸ hc)
  rw [rawField, partition]
  split
  · rename_i hvalue
    rw [List.takeWhile_eq_self_iff.2 hkey, List.dropWhile_eq_nil_iff.2 hkey, hvalue]
    rfl
  · rw [List.takeWhile_append_of_pos hkey, List.dropWhile_append_of_pos hkey]
    simp

/-- The part of a parameter, with its key in upper case. -/
theorem Piece.param
    {part : Text}
    (h : Piece part) :
    Piece (rawField (up.text (partition part).1) (partition part).2) := by
  rw [rawField]
  obtain ⟨-, ⟨heq, hvalue⟩ | heq⟩ := partition_cases part
  · rw [if_pos hvalue]
    exact (heq ▸ h).text
  · -- The key and what is behind it are scanned from the same flag as before.
    have hscan : ∀ mark, Fixed mark → Bare mark false part →
        Bare mark false (up.text (partition part).1 ++ '=' :: (partition part).2) := by
      intro mark hmark hbare
      rw [heq, bare_append] at hbare
      rw [bare_append, up.openAfter_text]
      exact ⟨up.bare_text hmark hbare.1, hbare.2⟩
    have hclosed := h.closed
    rw [heq, openAfter_append] at hclosed
    split
    · rename_i hvalue
      rw [hvalue, openAfter_cons, openAfter_nil, toggle_of_ne (by decide)] at hclosed
      refine ⟨by rw [up.openAfter_text, hclosed], ?_, ?_⟩
      · exact (bare_append.1 (hscan ';' fixed_semicolon h.semicolon)).1
      · exact (bare_append.1 (hscan ':' fixed_colon h.colon)).1
    · exact ⟨by rw [openAfter_append, up.openAfter_text, hclosed],
        hscan ';' fixed_semicolon h.semicolon, hscan ':' fixed_colon h.colon⟩

theorem SoundParam.of_part
    {part : Text}
    (h : Piece part)
    (hunbroken : Unbroken part)
    (hkey : (partition part).1 ≠ []) :
    SoundParam up (up.text (partition part).1) (partition part).2 where
  ne_nil := fun hnil => hkey ((up.text_eq_nil_iff).1 hnil)
  upper := up.text_text _
  equals := fun hmem => (partition_cases part).1 ((up.mem_text_iff fixed_equals).1 hmem)
  piece := h.param
  unbroken := by
    have hleft : (partition part).1 ⊆ part := List.takeWhile_subset _
    have hright : (partition part).2 ⊆ part := fun c hc =>
      (List.dropWhile_sublist _).subset (List.mem_of_mem_tail hc)
    exact ⟨(hunbroken.mono hleft).text, hunbroken.mono hright⟩

/-- Every parameter of the head was a part of it. -/
theorem soundParam_of_mem
    {parts : List Text} {params : Dict Text Text}
    (hparts : ∀ part ∈ parts, Piece part ∧ Unbroken part)
    (hparams : ∀ param ∈ params.entries, SoundParam up param.1 param.2) :
    ∀ param ∈ (parts.foldl (readParam up) params).entries, SoundParam up param.1 param.2 := by
  induction parts generalizing params with
  | nil => exact hparams
  | cons part parts ih =>
      refine ih (fun other hother => hparts other (List.mem_cons_of_mem _ hother)) ?_
      obtain ⟨hpiece, hunbroken⟩ := hparts part List.mem_cons_self
      rw [readParam]
      split
      · exact hparams
      · rename_i hkey
        intro param hparam
        rcases Dict.mem_entries_put hparam with rfl | hold
        · exact .of_part hpiece hunbroken hkey
        · exact hparams param hold

theorem unbroken_value
    {line : Text} {p : Property}
    (hunbroken : Unbroken line)
    (h : readLine up line = some p) :
    Unbroken p.value := by
  obtain ⟨⟨head, value⟩, hcut, rfl⟩ := Option.map_eq_some_iff.1 h
  obtain ⟨rfl, -⟩ := of_cut hcut
  exact hunbroken.mono fun c hc => List.mem_append_right _ (List.mem_cons_of_mem _ hc)

/-- A line that is not indented is read to a sound property, unless it opens or closes a
component. -/
theorem sound_readLine
    {line : Text} {p : Property}
    (hunbroken : Unbroken line)
    (hindent : Unindented line)
    (h : readLine up line = some p)
    (hbegin : p.name ≠ beginName)
    (hend : p.name ≠ endName) :
    p.Sound up := by
  obtain ⟨⟨head, value⟩, hcut, hp⟩ := Option.map_eq_some_iff.1 h
  obtain ⟨hline, hcolon, hclosed⟩ := of_cut hcut
  subst hline
  have hparts : ∀ part ∈ split ';' false head, Piece part ∧ Unbroken part := by
    intro part hpart
    obtain ⟨hpartClosed, hsemicolon, hpartColon⟩ :=
      piece_of_mem (by decide) hclosed hcolon hpart
    refine ⟨⟨hpartClosed, hsemicolon, hpartColon⟩, hunbroken.mono fun c hc => ?_⟩
    exact List.mem_append_left _ (subset_of_mem_split hpart hc)
  obtain ⟨first, rest, hsplit⟩ := List.exists_cons_of_ne_nil
    (split_ne_nil ';' false head)
  have hprop : p = ⟨up.text first, rest.foldl (readParam up) ⟨[], List.nodup_nil⟩, value⟩ := by
    rw [← hp]
    simp only [splitParams, hsplit, List.headD_cons, List.tail_cons]
  have hfirst := hparts first (hsplit ▸ List.mem_cons_self)
  have hunindented : Unindented first := by
    intro c hc
    apply hindent c
    rcases (split_cases (by decide) hsplit).2 with ⟨rfl, -⟩ | ⟨after, rfl, -⟩ <;>
      simp [List.head?_append, Option.mem_def.1 hc]
  subst hprop
  refine ⟨up.text_text first, hfirst.1.text, hbegin, hend, hunindented.text,
    ⟨hfirst.2.text, ?_⟩, ?_⟩
  · exact hunbroken.mono fun c hc => List.mem_append_right _ (List.mem_cons_of_mem _ hc)
  · refine soundParam_of_mem (fun part hpart => hparts part ?_) fun param hparam => ?_
    · exact hsplit ▸ List.mem_cons_of_mem _ hpart
    · cases hparam

end Reading

/-! ## Reading what was written -/

section Rereading

variable {up : Upper} {p : Property}

theorem paramField_of_plain
    {key value : Text}
    (h : isPlain value = true) :
    paramField key value = rawField key value := by
  rw [paramField, rawField, paramText, if_pos h]

theorem paramField_of_not_plain
    {key value : Text}
    (h : isPlain value = false) :
    paramField key value = (key ++ ['=', '"']) ++ (value ++ ['"']) := by
  have hvalue : value ≠ [] := by
    rintro rfl
    cases h
  rw [paramField, if_neg hvalue, paramText, h]
  simp

/-- Quotes around a value open no quotation. -/
theorem SoundParam.closed
    {key value : Text}
    (h : SoundParam up key value) :
    openAfter false (paramField key value) = false := by
  cases hplain : isPlain value with
  | true => rw [paramField_of_plain hplain, h.piece.closed]
  | false =>
      have hraw := h.piece.closed
      rw [rawField, if_neg (by rintro rfl; cases hplain), openAfter_append, openAfter_cons,
        toggle_of_ne (by decide)] at hraw
      rw [paramField_of_not_plain hplain, openAfter_append, openAfter_append, openAfter_append]
      have hquote : ∀ q, openAfter q ['"'] = !q := fun q => rfl
      have hopen : ∀ q, openAfter q ['=', '"'] = !q := fun q => rfl
      rw [hopen, openAfter_not, hquote, Bool.not_not, hraw]

/-- The parts of a head are its name and the parts of each parameter. -/
theorem split_headText
    {name : Text} {params : List (Text × Text)}
    (hname : openAfter false name = false)
    (hparams : ∀ param ∈ params, SoundParam up param.1 param.2) :
    split ';' false (headText name params) =
      split ';' false name ++ params.flatMap fun param =>
        split ';' false (paramField param.1 param.2) := by
  induction params generalizing name with
  | nil => simp [headText]
  | cons param params ih =>
      have hfield := (hparams param List.mem_cons_self).closed
      have hrest := ih hfield fun other hother => hparams other (List.mem_cons_of_mem _ hother)
      rw [headText, List.flatMap_cons, List.cons_append, split_append (by decide) hname,
        List.flatMap_cons, ← hrest]
      rfl

theorem closed_headText
    {name : Text} {params : List (Text × Text)}
    (hname : openAfter false name = false)
    (hparams : ∀ param ∈ params, SoundParam up param.1 param.2) :
    openAfter false (headText name params) = false := by
  induction params generalizing name with
  | nil => simpa [headText] using hname
  | cons param params ih =>
      have hfield := (hparams param List.mem_cons_self).closed
      have hrest := ih hfield fun other hother => hparams other (List.mem_cons_of_mem _ hother)
      rw [headText] at hrest ⊢
      rw [List.flatMap_cons, openAfter_append, hname, List.cons_append, openAfter_cons,
        toggle_of_ne (by decide)]
      exact hrest

/-- Without quotes of the writer, the head has no colon outside of quotes. -/
theorem bare_headText
    {name : Text} {params : List (Text × Text)}
    (hname : Piece name)
    (hparams : ∀ param ∈ params, SoundParam up param.1 param.2)
    (hplain : params.all (fun param => isPlain param.2) = true) :
    Bare ':' false (headText name params) := by
  induction params generalizing name with
  | nil => simpa [headText] using hname.colon
  | cons param params ih =>
      rw [List.all_cons, Bool.and_eq_true] at hplain
      have hfield : Piece (paramField param.1 param.2) :=
        paramField_of_plain hplain.1 ▸ (hparams param List.mem_cons_self).piece
      have hrest := ih hfield (fun other hother => hparams other (List.mem_cons_of_mem _ hother))
        hplain.2
      rw [headText] at hrest ⊢
      rw [List.flatMap_cons, bare_append, hname.closed]
      exact ⟨hname.colon, sees_of_ne (by decide), hrest⟩

/-- Parameters that are read in the order of a dictionary make it again. -/
theorem foldl_readParam_rawField
    {params : List (Text × Text)} {dict : Dict Text Text}
    (hparams : ∀ param ∈ params, SoundParam up param.1 param.2)
    (hnodup : ((dict.entries ++ params).map Prod.fst).Nodup) :
    ((params.map fun param => rawField param.1 param.2).foldl (readParam up) dict).entries =
      dict.entries ++ params := by
  induction params generalizing dict with
  | nil => simp
  | cons param params ih =>
      obtain ⟨key, value⟩ := param
      have hsound := hparams (key, value) List.mem_cons_self
      have hfresh : key ∉ dict.entries.map Prod.fst := by
        intro hmem
        rw [List.map_append, List.map_cons] at hnodup
        exact (List.nodup_append.1 hnodup).2.2 key hmem key List.mem_cons_self rfl
      have hput : (dict.put key value).entries = dict.entries ++ [(key, value)] :=
        if_neg hfresh
      have hread : readParam up dict (rawField key value) = dict.put key value := by
        rw [readParam, partition_rawField hsound.equals, if_neg hsound.ne_nil, hsound.upper]
      rw [List.map_cons, List.foldl_cons, hread, ih, hput, List.append_assoc]
      · rfl
      · exact fun other hother => hparams other (List.mem_cons_of_mem _ hother)
      · rw [hput, List.append_assoc]
        exact hnodup

/-- No part gives a key its value. -/
theorem get_foldl_readParam
    {parts : List Text} {dict : Dict Text Text} {key value : Text}
    (hdict : dict.get key ≠ some value)
    (hparts : ∀ part ∈ parts, (partition part).1 ≠ [] → up.text (partition part).1 = key →
      (partition part).2 ≠ value) :
    (parts.foldl (readParam up) dict).get key ≠ some value := by
  induction parts generalizing dict with
  | nil => exact hdict
  | cons part parts ih =>
      refine ih ?_ fun other hother => hparts other (List.mem_cons_of_mem _ hother)
      rw [readParam]
      split
      · exact hdict
      · rename_i hkey
        rw [Dict.get_put]
        split
        · rename_i heq
          intro h
          exact hparts part List.mem_cons_self hkey heq.symm (Option.some.inj h)
        · exact hdict

/-- What is read of a value in quotes starts with a quote under its own key, or is shorter than
the value by the semicolon and the key before it. -/
theorem part_of_not_plain
    {key value part : Text}
    (h : SoundParam up key value)
    (hplain : isPlain value = false)
    (hpart : part ∈ split ';' false (paramField key value)) :
    ((partition part).1 = key ∧ (partition part).2.head? = some '"') ∨
      (partition part).1 = [] ∨ (partition part).2 = [] ∨
        (partition part).2.length + 2 ≤ value.length := by
  have hraw := h.piece.semicolon
  rw [rawField, if_neg (by rintro rfl; cases hplain), bare_append] at hraw
  have hopening : Bare ';' false (key ++ ['=', '"']) :=
    bare_append.2 ⟨hraw.1, bare_of_not_mem (by decide)⟩
  obtain ⟨first, rest, hsplit⟩ := List.exists_cons_of_ne_nil
    (split_ne_nil ';' (openAfter false (key ++ ['=', '"'])) (value ++ ['"']))
  rw [paramField_of_not_plain hplain, split_append_of_bare hopening, hsplit,
    List.modifyHead_cons] at hpart
  rcases List.mem_cons.1 hpart with rfl | hrest
  · left
    have hfield : key ++ ['=', '"'] ++ first = rawField key ('"' :: first) := by
      rw [rawField, if_neg (List.cons_ne_nil _ _), List.append_assoc]
      rfl
    rw [hfield, partition_rawField h.equals]
    exact ⟨rfl, rfl⟩
  · right
    have htail : part ∈
        (split ';' (openAfter false (key ++ ['=', '"'])) (value ++ ['"'])).tail := by
      rw [hsplit]
      exact hrest
    have hmark : ';' ≠ '"' := by decide
    have hlength := length_lt_of_mem_tail hmark htail
    rw [List.length_append, List.length_singleton] at hlength
    rcases (partition_cases part).2 with ⟨-, hnil⟩ | heq
    · exact .inr (.inl hnil)
    · by_cases hkey : (partition part).1 = []
      · exact .inl hkey
      · have hpos := List.length_pos_of_ne_nil hkey
        have hsum := congrArg List.length heq
        rw [List.length_append, List.length_cons] at hsum
        exact .inr (.inr (by omega))

theorem ne_of_not_plain
    {value other : Text}
    (h : isPlain value = false)
    (hother : other.head? = some '"' ∨ other = []) :
    other ≠ value := by
  rintro rfl
  rcases hother with hquote | rfl
  · rw [isPlain, hquote] at h
    cases h
  · cases h

/-- Parameters that are written as they are make the same dictionary again. -/
theorem readParams_of_plain
    (hp : p.Sound up)
    (hplain : p.plainParams = true) :
    (p.params.entries.flatMap fun param =>
      split ';' false (paramField param.1 param.2)).foldl
        (readParam up) ⟨[], List.nodup_nil⟩ = p.params := by
  have hfields : (p.params.entries.flatMap fun param =>
      split ';' false (paramField param.1 param.2)) =
        p.params.entries.map fun param => rawField param.1 param.2 := by
    rw [List.map_eq_flatMap]
    refine List.flatMap_congr fun param hparam => ?_
    rw [paramField_of_plain (List.all_eq_true.1 hplain param hparam),
      split_of_bare (hp.params param hparam).piece.semicolon]
  let empty : Dict Text Text := ⟨[], List.nodup_nil⟩
  have hnodup : ((empty.entries ++ p.params.entries).map Prod.fst).Nodup := p.params.nodup
  have hentries := foldl_readParam_rawField hp.params hnodup
  rw [hfields]
  exact Dict.ext_entries hentries

/-- The longest value that had to be put in quotes is not read again. -/
theorem get_split_headText
    (hp : p.Sound up)
    {key value : Text}
    (hplain : isPlain value = false)
    (hlongest : ∀ param ∈ p.params.entries, isPlain param.2 = false →
      param.2.length ≤ value.length) :
    (((p.params.entries.flatMap fun param =>
      split ';' false (paramField param.1 param.2)).foldl
        (readParam up) ⟨[], List.nodup_nil⟩).get key ≠ some value) := by
  refine get_foldl_readParam (by rintro ⟨⟩) ?_
  intro part hpart hkey hupper
  obtain ⟨param, hparam, hpart⟩ := List.mem_flatMap.1 hpart
  have hsound := hp.params param hparam
  cases hother : isPlain param.2 with
  | true =>
      rw [paramField_of_plain hother, split_of_bare hsound.piece.semicolon,
        List.mem_singleton] at hpart
      rw [hpart, partition_rawField hsound.equals]
      intro heq
      rw [← heq, hother] at hplain
      cases hplain
  | false =>
      rcases part_of_not_plain hsound hother hpart with ⟨-, hquote⟩ | hnil | hnil | hlength
      · exact ne_of_not_plain hplain (.inl hquote)
      · exact absurd hnil hkey
      · exact ne_of_not_plain hplain (.inr hnil)
      · intro heq
        have hle := hlongest param hparam hother
        rw [heq] at hlength
        omega

theorem exists_longest
    (h : p.plainParams = false) :
    ∃ key value, (key, value) ∈ p.params.entries ∧ isPlain value = false ∧
      ∀ param ∈ p.params.entries, isPlain param.2 = false → param.2.length ≤ value.length := by
  let quoted := p.params.entries.filter fun param => !isPlain param.2
  obtain ⟨param, hparam, hplain⟩ : ∃ param ∈ p.params.entries, isPlain param.2 = false := by
    rw [Property.plainParams, List.all_eq_false] at h
    obtain ⟨param, hparam, hplain⟩ := h
    exact ⟨param, hparam, Bool.eq_false_iff.2 hplain⟩
  have hquoted : ∀ other, other ∈ quoted ↔ other ∈ p.params.entries ∧ isPlain other.2 = false := by
    intro other
    rw [List.mem_filter, Bool.not_eq_true']
  have hne : quoted ≠ [] := List.ne_nil_of_mem ((hquoted param).2 ⟨hparam, hplain⟩)
  obtain ⟨longest, hlongest⟩ := Option.ne_none_iff_exists'.1
    (fun h => hne (List.argmax_eq_none.1 h) :
      quoted.argmax (fun other => other.2.length) ≠ none)
  have hmem := (hquoted longest).1 (List.argmax_mem hlongest)
  refine ⟨longest.1, longest.2, hmem.1, hmem.2, fun other hother hotherPlain => ?_⟩
  have hle := List.le_of_mem_argmax (f := fun other => other.2.length)
    ((hquoted other).2 ⟨hother, hotherPlain⟩) hlongest
  exact hle

/-- What is cut off the line is the name, or goes on behind it with a semicolon. -/
theorem head_of_cut
    (hp : p.Sound up)
    {head value : Text}
    (hcut : cut ':' false p.line = some (head, value)) :
    head = p.name ∨ ∃ rest, head = p.name ++ ';' :: rest := by
  have hmark : ':' ≠ '"' := by decide
  cases hentries : p.params.entries with
  | nil =>
      rw [Property.line, hentries, headText, List.flatMap_nil, List.append_nil,
        cut_append hmark hp.piece.colon hp.piece.closed] at hcut
      cases hcut
      exact .inl rfl
  | cons param params =>
      have hname : Bare ':' false (p.name ++ [';']) :=
        bare_append.2 ⟨hp.piece.colon, bare_of_not_mem (by decide)⟩
      have hline : p.line = (p.name ++ [';']) ++ (paramField param.1 param.2 ++
          ((params.flatMap fun other => ';' :: paramField other.1 other.2) ++ ':' :: p.value)) := by
        simp [Property.line, hentries, headText]
      rw [hline, cut_append_of_bare hname] at hcut
      obtain ⟨⟨rest, _⟩, -, heq⟩ := Option.map_eq_some_iff.1 hcut
      cases heq
      exact .inr ⟨rest, by simp⟩

/-- The line of a sound property is read under its name, and to the property itself exactly if no
value had to be put in quotes. -/
theorem readLine_line
    (hp : p.Sound up) :
    ∃ q, readLine up p.line = some q ∧ q.name = p.name ∧ (q = p ↔ p.plainParams = true) := by
  have hmark : ':' ≠ '"' := by decide
  have hclosed := closed_headText hp.piece.closed hp.params
  obtain ⟨head, value, hcut, hcases⟩ : ∃ head value,
      cut ':' false p.line = some (head, value) ∧
        (Bare ':' false (headText p.name p.params.entries) ∧
            head = headText p.name p.params.entries ∧ value = p.value ∨
          ¬Bare ':' false (headText p.name p.params.entries) ∧ p.value.length < value.length) :=
    cut_isSome_of_closed hmark hclosed
  have hsplitName : split ';' false p.name = [p.name] := split_of_bare hp.piece.semicolon
  refine ⟨⟨(splitParams up head).1, (splitParams up head).2, value⟩, ?_, ?_, ?_⟩
  · rw [readLine, splitNameValue, hcut]
    rfl
  · have hfirst : (split ';' false head).headD [] = p.name := by
      rcases head_of_cut hp hcut with rfl | ⟨rest, rfl⟩
      · rw [hsplitName]
        rfl
      · rw [split_append (by decide) hp.piece.closed, hsplitName]
        rfl
    rw [splitParams, hfirst, hp.upper]
  · cases hplain : p.plainParams with
    | true =>
        obtain ⟨-, rfl, rfl⟩ | ⟨hbare, -⟩ := hcases
        · refine iff_of_true ?_ rfl
          have hparams := readParams_of_plain hp hplain
          rw [splitParams, split_headText hp.piece.closed hp.params, hsplitName,
            List.singleton_append, List.headD_cons, List.tail_cons, hp.upper, hparams]
        · exact absurd (bare_headText hp.piece hp.params hplain) hbare
    | false =>
        refine iff_of_false (fun heq => ?_) Bool.false_ne_true
        obtain ⟨-, rfl, -⟩ | ⟨-, hlength⟩ := hcases
        · obtain ⟨key, longest, hmem, hquoted, hlongest⟩ := exists_longest hplain
          have hparams := congrArg Property.params heq
          simp only [splitParams, split_headText hp.piece.closed hp.params, hsplitName,
            List.singleton_append, List.tail_cons] at hparams
          have hget : p.params.get key = some longest :=
            Dict.get_of_mem hmem
          rw [← hparams] at hget
          exact get_split_headText hp hquoted hlongest hget
        · have hvalue : value = p.value := congrArg Property.value heq
          exact absurd hlength (by rw [hvalue]; exact Nat.lt_irrefl _)

end Rereading

end EmailClient
end Vesta
