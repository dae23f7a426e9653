import Vesta.Vestad.Docker.Names
import Mathlib.Data.List.Chain

/-!
# What normalization makes of a name

A normalized name is empty or *tidy*: a name the validator accepts, with no two
hyphens in a row.  The tidy names are the fixed points of the normalization.
The validator states the grammar again and leaves the last condition out, so a
name with a run of hyphens is valid, and normalization changes it into the name
of another agent.
-/

namespace Vesta
namespace Vestad

/-- No two hyphens in a row. -/
def NoHyphenRun (cs : List Char) : Prop :=
  cs.IsChain fun a b => a = '-' → b ≠ '-'

instance (cs : List Char) : Decidable (NoHyphenRun cs) :=
  inferInstanceAs (Decidable (cs.IsChain fun a b => a = '-' → b ≠ '-'))

/-- The characters of a name without hyphens at the edges or in a row. -/
structure Tidy (cs : List Char) : Prop where
  chars : ∀ c ∈ cs, isNameChar c = true
  first : cs.head? ≠ some '-'
  last : cs.getLast? ≠ some '-'
  runs : NoHyphenRun cs

/-! ## Characters -/

theorem isNameChar_iff {c : Char} :
    isNameChar c = true ↔
      97 ≤ c.toNat ∧ c.toNat ≤ 122 ∨ 48 ≤ c.toNat ∧ c.toNat ≤ 57 ∨ c.toNat = 45 := by
  have heq : c = '-' ↔ c.toNat = 45 :=
    ⟨fun h => by rw [h]; rfl, fun h => Char.toNat_inj.1 h⟩
  simp only [isNameChar, isAsciiLowercase, isAsciiDigit, Bool.or_eq_true, Bool.and_eq_true,
    decide_eq_true_eq, beq_iff_eq, heq, or_assoc]
  exact Iff.rfl

theorem isEdgeChar_of_isNameChar
    {c : Char}
    (h : isNameChar c = true) :
    isEdgeChar c = true ↔ c ≠ '-' := by
  have hhyphen : isEdgeChar '-' = false := by decide
  constructor
  · rintro hedge rfl
    simp [hhyphen] at hedge
  · intro hne
    simpa [isNameChar, isEdgeChar, hne] using h

theorem not_isWhitespace_of_isNameChar
    {c : Char}
    (h : isNameChar c = true) :
    isWhitespace c = false := by
  rw [isNameChar_iff] at h
  rw [Bool.eq_false_iff]
  intro hspace
  simp only [isWhitespace, Bool.or_eq_true, Bool.and_eq_true, decide_eq_true_eq,
    beq_iff_eq] at hspace
  omega

theorem ne_underscore_of_isNameChar
    {c : Char}
    (h : isNameChar c = true) :
    c ≠ '_' := by
  rintro rfl
  exact absurd h (by decide)

theorem toLowercase_of_isNameChar
    {c : Char}
    (h : isNameChar c = true) :
    toLowercase c = [c] := by
  rw [isNameChar_iff] at h
  have hlower : c.toLower = c := by
    have hnot : ¬ (65 ≤ c.toNat ∧ c.toNat ≤ 90) := by omega
    exact dif_neg fun hupper => hnot hupper
  rw [toLowercase, if_neg (by omega), if_neg (by omega), hlower]

/-! ## The steps of the normalization -/

section Trim

variable {p : Char → Bool} {cs : List Char}

theorem mem_of_mem_trimEndMatches
    {c : Char}
    (h : c ∈ trimEndMatches p cs) :
    c ∈ cs := by
  rw [trimEndMatches, List.mem_reverse] at h
  exact List.mem_reverse.1 ((List.dropWhile_sublist p).mem h)

theorem mem_of_mem_trimMatches
    {c : Char}
    (h : c ∈ trimMatches p cs) :
    c ∈ cs :=
  (List.dropWhile_sublist p).mem (mem_of_mem_trimEndMatches h)

/-- Trimming at the end leaves a prefix. -/
theorem trimEndMatches_initial (p : Char → Bool) (cs : List Char) : trimEndMatches p cs <+: cs := by
  have h := List.dropWhile_suffix (l := cs.reverse) p
  have hprefix := List.reverse_prefix.2 h
  rwa [List.reverse_reverse] at hprefix

theorem getLast?_trimEndMatches
    {c : Char}
    (h : (trimEndMatches p cs).getLast? = some c) :
    p c = false := by
  rw [trimEndMatches, List.getLast?_reverse] at h
  have hnot := List.head?_dropWhile_not p cs.reverse
  rw [h] at hnot
  exact hnot

theorem head?_trimMatches
    {c : Char}
    (h : (trimMatches p cs).head? = some c) :
    p c = false := by
  have hnot := List.head?_dropWhile_not p cs
  obtain ⟨rest, hrest⟩ := trimEndMatches_initial p (cs.dropWhile p)
  rw [trimMatches] at h
  rw [← hrest, List.head?_append, h] at hnot
  exact hnot

theorem trimEndMatches_eq_self
    (h : ∀ c, cs.getLast? = some c → p c = false) :
    trimEndMatches p cs = cs := by
  rw [trimEndMatches]
  cases hreverse : cs.reverse with
  | nil =>
      rw [List.reverse_eq_nil_iff.1 hreverse]
      rfl
  | cons c rest =>
      have hlast : cs.getLast? = some c := by
        rw [← List.head?_reverse, hreverse]
        rfl
      rw [List.dropWhile_cons_of_neg (by simp [h c hlast]), ← hreverse, List.reverse_reverse]

theorem trimMatches_eq_self
    (hfirst : ∀ c, cs.head? = some c → p c = false)
    (hlast : ∀ c, cs.getLast? = some c → p c = false) :
    trimMatches p cs = cs := by
  have hdrop : cs.dropWhile p = cs := by
    cases cs with
    | nil => rfl
    | cons c rest => rw [List.dropWhile_cons_of_neg (by simp [hfirst c rfl])]
  rw [trimMatches, hdrop, trimEndMatches_eq_self hlast]

end Trim

section Collapse

variable {cs : List Char} {prev : Bool}

theorem mem_of_mem_collapseHyphens
    {c : Char}
    (h : c ∈ collapseHyphens prev cs) :
    c ∈ cs := by
  induction cs generalizing prev with
  | nil => exact h
  | cons d ds ih =>
      rw [collapseHyphens] at h
      split at h
      · split at h
        · exact List.mem_cons_of_mem _ (ih h)
        · rcases List.mem_cons.1 h with heq | h
          · exact heq ▸ List.mem_cons_self
          · exact List.mem_cons_of_mem _ (ih h)
      · rcases List.mem_cons.1 h with heq | h
        · exact heq ▸ List.mem_cons_self
        · exact List.mem_cons_of_mem _ (ih h)

/-- After a hyphen, what is left of the rest does not start with one. -/
theorem head?_collapseHyphens_true : (collapseHyphens true cs).head? ≠ some '-' := by
  induction cs with
  | nil => simp [collapseHyphens]
  | cons d ds ih =>
      rw [collapseHyphens]
      split
      · exact ih
      · rename_i hne
        simpa using hne

theorem head?_collapseHyphens_false : (collapseHyphens false cs).head? = cs.head? := by
  cases cs with
  | nil => rfl
  | cons d ds =>
      rw [collapseHyphens]
      split <;> rfl

/-- In front of a chain goes any character that may stand before its head. -/
theorem NoHyphenRun.cons
    {c : Char}
    (hcs : NoHyphenRun cs)
    (hhead : c = '-' → cs.head? ≠ some '-') :
    NoHyphenRun (c :: cs) := by
  refine List.isChain_cons.2 ⟨?_, hcs⟩
  rintro d hd hc rfl
  exact hhead hc hd

theorem noHyphenRun_collapseHyphens : NoHyphenRun (collapseHyphens prev cs) := by
  induction cs generalizing prev with
  | nil => exact List.IsChain.nil
  | cons d ds ih =>
      rw [collapseHyphens]
      split
      · split
        · exact ih
        · exact ih.cons fun _ => head?_collapseHyphens_true
      · rename_i hne
        exact ih.cons fun heq => absurd heq hne

/-- A list without runs is kept, also behind a hyphen unless it starts with one. -/
theorem collapseHyphens_eq_self
    (hcs : NoHyphenRun cs)
    (hhead : prev = true → cs.head? ≠ some '-') :
    collapseHyphens prev cs = cs := by
  induction cs generalizing prev with
  | nil => rfl
  | cons d ds ih =>
      obtain ⟨hnext, hds⟩ := List.isChain_cons.1 hcs
      rw [collapseHyphens]
      split
      · rename_i heq
        subst heq
        have hprev : prev = false := by
          rw [Bool.eq_false_iff]
          intro hprev
          exact hhead hprev rfl
        have hrest : collapseHyphens true ds = ds :=
          ih hds fun _ hd => hnext '-' hd rfl rfl
        rw [hprev, if_neg Bool.false_ne_true, hrest]
      · rw [ih hds (by simp)]

/-- The last character stays unless it is a hyphen. -/
theorem getLast?_collapseHyphens
    (h : cs.getLast? ≠ some '-') :
    (collapseHyphens prev cs).getLast? = cs.getLast? := by
  induction cs generalizing prev with
  | nil => rfl
  | cons d ds ih =>
      cases ds with
      | nil =>
          have hne : d ≠ '-' := by simpa using h
          simp [collapseHyphens, hne]
      | cons e es =>
          have hlast : (e :: es).getLast? ≠ some '-' := by simpa using h
          have hkept := fun prev => @ih prev hlast
          have hcons (prev' : Bool) :
              (d :: collapseHyphens prev' (e :: es)).getLast? = (e :: es).getLast? := by
            rw [List.getLast?_cons, hkept prev']
            simp [List.getLast?_cons]
          rw [collapseHyphens, List.getLast?_cons_cons]
          split
          · split
            · exact hkept true
            · exact hcons true
          · exact hcons false

end Collapse

/-! ## Tidy names -/

section Tidy

variable {cs : List Char}

/-- The characters of the name between the trimming at the start and the cut. -/
def tidied (raw : String) : List Char :=
  let s := ((trimMatches isWhitespace raw.toList).flatMap toLowercase).map
    fun c => if isWhitespace c || c == '_' then '-' else c
  collapseHyphens false (trimMatches (· == '-') (s.filter isNameChar))

theorem toList_normalizeName
    (raw : String) :
    (normalizeName raw).toList =
      if (tidied raw).length > nameMaxLen then
        trimEndMatches (· == '-') ((tidied raw).take nameMaxLen)
      else
        tidied raw := by
  rw [normalizeName, String.toList_ofList]
  rfl

theorem tidied_tidy (raw : String) : Tidy (tidied raw) := by
  rw [tidied]
  set s := (((trimMatches isWhitespace raw.toList).flatMap toLowercase).map
    fun c => if isWhitespace c || c == '_' then '-' else c).filter isNameChar with hs
  have hfirst : (trimMatches (· == '-') s).head? ≠ some '-' := by
    intro h
    simpa using head?_trimMatches h
  have hlast : (trimMatches (· == '-') s).getLast? ≠ some '-' := by
    intro h
    simpa using getLast?_trimEndMatches h
  constructor
  · intro c hc
    exact (List.mem_filter.1 (mem_of_mem_trimMatches (mem_of_mem_collapseHyphens hc))).2
  · rw [head?_collapseHyphens_false]
    exact hfirst
  · rw [getLast?_collapseHyphens hlast]
    exact hlast
  · exact noHyphenRun_collapseHyphens

/-- A cut of a tidy name is tidy once the hyphens at its end are gone. -/
theorem Tidy.cut
    (h : Tidy cs)
    (n : Nat) :
    Tidy (trimEndMatches (· == '-') (cs.take n)) := by
  have hprefix : trimEndMatches (· == '-') (cs.take n) <+: cs :=
    (trimEndMatches_initial _ _).trans (List.take_prefix n cs)
  obtain ⟨rest, hrest⟩ := hprefix
  constructor
  · intro c hc
    exact h.chars c (hrest ▸ List.mem_append_left rest hc)
  · intro hhead
    apply h.first
    rw [← hrest, List.head?_append, hhead]
    rfl
  · intro hlast
    simpa using getLast?_trimEndMatches hlast
  · have hruns := h.runs
    rw [← hrest] at hruns
    exact (List.isChain_append.1 hruns).1

theorem normalizeName_tidy (raw : String) : Tidy (normalizeName raw).toList := by
  rw [toList_normalizeName]
  split
  · exact (tidied_tidy raw).cut nameMaxLen
  · exact tidied_tidy raw

theorem length_normalizeName_le (raw : String) :
    (normalizeName raw).toList.length ≤ nameMaxLen := by
  rw [toList_normalizeName]
  split
  · have hprefix := trimEndMatches_initial (· == '-') ((tidied raw).take nameMaxLen)
    exact hprefix.length_le.trans (List.length_take_le nameMaxLen (tidied raw))
  · omega

/-- On the characters of names, every step before the collapse is the identity. -/
theorem tidied_of_isNameChar
    {name : String}
    (hchars : ∀ c ∈ name.toList, isNameChar c = true)
    (hfirst : name.toList.head? ≠ some '-')
    (hlast : name.toList.getLast? ≠ some '-') :
    tidied name = collapseHyphens false name.toList := by
  have htrim : trimMatches isWhitespace name.toList = name.toList := by
    apply trimMatches_eq_self
    · intro c hc
      exact not_isWhitespace_of_isNameChar (hchars c (List.mem_of_head? hc))
    · intro c hc
      exact not_isWhitespace_of_isNameChar (hchars c (List.mem_of_getLast? hc))
  have hlower : name.toList.flatMap toLowercase = name.toList := by
    calc name.toList.flatMap toLowercase
        = name.toList.flatMap fun c => [c] :=
          List.flatMap_congr fun c hc => toLowercase_of_isNameChar (hchars c hc)
      _ = name.toList := by simp
  have hmap :
      (name.toList.map fun c => if isWhitespace c || c == '_' then '-' else c) =
        name.toList := by
    calc (name.toList.map fun c => if isWhitespace c || c == '_' then '-' else c)
        = name.toList.map id := by
          apply List.map_congr_left
          intro c hc
          simp [not_isWhitespace_of_isNameChar (hchars c hc),
            ne_underscore_of_isNameChar (hchars c hc)]
      _ = name.toList := List.map_id _
  have hfilter : name.toList.filter isNameChar = name.toList :=
    List.filter_eq_self.2 hchars
  have hhyphens : trimMatches (· == '-') name.toList = name.toList := by
    apply trimMatches_eq_self
    · intro c hc
      have hne : c ≠ '-' := fun heq => hfirst (heq ▸ hc)
      simpa using hne
    · intro c hc
      have hne : c ≠ '-' := fun heq => hlast (heq ▸ hc)
      simpa using hne
  rw [tidied]
  simp only [htrim, hlower, hmap, hfilter, hhyphens]

/-! ## The validator -/

theorem utf8ByteSize_of_isNameChar
    {name : String}
    (hchars : ∀ c ∈ name.toList, isNameChar c = true) :
    name.utf8ByteSize = name.toList.length := by
  have hsum (cs : List Char) (h : ∀ c ∈ cs, isNameChar c = true) :
      (String.ofList cs).utf8ByteSize = cs.length := by
    induction cs with
    | nil => rfl
    | cons c rest ih =>
        have hsize : c.utf8Size = 1 := by
          have hc := h c List.mem_cons_self
          rw [isNameChar_iff] at hc
          rw [Char.utf8Size_eq_one_iff]
          show c.toNat ≤ 127
          omega
        rw [String.ofList_cons, String.utf8ByteSize_append, String.utf8ByteSize_singleton, hsize,
          ih fun d hd => h d (List.mem_cons_of_mem c hd), List.length_cons, Nat.add_comm]
  simpa using hsum name.toList hchars

/-- What the validator accepts. -/
structure Accepted (cs : List Char) : Prop where
  nonempty : cs ≠ []
  short : cs.length ≤ nameMaxLen
  chars : ∀ c ∈ cs, isNameChar c = true
  first : cs.head? ≠ some '-'
  last : cs.getLast? ≠ some '-'

theorem all_isEdgeChar_iff
    {o : Option Char}
    (h : ∀ c, o = some c → isNameChar c = true) :
    o.all isEdgeChar = true ↔ o ≠ some '-' := by
  cases o with
  | none => simp
  | some c => simpa using isEdgeChar_of_isNameChar (h c rfl)

theorem validateName_ok_iff
    {name : String} :
    validateName name = .ok () ↔ Accepted name.toList := by
  have hedges (hchars : ∀ c ∈ name.toList, isNameChar c = true) :
      (name.toList.head?.all isEdgeChar = true ↔ name.toList.head? ≠ some '-') ∧
        (name.toList.getLast?.all isEdgeChar = true ↔ name.toList.getLast? ≠ some '-') :=
    ⟨all_isEdgeChar_iff fun c hc => hchars c (List.mem_of_head? hc),
      all_isEdgeChar_iff fun c hc => hchars c (List.mem_of_getLast? hc)⟩
  constructor
  · intro h
    rw [validateName] at h
    split at h
    · cases h
    · rename_i hlen
      split at h
      · rename_i hall
        simp only [Bool.and_eq_true, List.all_eq_true] at hall
        obtain ⟨⟨hchars, hfirst⟩, hlast⟩ := hall
        push Not at hlen
        rw [utf8ByteSize_of_isNameChar hchars] at hlen
        exact {
          nonempty := fun hnil => hlen.1 (String.toList_eq_nil_iff.1 hnil)
          short := hlen.2
          chars := hchars
          first := (hedges hchars).1.1 hfirst
          last := (hedges hchars).2.1 hlast }
      · cases h
  · intro h
    have hlen : ¬ (name = "" ∨ nameMaxLen < name.utf8ByteSize) := by
      rw [utf8ByteSize_of_isNameChar h.chars]
      rintro (hempty | hlong)
      · exact h.nonempty (String.toList_eq_nil_iff.2 hempty)
      · have := h.short
        omega
    have hall : name.toList.all isNameChar = true := List.all_eq_true.2 h.chars
    rw [validateName, if_neg hlen, hall, (hedges h.chars).1.2 h.first,
      (hedges h.chars).2.2 h.last]
    rfl

/-- The accepted names that normalization keeps are those without a run of hyphens. -/
theorem normalizeName_eq_self_iff
    {name : String}
    (h : validateName name = .ok ()) :
    normalizeName name = name ↔ NoHyphenRun name.toList := by
  have haccepted := validateName_ok_iff.1 h
  constructor
  · intro heq
    rw [← heq]
    exact (normalizeName_tidy name).runs
  · intro hruns
    have htidied : tidied name = name.toList := by
      rw [tidied_of_isNameChar haccepted.chars haccepted.first haccepted.last]
      exact collapseHyphens_eq_self hruns (by simp)
    apply String.toList_inj.1
    rw [toList_normalizeName, htidied, if_neg (by have := haccepted.short; omega)]

theorem normalizeName_empty_or_valid
    (raw : String) :
    normalizeName raw = "" ∨ validateName (normalizeName raw) = .ok () := by
  by_cases hempty : normalizeName raw = ""
  · exact .inl hempty
  · have htidy := normalizeName_tidy raw
    refine .inr (validateName_ok_iff.2 ?_)
    exact {
      nonempty := fun hnil => hempty (String.toList_eq_nil_iff.1 hnil)
      short := length_normalizeName_le raw
      chars := htidy.chars
      first := htidy.first
      last := htidy.last }

theorem normalizeName_idem
    (raw : String) :
    normalizeName (normalizeName raw) = normalizeName raw := by
  rcases normalizeName_empty_or_valid raw with hempty | hvalid
  · rw [hempty]
    rfl
  · exact (normalizeName_eq_self_iff hvalid).2 (normalizeName_tidy raw).runs

/-! ## The wait for a new agent -/

/-- `wait_for_agent_listed` returns on a roster with an entry whose normalized name is
`name`. -/
def agentListed (roster : List String) (name : String) : Bool :=
  roster.any fun entry => normalizeName entry == name

theorem agentListed_iff
    {roster : List String}
    {name : String} :
    agentListed roster name = true ↔ ∃ entry ∈ roster, normalizeName entry = name := by
  simp [agentListed]

/-- A valid name ends the wait for itself only as a fixed point of the normalization. -/
theorem agentListed_exact_iff
    {roster : List String}
    (hroster : ∀ entry ∈ roster, validateName entry = .ok ()) :
    (∀ name, validateName name = .ok () →
        (agentListed roster name = true ↔ name ∈ roster)) ↔
      ∀ entry ∈ roster, NoHyphenRun entry.toList := by
  constructor
  · intro h entry hentry
    have hlisted := (h entry (hroster entry hentry)).2 hentry
    obtain ⟨other, -, heq⟩ := agentListed_iff.1 hlisted
    rw [← heq]
    exact (normalizeName_tidy other).runs
  · intro hruns name _
    rw [agentListed_iff]
    constructor
    · rintro ⟨entry, hentry, heq⟩
      rw [(normalizeName_eq_self_iff (hroster entry hentry)).2 (hruns entry hentry)] at heq
      exact heq ▸ hentry
    · intro hname
      exact ⟨name, hname,
        (normalizeName_eq_self_iff (hroster name hname)).2 (hruns name hname)⟩

/-- Normalization gives nothing or a valid name and is idempotent.  A valid name is kept by
it if and only if no two hyphens are in a row in it, and the wait finds in a roster exactly
the agents of the roster if and only if that is so of each of them. -/
theorem normalizeName_spec
    (raw name : String)
    (roster : List String) :
    (normalizeName raw = "" ∨ validateName (normalizeName raw) = .ok ()) ∧
      normalizeName (normalizeName raw) = normalizeName raw ∧
      (validateName name = .ok () →
        (normalizeName name = name ↔ NoHyphenRun name.toList)) ∧
      ((∀ entry ∈ roster, validateName entry = .ok ()) →
        ((∀ name, validateName name = .ok () →
            (agentListed roster name = true ↔ name ∈ roster)) ↔
          ∀ entry ∈ roster, NoHyphenRun entry.toList)) :=
  ⟨normalizeName_empty_or_valid raw, normalizeName_idem raw,
    fun h => normalizeName_eq_self_iff h, fun h => agentListed_exact_iff h⟩

/-- `a--b` is a valid name, it is no fixed point, and it ends the wait for the agent `a-b`. -/
theorem hyphen_run_listed_as_other :
    validateName "a--b" = .ok () ∧ normalizeName "a--b" = "a-b" ∧
      validateName "a-b" = .ok () ∧ agentListed ["a--b"] "a-b" = true := by
  decide

end Tidy

end Vestad
end Vesta
