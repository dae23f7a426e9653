import Vesta.EmailClient.FastForward
import Mathlib.Data.Set.Card

/-!
# Recurrence set and expansion

The recurrence set of an event holds the candidates of every period, and the start of the
event where there are any.  What an expansion lists of its window is this set, cut at the
horizon, the end of the rule and its count, unless the window is full.
-/

namespace Vesta
namespace EmailClient

section Collect

variable {tz : TzInfo} {floorUtc horizonUtc : Int} {count untilUtc lastBefore : Option Int}
  {generated : Nat} {starts out : List Int} {item : Option Int} {items : List (Option Int)}

/-- A start at which the scan ends. -/
def Stops (tz : TzInfo) (horizonUtc : Int) (untilUtc : Option Int) (start : Int) : Prop :=
  horizonUtc ≤ tz.asUtc start ∨ ∃ last ∈ untilUtc, last < tz.asUtc start

/-- The count of a rule is used up. -/
def Spent (count : Option Int) (generated : Nat) : Prop := ∃ limit ∈ count, limit ≤ generated

/-- A later start is later on the clocks of UTC, or at the same time. -/
def Rises (tz : TzInfo) (item later : Option Int) : Prop :=
  ∀ start ∈ item, ∀ other ∈ later, start < other ∧ tz.asUtc start ≤ tz.asUtc other

theorem stops_of_rises
    {start later : Int}
    (hrises : Rises tz (some start) (some later))
    (h : Stops tz horizonUtc untilUtc start) :
    Stops tz horizonUtc untilUtc later := by
  obtain ⟨-, hle⟩ := hrises start rfl later rfl
  rcases h with hhorizon | ⟨last, hlast, hlt⟩
  · exact Or.inl (Int.le_trans hhorizon hle)
  · exact Or.inr ⟨last, hlast, Int.lt_of_lt_of_le hlt hle⟩

/-- The scan of no more starts. -/
theorem collectStarts_nil
    (h : collectStarts tz floorUtc horizonUtc count untilUtc generated lastBefore starts [] =
      .ok (some out)) :
    Spent count generated ∧ out = lastBefore.toList ++ starts := by
  rw [collectStarts] at h
  split at h
  · cases h
  · rename_i hspent
    cases h
    cases count with
    | none => exact absurd rfl hspent
    | some limit => exact ⟨⟨limit, rfl, by simpa using hspent⟩, rfl⟩

/-- What the scan does at one start. -/
theorem collectStarts_cons
    (h : collectStarts tz floorUtc horizonUtc count untilUtc generated lastBefore starts
      (item :: items) = .ok (some out)) :
    ∃ start, item = some start ∧
      ((Stops tz horizonUtc untilUtc start ∨ Spent count generated) ∧
          out = lastBefore.toList ++ starts ∨
        ¬Stops tz horizonUtc untilUtc start ∧ ¬Spent count generated ∧
          (tz.asUtc start < floorUtc ∧
              collectStarts tz floorUtc horizonUtc count untilUtc (generated + 1) (some start)
                starts items = .ok (some out) ∨
            floorUtc ≤ tz.asUtc start ∧ maxOccurrences ≤ (starts ++ [start]).length ∧
              out = lastBefore.toList ++ (starts ++ [start]) ∨
            floorUtc ≤ tz.asUtc start ∧
              collectStarts tz floorUtc horizonUtc count untilUtc (generated + 1) lastBefore
                (starts ++ [start]) items = .ok (some out))) := by
  cases item with
  | none =>
      rw [collectStarts] at h
      cases h
  | some start =>
      refine ⟨start, rfl, ?_⟩
      rw [collectStarts] at h
      have huntil : untilUtc.any (· < tz.asUtc start) = true ↔
          ∃ last ∈ untilUtc, last < tz.asUtc start := by
        cases untilUtc <;> simp
      have hcount : (count.any fun limit => limit < (generated + 1 : Int)) = true ↔
          Spent count generated := by
        cases count <;> simp [Spent, Int.lt_add_one_iff]
      split at h
      · rename_i hlast
        cases h
        exact Or.inl ⟨Or.inl (Or.inr (huntil.1 hlast)), rfl⟩
      · rename_i hlast
        split at h
        · rename_i hspent
          cases h
          exact Or.inl ⟨Or.inr (hcount.1 hspent), rfl⟩
        · rename_i hspent
          split at h
          · rename_i hhorizon
            cases h
            exact Or.inl ⟨Or.inl (Or.inl hhorizon), rfl⟩
          · rename_i hhorizon
            refine Or.inr ⟨?_, fun hs => hspent (hcount.2 hs), ?_⟩
            · rintro (hs | hs)
              · exact hhorizon hs
              · exact hlast (huntil.2 hs)
            · split at h
              · rename_i hbefore
                exact Or.inl ⟨hbefore, h⟩
              · rename_i hbefore
                have hfloor : floorUtc ≤ tz.asUtc start := by omega
                split at h
                · rename_i hcap
                  cases h
                  exact Or.inr (Or.inl ⟨hfloor, by simpa using hcap, rfl⟩)
                · exact Or.inr (Or.inr ⟨hfloor, h⟩)

/-- Starts before a window. -/
abbrev early (tz : TzInfo) (floorUtc : Int) (starts : List Int) : List Int :=
  starts.filter fun start => tz.asUtc start < floorUtc

/-- Starts of a window, or after it. -/
abbrev within (tz : TzInfo) (floorUtc : Int) (starts : List Int) : List Int :=
  starts.filter fun start => floorUtc ≤ tz.asUtc start

/-- What the scan keeps. -/
def kept (tz : TzInfo) (floorUtc : Int) (firsts : List Int) : List Int :=
  (early tz floorUtc firsts).getLast?.toList ++ within tz floorUtc firsts

/-- The scan is over: a start stops it, the count is used up, or the window is full. -/
def Over (tz : TzInfo) (horizonUtc : Int) (untilUtc count : Option Int)
    (items : List (Option Int)) (firsts starts : List Int) (generated : Nat) : Prop :=
  (∃ next, (firsts ++ [next]).map some <+: items ∧ Stops tz horizonUtc untilUtc next) ∨
    Spent count (generated + firsts.length) ∨ maxOccurrences ≤ starts.length

/-- The scan keeps the last start before the window and all in it, of the starts before it is
over. -/
theorem collectStarts_run
    (h : collectStarts tz floorUtc horizonUtc count untilUtc generated lastBefore starts items =
      .ok (some out)) :
    ∃ firsts : List Int, firsts.map some <+: items ∧
      (∀ start ∈ firsts, ¬Stops tz horizonUtc untilUtc start) ∧
      (∀ i < firsts.length, ¬Spent count (generated + i)) ∧
      out = ((early tz floorUtc firsts).getLast?.or lastBefore).toList ++
        (starts ++ within tz floorUtc firsts) ∧
      Over tz horizonUtc untilUtc count items firsts
        (starts ++ within tz floorUtc firsts) generated := by
  induction items generalizing generated lastBefore starts with
  | nil =>
      obtain ⟨hspent, rfl⟩ := collectStarts_nil h
      exact ⟨[], List.prefix_rfl, by simp, by simp, by simp, .inr (.inl hspent)⟩
  | cons item items ih =>
      obtain ⟨start, rfl, ⟨hends, rfl⟩ | ⟨hstops, hspent, hstep⟩⟩ := collectStarts_cons h
      · refine ⟨[], List.nil_prefix, by simp, by simp, by simp, ?_⟩
        rcases hends with hends | hends
        · exact .inl ⟨start, List.cons_prefix_cons.2 ⟨rfl, List.nil_prefix⟩, hends⟩
        · exact .inr (.inl hends)
      · have hcount : ∀ {firsts : List Int},
            (∀ i < firsts.length, ¬Spent count (generated + 1 + i)) →
            ∀ i < (start :: firsts).length, ¬Spent count (generated + i) := by
          intro firsts hrest i hi
          cases i with
          | zero => exact hspent
          | succ i => simpa [Nat.add_assoc, Nat.add_comm 1] using hrest i (Nat.lt_of_succ_lt_succ hi)
        have hover : ∀ {firsts kept : List Int},
            Over tz horizonUtc untilUtc count items firsts kept (generated + 1) →
            Over tz horizonUtc untilUtc count (some start :: items) (start :: firsts) kept
              generated := by
          rintro firsts kept (⟨next, hnext, hends⟩ | hends | hfull)
          · exact .inl ⟨next, List.cons_prefix_cons.2 ⟨rfl, hnext⟩, hends⟩
          · refine .inr (.inl ?_)
            rwa [List.length_cons, Nat.add_comm firsts.length 1, ← Nat.add_assoc]
          · exact .inr (.inr hfull)
        rcases hstep with ⟨hbefore, h⟩ | ⟨hfloor, hcap, rfl⟩ | ⟨hfloor, h⟩
        · obtain ⟨firsts, hlead, hnone, hplace, rfl, hend⟩ := ih h
          refine ⟨start :: firsts, List.cons_prefix_cons.2 ⟨rfl, hlead⟩,
            List.forall_mem_cons.2 ⟨hstops, hnone⟩, hcount hplace, ?_, ?_⟩
          · simp [hbefore, Int.not_le.2 hbefore, List.getLast?_cons]
          · rw [within, List.filter_cons_of_neg (by simpa using hbefore)]
            exact hover hend
        · refine ⟨[start], List.cons_prefix_cons.2 ⟨rfl, List.nil_prefix⟩, by simpa using hstops,
            hcount (by simp), ?_, .inr (.inr ?_)⟩
          · simp [hfloor, Int.not_lt.2 hfloor]
          · simpa [hfloor] using hcap
        · obtain ⟨firsts, hlead, hnone, hplace, rfl, hend⟩ := ih h
          refine ⟨start :: firsts, List.cons_prefix_cons.2 ⟨rfl, hlead⟩,
            List.forall_mem_cons.2 ⟨hstops, hnone⟩, hcount hplace, ?_, ?_⟩
          · simp [hfloor, Int.not_lt.2 hfloor]
          · rw [within, List.filter_cons_of_pos (by simpa using hfloor)]
            rw [List.append_assoc] at hend
            exact hover hend

/-- A whole scan. -/
theorem collectStarts_scan
    (h : collectStarts tz floorUtc horizonUtc count untilUtc 0 none [] items = .ok (some out)) :
    ∃ firsts : List Int, firsts.map some <+: items ∧
      (∀ start ∈ firsts, ¬Stops tz horizonUtc untilUtc start) ∧
      (∀ i < firsts.length, ¬Spent count i) ∧
      out = kept tz floorUtc firsts ∧
      Over tz horizonUtc untilUtc count items firsts (within tz floorUtc firsts) 0 := by
  simpa [kept] using collectStarts_run h

/-- Rising starts before a window come first. -/
theorem filter_append_filter
    {firsts : List Int}
    (hrises : (firsts.map some).Pairwise (Rises tz)) :
    (early tz floorUtc firsts) ++
      (within tz floorUtc firsts) = firsts := by
  induction firsts with
  | nil => rfl
  | cons start firsts ih =>
      obtain ⟨hfirst, hrest⟩ := List.pairwise_cons.1 hrises
      by_cases hfloor : floorUtc ≤ tz.asUtc start
      · have hall : ∀ later ∈ firsts, floorUtc ≤ tz.asUtc later := fun later hlater =>
          Int.le_trans hfloor (hfirst (some later) (List.mem_map_of_mem hlater) start rfl later rfl).2
        have hnone : (early tz floorUtc firsts) = [] := by
          simpa [List.filter_eq_nil_iff] using hall
        have hself : (within tz floorUtc firsts) = firsts := by
          simpa [List.filter_eq_self] using hall
        simp [hfloor, Int.not_lt.2 hfloor, hnone, hself]
      · simp [hfloor, Int.not_le.1 hfloor, ih hrest]

theorem filter_kept (firsts : List Int) :
    within tz floorUtc (kept tz floorUtc firsts) = within tz floorUtc firsts := by
  have hnone : within tz floorUtc (early tz floorUtc firsts).getLast?.toList = [] := by
    rw [List.filter_eq_nil_iff]
    intro start hstart
    have hmem := List.mem_filter.1 (List.mem_of_getLast? (Option.mem_toList.1 hstart))
    simpa using hmem.2
  have happend : within tz floorUtc (kept tz floorUtc firsts) =
      within tz floorUtc (early tz floorUtc firsts).getLast?.toList ++
        within tz floorUtc (within tz floorUtc firsts) := List.filter_append _ _
  rw [happend, hnone, List.nil_append, within, List.filter_filter]
  simp

/-- Of its window the scan keeps every start. -/
theorem mem_kept_iff
    {firsts : List Int}
    {start : Int}
    (hfloor : floorUtc ≤ tz.asUtc start) :
    start ∈ kept tz floorUtc firsts ↔ start ∈ firsts := by
  have hmem : ∀ {starts : List Int}, start ∈ starts ↔ start ∈ within tz floorUtc starts := by
    intro starts
    simp [hfloor]
  rw [hmem, filter_kept, ← hmem]

/-- Of what is before its window the scan keeps the last. -/
theorem mem_kept_before_iff
    {firsts : List Int}
    {start : Int}
    (hascending : firsts.Pairwise (· < ·))
    (hbefore : tz.asUtc start < floorUtc) :
    start ∈ kept tz floorUtc firsts ↔
      start ∈ firsts ∧ ∀ other ∈ firsts, start < other → floorUtc ≤ tz.asUtc other := by
  have hnot : start ∉ within tz floorUtc firsts := fun hmem =>
    absurd hbefore (Int.not_lt.2 (of_decide_eq_true (List.mem_filter.1 hmem).2))
  have hearly : ∀ {other : Int}, other ∈ early tz floorUtc firsts ↔
      other ∈ firsts ∧ tz.asUtc other < floorUtc := by simp
  have hsorted : (early tz floorUtc firsts).Pairwise (· < ·) := hascending.filter _
  rw [kept, List.mem_append, or_iff_left hnot, Option.mem_toList, List.getLast?_eq_some_iff]
  constructor
  · rintro ⟨others, heq⟩
    rw [heq] at hsorted hearly
    refine ⟨(hearly.1 (by simp)).1, fun other hother hlt => Int.not_lt.1 fun hlate => ?_⟩
    rcases List.mem_append.1 (hearly.2 ⟨hother, hlate⟩) with hmem | hmem
    · have hle := (List.pairwise_append.1 hsorted).2.2 other hmem start (List.mem_singleton_self _)
      omega
    · rw [List.mem_singleton.1 hmem] at hlt
      exact absurd hlt (Int.lt_irrefl _)
  · rintro ⟨hmem, hlast⟩
    have hstart := hearly.2 ⟨hmem, hbefore⟩
    obtain ⟨others, last, heq⟩ :=
      (List.eq_nil_or_concat' _).resolve_left (List.ne_nil_of_mem hstart)
    rw [heq] at hstart hsorted hearly
    obtain ⟨hlastMem, hlastBefore⟩ :=
      hearly.1 (List.mem_append_right others (List.mem_singleton_self last))
    rcases List.mem_append.1 hstart with hother | hother
    · have hlt := (List.pairwise_append.1 hsorted).2.2 start hother last (List.mem_singleton_self _)
      have hle := hlast last hlastMem hlt
      omega
    · rw [List.mem_singleton.1 hother]
      exact ⟨others, heq⟩

/-- What the scan keeps of rising starts is in their order. -/
theorem kept_sublist
    {firsts : List Int}
    (hrises : (firsts.map some).Pairwise (Rises tz)) :
    (kept tz floorUtc firsts).Sublist firsts := by
  have hlast : ∀ starts : List Int, starts.getLast?.toList.Sublist starts := by
    intro starts
    cases hlast : starts.getLast? with
    | none => exact List.nil_sublist _
    | some start => exact List.singleton_sublist.2 (List.mem_of_getLast? hlast)
  have hparts : early tz floorUtc firsts ++ within tz floorUtc firsts = firsts :=
    filter_append_filter hrises
  conv_rhs => rw [← hparts]
  exact (hlast _).append (List.Sublist.refl _)

end Collect

/-- The recurrence set of an event. -/
def Recurs (rule : Rule) (base : Naive) (start : Int) : Prop :=
  ∃ period : Nat, ∃ candidates, periodCandidates rule base period = some candidates ∧
    candidates ≠ [] ∧ (start = base.stamp ∨ start ∈ candidates)

/-- The start of the event, in front of the first candidate. -/
def withBase (base : Int) : List (Option Int) → List (Option Int)
  | some first :: rest =>
      if first ≠ base then some base :: some first :: rest else some first :: rest
  | items => items

section Stream

variable {rule : Rule} {base : Naive} {period periods : Nat} {start : Int}
  {candidates : List Int} {items : List (Option Int)}

theorem yieldEach_true (base : Int) (candidates : List Int) :
    yieldEach base true candidates = candidates := by
  induction candidates with
  | nil => rfl
  | cons naive candidates ih =>
      rw [yieldEach, if_neg (fun h => by cases h.1), ih]

theorem yieldEach_false (base naive : Int) (candidates : List Int) :
    yieldEach base false (naive :: candidates) =
      if naive ≠ base then base :: naive :: candidates else naive :: candidates := by
  rw [yieldEach, yieldEach_true]
  simp only [true_and]

theorem occurrences_true (h : periodCandidates rule base period = some candidates) :
    occurrences rule base true period (periods + 1) =
      candidates.map some ++ occurrences rule base true (period + 1) periods := by
  rw [occurrences, h]
  simp only [yieldEach_true, Bool.true_or]

theorem occurrences_none (emittedAny : Bool) (h : periodCandidates rule base period = none) :
    occurrences rule base emittedAny period (periods + 1) = [none] := by
  rw [occurrences, h]

/-- The generator puts the start of the event in front of the candidates. -/
theorem occurrences_false :
    occurrences rule base false period periods =
      withBase base.stamp (occurrences rule base true period periods) := by
  induction periods generalizing period with
  | zero => rfl
  | succ periods ih =>
      cases hcandidates : periodCandidates rule base period with
      | none =>
          rw [occurrences_none false hcandidates, occurrences_none true hcandidates]
          rfl
      | some candidates =>
          rw [occurrences_true hcandidates, occurrences, hcandidates]
          cases candidates with
          | nil => exact ih
          | cons naive candidates =>
              simp only [yieldEach_false, List.map_cons, List.cons_append, withBase]
              split <;> rfl

theorem mem_occurrences (h : some start ∈ occurrences rule base true period periods) :
    ∃ later : Nat, period ≤ later ∧
      ∃ candidates, periodCandidates rule base later = some candidates ∧ start ∈ candidates := by
  induction periods generalizing period with
  | zero => exact absurd h List.not_mem_nil
  | succ periods ih =>
      cases hcandidates : periodCandidates rule base period with
      | none =>
          rw [occurrences_none true hcandidates] at h
          cases List.mem_singleton.1 h
      | some candidates =>
          rw [occurrences_true hcandidates] at h
          rcases List.mem_append.1 h with hmem | hmem
          · obtain ⟨naive, hnaive, hstart⟩ := List.mem_map.1 hmem
            cases hstart
            exact ⟨period, Nat.le_refl _, candidates, hcandidates, hnaive⟩
          · obtain ⟨later, hle, hlater⟩ := ih hmem
            exact ⟨later, by omega, hlater⟩

theorem base_mem_withBase (h : some start ∈ occurrences rule base true period periods) :
    some base.stamp ∈ withBase base.stamp (occurrences rule base true period periods) := by
  induction periods generalizing period with
  | zero => exact absurd h List.not_mem_nil
  | succ periods ih =>
      cases hcandidates : periodCandidates rule base period with
      | none =>
          rw [occurrences_none true hcandidates] at h
          cases List.mem_singleton.1 h
      | some candidates =>
          rw [occurrences_true hcandidates] at h ⊢
          cases candidates with
          | nil => exact ih h
          | cons naive candidates =>
              simp only [List.map_cons, List.cons_append, withBase]
              split
              · exact List.mem_cons_self
              · rename_i heq
                rw [not_not.1 heq]
                exact List.mem_cons_self

theorem mem_withBase
    {base : Int}
    (h : some start ∈ withBase base items) :
    some start ∈ items ∨ start = base ∧ ∃ first, some first ∈ items := by
  unfold withBase at h
  split at h
  · rename_i first rest
    split at h
    · rcases List.mem_cons.1 h with heq | hmem
      · cases heq
        exact Or.inr ⟨rfl, first, List.mem_cons_self⟩
      · exact Or.inl hmem
    · exact Or.inl h
  · exact Or.inl h

theorem mem_withBase_of_mem
    (base : Int)
    (h : some start ∈ items) :
    some start ∈ withBase base items := by
  unfold withBase
  split
  · split
    · exact List.mem_cons_of_mem _ h
    · exact h
  · exact h

/-- Two candidates of an event lie a day apart. -/
theorem add_dayLength_le_of_mem
    (hinterval : 0 < ruleInterval rule)
    {later : Nat}
    {candidates others : List Int}
    {other : Int}
    (hcandidates : periodCandidates rule base period = some candidates)
    (hothers : periodCandidates rule base later = some others)
    (hstart : start ∈ candidates)
    (hother : other ∈ others)
    (h : period < later) :
    start + dayLength ≤ other := by
  have hday := (onDays_periodCandidates hinterval hcandidates).day start hstart
  have hlater := (onDays_periodCandidates hinterval hothers).day other hother
  have hperiods : periodDay rule base ((period : Int) + 1) ≤ periodDay rule base (later : Int) :=
    periodDay_le hinterval (by omega)
  exact hday.add_dayLength_le hlater (hday.lt (hlater.weaken hperiods (Int.le_refl _)))

/-- A candidate of a period from where the expansion starts is generated, or comes after all that
is. -/
theorem mem_or_later
    (hinterval : 0 < ruleInterval rule)
    {later : Nat}
    (hcandidates : periodCandidates rule base later = some candidates)
    (hstart : start ∈ candidates)
    (hle : period ≤ later) :
    some start ∈ occurrences rule base true period periods ∨
      ∀ other, some other ∈ occurrences rule base true period periods →
        other + dayLength ≤ start := by
  induction periods generalizing period with
  | zero => exact Or.inr fun other hother => absurd hother List.not_mem_nil
  | succ periods ih =>
      cases hfirst : periodCandidates rule base period with
      | none =>
          rw [occurrences_none true hfirst]
          exact Or.inr fun other hother => by cases List.mem_singleton.1 hother
      | some firsts =>
          rw [occurrences_true hfirst]
          rcases Nat.lt_or_eq_of_le hle with hlt | rfl
          · rcases ih hlt with hmem | hall
            · exact Or.inl (List.mem_append_right _ hmem)
            · refine Or.inr fun other hother => ?_
              rcases List.mem_append.1 hother with hmem | hmem
              · obtain ⟨naive, hnaive, heq⟩ := List.mem_map.1 hmem
                cases heq
                exact add_dayLength_le_of_mem hinterval hfirst hcandidates hnaive hstart hlt
              · exact hall other hmem
          · rw [hfirst, Option.some.injEq] at hcandidates
            subst hcandidates
            exact Or.inl (List.mem_append_left _ (List.mem_map_of_mem hstart))

end Stream

section Rising

variable {rule : Rule} {base : Naive} {tz : TzInfo} {period periods : Nat} {start : Int}

/-- The zone puts no time behind one of the day before. -/
def Daily (tz : TzInfo) : Prop :=
  ∀ naive later, naive + dayLength ≤ later → tz.asUtc naive ≤ tz.asUtc later

theorem rises_of_daily
    (hdaily : Daily tz)
    {later : Int}
    (h : start + dayLength ≤ later) :
    Rises tz (some start) (some later) := by
  rintro first ⟨rfl⟩ other ⟨rfl⟩
  have hpos := dayLength_pos
  exact ⟨by omega, hdaily start later h⟩

theorem ascending_of_rises
    {firsts : List Int}
    (h : (firsts.map some).Pairwise (Rises tz)) :
    firsts.Pairwise (· < ·) :=
  (List.pairwise_map.1 h).imp fun {first later} h => (h first rfl later rfl).1

theorem rises_candidates
    (hdaily : Daily tz)
    {lo hi : Int}
    {candidates : List Int}
    (h : OnDays base lo hi candidates) :
    (candidates.map some).Pairwise (Rises tz) := by
  refine List.pairwise_map.2 (h.ascending.imp_of_mem fun {first later} hfirst hlater hlt => ?_)
  exact rises_of_daily hdaily ((h.day first hfirst).add_dayLength_le (h.day later hlater) hlt)

theorem occurrences_rise
    (hinterval : 0 < ruleInterval rule)
    (hdaily : Daily tz) :
    (occurrences rule base true period periods).Pairwise (Rises tz) := by
  induction periods generalizing period with
  | zero => exact List.Pairwise.nil
  | succ periods ih =>
      cases hcandidates : periodCandidates rule base period with
      | none =>
          rw [occurrences_none true hcandidates]
          exact List.pairwise_singleton _ _
      | some candidates =>
          rw [occurrences_true hcandidates]
          have hdays := onDays_periodCandidates hinterval hcandidates
          refine List.pairwise_append.2 ⟨rises_candidates hdaily hdays, ih, ?_⟩
          intro item hitem later hlater
          obtain ⟨naive, hnaive, rfl⟩ := List.mem_map.1 hitem
          cases later with
          | none => exact fun _ _ _ hother => by cases hother
          | some other =>
              obtain ⟨next, hle, others, hothers, hmem⟩ := mem_occurrences hlater
              exact rises_of_daily hdaily
                (add_dayLength_le_of_mem hinterval hcandidates hothers hnaive hmem hle)

/-- A candidate is the start of the event or lies a day after it. -/
theorem base_add_le
    (hinterval : 0 < ruleInterval rule)
    {candidates : List Int}
    (hcandidates : periodCandidates rule base period = some candidates)
    (hstart : start ∈ candidates)
    (hne : start ≠ base.stamp) :
    base.stamp + dayLength ≤ start := by
  have hbase := base_le_candidate hcandidates hstart
  have hday := (onDays_periodCandidates hinterval hcandidates).day start hstart
  exact (onDay_base hinterval).add_dayLength_le hday (by omega)

theorem withBase_rises
    (hinterval : 0 < ruleInterval rule)
    (hdaily : Daily tz) :
    (withBase base.stamp (occurrences rule base true period periods)).Pairwise (Rises tz) := by
  have hrises : (occurrences rule base true period periods).Pairwise (Rises tz) :=
    occurrences_rise hinterval hdaily
  have hmem : ∀ start, some start ∈ occurrences rule base true period periods →
      ∃ (later : Nat) (candidates : List Int),
        periodCandidates rule base later = some candidates ∧ start ∈ candidates := by
    intro start hstart
    obtain ⟨later, -, candidates, hcandidates⟩ := mem_occurrences hstart
    exact ⟨later, candidates, hcandidates⟩
  revert hrises hmem
  generalize occurrences rule base true period periods = items
  intro hrises hmem
  cases items with
  | nil => exact hrises
  | cons item items =>
      cases item with
      | none => exact hrises
      | some first =>
          rw [withBase]
          split
          · rename_i hne
            obtain ⟨later, candidates, hcandidates, hfirst⟩ := hmem first List.mem_cons_self
            have hbase := base_add_le hinterval hcandidates hfirst hne
            refine List.pairwise_cons.2 ⟨fun item hitem => ?_, hrises⟩
            rcases List.mem_cons.1 hitem with rfl | hitem
            · exact rises_of_daily hdaily hbase
            · cases item with
              | none => exact fun _ _ _ hother => by cases hother
              | some other =>
                  obtain ⟨hlt, -⟩ := (List.pairwise_cons.1 hrises).1 (some other) hitem
                    first rfl other rfl
                  exact rises_of_daily hdaily (by omega)
          · exact hrises

end Rising

section Counting

variable {rule : Rule} {base : Naive} {tz : TzInfo} {period periods i : Nat} {start : Int}
  {items : List (Option Int)}

theorem mem_take_of_lt
    {starts : List Int}
    {other : Int}
    (hascending : starts.Pairwise (· < ·))
    (hi : starts[i]? = some start)
    (hother : other ∈ starts)
    (h : other < start) :
    other ∈ starts.take i := by
  rw [← List.take_append_drop i starts] at hother
  rcases List.mem_append.1 hother with hmem | hmem
  · exact hmem
  · obtain ⟨hlt, hget⟩ := List.getElem?_eq_some_iff.1 hi
    rw [List.drop_eq_getElem_cons hlt, hget] at hmem
    have hdrop := hascending.sublist (List.drop_sublist i starts)
    rw [List.drop_eq_getElem_cons hlt, hget] at hdrop
    rcases List.mem_cons.1 hmem with rfl | hmem
    · omega
    · have hafter := (List.pairwise_cons.1 hdrop).1 other hmem
      omega

theorem lt_of_mem_take
    {starts : List Int}
    {other : Int}
    (hascending : starts.Pairwise (· < ·))
    (hi : starts[i]? = some start)
    (hother : other ∈ starts.take i) :
    other < start := by
  obtain ⟨hlt, hget⟩ := List.getElem?_eq_some_iff.1 hi
  rw [← List.take_append_drop i starts, List.drop_eq_getElem_cons hlt, hget] at hascending
  exact (List.pairwise_append.1 hascending).2.2 other hother start List.mem_cons_self

theorem encard_of_pairwise
    {starts : List Int}
    (hascending : starts.Pairwise (· < ·)) :
    {other | other ∈ starts}.encard = starts.length := by
  have hset : {other | other ∈ starts} = (starts.toFinset : Set Int) := by
    ext other
    simp
  rw [hset, Set.encard_coe_eq_coe_finsetCard,
    List.toFinset_card_of_nodup (hascending.imp fun {_ _} hlt => hlt.ne)]

theorem recurs_of_mem
    (h : some start ∈ withBase base.stamp (occurrences rule base true period periods)) :
    Recurs rule base start := by
  rcases mem_withBase h with hmem | ⟨heq, first, hmem⟩
  · obtain ⟨later, -, candidates, hcandidates, hstart⟩ := mem_occurrences hmem
    exact ⟨later, candidates, hcandidates, List.ne_nil_of_mem hstart, Or.inr hstart⟩
  · obtain ⟨later, -, candidates, hcandidates, hfirst⟩ := mem_occurrences hmem
    exact ⟨later, candidates, hcandidates, List.ne_nil_of_mem hfirst, Or.inl heq⟩

/-- A time of the recurrence set that no skipped period names is generated, or comes a day after
all that is. -/
theorem mem_withBase_or_later
    (periods : Nat)
    (hinterval : 0 < ruleInterval rule)
    (hskipped : ∀ (later : Nat) candidates, later < period →
      periodCandidates rule base later = some candidates → start ∉ candidates)
    (hbase : start = base.stamp → period = 0)
    (h : Recurs rule base start) :
    some start ∈ withBase base.stamp (occurrences rule base true period periods) ∨
      ∀ other, some other ∈ withBase base.stamp (occurrences rule base true period periods) →
        other + dayLength ≤ start := by
  obtain ⟨later, candidates, hcandidates, -, hstart⟩ := h
  by_cases hany : ∃ other, some other ∈ occurrences rule base true period periods
  · obtain ⟨other, hother⟩ := hany
    rcases hstart with rfl | hstart
    · exact Or.inl (base_mem_withBase hother)
    · have hle : period ≤ later := by
        by_contra hlt
        exact hskipped later candidates (by omega) hcandidates hstart
      rcases mem_or_later hinterval hcandidates hstart hle with hmem | hall
      · exact Or.inl (mem_withBase_of_mem base.stamp hmem)
      · refine Or.inr fun first hfirst => ?_
        rcases mem_withBase hfirst with hmem | ⟨rfl, next, hnext⟩
        · exact hall first hmem
        · obtain ⟨at', -, others, hothers, hmem⟩ := mem_occurrences hnext
          have hbefore := base_le_candidate hothers hmem
          have hafter := hall next hnext
          omega
  · refine Or.inr fun first hfirst => ?_
    rcases mem_withBase hfirst with hmem | ⟨-, next, hnext⟩
    · exact absurd ⟨first, hmem⟩ hany
    · exact absurd ⟨next, hnext⟩ hany

/-- A time that is generated or comes after is one of the first of what is generated, or comes
after them and no sooner than the next. -/
theorem mem_firsts_or_beyond
    {firsts : List Int}
    (hdaily : Daily tz)
    (hrises : items.Pairwise (Rises tz))
    (hlead : firsts.map some <+: items)
    (h : some start ∈ items ∨ ∀ other, some other ∈ items → other + dayLength ≤ start) :
    start ∈ firsts ∨
      (∀ other ∈ firsts, other < start) ∧
        ∀ next, (firsts ++ [next]).map some <+: items → next = start ∨ Rises tz (some next) (some start) := by
  obtain ⟨rest, rfl⟩ := hlead
  rcases h with hmem | hlater
  · rcases List.mem_append.1 hmem with hmem | hmem
    · obtain ⟨other, hother, heq⟩ := List.mem_map.1 hmem
      cases heq
      exact .inl hother
    · obtain ⟨-, hrest, hacross⟩ := List.pairwise_append.1 hrises
      refine .inr ⟨fun other hother =>
        (hacross (some other) (List.mem_map_of_mem hother) (some start) hmem other rfl start rfl).1,
        fun next hnext => ?_⟩
      rw [List.map_append, List.prefix_append_right_inj] at hnext
      obtain ⟨others, rfl⟩ := hnext
      rcases List.mem_cons.1 hmem with heq | hmem
      · exact .inl (Option.some.inj heq).symm
      · exact .inr ((List.pairwise_cons.1 hrest).1 (some start) hmem)
  · have hpos := dayLength_pos
    refine .inr ⟨fun other hother => ?_, fun next hnext => .inr (rises_of_daily hdaily ?_)⟩
    · have hafter := hlater other (List.mem_append_left _ (List.mem_map_of_mem hother))
      omega
    · exact hlater next (hnext.subset (by simp))

/-- The place of a start among all that is generated is the number of times before it. -/
theorem encard_before
    {firsts : List Int}
    (hinterval : 0 < ruleInterval rule)
    (hdaily : Daily tz)
    (hlead : firsts.map some <+: withBase base.stamp (occurrences rule base true 0 periods))
    (hi : firsts[i]? = some start) :
    {other | Recurs rule base other ∧ other < start}.encard = i := by
  have hrises : (withBase base.stamp (occurrences rule base true 0 periods)).Pairwise (Rises tz) :=
    withBase_rises hinterval hdaily
  have hascending := ascending_of_rises (hrises.sublist hlead.sublist)
  have hset : {other | Recurs rule base other ∧ other < start} =
      {other | other ∈ firsts.take i} := by
    ext other
    constructor
    · rintro ⟨hrecurs, hlt⟩
      have hnone : ∀ (later : Nat) candidates, later < 0 →
          periodCandidates rule base later = some candidates → other ∉ candidates :=
        fun later _ hlater => absurd hlater (Nat.not_lt_zero later)
      have hgenerated := mem_withBase_or_later periods hinterval hnone (fun _ => rfl) hrecurs
      rcases mem_firsts_or_beyond hdaily hrises hlead hgenerated with hmem | ⟨hbeyond, -⟩
      · exact mem_take_of_lt hascending hi hmem hlt
      · have hafter := hbeyond start (List.mem_of_getElem? hi)
        omega
    · intro hmem
      have hfirst := List.mem_map_of_mem (f := some) (List.mem_of_mem_take hmem)
      exact ⟨recurs_of_mem (hlead.subset hfirst), lt_of_mem_take hascending hi hmem⟩
  obtain ⟨hlt, -⟩ := List.getElem?_eq_some_iff.1 hi
  rw [hset, encard_of_pairwise (hascending.sublist (List.take_sublist i firsts)),
    List.length_take, Nat.min_eq_left hlt.le]

end Counting

section Expansion

variable {rule : Rule} {base : Naive} {tz : TzInfo} {window : Aware} {horizonUtc start : Int}
  {starts : List Int}

/-- The expansion scans the occurrences from the first period on, or without a count from one
that lies before the window. -/
theorem rruleStarts_eq (h : rruleStarts rule base tz window horizonUtc = .ok starts) :
    ∃ period : Nat,
      (0 < period → rule.count = none ∧ firstPeriodFor rule base window.naive = some period) ∧
      collectStarts tz window.asUtc horizonUtc rule.count rule.untilUtc 0 none []
        (withBase base.stamp (occurrences rule base true period maxPeriods)) =
          .ok (some starts) := by
  rw [rruleStarts] at h
  split at h
  · cases h
  · rename_i period hperiod
    refine ⟨period, fun hpos => ?_, ?_⟩
    · split at hperiod
      · cases hperiod
        omega
      · rename_i hcount
        exact ⟨Option.not_isSome_iff_eq_none.1 hcount, hperiod⟩
    · rw [expandFrom, occurrences_false] at h
      split at h
      · cases h
      · cases h
      · rename_i hcollect
        cases h
        exact hcollect

def newYear : Naive where
  date := ⟨2024, 1, 1, by decide, by decide, by decide, by decide, by decide, by decide⟩
  time := 0
  time_nonneg := by decide
  time_lt := by decide

def utcZone : TzInfo := ⟨fun _ => 0, fun _ => by decide, fun _ => by decide⟩

theorem daily_utcZone : Daily utcZone := by
  intro naive later h
  have hpos := dayLength_pos
  simp only [TzInfo.asUtc, utcZone]
  omega

def everyDay : Rule := ⟨.daily, none, none, none, [], none, none, none, 0⟩

def newYearUtc : Aware := ⟨newYear, 0, by decide, by decide⟩

/-- Two days of an event of every day. -/
theorem rruleStarts_everyDay :
    rruleStarts everyDay newYear utcZone newYearUtc (newYear.stamp + 2 * dayLength) =
      .ok [newYear.stamp, newYear.stamp + dayLength] := rfl

/-- The times of a rule up to its end and its count. -/
def Due (rule : Rule) (base : Naive) (tz : TzInfo) (start : Int) : Prop :=
  Recurs rule base start ∧ (∀ last ∈ rule.untilUtc, tz.asUtc start ≤ last) ∧
    ∀ limit ∈ rule.count,
      {other | Recurs rule base other ∧ other < start}.encard < (limit.toNat : ℕ∞)

/-- No time of the periods before one, and not the start of the event unless they are none. -/
def Unskipped (rule : Rule) (base : Naive) (period : Nat) (start : Int) : Prop :=
  (∀ (later : Nat) candidates, later < period →
      periodCandidates rule base later = some candidates → start ∉ candidates) ∧
    (start = base.stamp → period = 0)

/-- What comes before a period is a candidate that is skipped, or the start of the event. -/
theorem unskipped_of_forall
    {period : Nat}
    (hinterval : 0 < ruleInterval rule)
    (h : ∀ lo, 0 < period → ¬OnDay base lo (periodDay rule base period) start) :
    Unskipped rule base period start := by
  constructor
  · intro later candidates hlater hcandidates hmem
    have hday := (onDays_periodCandidates hinterval hcandidates).day start hmem
    exact h _ (by omega) (hday.weaken (Int.le_refl _) (periodDay_le hinterval (by omega)))
  · intro heq
    by_contra hne
    subst heq
    exact h _ (Nat.pos_of_ne_zero hne)
      ((onDay_base hinterval).weaken (Int.le_refl _) (periodDay_le hinterval (by omega)))

/-- An expansion keeps of some first times, which are due before the horizon, and unless it is
full these are all of the periods that it does not skip. -/
theorem rruleStarts_spec
    (hinterval : 0 < ruleInterval rule)
    (hdaily : Daily tz)
    (h : rruleStarts rule base tz window horizonUtc = .ok starts) :
    ∃ (period : Nat) (firsts : List Int),
      (0 < period → rule.count = none ∧ firstPeriodFor rule base window.naive = some period) ∧
      firsts.map some <+: withBase base.stamp (occurrences rule base true period maxPeriods) ∧
      starts = kept tz window.asUtc firsts ∧
      (∀ start ∈ firsts, Due rule base tz start ∧ tz.asUtc start < horizonUtc) ∧
      ((within tz window.asUtc starts).length < maxOccurrences →
        ∀ start, Due rule base tz start → tz.asUtc start < horizonUtc →
          Unskipped rule base period start → start ∈ firsts) := by
  obtain ⟨period, hperiod, hcollect⟩ := rruleStarts_eq h
  have hrises : (withBase base.stamp (occurrences rule base true period maxPeriods)).Pairwise
      (Rises tz) := withBase_rises hinterval hdaily
  obtain ⟨firsts, hlead, hstops, hspent, rfl, hover⟩ := collectStarts_scan hcollect
  have hrecurs : ∀ other ∈ firsts, Recurs rule base other := fun other hother =>
    recurs_of_mem (hlead.subset (List.mem_map_of_mem hother))
  have hascending := ascending_of_rises (hrises.sublist hlead.sublist)
  refine ⟨period, firsts, hperiod, hlead, rfl, fun start hstart => ?_, fun hfew => ?_⟩
  · have hnot := hstops start hstart
    refine ⟨⟨hrecurs start hstart,
      fun last hlast => Int.not_lt.1 fun hlt => hnot (.inr ⟨last, hlast, hlt⟩), ?_⟩,
      Int.not_le.1 fun hle => hnot (.inl hle)⟩
    intro limit hlimit
    have hzero : period = 0 := by
      by_contra hne
      rw [(hperiod (Nat.pos_of_ne_zero hne)).1] at hlimit
      cases hlimit
    subst hzero
    obtain ⟨i, hi⟩ := List.mem_iff_getElem?.1 hstart
    rw [encard_before hinterval hdaily hlead hi, Nat.cast_lt, Int.lt_toNat]
    obtain ⟨hlt, -⟩ := List.getElem?_eq_some_iff.1 hi
    exact Int.not_le.1 fun hle => hspent i hlt ⟨limit, hlimit, by omega⟩
  · rintro start ⟨hstart, huntil, hcount⟩ hhorizon ⟨hskipped, hzero⟩
    have hgenerated := mem_withBase_or_later maxPeriods hinterval hskipped hzero hstart
    rcases mem_firsts_or_beyond hdaily hrises hlead hgenerated with hmem | ⟨hall, hnext⟩
    · exact hmem
    · rcases hover with ⟨next, hstretch, hends⟩ | ⟨limit, hlimit, hends⟩ | hfull
      · have hstop : Stops tz horizonUtc rule.untilUtc start := by
          rcases hnext next hstretch with rfl | hrise
          · exact hends
          · exact stops_of_rises hrise hends
        rcases hstop with hle | ⟨last, hlast, hlt⟩
        · omega
        · have hle := huntil last hlast
          omega
      · have hle : (firsts.length : ℕ∞) ≤
            {other | Recurs rule base other ∧ other < start}.encard := by
          rw [← encard_of_pairwise hascending]
          exact Set.encard_le_encard fun other hother => ⟨hrecurs other hother, hall other hother⟩
        have hlt := Std.lt_of_le_of_lt hle (hcount limit hlimit)
        rw [Nat.cast_lt, Int.lt_toNat] at hlt
        omega
      · rw [filter_kept] at hfew
        exact absurd hfew (Nat.not_lt.2 hfull)

/-- An expansion that is not full lists of its window exactly the times that are due before the
horizon. -/
theorem mem_rruleStarts_iff
    (hinterval : 0 < ruleInterval rule)
    (hdaily : Daily tz)
    (h : rruleStarts rule base tz window horizonUtc = .ok starts)
    (hfew : (within tz window.asUtc starts).length < maxOccurrences)
    (hwindow : window.asUtc ≤ tz.asUtc start) :
    start ∈ starts ↔ Due rule base tz start ∧ tz.asUtc start < horizonUtc := by
  obtain ⟨period, firsts, hperiod, -, rfl, hdue, hall⟩ := rruleStarts_spec hinterval hdaily h
  rw [mem_kept_iff hwindow]
  refine ⟨hdue start, fun ⟨hstart, hhorizon⟩ => hall hfew start hstart hhorizon ?_⟩
  refine unskipped_of_forall hinterval fun lo hpos hday => ?_
  have hspec := (firstPeriodFor_spec (hperiod hpos).2 hpos).2
  have hlt : tz.asUtc start < window.asUtc := asUtc_lt (add_two_days_le hspec hday)
  omega

theorem everyDay_second_iff :
    newYear.stamp + dayLength ∈ [newYear.stamp, newYear.stamp + dayLength] ↔
      Due everyDay newYear utcZone (newYear.stamp + dayLength) ∧
        utcZone.asUtc (newYear.stamp + dayLength) < newYear.stamp + 2 * dayLength :=
  mem_rruleStarts_iff (by decide) daily_utcZone rruleStarts_everyDay (by decide) (by decide)

def tenthDay : Naive where
  date := ⟨2024, 1, 11, by decide, by decide, by decide, by decide, by decide, by decide⟩
  time := 0
  time_nonneg := by decide
  time_lt := by decide

def tenthDayUtc : Aware := ⟨tenthDay, 0, by decide, by decide⟩

end Expansion

section FastForward

variable {rule : Rule} {base : Naive} {tz : TzInfo} {window : Aware} {horizonUtc floorUtc first : Int}
  {untilUtc lastBefore : Option Int} {starts rest before : List Int} {items : List (Option Int)}
  {period periods more generated : Nat}

/-- Without a count the number of occurrences does not matter. -/
theorem collectStarts_generated (generated more : Nat) :
    collectStarts tz floorUtc horizonUtc none untilUtc generated lastBefore starts items =
      collectStarts tz floorUtc horizonUtc none untilUtc more lastBefore starts items := by
  induction items generalizing generated more lastBefore starts with
  | nil => rfl
  | cons item items ih =>
      cases item with
      | none => rfl
      | some occurrence =>
          simp only [collectStarts, Option.any_none, Bool.false_eq_true, if_false]
          rw [ih (generated + 1) (more + 1), ih (generated + 1) (more + 1)]

/-- The last of the occurrences before a window is the one that the scan keeps of them. -/
theorem collectStarts_skip
    (hstops : ∀ start, tz.asUtc start < floorUtc → ¬Stops tz horizonUtc untilUtc start)
    (hbefore : ∀ start ∈ before, tz.asUtc start < floorUtc)
    (hfirst : tz.asUtc first < floorUtc) :
    collectStarts tz floorUtc horizonUtc none untilUtc generated lastBefore starts
        (before.map some ++ some first :: items) =
      collectStarts tz floorUtc horizonUtc none untilUtc more (some first) starts items := by
  have hstep : ∀ {generated : Nat} {lastBefore : Option Int} {start : Int}
      {items : List (Option Int)}, tz.asUtc start < floorUtc →
      collectStarts tz floorUtc horizonUtc none untilUtc generated lastBefore starts
          (some start :: items) =
        collectStarts tz floorUtc horizonUtc none untilUtc (generated + 1) (some start) starts
          items := by
    intro generated lastBefore start items hlt
    have hnot := hstops start hlt
    have huntil : ¬untilUtc.any (· < tz.asUtc start) = true := fun hany => by
      rw [Option.any_eq_true_iff_get] at hany
      obtain ⟨hsome, hlast⟩ := hany
      exact hnot (Or.inr ⟨_, Option.get_mem hsome, of_decide_eq_true hlast⟩)
    have hhorizon : ¬horizonUtc ≤ tz.asUtc start := fun hle => hnot (Or.inl hle)
    rw [collectStarts, if_neg huntil, Option.any_none, if_neg Bool.false_ne_true,
      if_neg hhorizon, if_pos hlt]
  induction before generalizing generated lastBefore with
  | nil => rw [List.map_nil, List.nil_append, hstep hfirst, collectStarts_generated _ more]
  | cons start before ih =>
      rw [List.map_cons, List.cons_append, hstep (hbefore start List.mem_cons_self)]
      exact ih fun other hother => hbefore other (List.mem_cons_of_mem _ hother)

theorem occurrences_skip
    (periods : Nat)
    (h : ∀ k, period ≤ k → k < period + more → ∃ found, periodCandidates rule base k = some found) :
    ∃ before : List Int, occurrences rule base true period (more + periods) =
        before.map some ++ occurrences rule base true (period + more) periods ∧
      ∀ start ∈ before, ∃ k, k < period + more ∧
        ∃ found, periodCandidates rule base k = some found ∧ start ∈ found := by
  induction more generalizing period with
  | zero =>
      refine ⟨[], ?_, fun start hstart => absurd hstart List.not_mem_nil⟩
      rw [Nat.zero_add, Nat.add_zero]
      rfl
  | succ more ih =>
      obtain ⟨found, hfound⟩ := h period (Nat.le_refl _) (by omega)
      obtain ⟨before, heq, hbefore⟩ := @ih (period + 1) fun k hle hlt =>
        h k (by omega) (by omega)
      refine ⟨found ++ before, ?_, fun start hstart => ?_⟩
      · have hperiods : more + 1 + periods = more + periods + 1 := by omega
        have hperiod : period + (more + 1) = period + 1 + more := by omega
        rw [hperiods, hperiod, occurrences_true hfound, heq, List.map_append, List.append_assoc]
      · rcases List.mem_append.1 hstart with hmem | hmem
        · exact ⟨period, by omega, found, hfound, hmem⟩
        · obtain ⟨k, hk, hstarts⟩ := hbefore start hmem
          exact ⟨k, by omega, hstarts⟩

theorem withBase_before (base first : Int) (before : List Int) (items : List (Option Int)) :
    ∃ lead : List Int, withBase base (before.map some ++ some first :: items) =
        lead.map some ++ some first :: items ∧
      ∀ start ∈ lead, start = base ∨ start ∈ before := by
  cases before with
  | nil =>
      by_cases hfirst : first ≠ base
      · refine ⟨[base], ?_, fun start hstart => Or.inl (List.mem_singleton.1 hstart)⟩
        rw [List.map_nil, List.nil_append, withBase, if_pos hfirst]
        rfl
      · refine ⟨[], ?_, fun start hstart => absurd hstart List.not_mem_nil⟩
        rw [List.map_nil, List.nil_append, withBase, if_neg hfirst]
  | cons start before =>
      by_cases hstart : start ≠ base
      · refine ⟨base :: start :: before, ?_, fun other hother => List.mem_cons.1 hother⟩
        rw [List.map_cons, List.cons_append, withBase, if_pos hstart]
        rfl
      · refine ⟨start :: before, ?_, fun other hother => Or.inr hother⟩
        rw [List.map_cons, List.cons_append, withBase, if_neg hstart]

/-- Of the occurrences before a window the scan keeps the last, and no other matters. -/
theorem collectStarts_withBase
    {base : Int}
    (before : List Int)
    (items : List (Option Int))
    (hstops : ∀ start, tz.asUtc start < floorUtc → ¬Stops tz horizonUtc untilUtc start)
    (hbase : tz.asUtc base < floorUtc)
    (hbefore : ∀ start ∈ before, tz.asUtc start < floorUtc)
    (hfirst : tz.asUtc first < floorUtc) :
    collectStarts tz floorUtc horizonUtc none untilUtc 0 none []
        (withBase base (before.map some ++ some first :: items)) =
      collectStarts tz floorUtc horizonUtc none untilUtc 0 (some first) [] items := by
  obtain ⟨lead, hlead, hmem⟩ := withBase_before base first before items
  rw [hlead]
  refine collectStarts_skip hstops (fun start hstart => ?_) hfirst
  rcases hmem start hstart with rfl | hstart
  · exact hbase
  · exact hbefore start hstart

/-- Where the period in front of the window names a time before it, skipping the earlier periods
changes nothing of an expansion. -/
theorem rruleStarts_eq_expandFrom
    (hcount : rule.count = none)
    (hperiod : firstPeriodFor rule base window.naive = some period)
    (hcandidates : periodCandidates rule base period = some (first :: rest))
    (hfirst : tz.asUtc first < window.asUtc)
    (huntil : ∀ last ∈ rule.untilUtc, window.asUtc ≤ last)
    (hhorizon : window.asUtc ≤ horizonUtc) :
    rruleStarts rule base tz window horizonUtc =
      expandFrom rule base tz window horizonUtc 0 (period + maxPeriods) := by
  have hstart : rruleStarts rule base tz window horizonUtc =
      expandFrom rule base tz window horizonUtc period maxPeriods := by
    rw [rruleStarts, hcount, hperiod]
    rfl
  rw [hstart]
  rcases Nat.eq_zero_or_pos period with rfl | hpos
  · rw [Nat.zero_add]
  · obtain ⟨hinterval, hfloor⟩ := firstPeriodFor_spec hperiod hpos
    have hearly : ∀ {lo other : Int}, OnDay base lo (periodDay rule base period) other →
        tz.asUtc other < window.asUtc := fun hday => asUtc_lt (add_two_days_le hfloor hday)
    have hbase : tz.asUtc base.stamp < window.asUtc :=
      hearly ((onDay_base hinterval).weaken (Int.le_refl _) (periodDay_le hinterval (by omega)))
    have hstops : ∀ start, tz.asUtc start < window.asUtc →
        ¬Stops tz horizonUtc rule.untilUtc start := by
      rintro start hlt (hle | ⟨last, hlast, hend⟩)
      · omega
      · have hle := huntil last hlast
        omega
    obtain ⟨items, hscan⟩ : ∃ items,
        occurrences rule base true period maxPeriods = some first :: items :=
      ⟨_, occurrences_true hcandidates⟩
    have hexist : ∀ k, 0 ≤ k → k < 0 + period →
        ∃ found, periodCandidates rule base k = some found :=
      fun k _ hlt => periodCandidates_isSome hperiod (by omega)
    obtain ⟨before, hsplit, hbefore⟩ := occurrences_skip maxPeriods hexist
    have hskipped : ∀ start ∈ before, tz.asUtc start < window.asUtc := by
      intro start hmem
      obtain ⟨k, hk, found, hfound, hmem⟩ := hbefore start hmem
      have hday := (onDays_periodCandidates hinterval hfound).day start hmem
      exact hearly (hday.weaken (Int.le_refl _) (periodDay_le hinterval (by omega)))
    rw [Nat.zero_add, hscan] at hsplit
    have hfast := collectStarts_withBase [] items hstops hbase
      (fun start hmem => absurd hmem List.not_mem_nil) hfirst
    have hplain := collectStarts_withBase before items hstops hbase hskipped hfirst
    rw [List.map_nil, List.nil_append] at hfast
    rw [expandFrom, expandFrom, occurrences_false, occurrences_false, hscan, hsplit, hcount,
      hfast, hplain]

theorem everyDay_skips_nine :
    rruleStarts everyDay newYear utcZone tenthDayUtc tenthDay.stamp =
      expandFrom everyDay newYear utcZone tenthDayUtc tenthDay.stamp 0 (9 + maxPeriods) := by
  have hperiod : firstPeriodFor everyDay newYear tenthDayUtc.naive = some 9 := rfl
  have hcandidates : periodCandidates everyDay newYear (9 : Nat) =
      some [newYear.stamp + 9 * dayLength] := rfl
  exact rruleStarts_eq_expandFrom rfl hperiod hcandidates (by decide)
    (fun last hlast => by cases hlast) (by decide)

end FastForward

end EmailClient
end Vesta
