import Vesta.Tasks.Checkpoints

/-!
# The rungs of a ladder

The ladder of a task can be computed when the first lead that reaches back to its creation
does not reach before the first instant.  Its last rung of an interval is then the newest.
-/

namespace Vesta
namespace Tasks

open Lib

/-! ## Rungs -/

def IsLead (lead : Nat) : Prop :=
  (∃ label, (label, lead) ∈ checkpointTail) ∨ ∃ k, lead = checkpointDoublingStart * 2 ^ k

/-- A checkpoint of a due date: the date itself or a lead before it, after the creation. -/
def IsRung (due created t : Nat) : Prop :=
  created < t ∧ (t = due ∨ ∃ lead, IsLead lead ∧ t + lead = due)

/-- The newest checkpoint of an interval. -/
structure IsNewest (due created low now t : Nat) : Prop where
  rung : IsRung due created t
  after : low < t
  reached : t ≤ now
  newest : ∀ u, IsRung due created u → u ≤ now → u ≤ t

/-- Some doubling lead reaches back to the creation, and none before it reaches further than
the first instant. -/
def Computable (due created : Nat) : Prop :=
  ∃ k, checkpointDoublingStart * 2 ^ k ≤ due ∧ due ≤ created + checkpointDoublingStart * 2 ^ k

theorem lead_pos
    {lead : Nat}
    (h : IsLead lead) :
    0 < lead := by
  rcases h with ⟨label, hmem⟩ | ⟨k, rfl⟩
  · have hall : ∀ entry ∈ checkpointTail, 0 < entry.2 := by decide
    exact hall _ hmem
  · exact Nat.mul_pos (by decide) (Nat.two_pow_pos k)

theorem IsRung.le
    {due created t : Nat}
    (h : IsRung due created t) :
    t ≤ due := by
  rcases h.2 with rfl | ⟨lead, -, rfl⟩
  · exact le_rfl
  · exact Nat.le_add_right _ _

/-- In an interval with the due date, the due date is newest. -/
theorem IsNewest.eq_due
    {due created low now t : Nat}
    (h : IsNewest due created low now t)
    (hcreated : created < due)
    (hreached : due ≤ now) :
    t = due :=
  le_antisymm h.rung.le (h.newest due ⟨hcreated, .inl rfl⟩ hreached)

/-! ## What is computed -/

theorem before_eq_some
    {due delta t : Nat} :
    before due delta = some t ↔ t + delta = due := by
  rw [before]
  split
  · rw [Option.some.injEq]
    omega
  · simp only [reduceCtorEq, false_iff]
    omega

theorem tailRungs_eq_some
    {due : Nat} {tail : List (Text × Nat)}
    (h : ∀ entry ∈ tail, entry.2 ≤ due) :
    tailRungs due tail = some (tail.map fun entry => ⟨some entry.1, due - entry.2⟩) := by
  induction tail with
  | nil => rfl
  | cons entry tail ih =>
      rw [List.forall_mem_cons] at h
      rw [tailRungs, before, if_pos h.1, ih h.2]
      rfl

theorem mul_two_pow_succ (lead k : Nat) : lead * 2 ^ (k + 1) = 2 * lead * 2 ^ k := by
  rw [Nat.pow_succ', ← Nat.mul_assoc, Nat.mul_comm lead 2]

/-- The doubling rungs can be computed if a lead reaches back to the creation in time. -/
theorem exists_doublingRungs
    {due created fuel lead : Nat}
    (hfuel : due < lead * 2 ^ fuel)
    (h : ∃ k, lead * 2 ^ k ≤ due ∧ due ≤ created + lead * 2 ^ k) :
    ∃ rungs, doublingRungs due created (fuel + 1) lead = some rungs := by
  induction fuel generalizing lead with
  | zero =>
      obtain ⟨k, hk, -⟩ := h
      have hle : lead * 1 ≤ lead * 2 ^ k := Nat.mul_le_mul_left _ (Nat.two_pow_pos k)
      omega
  | succ fuel ih =>
      obtain ⟨k, hk, hreach⟩ := h
      have hle : lead * 1 ≤ lead * 2 ^ k := Nat.mul_le_mul_left _ (Nat.two_pow_pos k)
      rw [doublingRungs, before, if_pos (by omega)]
      by_cases hmore : created < due - lead
      · cases k with
        | zero => omega
        | succ k =>
            rw [mul_two_pow_succ] at hk hreach hfuel
            obtain ⟨rungs, hrungs⟩ := ih hfuel ⟨k, hk, hreach⟩
            simp [hmore, hrungs]
      · simp [hmore]

/-- The doubling rungs that are computed are all there are after the creation, and some lead
reaches back to it. -/
theorem doublingRungs_spec
    {due created fuel lead : Nat} {rungs : List Rung}
    (hfuel : due < lead * 2 ^ fuel)
    (h : doublingRungs due created (fuel + 1) lead = some rungs) :
    (∀ rung ∈ rungs, rung.label.isSome = true) ∧
      (∀ t, (∃ rung ∈ rungs, rung.time = t) ↔ created < t ∧ ∃ k, t + lead * 2 ^ k = due) ∧
        ∃ k, lead * 2 ^ k ≤ due ∧ due ≤ created + lead * 2 ^ k := by
  induction fuel generalizing lead rungs with
  | zero =>
      rw [doublingRungs, before, if_neg (by omega)] at h
      cases h
  | succ fuel ih =>
      rw [doublingRungs] at h
      obtain ⟨time, htime, h⟩ := Option.bind_eq_some_iff.1 h
      rw [before_eq_some] at htime
      split at h
      · rename_i hmore
        obtain ⟨rest, hrest, h⟩ := Option.bind_eq_some_iff.1 h
        cases h
        have hdouble := mul_two_pow_succ lead
        obtain ⟨hlabels, htimes, k, hk, hreach⟩ := ih (hdouble fuel ▸ hfuel) hrest
        refine ⟨?_, fun t => ?_, k + 1, by rwa [hdouble], by rwa [hdouble]⟩
        · exact List.forall_mem_cons.2 ⟨rfl, hlabels⟩
        · constructor
          · rintro ⟨rung, hrung, rfl⟩
            rcases List.mem_cons.1 hrung with rfl | hrung
            · exact ⟨hmore, 0, by simpa using htime⟩
            · obtain ⟨hcreated, k, hk⟩ := (htimes _).1 ⟨rung, hrung, rfl⟩
              exact ⟨hcreated, k + 1, by rwa [hdouble]⟩
          · rintro ⟨hcreated, k, hk⟩
            cases k with
            | zero =>
                refine ⟨_, List.mem_cons_self, ?_⟩
                simp only [Nat.pow_zero, Nat.mul_one] at hk
                show time = t
                omega
            | succ k =>
                rw [hdouble] at hk
                obtain ⟨rung, hrung, heq⟩ := (htimes t).2 ⟨hcreated, k, hk⟩
                exact ⟨rung, List.mem_cons_of_mem _ hrung, heq⟩
      · rename_i hmore
        cases h
        refine ⟨by simp, fun t => ?_, 0, by omega, by omega⟩
        constructor
        · rintro ⟨rung, hrung, -⟩
          cases hrung
        · rintro ⟨hcreated, k, hk⟩
          have hle : lead * 1 ≤ lead * 2 ^ k := Nat.mul_le_mul_left _ (Nat.two_pow_pos k)
          omega

/-! ## The ladder -/

/-- What holds of a ladder. -/
structure LadderOf (due created : Nat) (ladder : List Rung) : Prop where
  sorted : ladder.Pairwise fun a b => a.time ≤ b.time
  rungs : ∀ t, (∃ rung ∈ ladder, rung.time = t) ↔ IsRung due created t
  labels : ∀ rung ∈ ladder, rung.label = none ↔ rung.time = due

theorem due_lt_doubling (due : Nat) : due < checkpointDoublingStart * 2 ^ due := by
  have hpow : due < 2 ^ due := Nat.lt_two_pow_self
  have hle : 1 * 2 ^ due ≤ checkpointDoublingStart * 2 ^ due :=
    Nat.mul_le_mul_right _ (by decide)
  omega

theorem Computable.week_le
    {due created : Nat}
    (h : Computable due created) :
    ∀ entry ∈ checkpointTail, entry.2 ≤ due := by
  obtain ⟨k, hk, -⟩ := h
  have hall : ∀ entry ∈ checkpointTail, entry.2 ≤ checkpointDoublingStart := by decide
  intro entry hentry
  have hstart := hall entry hentry
  have hle : checkpointDoublingStart * 1 ≤ checkpointDoublingStart * 2 ^ k :=
    Nat.mul_le_mul_left _ (Nat.two_pow_pos k)
  omega

theorem Computable.exists_ladder
    {due created : Nat}
    (h : Computable due created) :
    ∃ ladder, checkpointTimes due created = some ladder := by
  obtain ⟨rungs, hrungs⟩ := exists_doublingRungs (due_lt_doubling due) h
  rw [checkpointTimes, tailRungs_eq_some h.week_le, hrungs]
  exact ⟨_, rfl⟩

theorem checkpointTimes_spec
    {due created : Nat} {ladder : List Rung}
    (h : checkpointTimes due created = some ladder) :
    Computable due created ∧ LadderOf due created ladder := by
  rw [checkpointTimes] at h
  obtain ⟨tail, htail, h⟩ := Option.bind_eq_some_iff.1 h
  obtain ⟨doubling, hdoubling, h⟩ := Option.bind_eq_some_iff.1 h
  cases h
  obtain ⟨hlabels, htimes, hcomputable⟩ := doublingRungs_spec (due_lt_doubling due) hdoubling
  have hcomputable : Computable due created := hcomputable
  rw [tailRungs_eq_some hcomputable.week_le, Option.some.injEq] at htail
  subst htail
  refine ⟨hcomputable, ⟨?_, fun t => ?_, fun rung hrung => ?_⟩⟩
  · exact (List.pairwise_mergeSort (fun a b c hab hbc => by simp at *; omega)
      (fun a b => by simp; omega) _).imp fun h => by simpa using h
  · simp only [List.mem_mergeSort, List.mem_filter, List.mem_append, List.mem_singleton,
      List.mem_map, decide_eq_true_eq]
    constructor
    · rintro ⟨rung, ⟨(⟨entry, hentry, rfl⟩ | hrung) | rfl, hcreated⟩, rfl⟩
      · have hle := hcomputable.week_le entry hentry
        exact ⟨hcreated, .inr ⟨entry.2, .inl ⟨entry.1, hentry⟩, Nat.sub_add_cancel hle⟩⟩
      · obtain ⟨-, k, hk⟩ := (htimes _).1 ⟨rung, hrung, rfl⟩
        exact ⟨hcreated, .inr ⟨_, .inr ⟨k, rfl⟩, hk⟩⟩
      · exact ⟨hcreated, .inl rfl⟩
    · rintro ⟨hcreated, rfl | ⟨lead, ⟨label, hentry⟩ | ⟨k, rfl⟩, hlead⟩⟩
      · exact ⟨⟨none, t⟩, ⟨.inr rfl, hcreated⟩, rfl⟩
      · have htime : due - lead = t := by omega
        exact ⟨⟨some label, due - lead⟩, ⟨.inl (.inl ⟨(label, lead), hentry, rfl⟩), by
          rw [htime]; exact hcreated⟩, htime⟩
      · obtain ⟨rung, hrung, rfl⟩ := (htimes t).2 ⟨hcreated, k, hlead⟩
        exact ⟨rung, ⟨.inl (.inr hrung), hcreated⟩, rfl⟩
  · simp only [List.mem_mergeSort, List.mem_filter, List.mem_append, List.mem_singleton,
      List.mem_map, decide_eq_true_eq] at hrung
    obtain ⟨(⟨entry, hentry, rfl⟩ | hrung) | rfl, -⟩ := hrung
    · have hle := hcomputable.week_le entry hentry
      have hpos := lead_pos (.inl ⟨entry.1, hentry⟩)
      simp only [reduceCtorEq, false_iff]
      omega
    · obtain ⟨-, k, hk⟩ := (htimes _).1 ⟨rung, hrung, rfl⟩
      have hpos := lead_pos (.inr ⟨k, rfl⟩)
      have hsome := hlabels rung hrung
      constructor
      · intro hnone
        rw [hnone] at hsome
        cases hsome
      · intro heq
        omega
    · exact ⟨fun _ => rfl, fun _ => rfl⟩

/-- The last eligible rung is the newest of the interval. -/
theorem LadderOf.newest
    {due created low now : Nat} {ladder : List Rung} {rung : Rung}
    (h : LadderOf due created ladder)
    (hlast : (eligible low now ladder).getLast? = some rung) :
    IsNewest due created low now rung.time ∧ (rung.label = none ↔ rung.time = due) := by
  obtain ⟨earlier, heq⟩ := List.getLast?_eq_some_iff.1 hlast
  have hmem : rung ∈ eligible low now ladder := by
    rw [heq]
    exact List.mem_append_right _ List.mem_cons_self
  have hsorted : (eligible low now ladder).Pairwise fun a b => a.time ≤ b.time :=
    h.sorted.filter _
  simp only [eligible, List.mem_filter, Bool.and_eq_true, decide_eq_true_eq] at hmem
  obtain ⟨hladder, hafter, hreached⟩ := hmem
  refine ⟨⟨(h.rungs _).1 ⟨rung, hladder, rfl⟩, hafter, hreached, fun u hu hle => ?_⟩,
    h.labels rung hladder⟩
  obtain ⟨other, hother, rfl⟩ := (h.rungs u).2 hu
  rcases Nat.lt_or_ge low other.time with hlow | hlow
  · have hmem : other ∈ eligible low now ladder := by
      simp only [eligible, List.mem_filter, Bool.and_eq_true, decide_eq_true_eq]
      exact ⟨hother, hlow, hle⟩
    rw [heq] at hmem hsorted
    rcases List.mem_append.1 hmem with hmem | hmem
    · exact (List.pairwise_append.1 hsorted).2.2 other hmem rung List.mem_cons_self
    · rw [List.mem_singleton.1 hmem]
  · omega

theorem LadderOf.none_eligible
    {due created low now : Nat} {ladder : List Rung}
    (h : LadderOf due created ladder)
    (hlast : (eligible low now ladder).getLast? = none) :
    ∀ t, IsRung due created t → low < t → now < t := by
  intro t ht hlow
  obtain ⟨rung, hrung, rfl⟩ := (h.rungs t).2 ht
  by_contra hle
  have hmem : rung ∈ eligible low now ladder := by
    simp only [eligible, List.mem_filter, Bool.and_eq_true, decide_eq_true_eq]
    exact ⟨hrung, hlow, by omega⟩
  rw [List.getLast?_eq_none_iff.1 hlast] at hmem
  cases hmem

end Tasks
end Vesta
