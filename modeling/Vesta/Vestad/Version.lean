import Mathlib.Data.List.Lex
import Vesta.Core.ReleaseVersion
import Vesta.Vestad.FileApi.Handlers

/-!
# How the gateway compares versions, and how its clients do

The gateway reads the parts of a version as 64-bit integers and compares the lists of them
in lexicographic order, where a list comes before its extensions.  A client takes a missing
part for zero and reads the parts as doubles.  So the two can disagree on versions of
different length, and on parts of more than 53 bits; each by itself is a total order.
-/

namespace Vesta
namespace Vestad
namespace Version

open Lib Lib.Rounding Core.ReleaseVersion

/-- `parse::<u64>` -/
def parseU64 (part : Text) : Option Nat := FileApi.parseUnsigned 10 (2 ^ 64) part

/-- The parts of a version that are numbers. -/
def versionParts (version : Text) : List Nat := (version.splitOn '.').filterMap parseU64

def versionLessThan (a b : Text) : Bool := decide (versionParts a < versionParts b)

/-- Whether `versionLessThan` reads a version correctly. -/
def versionComparable (version : Text) : Bool :=
  !version.isEmpty && (version.splitOn '.').all fun part => (parseU64 part).isSome

/-- What to do about state that is stamped with the version that wrote it. -/
inductive VersionGate
  | proceed
  | confirmOlder (stamped current : Text)
  | refuseNewer (stamped current : Text)
deriving DecidableEq

def versionGate (stamped : Option Text) (current : Text) : VersionGate :=
  match stamped with
  | none => .proceed
  | some stamped =>
      if !versionComparable stamped || !versionComparable current then
        .proceed
      else if versionLessThan current stamped then
        .refuseNewer stamped current
      else if versionLessThan stamped current then
        .confirmOlder stamped current
      else
        .proceed

/-! ## Versions that both accept -/

/-- A version that the gateway and its clients both read. -/
structure Accepted (version : Text) : Prop where
  comparable : versionComparable version = true
  parsed : (parseParts version).isSome = true

instance (version : Text) : Decidable (Accepted version) :=
  decidable_of_iff (versionComparable version = true ∧ (parseParts version).isSome = true)
    ⟨fun h => ⟨h.1, h.2⟩, fun h => ⟨h.comparable, h.parsed⟩⟩

theorem lt_of_parseU64
    {part : Text} {n : Nat}
    (h : parseU64 part = some n) :
    n < 2 ^ 64 := by
  rw [parseU64, FileApi.parseUnsigned] at h
  dsimp only at h
  split at h
  · split at h
    · rename_i hlt
      rw [← Option.some.inj h]
      exact hlt
    · cases h
  · cases h

theorem bounded_versionParts (version : Text) : Bounded (versionParts version) := by
  intro n hn
  obtain ⟨part, -, hpart⟩ := List.mem_filterMap.1 hn
  exact lt_of_parseU64 hpart

/-- What a part is that the gateway reads. -/
theorem digits_of_parseU64
    {part : Text}
    (h : (parseU64 part).isSome = true) :
    '-' ∉ part := by
  intro hmem
  rw [parseU64, FileApi.parseUnsigned] at h
  dsimp only at h
  split at h
  · rename_i hdigits
    have hkept : '-' ∈ (stripPrefix ['+'] part).getD part := by
      cases part with
      | nil => cases hmem
      | cons c part =>
          by_cases hplus : '+' = c
          · subst hplus
            simpa [stripPrefix] using hmem
          · simpa [stripPrefix, hplus] using hmem
    have hdigit := List.all_eq_true.1 hdigits.2 '-' hkept
    exact absurd hdigit (by decide)
  · cases h

/-- A part that both read is the same number to both, rounded to a double for the client. -/
theorem number_eq_of_parseU64
    {part : Text} {n : Nat} {x : JsNumber}
    (hgateway : parseU64 part = some n)
    (hclient : number part = some x) :
    x = toDouble n := by
  rw [number] at hclient
  split at hclient
  · rename_i hdigits
    have hsign : stripPrefix ['+'] part = none := by
      cases part with
      | nil => rfl
      | cons c part =>
          have hc := List.all_eq_true.1 hdigits.2 c List.mem_cons_self
          have hplus : '+' ≠ c := by
            rintro rfl
            exact absurd hc (by decide)
          simp [stripPrefix, hplus]
    rw [parseU64, FileApi.parseUnsigned, hsign] at hgateway
    dsimp only [Option.getD_none] at hgateway
    split at hgateway
    · split at hgateway
      · rw [← Option.some.inj hgateway, ← Option.some.inj hclient]
      · cases hgateway
    · cases hgateway
  · cases hclient

theorem mapM_number
    {parts : List Text} {nums : List JsNumber}
    (hgateway : ∀ part ∈ parts, (parseU64 part).isSome = true)
    (hclient : parts.mapM number = some nums) :
    nums = (parts.filterMap parseU64).map toDouble := by
  induction parts generalizing nums with
  | nil =>
      cases hclient
      rfl
  | cons part parts ih =>
      rw [List.mapM_cons] at hclient
      obtain ⟨x, hx, hrest⟩ := Option.bind_eq_some_iff.1 hclient
      obtain ⟨xs, hxs, heq⟩ := Option.bind_eq_some_iff.1 hrest
      obtain ⟨n, hn⟩ := Option.isSome_iff_exists.1 (hgateway part List.mem_cons_self)
      have htail := ih (fun other hother => hgateway other (List.mem_cons_of_mem _ hother)) hxs
      cases heq
      rw [List.filterMap_cons_some hn, List.map_cons, number_eq_of_parseU64 hn hx, htail]

/-- A version that both accept is read by both as the same parts. -/
theorem Accepted.parseParts_eq
    {version : Text}
    (h : Accepted version) :
    parseParts version = some ((versionParts version).map toDouble) := by
  have hcomparable := h.comparable
  rw [versionComparable, Bool.and_eq_true, List.all_eq_true] at hcomparable
  have hhyphen : '-' ∉ version := by
    intro hmem
    have hjoined : ['.'].intercalate (version.splitOn '.') = version :=
      List.intercalate_splitOn '.'
    rw [← hjoined] at hmem
    rcases eq_or_mem_of_mem_intercalate hmem with hdot | ⟨part, hpart, hin⟩
    · cases hdot
    · exact digits_of_parseU64 (hcomparable.2 part hpart) hin
  have hcore : version.takeWhile (· ≠ '-') = version := by
    have hall : ∀ c ∈ version, decide (c ≠ '-') = true := fun c hc =>
      decide_eq_true fun heq => hhyphen (heq ▸ hc)
    have hwhole := @List.takeWhile_append_of_pos _ _ _ [] hall
    simpa using hwhole
  obtain ⟨nums, hnums⟩ := Option.isSome_iff_exists.1 h.parsed
  have hparsed := hnums
  rw [parseParts, hcore] at hparsed
  obtain ⟨hmapM, -⟩ := Option.filter_eq_some_iff.1 hparsed
  rw [hnums, mapM_number hcomparable.2 hmapM]
  rfl

/-! ## Two orders -/

/-- Two lists of parts are ordered alike.  Where one list ends, what is left of the other is not
all zeros; and where two parts differ they are different doubles, or else the rest decides for
the same side. -/
def OrderedAlike : List Nat → List Nat → Prop
  | [], [] => True
  | [], longer => ∃ part ∈ longer, part ≠ 0
  | longer, [] => ∃ part ∈ longer, part ≠ 0
  | x :: left, y :: right =>
      if x = y then
        OrderedAlike left right
      else
        roundTo 53 x ≠ roundTo 53 y ∨ (x < y ∧ Below left right) ∨ (y < x ∧ Below right left)

/-- A first part that is less decides for its side, or leaves it to the rest when it is the same
double. -/
theorem below_first_iff
    {x y : Nat} {left right : List Nat}
    (hlt : x < y) :
    ((roundTo 53 x < roundTo 53 y ∨ (roundTo 53 x = roundTo 53 y ∧ Below left right)) ∧
        ¬ (roundTo 53 y < roundTo 53 x ∨ (roundTo 53 y = roundTo 53 x ∧ Below right left))) ↔
      roundTo 53 x ≠ roundTo 53 y ∨ Below left right := by
  have hle : roundTo 53 x ≤ roundTo 53 y := roundTo_mono (by decide) hlt.le
  by_cases hsame : roundTo 53 x = roundTo 53 y
  · rw [hsame]
    simp only [lt_irrefl, true_and, false_or, ne_eq, not_true_eq_false, and_iff_left_iff_imp]
    exact Below.asymm
  · have hless : roundTo 53 x < roundTo 53 y := Nat.lt_of_le_of_ne hle hsame
    simp [hsame, hless, hless.not_gt, Ne.symm hsame]

/-- The lists are ordered alike when padding and rounding keep their lexicographic order. -/
theorem orderedAlike_iff
    {left right : List Nat} :
    OrderedAlike left right ↔
      (Below left right ↔ left < right) ∧ (Below right left ↔ right < left) := by
  induction left generalizing right with
  | nil =>
      cases right with
      | nil => simp [OrderedAlike, not_below_self]
      | cons y right => simp [OrderedAlike, nil_below_iff, not_below_nil]
  | cons x left ih =>
      cases right with
      | nil => simp [OrderedAlike, nil_below_iff, not_below_nil]
      | cons y right =>
          rw [OrderedAlike, @below_iff (x :: left), @below_iff (y :: right), List.cons_lt_cons_iff,
            List.cons_lt_cons_iff]
          simp only [partAt_cons_zero, List.tail_cons]
          rcases Nat.lt_trichotomy x y with hlt | heq | hgt
          · have hfirst := @below_first_iff x y left right hlt
            rw [if_neg hlt.ne]
            simp only [hlt, hlt.ne, hlt.ne', hlt.not_gt, true_and, false_and, or_false, iff_true,
              iff_false]
            exact hfirst.symm
          · subst heq
            simp [ih]
          · have hfirst := @below_first_iff y x right left hgt
            rw [if_neg hgt.ne', ne_comm]
            simp only [hgt, hgt.ne, hgt.ne', hgt.not_gt, true_and, false_and, or_false, false_or,
              iff_true, iff_false]
            exact hfirst.symm.trans and_comm

/-- The order of the gateway, as a client writes it. -/
def gatewayOrder (a b : Text) : Int :=
  if versionLessThan a b then -1 else if versionLessThan b a then 1 else 0

/-- What the gate makes of the order of a stamp and the current version. -/
def gateOf (order : Int) (stamped current : Text) : VersionGate :=
  if order = 1 then .refuseNewer stamped current
  else if order = -1 then .confirmOlder stamped current
  else .proceed

/-- A client finds the order that the gateway and its gate go by. -/
structure Agree (a b : Text) : Prop where
  compare : compareReleaseVersions a b = some (gatewayOrder a b)
  gate : ∀ order, compareReleaseVersions a b = some order →
    versionGate (some a) b = gateOf order a b

/-- A strict total order up to equality. -/
structure StrictTotal (less equal : Text → Text → Prop) : Prop where
  irrefl : ∀ {a}, Accepted a → ¬ less a a
  trans : ∀ {a b c}, Accepted a → Accepted b → Accepted c → less a b → less b c → less a c
  exactlyOne : ∀ {a b}, Accepted a → Accepted b →
    (less a b ∧ ¬ equal a b ∧ ¬ less b a) ∨ (¬ less a b ∧ equal a b ∧ ¬ less b a) ∨
      (¬ less a b ∧ ¬ equal a b ∧ less b a)
  respects : ∀ {a b c}, Accepted a → Accepted b → Accepted c → equal a b →
    (less a c ↔ less b c) ∧ (less c a ↔ less c b)

section Orders

variable {a b : Text}

theorem compareReleaseVersions_eq
    (ha : Accepted a)
    (hb : Accepted b) :
    ∃ order, compareReleaseVersions a b = some order ∧
      Compared (versionParts a) (versionParts b) order := by
  rw [compareReleaseVersions, ha.parseParts_eq, hb.parseParts_eq]
  exact ⟨_, rfl, compared (bounded_versionParts a) (bounded_versionParts b)⟩

theorem older_iff
    (ha : Accepted a)
    (hb : Accepted b) :
    compareReleaseVersions a b = some (-1) ↔ Below (versionParts a) (versionParts b) := by
  obtain ⟨order, horder, hcompared⟩ := compareReleaseVersions_eq ha hb
  rw [horder]
  cases hcompared with
  | older h => exact iff_of_true rfl h
  | newer h => exact iff_of_false (by decide) h.asymm
  | equal hold _ => exact iff_of_false (by decide) hold

theorem same_iff
    (ha : Accepted a)
    (hb : Accepted b) :
    compareReleaseVersions a b = some 0 ↔
      ¬ Below (versionParts a) (versionParts b) ∧ ¬ Below (versionParts b) (versionParts a) := by
  obtain ⟨order, horder, hcompared⟩ := compareReleaseVersions_eq ha hb
  rw [horder]
  cases hcompared with
  | older h => exact iff_of_false (by decide) fun hnot => hnot.1 h
  | newer h => exact iff_of_false (by decide) fun hnot => hnot.2 h
  | equal hold hnew => exact iff_of_true rfl ⟨hold, hnew⟩

theorem versionLessThan_iff : versionLessThan a b = true ↔ versionParts a < versionParts b :=
  decide_eq_true_iff

/-- A client's order is the gateway's when both decide the same pairs. -/
theorem gatewayOrder_eq_iff
    {order : Int}
    (hcompared : Compared (versionParts a) (versionParts b) order) :
    order = gatewayOrder a b ↔ OrderedAlike (versionParts a) (versionParts b) := by
  rw [orderedAlike_iff, gatewayOrder]
  simp only [versionLessThan_iff]
  rcases lt_trichotomy (versionParts a) (versionParts b) with hlt | heq | hgt
  · rw [if_pos hlt]
    cases hcompared with
    | older h => simp [h, h.asymm, hlt, hlt.not_gt]
    | newer h => simp [h, h.asymm, hlt]
    | equal hold hnew => simp [hold, hlt]
  · rw [heq, if_neg (lt_irrefl _)]
    rw [heq] at hcompared
    cases hcompared with
    | older h => exact absurd h not_below_self
    | newer h => exact absurd h not_below_self
    | equal hold hnew => simp [not_below_self]
  · rw [if_neg hgt.not_gt, if_pos hgt]
    cases hcompared with
    | older h => simp [h, hgt.not_gt]
    | newer h => simp [h, h.asymm, hgt, hgt.not_gt]
    | equal hold hnew => simp [hnew, hgt]

theorem agree_iff
    (ha : Accepted a)
    (hb : Accepted b) :
    Agree a b ↔ OrderedAlike (versionParts a) (versionParts b) := by
  obtain ⟨order, horder, hcompared⟩ := compareReleaseVersions_eq ha hb
  rw [← gatewayOrder_eq_iff hcompared]
  constructor
  · intro h
    exact Option.some.inj (horder.symm.trans h.compare)
  · intro h
    refine ⟨horder.trans (congrArg some h), fun other hother => ?_⟩
    obtain rfl : order = other := Option.some.inj (horder.symm.trans hother)
    rw [h, versionGate, ha.comparable, hb.comparable, gatewayOrder, gateOf]
    have hasymm : versionLessThan a b = true → ¬ versionLessThan b a = true := by
      rw [versionLessThan_iff, versionLessThan_iff]
      exact fun hlt => hlt.not_gt
    by_cases hless : versionLessThan a b = true
    · simp [hless, hasymm hless]
    · by_cases hmore : versionLessThan b a = true <;> simp [hless, hmore]

/-- The gateway's order of versions. -/
theorem strictTotal_gateway :
    StrictTotal (fun a b => versionLessThan a b = true)
      fun a b => versionParts a = versionParts b where
  irrefl _ h := lt_irrefl _ (versionLessThan_iff.1 h)
  trans _ _ _ hab hbc :=
    versionLessThan_iff.2 ((versionLessThan_iff.1 hab).trans (versionLessThan_iff.1 hbc))
  exactlyOne {a b} _ _ := by
    simp only [versionLessThan_iff]
    rcases lt_trichotomy (versionParts a) (versionParts b) with hlt | heq | hgt
    · exact .inl ⟨hlt, hlt.ne, hlt.not_gt⟩
    · exact .inr (.inl ⟨heq.not_lt, heq, heq.not_gt⟩)
    · exact .inr (.inr ⟨hgt.not_gt, hgt.ne', hgt⟩)
  respects _ _ _ heq := by
    simp only [versionLessThan_iff, heq, and_self]

/-- A client's order of versions. -/
theorem strictTotal_client :
    StrictTotal (fun a b => compareReleaseVersions a b = some (-1))
      fun a b => compareReleaseVersions a b = some 0 where
  irrefl ha h := not_below_self ((older_iff ha ha).1 h)
  trans ha hb hc hab hbc :=
    (older_iff ha hc).2 (((older_iff ha hb).1 hab).trans ((older_iff hb hc).1 hbc))
  exactlyOne {a b} ha hb := by
    simp only [older_iff ha hb, older_iff hb ha, same_iff ha hb]
    obtain ⟨order, -, hcompared⟩ := compareReleaseVersions_eq ha hb
    cases hcompared with
    | older h => exact .inl ⟨h, fun hnot => hnot.1 h, h.asymm⟩
    | newer h => exact .inr (.inr ⟨h.asymm, fun hnot => hnot.2 h, h⟩)
    | equal hold hnew => exact .inr (.inl ⟨hold, ⟨hold, hnew⟩, hnew⟩)
  respects {a b c} ha hb hc heq := by
    obtain ⟨hold, hnew⟩ := (same_iff ha hb).1 heq
    have hparts := partAt_eq_of_not_below hold hnew
    simp only [older_iff ha hc, older_iff hb hc, older_iff hc ha, older_iff hc hb]
    exact ⟨below_congr hparts fun _ => rfl, below_congr (fun _ => rfl) hparts⟩

end Orders

/-- On versions that both accept, the gateway and a client each go by a strict total order, and
they agree on two versions exactly if the lists of parts are ordered alike. -/
theorem versions_agree_iff
    (a b : Text)
    (ha : Accepted a)
    (hb : Accepted b) :
    (Agree a b ↔ OrderedAlike (versionParts a) (versionParts b)) ∧
      StrictTotal (fun a b => versionLessThan a b = true)
        (fun a b => versionParts a = versionParts b) ∧
      StrictTotal (fun a b => compareReleaseVersions a b = some (-1))
        fun a b => compareReleaseVersions a b = some 0 :=
  ⟨agree_iff ha hb, strictTotal_gateway, strictTotal_client⟩

/-- To the gateway `1.0` comes before `1.0.0`, and to a client they are the same. -/
theorem shorter_version_disagrees :
    Accepted "1.0".toList ∧ Accepted "1.0.0".toList ∧
      versionLessThan "1.0".toList "1.0.0".toList = true ∧
      compareReleaseVersions "1.0".toList "1.0.0".toList = some 0 ∧
      ¬ Agree "1.0".toList "1.0.0".toList := by
  have hless : versionLessThan "1.0".toList "1.0.0".toList = true := by decide +kernel
  have hsame : compareReleaseVersions "1.0".toList "1.0.0".toList = some 0 := by decide +kernel
  refine ⟨by decide +kernel, by decide +kernel, hless, hsame, fun h => ?_⟩
  have horder := h.compare
  rw [hsame, gatewayOrder, if_pos hless] at horder
  cases horder

/-- Releases of three parts. -/
theorem versions_agree_releases : Agree "0.9.12".toList "0.10.1".toList :=
  (versions_agree_iff "0.9.12".toList "0.10.1".toList (by decide +kernel)
    (by decide +kernel)).1.2 (by
      have hparts : versionParts "0.9.12".toList = [0, 9, 12] ∧
          versionParts "0.10.1".toList = [0, 10, 1] := by
        decide +kernel
      rw [hparts.1, hparts.2, OrderedAlike, if_pos rfl, OrderedAlike, if_neg (by decide)]
      exact .inl (by decide +kernel))

end Version
end Vestad
end Vesta
