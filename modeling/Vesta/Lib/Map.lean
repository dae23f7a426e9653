import Std.Data.ExtTreeMap
import Std.Data.TreeMap
import Mathlib.Data.List.Basic
import Mathlib.Data.String.Basic

/-!
# Ordered maps, their edits and the edits between two of them

The maps of the development are extensional ordered maps: two maps with the
same lookups are equal, and a map lists its entries in key order.

The second half is the general fact about incremental views.  `diff` lists the
edits that lead from one map to another, the sets of new or changed entries
first and then the drops, and applying them in that order to the old map gives
the new one.
-/

namespace Vesta
namespace Lib

/-- Extensional ordered maps. -/
abbrev Map (K V : Type) [Ord K] : Type := Std.ExtTreeMap K V compare

namespace Map

variable {K V : Type} [Ord K] [Std.TransOrd K] [Std.LawfulEqOrd K]

/-- The values of a map, in the order of their keys. -/
def valueList (m : Map K V) : List V := m.toList.map Prod.snd

theorem mem_valueList {m : Map K V} {v : V} :
    v ∈ valueList m ↔ ∃ k : K, m[k]? = some v := by
  rw [valueList, List.mem_map]
  constructor
  · rintro ⟨⟨k, v⟩, hmem, rfl⟩
    exact ⟨k, Std.ExtTreeMap.mem_toList_iff_getElem?_eq_some.1 hmem⟩
  · rintro ⟨k, hk⟩
    exact ⟨(k, v), Std.ExtTreeMap.mem_toList_iff_getElem?_eq_some.2 hk, rfl⟩

omit [Std.LawfulEqOrd K] in
/-- A map lists each key once. -/
theorem nodup_map_fst_toList (m : Map K V) : (m.toList.map Prod.fst).Nodup := by
  rw [Std.ExtTreeMap.map_fst_toList_eq_keys]
  exact Std.ExtTreeMap.nodup_keys

/-- Setting a key to what it has changes nothing. -/
theorem insert_eq_self
    {m : Map K V} {k : K} {v : V}
    (h : m[k]? = some v) :
    m.insert k v = m := by
  apply Std.ExtTreeMap.ext_getElem?
  intro other
  rw [Std.ExtTreeMap.getElem?_insert]
  split
  · rename_i heq
    rw [← Std.LawfulEqCmp.eq_of_compare heq, h]
  · rfl

/-- Erasing keys one by one empties exactly these. -/
theorem getElem?_foldl_erase {keys : List K} {m : Map K V} {k : K} {v : V} :
    (keys.foldl (fun m j => m.erase j) m)[k]? = some v ↔ k ∉ keys ∧ m[k]? = some v := by
  induction keys generalizing m with
  | nil => simp
  | cons j keys ih =>
      rw [List.foldl_cons, ih, List.mem_cons, not_or, Std.ExtTreeMap.getElem?_erase]
      by_cases hk : j = k
      · simp [hk]
      · have hk' : ¬k = j := fun h => hk h.symm
        simp [hk, hk']

/-- An edit of one key. -/
inductive Edit (K V : Type)
  | set (k : K) (v : V)
  | drop (k : K)

namespace Edit

/-- The key an edit is about. -/
def key : Edit K V → K
  | set k _ => k
  | drop k => k

/-- The map after one edit. -/
def apply (m : Map K V) : Edit K V → Map K V
  | set k v => m.insert k v
  | drop k => m.erase k

end Edit

section Runs

variable [DecidableEq K]

/-- A run of edits that are all sets found in `current` moves each key it edits to `current`. -/
theorem getElem?_foldl_sets
    {current : Map K V} {es : List (Edit K V)}
    (hes : ∀ e ∈ es, ∃ k v, current[k]? = some v ∧ e = .set k v)
    (m : Map K V) (k : K) :
    (es.foldl Edit.apply m)[k]? =
      if k ∈ es.map Edit.key then current[k]? else m[k]? := by
  induction es generalizing m with
  | nil => simp
  | cons e es ih =>
      obtain ⟨j, v, hv, rfl⟩ := hes e List.mem_cons_self
      rw [List.foldl_cons, ih (fun e he => hes e (List.mem_cons_of_mem _ he))]
      by_cases hmem : k ∈ es.map Edit.key
      · simp [hmem]
      · by_cases hk : j = k
        · subst hk
          simp [hmem, Edit.apply, Edit.key, hv]
        · have hk' : ¬k = j := fun h => hk h.symm
          simp [hmem, Edit.apply, Edit.key, hk, hk', Std.ExtTreeMap.getElem?_insert]

/-- A run of drops empties each key it edits. -/
theorem getElem?_foldl_drops
    {es : List (Edit K V)}
    (hes : ∀ e ∈ es, ∃ k, e = .drop k)
    (m : Map K V) (k : K) :
    (es.foldl Edit.apply m)[k]? =
      if k ∈ es.map Edit.key then none else m[k]? := by
  induction es generalizing m with
  | nil => simp
  | cons e es ih =>
      obtain ⟨j, rfl⟩ := hes e List.mem_cons_self
      rw [List.foldl_cons, ih (fun e he => hes e (List.mem_cons_of_mem _ he))]
      by_cases hmem : k ∈ es.map Edit.key
      · simp [hmem]
      · by_cases hk : j = k
        · subst hk
          simp [hmem, Edit.apply, Edit.key]
        · have hk' : ¬k = j := fun h => hk h.symm
          simp [hmem, Edit.apply, Edit.key, hk, hk', Std.ExtTreeMap.getElem?_erase]

/-- Keep the entries the predicate accepts. -/
def retain (p : K → V → Bool) (m : Map K V) : Map K V :=
  (m.toList.filterMap fun e =>
    if p e.1 e.2 then none else some (Edit.drop e.1)).foldl Edit.apply m

@[simp] theorem getElem?_retain
    (p : K → V → Bool) (m : Map K V) (k : K) :
    (retain p m)[k]? = m[k]?.filter (p k) := by
  have hdrops :
      ∀ e ∈ m.toList.filterMap fun e =>
          if p e.1 e.2 then none else some (Edit.drop (V := V) e.1),
        ∃ j, e = .drop j := by
    intro e he
    obtain ⟨⟨j, v⟩, -, he⟩ := List.mem_filterMap.1 he
    split at he
    · cases he
    · exact ⟨j, by cases he; rfl⟩
  rw [retain, getElem?_foldl_drops hdrops]
  split
  · rename_i h
    obtain ⟨e, he, rfl⟩ := List.mem_map.1 h
    obtain ⟨⟨j, v⟩, hv, he⟩ := List.mem_filterMap.1 he
    rw [Std.ExtTreeMap.mem_toList_iff_getElem?_eq_some] at hv
    split at he
    · cases he
    · rename_i hp
      cases he
      simp [Edit.key, hv, Option.filter, hp]
  · rename_i h
    cases hk : m[k]? with
    | none => rfl
    | some v =>
        by_cases hp : p k v
        · simp [Option.filter, hp]
        · refine absurd (List.mem_map.2 ⟨Edit.drop k, ?_, rfl⟩) h
          refine List.mem_filterMap.2 ⟨(k, v), ?_, by simp [hp]⟩
          exact Std.ExtTreeMap.mem_toList_iff_getElem?_eq_some.2 hk

end Runs

/-- The edits that set the entries of `current` that `last` does not have. -/
def upserts [DecidableEq V] (last current : Map K V) : List (Edit K V) :=
  current.toList.filterMap fun e =>
    if last[e.1]? = some e.2 then none else some (.set e.1 e.2)

/-- The edits that drop the keys of `last` that `current` does not have. -/
def drops (last current : Map K V) : List (Edit K V) :=
  last.keys.filterMap fun k =>
    if k ∈ current then none else some (.drop k)

/-- The edits from `last` to `current`, in the order they are to be applied. -/
def diff [DecidableEq V] (last current : Map K V) : List (Edit K V) :=
  upserts last current ++ drops last current

theorem mem_drops
    {last current : Map K V} {e : Edit K V} :
    e ∈ drops last current ↔
      ∃ k, k ∈ last ∧ k ∉ current ∧ e = .drop k := by
  simp only [drops, List.mem_filterMap, Std.ExtTreeMap.mem_keys]
  constructor
  · rintro ⟨k, hk, he⟩
    split at he
    · cases he
    · rename_i hne
      exact ⟨k, hk, hne, by cases he; rfl⟩
  · rintro ⟨k, hk, hne, he⟩
    exact ⟨k, hk, by simp [hne, he]⟩

section Diff

variable [DecidableEq V]

theorem mem_upserts
    {last current : Map K V} {e : Edit K V} :
    e ∈ upserts last current ↔
      ∃ k v, current[k]? = some v ∧ last[k]? ≠ some v ∧ e = .set k v := by
  simp only [upserts, List.mem_filterMap, Prod.exists,
    Std.ExtTreeMap.mem_toList_iff_getElem?_eq_some]
  constructor
  · rintro ⟨k, v, hv, he⟩
    split at he
    · cases he
    · rename_i hne
      exact ⟨k, v, hv, hne, by cases he; rfl⟩
  · rintro ⟨k, v, hv, hne, he⟩
    exact ⟨k, v, hv, by simp [hne, he]⟩

theorem mem_upserts_keys
    {last current : Map K V} {k : K} :
    k ∈ (upserts last current).map Edit.key ↔
      k ∈ current ∧ last[k]? ≠ current[k]? := by
  simp only [List.mem_map, mem_upserts]
  constructor
  · rintro ⟨e, ⟨j, v, hv, hne, rfl⟩, rfl⟩
    refine ⟨?_, by simpa [Edit.key, hv] using hne⟩
    simp [Edit.key, Std.ExtTreeMap.mem_iff_isSome_getElem?, hv]
  · rintro ⟨hk, hne⟩
    obtain ⟨v, hv⟩ := Option.isSome_iff_exists.1
      (Std.ExtTreeMap.mem_iff_isSome_getElem?.1 hk)
    exact ⟨.set k v, ⟨k, v, hv, by simpa [hv] using hne, rfl⟩, rfl⟩

end Diff

theorem mem_drops_keys
    {last current : Map K V} {k : K} :
    k ∈ (drops last current).map Edit.key ↔
      k ∈ last ∧ k ∉ current := by
  simp only [List.mem_map, mem_drops]
  constructor
  · rintro ⟨e, ⟨j, hj, hne, rfl⟩, rfl⟩
    exact ⟨hj, hne⟩
  · rintro ⟨hk, hne⟩
    exact ⟨.drop k, ⟨k, hk, hne, rfl⟩, rfl⟩

/-- The edits from `last` to `current` lead from `last` to `current`. -/
theorem foldl_apply_diff
    [DecidableEq K] [DecidableEq V]
    (last current : Map K V) :
    (diff last current).foldl Edit.apply last = current := by
  apply Std.ExtTreeMap.ext_getElem?
  intro k
  have hsets :
      ∀ e ∈ upserts last current, ∃ k v, current[k]? = some v ∧ e = Edit.set k v := by
    intro e he
    obtain ⟨k, v, hv, -, rfl⟩ := mem_upserts.1 he
    exact ⟨k, v, hv, rfl⟩
  have hdrops : ∀ e ∈ drops last current, ∃ k, e = Edit.drop k := by
    intro e he
    obtain ⟨k, -, -, rfl⟩ := mem_drops.1 he
    exact ⟨k, rfl⟩
  rw [diff, List.foldl_append, getElem?_foldl_drops hdrops, getElem?_foldl_sets hsets]
  by_cases hdrop : k ∈ (drops last current).map Edit.key
  · have hcur : k ∉ current := (mem_drops_keys.1 hdrop).2
    rw [if_pos hdrop, Std.ExtTreeMap.getElem?_eq_none hcur]
  · rw [if_neg hdrop]
    by_cases hset : k ∈ (upserts last current).map Edit.key
    · rw [if_pos hset]
    · rw [if_neg hset]
      by_cases hcur : k ∈ current
      · exact not_not.1 fun hne => hset (mem_upserts_keys.2 ⟨hcur, hne⟩)
      · have hlast : k ∉ last := fun hl => hdrop (mem_drops_keys.2 ⟨hl, hcur⟩)
        rw [Std.ExtTreeMap.getElem?_eq_none hcur, Std.ExtTreeMap.getElem?_eq_none hlast]

end Map

end Lib
end Vesta
