import Mathlib.Data.List.Nodup

/-!
# Dictionaries in insertion order

A dictionary lists its entries in the order in which their keys were first put, as the
objects of a scripting language do.  Putting a key that is there keeps its place.
-/

namespace Vesta
namespace Lib

variable {K V : Type}

namespace Entries

section Lookup

variable [BEq K] [LawfulBEq K]

theorem lookup_eq_none_iff {entries : List (K × V)} {key : K} :
    entries.lookup key = none ↔ key ∉ entries.map Prod.fst := by
  rw [List.lookup_eq_none_iff, List.mem_map]
  constructor
  · rintro h ⟨entry, hmem, rfl⟩
    exact absurd (h entry hmem) (by simp)
  · intro h entry hmem
    rw [bne_iff_ne]
    rintro rfl
    exact h ⟨entry, hmem, rfl⟩

theorem lookup_of_mem
    {entries : List (K × V)} {key : K} {value : V}
    (hnodup : (entries.map Prod.fst).Nodup)
    (h : (key, value) ∈ entries) :
    entries.lookup key = some value := by
  induction entries with
  | nil => cases h
  | cons first entries ih =>
      have hfresh := (List.nodup_cons.1 hnodup).1
      rcases List.mem_cons.1 h with rfl | hmem
      · rw [List.lookup_cons, beq_self_eq_true]
      · have hne : key ≠ first.1 := fun heq => hfresh (heq ▸ List.mem_map_of_mem hmem)
        have hfalse : (key == first.1) = false := beq_eq_false_iff_ne.2 hne
        rw [List.lookup_cons, hfalse]
        exact ih (List.nodup_cons.1 hnodup).2 hmem

end Lookup

variable [DecidableEq K]

/-- Put a value under a key: in its place if the key is there, else at the end. -/
def put (key : K) (value : V) (entries : List (K × V)) : List (K × V) :=
  if key ∈ entries.map Prod.fst then
    entries.map fun entry => (entry.1, if entry.1 = key then value else entry.2)
  else
    entries ++ [(key, value)]

theorem keys_put (key : K) (value : V) (entries : List (K × V)) :
    (put key value entries).map Prod.fst =
      if key ∈ entries.map Prod.fst then entries.map Prod.fst
      else entries.map Prod.fst ++ [key] := by
  rw [put]
  split
  · rw [List.map_map]
    rfl
  · rw [List.map_append]
    rfl

/-- A lookup among entries whose values were rewritten by their keys. -/
theorem lookup_map
    {W : Type}
    (f : K → V → W) (entries : List (K × V)) (key : K) :
    (entries.map fun entry => (entry.1, f entry.1 entry.2)).lookup key =
      (entries.lookup key).map (f key) := by
  induction entries with
  | nil => rfl
  | cons entry entries ih =>
      obtain ⟨name, value⟩ := entry
      rw [List.map_cons, List.lookup_cons, List.lookup_cons]
      by_cases hname : key = name
      · subst hname
        simp
      · have hfalse : (key == name) = false := beq_eq_false_iff_ne.2 hname
        simp only [hfalse, ih]

theorem lookup_filter_of_ne
    {key name : K} {entries : List (K × V)}
    (h : name ≠ key) :
    (entries.filter fun entry => entry.1 ≠ key).lookup name = entries.lookup name := by
  induction entries with
  | nil => rfl
  | cons entry entries ih =>
      obtain ⟨first, value⟩ := entry
      by_cases hfirst : first = key
      · have hfalse : (name == first) = false := beq_eq_false_iff_ne.2 (hfirst ▸ h)
        rw [List.filter_cons_of_neg (by simpa using hfirst), ih, List.lookup_cons, hfalse]
      · rw [List.filter_cons_of_pos (by simpa using hfirst), List.lookup_cons, List.lookup_cons, ih]

theorem lookup_put (key : K) (value : V) (entries : List (K × V)) (name : K) :
    (put key value entries).lookup name =
      if name = key then some value else entries.lookup name := by
  rw [put]
  by_cases hkey : key ∈ entries.map Prod.fst
  · rw [if_pos hkey, lookup_map fun name old => if name = key then value else old]
    by_cases hname : name = key
    · subst hname
      have hsome : entries.lookup name ≠ none := fun h => lookup_eq_none_iff.1 h hkey
      obtain ⟨old, hold⟩ := Option.ne_none_iff_exists'.1 hsome
      rw [hold]
      simp
    · simp [hname]
  · rw [if_neg hkey, List.lookup_append]
    by_cases hname : name = key
    · subst hname
      rw [lookup_eq_none_iff.2 hkey, if_pos rfl]
      simp
    · have hfalse : (name == key) = false := beq_eq_false_iff_ne.2 hname
      rw [if_neg hname]
      simp [List.lookup_cons, hfalse]

end Entries

/-- A dictionary has each key once. -/
structure Dict (K V : Type) where
  entries : List (K × V)
  nodup : (entries.map Prod.fst).Nodup := by decide

namespace Dict

variable [DecidableEq K]

def keys (dict : Dict K V) : List K := dict.entries.map Prod.fst

def get (dict : Dict K V) (key : K) : Option V := dict.entries.lookup key

/-- Rewrite every value, by its key. -/
def modify (f : K → V → V) (dict : Dict K V) : Dict K V where
  entries := dict.entries.map fun entry => (entry.1, f entry.1 entry.2)
  nodup := by
    rw [List.map_map]
    exact dict.nodup

def put (key : K) (value : V) (dict : Dict K V) : Dict K V where
  entries := Entries.put key value dict.entries
  nodup := by
    rw [Entries.keys_put]
    split
    · exact dict.nodup
    · rename_i hkey
      exact List.nodup_append.2 ⟨dict.nodup, List.nodup_singleton key,
        fun name hname other hother heq => hkey (List.mem_singleton.1 hother ▸ heq ▸ hname)⟩

theorem get_eq_none_iff {dict : Dict K V} {key : K} :
    dict.get key = none ↔ key ∉ dict.keys :=
  Entries.lookup_eq_none_iff

omit [DecidableEq K] in
@[simp]
theorem keys_modify (f : K → V → V) (dict : Dict K V) : (dict.modify f).keys = dict.keys := by
  rw [keys, modify, List.map_map]
  rfl

theorem keys_put (key : K) (value : V) (dict : Dict K V) :
    (dict.put key value).keys =
      if key ∈ dict.keys then dict.keys else dict.keys ++ [key] :=
  Entries.keys_put key value dict.entries

@[simp]
theorem get_modify (f : K → V → V) (dict : Dict K V) (key : K) :
    (dict.modify f).get key = (dict.get key).map (f key) :=
  Entries.lookup_map f dict.entries key

theorem get_put (key : K) (value : V) (dict : Dict K V) (name : K) :
    (dict.put key value).get name = if name = key then some value else dict.get name :=
  Entries.lookup_put key value dict.entries name

@[simp]
theorem get_put_self (key : K) (value : V) (dict : Dict K V) :
    (dict.put key value).get key = some value := by
  rw [get_put, if_pos rfl]

theorem get_put_of_ne
    {key name : K} {value : V} {dict : Dict K V}
    (h : name ≠ key) :
    (dict.put key value).get name = dict.get name := by
  rw [get_put, if_neg h]

theorem get_of_mem
    {dict : Dict K V} {entry : K × V}
    (h : entry ∈ dict.entries) :
    dict.get entry.1 = some entry.2 :=
  Entries.lookup_of_mem dict.nodup h

omit [DecidableEq K] in
theorem ext_entries
    {dict other : Dict K V}
    (h : dict.entries = other.entries) :
    dict = other := by
  cases dict
  cases other
  cases h
  rfl

/-- A dictionary is its keys, in their order, and what they lead to. -/
theorem ext_get
    {dict other : Dict K V}
    (hkeys : dict.keys = other.keys)
    (hget : ∀ key, dict.get key = other.get key) :
    dict = other := by
  have hlist : ∀ d : Dict K V,
      d.keys.map (fun key => (key, d.get key)) = d.entries.map fun e => (e.1, some e.2) := by
    intro d
    rw [keys, List.map_map]
    exact List.map_congr_left fun entry hentry => by
      rw [Function.comp_apply, get_of_mem hentry]
  have hentries := hlist dict
  rw [hkeys, List.map_congr_left fun key _ => by rw [hget key], hlist other] at hentries
  have hinjective : Function.Injective fun e : K × V => (e.1, some e.2) := by
    rintro ⟨k, v⟩ ⟨k', v'⟩ heq
    simpa using heq
  obtain ⟨entries, hnodup⟩ := dict
  obtain ⟨entries', hnodup'⟩ := other
  have heq : entries = entries' := (List.map_injective_iff.2 hinjective hentries).symm
  subst heq
  rfl

theorem mem_entries_put
    {key : K} {value : V} {dict : Dict K V} {entry : K × V}
    (h : entry ∈ (dict.put key value).entries) :
    entry = (key, value) ∨ entry ∈ dict.entries := by
  have hentries : (dict.put key value).entries = Entries.put key value dict.entries := rfl
  rw [hentries, Entries.put] at h
  split at h
  · obtain ⟨old, hold, rfl⟩ := List.mem_map.1 h
    by_cases hkey : old.1 = key
    · rw [if_pos hkey, hkey]
      exact .inl rfl
    · rw [if_neg hkey]
      exact .inr hold
  · rcases List.mem_append.1 h with h | h
    · exact .inr h
    · exact .inl (List.mem_singleton.1 h)

/-- Putting what is there changes nothing. -/
theorem put_eq_self
    {dict : Dict K V} {key : K} {value : V}
    (h : dict.get key = some value) :
    dict.put key value = dict := by
  have hkey : key ∈ dict.keys := by
    by_contra hnot
    rw [get_eq_none_iff.2 hnot] at h
    cases h
  apply ext_get
  · rw [keys_put, if_pos hkey]
  · intro name
    rw [get_put]
    split
    · rename_i heq
      rw [heq, h]
    · rfl

theorem modify_eq_self
    {f : K → V → V} {dict : Dict K V}
    (h : ∀ key value, dict.get key = some value → f key value = value) :
    dict.modify f = dict := by
  apply ext_get (keys_modify f dict)
  intro key
  rw [get_modify]
  cases hvalue : dict.get key with
  | none => rfl
  | some value => rw [Option.map_some, h key value hvalue]

end Dict
end Lib
end Vesta
