import Vesta.Lib.Map

/-!
# Values and codecs

The syntax tree of a JSON text, and codecs between a type and its trees.  A codec
carries the proof that it decodes what it encodes, so that a record's codec has it from
those of its fields.  A record is an object, whose unknown keys are skipped, or an array
of its fields in order, of which the last ones may be missing.
-/

namespace Vesta
namespace Lib

inductive Value
  | null
  | bool (b : Bool)
  | nat (n : Nat)
  /-- A negative or fractional number, as it stands there. -/
  | number (digits : String)
  | str (s : String)
  | arr (values : List Value)
  | obj (entries : List (String × Value))

/-- Encoding to trees and decoding them, and the round trip. -/
structure Codec (α : Type) where
  encode : α → Value
  decode : Value → Option α
  decode_encode : ∀ a, decode (encode a) = some a

namespace Codec

variable {α : Type}

def bool : Codec Bool where
  encode b := .bool b
  decode
    | .bool b => some b
    | _ => none
  decode_encode _ := rfl

/-- An unsigned integer of so many bits. -/
def unsigned (bits : Nat) : Codec (Fin (2 ^ bits)) where
  encode n := .nat n
  decode
    | .nat n => if h : n < 2 ^ bits then some ⟨n, h⟩ else none
    | _ => none
  decode_encode n := by simp

def str : Codec String where
  encode s := .str s
  decode
    | .str s => some s
    | _ => none
  decode_encode _ := rfl

/-- Nothing is `null`. -/
def option
    (codec : Codec α)
    (hnull : ∀ a, codec.encode a ≠ .null) :
    Codec (Option α) where
  encode
    | none => .null
    | some a => codec.encode a
  decode
    | .null => some none
    | value => (codec.decode value).map some
  decode_encode
    | none => rfl
    | some a => by
        have hne := hnull a
        simp only
        rw [codec.decode_encode a]
        rfl

def list (codec : Codec α) : Codec (List α) where
  encode as := .arr (as.map codec.encode)
  decode
    | .arr values => values.mapM codec.decode
    | _ => none
  decode_encode as := by
    have hround : ∀ a ∈ as, (codec.decode ∘ codec.encode) a = some a :=
      fun a _ => codec.decode_encode a
    simp only [List.mapM_map]
    induction as with
    | nil => rfl
    | cons a as ih =>
        rw [List.forall_mem_cons] at hround
        rw [List.mapM_cons, hround.1, ih hround.2]
        rfl

end Codec

/-- The map of the entries of a map is the map. -/
theorem Map.ofList_toList
    {K V : Type} [Ord K] [Std.TransOrd K] [Std.LawfulEqOrd K] [DecidableEq K]
    (m : Map K V) :
    (Std.ExtTreeMap.ofList m.toList compare : Map K V) = m := by
  apply Std.ExtTreeMap.ext_getElem?
  intro k
  cases hk : m[k]? with
  | some v =>
      have hmem : (k, v) ∈ m.toList := Std.ExtTreeMap.mem_toList_iff_getElem?_eq_some.2 hk
      exact Std.ExtTreeMap.getElem?_ofList_of_mem Std.ReflCmp.compare_self
        Std.ExtTreeMap.distinct_keys_toList hmem
  | none =>
      apply Std.ExtTreeMap.getElem?_ofList_of_contains_eq_false
      rw [Bool.eq_false_iff]
      intro hcontains
      have hmem : k ∈ m.toList.map Prod.fst := by simpa using hcontains
      rw [Std.ExtTreeMap.map_fst_toList_eq_keys, Std.ExtTreeMap.mem_keys,
        Std.ExtTreeMap.mem_iff_isSome_getElem?, hk] at hmem
      cases hmem

namespace Codec

variable {α : Type}

/-- A map is an object; a later entry of a key replaces an earlier one. -/
def map (codec : Codec α) : Codec (Map String α) where
  encode m := .obj (m.toList.map fun entry => (entry.1, codec.encode entry.2))
  decode
    | .obj entries =>
        (entries.mapM fun entry => (codec.decode entry.2).map (entry.1, ·)).map
          (Std.ExtTreeMap.ofList · compare)
    | _ => none
  decode_encode m := by
    have hentries :
        ((m.toList.map fun entry => (entry.1, codec.encode entry.2)).mapM fun entry =>
          (codec.decode entry.2).map (entry.1, ·)) = some m.toList := by
      rw [List.mapM_map]
      generalize m.toList = entries
      induction entries with
      | nil => rfl
      | cons entry entries ih =>
          rw [List.mapM_cons, Function.comp_apply, codec.decode_encode, Option.map_some, ih]
          rfl
    simp only [hentries, Option.map_some, Map.ofList_toList]

end Codec

/-! ## Records -/

namespace Value

/-- An object, or an array of at most so many fields. -/
def isRecord (fields : Nat) : Value → Bool
  | .obj _ => true
  | .arr values => values.length ≤ fields
  | _ => false

/-- The values that a record has for a field, by its key or its place. -/
def fieldValues (place : Nat) (key : String) : Value → List Value
  | .obj entries => (entries.filter (·.1 == key)).map Prod.snd
  | .arr values => values[place]?.toList
  | _ => []

end Value

/-- A field: the default when there is none, and no record when there are two. -/
def Codec.field {α : Type}
    (codec : Codec α) (value : Value) (place : Nat) (key : String) (default : Option α) :
    Option α :=
  match value.fieldValues place key with
  | [] => default
  | [value] => codec.decode value
  | _ => none

end Lib
end Vesta
