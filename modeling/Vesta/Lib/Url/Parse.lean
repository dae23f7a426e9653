import Mathlib.Data.List.DropRight
import Vesta.Lib.Url.Percent

/-!
# The path and the query of a URL

The parser is the part of the URL standard that a special URL with a known authority
goes through: the white space of the input is removed, the path ends at the first
question mark or number sign, dot segments are resolved and each other segment is
percent-encoded.  A percent-encoded path that was decoded on the way comes out as it
went in under conditions that `Survives` lists, and under no others.
-/

namespace Vesta
namespace Lib
namespace Url

def isControlOrSpace (c : Char) : Bool := c.toNat ≤ 32

def isTabOrNewline (c : Char) : Bool := c = '\t' || c = '\n' || c = '\r'

/-- The input without the white space that is removed before it is read. -/
def stripped (url : Text) : Text :=
  ((url.dropWhile isControlOrSpace).rdropWhile isControlOrSpace).filter fun c =>
    !isTabOrNewline c

def endsPath (c : Char) : Bool := c = '?' || c = '#'

/-- The path up to its end, and the query when a question mark ends it. -/
def splitTarget (target : Text) : Text × Option Text :=
  let path := target.takeWhile fun c => !endsPath c
  match target.dropWhile fun c => !endsPath c with
  | '?' :: query => (path, some (query.takeWhile fun c => c ≠ '#'))
  | _ => (path, none)

def isSingleDot (segment : Text) : Bool :=
  ["." , "%2e"].any fun dot => segment.map Char.toLower = dot.toList

def isDoubleDot (segment : Text) : Bool :=
  ["..", ".%2e", "%2e.", "%2e%2e"].any fun dots => segment.map Char.toLower = dots.toList

/-- The path state, from the path so far and the segments to come. -/
def pathState : List Text → List Text → List Text
  | path, [] => path
  | path, [last] =>
      if isDoubleDot last then
        path.dropLast ++ [[]]
      else if isSingleDot last then
        path ++ [[]]
      else
        path ++ [last]
  | path, segment :: segments =>
      if isDoubleDot segment then
        pathState path.dropLast segments
      else if isSingleDot segment then
        pathState path segments
      else
        pathState (path ++ [segment]) segments

/-- A path with its backslashes read as slashes. -/
def slashed (path : Text) : Text := path.map fun c => if c = Char.ofNat 92 then '/' else c

/-- The segments of a path that starts with a slash. -/
def segments (path : Text) : List Text := ((slashed path).drop 1).splitOn '/'

/-- The path of these segments, each encoded. -/
def serialize (segments : List Text) : Text :=
  segments.flatMap fun segment => '/' :: percentEncode pathEncoded segment

/-- The path that is parsed from a text without its query. -/
def parsePath (path : Text) : Text := serialize (pathState [] (segments path))

def endsAuthority (c : Char) : Bool := c = '/' || c = Char.ofNat 92 || endsPath c

/-- The path and the query of a URL of this special scheme. -/
def parse (scheme url : Text) : Option (Text × Option Text) :=
  (stripPrefix (scheme ++ "://".toList) (stripped url)).map fun rest =>
    let target := splitTarget (rest.dropWhile fun c => !endsAuthority c)
    (parsePath target.1, target.2.map (percentEncode queryEncoded))

/-- The path and the query of a URL, which a parser that rewrites nothing gives. -/
def parseVerbatim (scheme url : Text) : Option (Text × Option Text) :=
  (stripPrefix (scheme ++ "://".toList) url).map fun rest =>
    splitTarget (rest.dropWhile fun c => !(c = '/' || endsPath c))

example : parse "http".toList "http://10.0.0.2:80/a/%2E./b c?x='y#z".toList =
    some ("/b%20c".toList, some "x=%27y".toList) := by decide

/-! ## Paths that the parser keeps -/

section Path

def isDots (segment : Text) : Bool := isDoubleDot segment || isSingleDot segment

theorem ne_nil_of_isDots
    {segment : Text}
    (h : isDots segment = true) :
    segment ≠ [] := by
  rintro rfl
  exact absurd h (by decide)

theorem serialize_append (a b : List Text) : serialize (a ++ b) = serialize a ++ serialize b :=
  List.flatMap_append

theorem length_serialize_cons (segment : Text) (segments : List Text) :
    (serialize (segment :: segments)).length =
      1 + (percentEncode pathEncoded segment).length + (serialize segments).length := by
  simp only [serialize, List.flatMap_cons, List.length_append, List.length_cons]
  omega

theorem length_serialize_dropLast (path : List Text) :
    (serialize path.dropLast).length ≤ (serialize path).length := by
  rcases List.eq_nil_or_concat path with rfl | ⟨init, last, rfl⟩
  · exact Nat.le_refl _
  · rw [List.concat_eq_append, List.dropLast_concat, serialize_append, List.length_append]
    omega

/-- Dot segments make the path shorter, and without them the path state collects it. -/
theorem length_pathState
    (path segments : List Text) :
    (serialize (pathState path segments)).length ≤
        (serialize path).length + (serialize segments).length ∧
      ((serialize path).length + (serialize segments).length ≤
          (serialize (pathState path segments)).length →
        ∀ segment ∈ segments, isDots segment = false) := by
  have hdots :
      ∀ segment : Text, isDots segment = true →
        0 < (percentEncode pathEncoded segment).length := fun segment h =>
    Nat.lt_of_lt_of_le (List.length_pos_of_ne_nil (ne_nil_of_isDots h))
      (length_le_percentEncode segment)
  have hempty : (serialize []).length = 0 := rfl
  have hblank : (percentEncode pathEncoded []).length = 0 := rfl
  induction path, segments using pathState.induct with
  | case1 path => simp [pathState, hempty]
  | case2 path last hlast =>
      have hpos := hdots last (by simp [isDots, hlast])
      have hdrop := length_serialize_dropLast path
      simp only [pathState, hlast, if_true, serialize_append, List.length_append,
        length_serialize_cons, hempty, hblank]
      exact ⟨by omega, fun hle => by omega⟩
  | case3 path last hdouble hlast =>
      have hpos := hdots last (by simp [isDots, hlast])
      simp only [pathState, hdouble, hlast, if_true, if_false, serialize_append,
        List.length_append, length_serialize_cons, hempty, hblank, Bool.false_eq_true]
      exact ⟨by omega, fun hle => by omega⟩
  | case4 path last hdouble hsingle =>
      simp only [pathState, hdouble, hsingle, if_false, serialize_append, List.length_append,
        Bool.false_eq_true]
      refine ⟨Nat.le_refl _, fun _ segment hmem => ?_⟩
      rw [List.mem_singleton.1 hmem]
      simp [isDots, hdouble, hsingle]
  | case5 path segment segments hne hdouble ih =>
      have hpos := hdots segment (by simp [isDots, hdouble])
      have hdrop := length_serialize_dropLast path
      rw [pathState.eq_3 _ _ _ hne, if_pos hdouble, length_serialize_cons]
      exact ⟨by omega, fun hle => by omega⟩
  | case6 path segment segments hne hdouble hsingle ih =>
      have hpos := hdots segment (by simp [isDots, hsingle])
      rw [pathState.eq_3 _ _ _ hne, if_neg hdouble, if_pos hsingle, length_serialize_cons]
      exact ⟨by omega, fun hle => by omega⟩
  | case7 path segment segments hne hdouble hsingle ih =>
      have hsegment : isDots segment = false := by simp [isDots, hdouble, hsingle]
      rw [serialize_append, List.length_append, length_serialize_cons, hempty] at ih
      rw [pathState.eq_3 _ _ _ hne, if_neg hdouble, if_neg hsingle, length_serialize_cons,
        List.forall_mem_cons]
      exact ⟨by omega, fun hle => ⟨hsegment, ih.2 (by omega)⟩⟩

theorem pathState_of_forall
    {path segments : List Text}
    (h : ∀ segment ∈ segments, isDots segment = false) :
    pathState path segments = path ++ segments := by
  have hkeep : ∀ segment : Text, isDots segment = false →
      ¬ isDoubleDot segment = true ∧ ¬ isSingleDot segment = true := by
    intro segment h
    rw [isDots, Bool.or_eq_false_iff] at h
    simp [h.1, h.2]
  induction path, segments using pathState.induct with
  | case1 path => simp [pathState]
  | case2 path last hlast => exact absurd hlast (hkeep last (h last (by simp))).1
  | case3 path last _ hlast => exact absurd hlast (hkeep last (h last (by simp))).2
  | case4 path last hdouble hsingle =>
      rw [pathState, if_neg hdouble, if_neg hsingle]
  | case5 path segment segments hne hdouble =>
      exact absurd hdouble (hkeep segment (h segment (by simp))).1
  | case6 path segment segments hne _ hsingle =>
      exact absurd hsingle (hkeep segment (h segment (by simp))).2
  | case7 path segment segments hne hdouble hsingle ih =>
      rw [pathState.eq_3 _ _ _ hne, if_neg hdouble, if_neg hsingle,
        ih fun other hother => h other (List.mem_cons_of_mem _ hother)]
      simp

theorem mem_pathState
    {path segments : List Text} {segment : Text}
    (h : segment ∈ pathState path segments) :
    segment ∈ path ∨ segment ∈ segments ∨ segment = [] := by
  induction path, segments using pathState.induct with
  | case1 path => exact Or.inl (by simpa [pathState] using h)
  | case2 path last hlast =>
      rw [pathState, if_pos hlast, List.mem_append, List.mem_singleton] at h
      exact h.imp (fun h => (List.dropLast_sublist path).subset h) Or.inr
  | case3 path last hdouble hlast =>
      rw [pathState, if_neg hdouble, if_pos hlast, List.mem_append, List.mem_singleton] at h
      exact h.imp_right Or.inr
  | case4 path last hdouble hsingle =>
      rw [pathState, if_neg hdouble, if_neg hsingle, List.mem_append] at h
      exact h.imp_right Or.inl
  | case5 path other segments hne hdouble ih =>
      rw [pathState.eq_3 _ _ _ hne, if_pos hdouble] at h
      exact (ih h).imp (fun h => (List.dropLast_sublist path).subset h)
        (Or.imp_left (List.mem_cons_of_mem _))
  | case6 path other segments hne hdouble hsingle ih =>
      rw [pathState.eq_3 _ _ _ hne, if_neg hdouble, if_pos hsingle] at h
      exact (ih h).imp_right (Or.imp_left (List.mem_cons_of_mem _))
  | case7 path other segments hne hdouble hsingle ih =>
      rw [pathState.eq_3 _ _ _ hne, if_neg hdouble, if_neg hsingle] at h
      rcases ih h with hpath | hsegments | hempty
      · rcases List.mem_append.1 hpath with hpath | hother
        · exact Or.inl hpath
        · exact Or.inr (Or.inl (by rw [List.mem_singleton.1 hother]; exact List.mem_cons_self))
      · exact Or.inr (Or.inl (List.mem_cons_of_mem _ hsegments))
      · exact Or.inr (Or.inr hempty)

theorem serialize_eq (segments : List Text) :
    serialize segments =
      percentEncode pathEncoded (segments.flatMap fun segment => '/' :: segment) := by
  induction segments with
  | nil => rfl
  | cons segment segments ih =>
      rw [serialize, List.flatMap_cons, ← serialize, ih, List.flatMap_cons, percentEncode_append]
      rfl

theorem serialize_segments
    {path : Text}
    (h : path.head? = some '/') :
    serialize (segments path) = percentEncode pathEncoded (slashed path) := by
  cases path with
  | nil => cases h
  | cons c rest =>
      cases h
      rw [serialize_eq, segments, flatMap_splitOn]
      rfl

theorem length_percentEncode_slashed (path : Text) :
    (percentEncode pathEncoded (slashed path)).length =
      (percentEncode pathEncoded path).length := by
  induction path with
  | nil => rfl
  | cons c path ih =>
      have hc : (percentEncode pathEncoded [if c = Char.ofNat 92 then '/' else c]).length =
          (percentEncode pathEncoded [c]).length := by
        by_cases hc : c = Char.ofNat 92
        · rw [hc]
          rfl
        · rw [if_neg hc]
      rw [slashed, List.map_cons, ← slashed, length_percentEncode_cons,
        length_percentEncode_cons c, ih, hc]

theorem slashed_of_not_mem
    {path : Text}
    (h : Char.ofNat 92 ∉ path) :
    slashed path = path := by
  refine (List.map_congr_left fun c hc => ?_).trans (List.map_id path)
  have hne : c ≠ Char.ofNat 92 := by
    rintro rfl
    exact h hc
  rw [if_neg hne, id]

/-- A parsed path is of characters that the parser leaves. -/
theorem kept_of_mem_parsePath
    {path : Text} {c : Char}
    (h : c ∈ parsePath path) :
    pathEncoded c = false ∧ c ≠ Char.ofNat 92 := by
  obtain ⟨segment, hsegment, hc⟩ := List.mem_flatMap.1 h
  rcases List.mem_cons.1 hc with rfl | hc
  · decide
  · obtain ⟨d, hd, hc⟩ := List.mem_flatMap.1 hc
    split at hc
    · obtain ⟨b, -, hb⟩ := List.mem_flatMap.1 hc
      obtain ⟨hpath, -, hslash⟩ := not_encoded_of_mem_percentByte b hb
      exact ⟨hpath, hslash⟩
    · rename_i hencoded
      rw [List.mem_singleton.1 hc]
      refine ⟨Bool.eq_false_iff.2 hencoded, ?_⟩
      rintro rfl
      rcases mem_pathState hsegment with hpath | hsegments | hempty
      · exact List.not_mem_nil hpath
      · have hmem : Char.ofNat 92 ∈ (segments path).flatMap fun segment => '/' :: segment :=
          List.mem_flatMap.2 ⟨segment, hsegments, List.mem_cons_of_mem _ hd⟩
        rw [segments, flatMap_splitOn, List.mem_cons] at hmem
        rcases hmem with hslash | hmem
        · exact absurd hslash (by decide)
        · obtain ⟨e, -, he⟩ := List.mem_map.1 (List.mem_of_mem_drop hmem)
          split at he
          · exact absurd he (by decide)
          · exact absurd he ‹_›
      · rw [hempty] at hd
        exact List.not_mem_nil hd

theorem pathEncoded_of_le (c : Char) (h : 128 ≤ c.toNat) : pathEncoded c = true := by
  have hc : 126 < c.toNat := by omega
  simp [pathEncoded, isControlEncoded, hc]

/-- The backslash byte is a backslash or its escape. -/
theorem eq_of_backslash_mem_bytes
    {t : Token}
    (h : 92 ∈ t.bytes) :
    t = .plain (Char.ofNat 92) ∨ ∃ high low, t = .escape high low 92 := by
  cases t with
  | plain c =>
      by_cases hc : c.toNat < 128
      · rw [Token.bytes, utf8EncodeChar_of_lt hc, List.mem_singleton] at h
        have hcode := congrArg UInt8.toNat h
        simp only [UInt8.toNat_ofNat', UInt8.reduceToNat] at hcode
        have hvalue : c.toNat = 92 := by omega
        exact Or.inl (by rw [← hvalue, Char.ofNat_toNat])
      · exact absurd (le_of_mem_utf8EncodeChar (Nat.not_lt.1 hc) h) (by decide)
  | escape high low b =>
      rw [Token.bytes, List.mem_singleton] at h
      exact Or.inr ⟨high, low, by rw [h]⟩

/-- The parsed path is the text that was decoded when nothing of it is removed, no
backslash and no dot segment is in it, and each of the tokens is what its bytes are
encoded as; and only then. -/
theorem parsePath_eq_iff
    {ts : List Token} {decoded path : Text}
    (hbytes : utf8 decoded = ts.flatMap Token.bytes)
    (hpath : List.Sublist path decoded)
    (hhead : path.head? = some '/') :
    parsePath path = ts.flatMap Token.text ↔
      path = decoded ∧ Char.ofNat 92 ∉ decoded ∧
        (∀ segment ∈ segments decoded, isDots segment = false) ∧
          ∀ t ∈ ts, t.bytes.flatMap (encodeByte pathEncoded) = t.text := by
  have hencode :
      percentEncode pathEncoded decoded =
        ts.flatMap fun t => t.bytes.flatMap (encodeByte pathEncoded) := by
    rw [percentEncode_eq pathEncoded_of_le, hbytes, List.flatMap_assoc]
  constructor
  · intro heq
    have hkept : ∀ t ∈ ts, ∀ c ∈ t.text, pathEncoded c = false ∧ c ≠ Char.ofNat 92 :=
      fun t ht c hc => kept_of_mem_parsePath (heq ▸ List.mem_flatMap.2 ⟨t, ht, hc⟩)
    have hpieces : ∀ t ∈ ts,
        (t.bytes.flatMap (encodeByte pathEncoded)).length ≤ t.text.length := by
      intro t ht
      cases t with
      | plain c =>
          have hc := (hkept _ ht c (List.mem_singleton_self c)).1
          rw [Token.bytes, encodeByte_utf8EncodeChar pathEncoded_of_le, hc]
          exact Nat.le_refl _
      | escape high low b =>
          rw [Token.bytes, List.flatMap_singleton]
          exact length_encodeByte_le b
    -- every stage of the parser makes the text at most shorter
    have hstate := length_pathState [] (segments path)
    have hsegments := congrArg List.length (serialize_segments hhead)
    have hslashed := length_percentEncode_slashed path
    have hsublist :
        (percentEncode pathEncoded path).length ≤ (percentEncode pathEncoded decoded).length ∧
          ((percentEncode pathEncoded path).length =
            (percentEncode pathEncoded decoded).length → path = decoded) :=
      length_percentEncode_of_sublist hpath
    have htotal := length_flatMap_le hpieces
    have hlength := congrArg List.length heq
    have hnil : (serialize []).length = 0 := rfl
    rw [parsePath] at hlength
    rw [← hencode] at htotal
    have hall : path = decoded := hsublist.2 (by omega)
    have hdots := hstate.2 (by omega)
    subst hall
    have hpiece := length_eq_of_flatMap hpieces (by rw [← hencode]; omega)
    have hback : Char.ofNat 92 ∉ path := by
      intro hmem
      have hbyte : (92 : UInt8) ∈ utf8 path :=
        List.mem_flatMap.2 ⟨_, hmem, by decide⟩
      rw [hbytes] at hbyte
      obtain ⟨t, ht, hb⟩ := List.mem_flatMap.1 hbyte
      rcases eq_of_backslash_mem_bytes hb with rfl | ⟨high, low, rfl⟩
      · exact (hkept _ ht _ (List.mem_singleton_self _)).2 rfl
      · have hshort : (encodeByte pathEncoded 92).length = 3 := hpiece _ ht
        exact absurd hshort (by decide)
    refine ⟨rfl, hback, hdots, eq_of_flatMap_eq hpieces ?_⟩
    rw [← hencode, ← heq, parsePath, pathState_of_forall hdots, List.nil_append,
      serialize_segments hhead, slashed_of_not_mem hback]
  · rintro ⟨rfl, hback, hdots, htokens⟩
    rw [parsePath, pathState_of_forall hdots, List.nil_append, serialize_segments hhead,
      slashed_of_not_mem hback, hencode]
    exact List.flatMap_congr htokens

/-- The path of these tokens comes out of the parser as it stands.  `last` says that the
URL ends with the path. -/
structure Survives (ts : List Token) (decoded : Text) (last : Bool) : Prop where
  encoded : ∀ t ∈ ts, t.bytes.flatMap (encodeByte pathEncoded) = t.text
  kept : ∀ c ∈ decoded, isTabOrNewline c = false ∧ endsPath c = false ∧ c ≠ Char.ofNat 92
  dots : ∀ segment ∈ segments decoded, isDots segment = false
  ending : last = true → ∀ c ∈ decoded.getLast?, isControlOrSpace c = false

/-- The path with the query that follows it. -/
def withQuery (path : Text) (query : Option Text) : Text :=
  match query with
  | none => path
  | some query => path ++ '?' :: query

/-- A query as it comes out of the parser. -/
def parsedQuery (query : Text) : Text :=
  percentEncode queryEncoded
    (((query.rdropWhile isControlOrSpace).filter fun c => !isTabOrNewline c).takeWhile
      fun c => c ≠ '#')

theorem splitTarget_fst (target : Text) :
    (splitTarget target).1 = target.takeWhile fun c => !endsPath c := by
  rw [splitTarget]
  split <;> rfl

theorem splitTarget_withQuery
    {path : Text}
    (h : ∀ c ∈ path, endsPath c = false)
    (query : Option Text) :
    splitTarget (withQuery path query) =
      (path, query.map fun query => query.takeWhile fun c => c ≠ '#') := by
  have hall : ∀ c ∈ path, (!endsPath c) = true := fun c hc => by simp [h c hc]
  cases query with
  | none =>
      have htake : path.takeWhile (fun c => !endsPath c) = path :=
        List.takeWhile_eq_self_iff.2 hall
      have hdrop : path.dropWhile (fun c => !endsPath c) = [] :=
        List.dropWhile_eq_nil_iff.2 hall
      simp only [splitTarget, withQuery, htake, hdrop, Option.map_none]
  | some query =>
      have hmark : (!endsPath '?') = false := by decide
      have htake : (path ++ '?' :: query).takeWhile (fun c => !endsPath c) = path := by
        rw [List.takeWhile_append_of_pos hall, List.takeWhile_cons, hmark]
        simp
      have hdrop : (path ++ '?' :: query).dropWhile (fun c => !endsPath c) = '?' :: query := by
        rw [List.dropWhile_append_of_pos hall, List.dropWhile_cons, hmark]
        simp
      simp only [splitTarget, withQuery, htake, hdrop, Option.map_some]

/-- The path of a target that is cut is a part of it. -/
theorem takeWhile_withQuery
    (path : Text) (query : Option Text) :
    (withQuery path query).takeWhile (fun c => !endsPath c) =
      path.takeWhile fun c => !endsPath c := by
  cases query with
  | none => rfl
  | some query =>
      have hmark : (!endsPath '?') = false := by decide
      rw [withQuery, List.takeWhile_append]
      split
      · rename_i hlength
        rw [List.takeWhile_cons, hmark]
        have hall := (List.takeWhile_sublist _).eq_of_length hlength
        rw [hall]
        simp
      · rfl

theorem rdropWhile_append_of_mem
    {a b : Text} {c : Char}
    (hc : c ∈ b)
    (hkept : isControlOrSpace c = false) :
    (a ++ b).rdropWhile isControlOrSpace = a ++ b.rdropWhile isControlOrSpace := by
  have hne : (b.reverse.dropWhile isControlOrSpace).isEmpty = false := by
    rw [List.isEmpty_eq_false_iff, Ne, List.dropWhile_eq_nil_iff]
    intro hall
    have hspace := hall c (List.mem_reverse.2 hc)
    rw [hkept] at hspace
    cases hspace
  rw [List.rdropWhile, List.reverse_append, List.dropWhile_append, hne, List.rdropWhile]
  simp

/-- What is left of a URL after its white space is removed. -/
theorem stripped_append
    {lead target : Text}
    (hlead : ∀ c ∈ lead, isControlOrSpace c = false)
    (hne : lead ≠ [])
    (hhead : target.head? = some '/') :
    stripped (lead ++ target) =
      lead ++ (target.rdropWhile isControlOrSpace).filter fun c => !isTabOrNewline c := by
  have hslash : '/' ∈ target := List.mem_of_head? hhead
  have hdrop : (lead ++ target).dropWhile isControlOrSpace = lead ++ target := by
    cases lead with
    | nil => exact absurd rfl hne
    | cons c lead => simp [hlead c List.mem_cons_self]
  have hfilter : lead.filter (fun c => !isTabOrNewline c) = lead := by
    refine List.filter_eq_self.2 fun c hc => ?_
    have hc := hlead c hc
    cases htab : isTabOrNewline c with
    | false => rfl
    | true =>
        simp only [isTabOrNewline, Bool.or_eq_true, decide_eq_true_eq] at htab
        rcases htab with (rfl | rfl) | rfl <;> exact absurd hc (by decide)
  rw [stripped, hdrop, rdropWhile_append_of_mem hslash (by decide), List.filter_append, hfilter]

/-- A path without the white space that is removed.  `last` says that the URL ends with
the path. -/
def trimmedPath (path : Text) (last : Bool) : Text :=
  (if last then path.rdropWhile isControlOrSpace else path).filter fun c => !isTabOrNewline c

/-- A trimmed path up to its end. -/
def cutPath (path : Text) (last : Bool) : Text :=
  (trimmedPath path last).takeWhile fun c => !endsPath c

theorem trimmedPath_sublist (path : Text) (last : Bool) :
    List.Sublist (trimmedPath path last) path := by
  refine List.filter_sublist.trans ?_
  split
  · exact List.IsPrefix.sublist (List.rdropWhile_prefix _ _)
  · exact List.Sublist.refl _

theorem head?_trimmedPath
    {path : Text}
    (h : path.head? = some '/')
    (last : Bool) :
    (trimmedPath path last).head? = some '/' := by
  cases path with
  | nil => cases h
  | cons c rest =>
      cases h
      have htrim : ∃ rest', (if last then ('/' :: rest).rdropWhile isControlOrSpace
          else '/' :: rest) = '/' :: rest' := by
        cases last with
        | false => exact ⟨rest, rfl⟩
        | true =>
            rw [if_pos rfl]
            obtain ⟨tail, htail⟩ := List.rdropWhile_prefix isControlOrSpace ('/' :: rest)
            cases hkeep : ('/' :: rest).rdropWhile isControlOrSpace with
            | nil =>
                have hall := List.rdropWhile_eq_nil_iff.1 hkeep '/' List.mem_cons_self
                exact absurd hall (by decide)
            | cons d rest' =>
                rw [hkeep] at htail
                cases htail
                exact ⟨rest', rfl⟩
      obtain ⟨rest', hrest⟩ := htrim
      rw [trimmedPath, hrest, List.filter_cons_of_pos (by decide)]
      rfl

/-- The target that is read, after its white space is removed. -/
theorem stripped_withQuery
    (path : Text) (query : Option Text) :
    ((withQuery path query).rdropWhile isControlOrSpace).filter (fun c => !isTabOrNewline c) =
      withQuery (trimmedPath path query.isNone)
        (query.map fun query =>
          (query.rdropWhile isControlOrSpace).filter fun c => !isTabOrNewline c) := by
  cases query with
  | none => rfl
  | some query =>
      have hmark : ('?' :: query).rdropWhile isControlOrSpace =
          '?' :: query.rdropWhile isControlOrSpace := by
        by_cases hquery : ∃ c ∈ query, isControlOrSpace c = false
        · obtain ⟨c, hc, hkept⟩ := hquery
          exact rdropWhile_append_of_mem (a := ['?']) hc hkept
        · have hall : ∀ c ∈ query, isControlOrSpace c = true := by simpa using hquery
          rw [List.rdropWhile_eq_nil_iff.2 hall]
          have hquery : query.reverse.dropWhile isControlOrSpace = [] :=
            List.dropWhile_eq_nil_iff.2 fun c hc => hall c (List.mem_reverse.1 hc)
          rw [List.rdropWhile, List.reverse_cons, List.dropWhile_append, hquery]
          rfl
      simp only [withQuery]
      rw [rdropWhile_append_of_mem List.mem_cons_self (by decide), hmark]
      simp [trimmedPath, isTabOrNewline]

/-- Nothing is cut off a path: no white space, no number sign and no question mark. -/
theorem cutPath_eq_iff
    {decoded : Text} {last : Bool} :
    cutPath decoded last = decoded ↔
      (∀ c ∈ decoded, isTabOrNewline c = false ∧ endsPath c = false) ∧
        (last = true → ∀ c ∈ decoded.getLast?, isControlOrSpace c = false) := by
  obtain ⟨trimmed, htrimmed⟩ :
      ∃ trimmed, (if last then decoded.rdropWhile isControlOrSpace else decoded) = trimmed :=
    ⟨_, rfl⟩
  have hsublist : List.Sublist trimmed decoded := by
    rw [← htrimmed]
    split
    · exact List.IsPrefix.sublist (List.rdropWhile_prefix _ _)
    · exact List.Sublist.refl _
  have hending :
      trimmed = decoded ↔ (last = true → ∀ c ∈ decoded.getLast?, isControlOrSpace c = false) := by
    rw [← htrimmed]
    cases last with
    | false => simp
    | true =>
        rw [if_pos rfl, List.rdropWhile_eq_self_iff]
        constructor
        · rintro h - c hc
          obtain ⟨hne, rfl⟩ := List.mem_getLast?_eq_getLast hc
          exact Bool.eq_false_iff.2 (h hne)
        · intro h hne
          rw [h rfl _ (List.getLast?_eq_some_getLast hne)]
          exact Bool.false_ne_true
  rw [cutPath, trimmedPath, htrimmed, ← hending]
  constructor
  · intro heq
    have htake := List.takeWhile_sublist
      (fun c => !endsPath c) (l := trimmed.filter fun c => !isTabOrNewline c)
    have hfilter := List.filter_sublist (p := fun c => !isTabOrNewline c) (l := trimmed)
    have hlength := congrArg List.length heq
    have htake_le := htake.length_le
    have hfilter_le := hfilter.length_le
    have hle := hsublist.length_le
    have hall : trimmed = decoded := hsublist.eq_of_length (by omega)
    have hfiltered := hfilter.eq_of_length (by omega)
    have htaken := htake.eq_of_length (by omega)
    rw [hfiltered] at htaken
    subst hall
    refine ⟨fun c hc => ⟨?_, ?_⟩, rfl⟩
    · simpa using List.filter_eq_self.1 hfiltered c hc
    · simpa using List.takeWhile_eq_self_iff.1 htaken c hc
  · rintro ⟨hkept, rfl⟩
    have hfilter : trimmed.filter (fun c => !isTabOrNewline c) = trimmed :=
      List.filter_eq_self.2 fun c hc => by simp [(hkept c hc).1]
    rw [hfilter, List.takeWhile_eq_self_iff]
    exact fun c hc => by simp [(hkept c hc).2]

/-- A path and its query come out of the parser as they were sent, when the path is the
decoded text of its tokens, exactly if the path survives and the query is what the parser
makes of the one that it is given. -/
theorem parse_eq_iff
    {scheme authority decoded : Text} {ts : List Token} {query sent : Option Text}
    (hbytes : utf8 decoded = ts.flatMap Token.bytes)
    (hhead : decoded.head? = some '/')
    (hscheme : ∀ c ∈ scheme, isControlOrSpace c = false)
    (hauthority : ∀ c ∈ authority, isControlOrSpace c = false ∧ endsAuthority c = false) :
    parse scheme (scheme ++ "://".toList ++ authority ++ withQuery decoded query) =
        some (ts.flatMap Token.text, sent) ↔
      Survives ts decoded query.isNone ∧ query.map parsedQuery = sent := by
  have hmark : ∀ c ∈ "://".toList, isControlOrSpace c = false := forall_mem_of_all (by decide)
  have hlead : ∀ c ∈ scheme ++ "://".toList ++ authority, isControlOrSpace c = false := by
    intro c hc
    rcases List.mem_append.1 hc with hc | hc
    · rcases List.mem_append.1 hc with hc | hc
      · exact hscheme c hc
      · exact hmark c hc
    · exact (hauthority c hc).1
  have htarget : (withQuery decoded query).head? = some '/' := by
    cases query with
    | none => exact hhead
    | some query => rw [withQuery, List.head?_append, hhead]; rfl
  have htrimmed := head?_trimmedPath hhead query.isNone
  have hrest : ∀ query' : Option Text,
      (authority ++ withQuery (trimmedPath decoded query.isNone) query').dropWhile
        (fun c => !endsAuthority c) = withQuery (trimmedPath decoded query.isNone) query' := by
    intro query'
    rw [List.dropWhile_append_of_pos fun c hc => by simp [(hauthority c hc).2]]
    obtain ⟨rest, hrest⟩ := List.head?_eq_some_iff.1 htrimmed
    cases query' <;> rw [hrest] <;> rfl
  have hcut : List.Sublist (cutPath decoded query.isNone) decoded :=
    (List.takeWhile_sublist _).trans (trimmedPath_sublist _ _)
  have hcut_head : (cutPath decoded query.isNone).head? = some '/' := by
    obtain ⟨rest, hrest⟩ := List.head?_eq_some_iff.1 htrimmed
    rw [cutPath, hrest]
    rfl
  have hquery : cutPath decoded query.isNone = decoded →
      (splitTarget (withQuery (trimmedPath decoded query.isNone)
        (query.map fun query =>
          (query.rdropWhile isControlOrSpace).filter fun c => !isTabOrNewline c))).2.map
            (percentEncode queryEncoded) = query.map parsedQuery := by
    intro hall
    have hwhole : trimmedPath decoded query.isNone = decoded := by
      refine (trimmedPath_sublist _ _).eq_of_length_le ?_
      have hle : (cutPath decoded query.isNone).length ≤ _ :=
        (List.takeWhile_sublist _).length_le
      rwa [hall] at hle
    rw [hwhole, splitTarget_withQuery fun c hc => ((cutPath_eq_iff.1 hall).1 c hc).2]
    cases query <;> rfl
  rw [parse, stripped_append hlead (by simp) htarget, stripped_withQuery, List.append_assoc,
    stripPrefix_append, Option.map_some, hrest, Option.some_inj, Prod.mk.injEq, splitTarget_fst,
    takeWhile_withQuery, ← cutPath, parsePath_eq_iff hbytes hcut hcut_head]
  constructor
  · rintro ⟨⟨hall, hback, hdots, hencoded⟩, hsent⟩
    obtain ⟨hkept, hending⟩ := cutPath_eq_iff.1 hall
    refine ⟨⟨hencoded, fun c hc => ⟨(hkept c hc).1, (hkept c hc).2, ?_⟩, hdots, hending⟩, ?_⟩
    · rintro rfl
      exact hback hc
    · rw [← hquery hall, hsent]
  · rintro ⟨hsurvives, hsent⟩
    have hall : cutPath decoded query.isNone = decoded :=
      cutPath_eq_iff.2 ⟨fun c hc => ⟨(hsurvives.kept c hc).1, (hsurvives.kept c hc).2.1⟩,
        hsurvives.ending⟩
    exact ⟨⟨hall, fun hc => (hsurvives.kept _ hc).2.2 rfl, hsurvives.dots, hsurvives.encoded⟩,
      (hquery hall).trans hsent⟩

/-- The path and the query that a parser gives that rewrites nothing. -/
theorem parseVerbatim_eq
    {scheme authority decoded : Text} {query : Option Text}
    (hhead : decoded.head? = some '/')
    (hauthority : ∀ c ∈ authority, isControlOrSpace c = false ∧ endsAuthority c = false) :
    parseVerbatim scheme (scheme ++ "://".toList ++ authority ++ withQuery decoded query) =
      some (splitTarget (withQuery decoded query)) := by
  have hplain : ∀ c ∈ authority, (!(c = '/' || endsPath c)) = true := by
    intro c hc
    have hc := (hauthority c hc).2
    simp only [endsAuthority, Bool.or_eq_false_iff] at hc
    simp [hc.1.1, hc.2]
  rw [parseVerbatim, List.append_assoc, stripPrefix_append, Option.map_some,
    List.dropWhile_append_of_pos hplain]
  obtain ⟨rest, rfl⟩ := List.head?_eq_some_iff.1 hhead
  cases query <;> rfl

/-- A path that is not rewritten is what was sent exactly when no token is an escape and
nothing ends the path. -/
theorem splitTarget_eq_iff
    {ts : List Token} {decoded : Text} {query sent : Option Text}
    (hbytes : utf8 decoded = ts.flatMap Token.bytes) :
    splitTarget (withQuery decoded query) = (ts.flatMap Token.text, sent) ↔
      ((∀ t ∈ ts, t.isPlain = true) ∧ ∀ c ∈ decoded, endsPath c = false) ∧
        (query.map fun query => query.takeWhile fun c => c ≠ '#') = sent := by
  have hwhole : (∀ t ∈ ts, t.isPlain = true) → ts.flatMap Token.text = decoded := by
    intro hplain
    have hsame : utf8 (ts.flatMap Token.text) = utf8 decoded := by
      rw [hbytes, utf8, List.flatMap_assoc]
      exact List.flatMap_congr fun t ht => (Token.bytes_of_isPlain (hplain t ht)).symm
    have hback := fromUtf8_utf8 (ts.flatMap Token.text)
    rw [hsame, fromUtf8_utf8] at hback
    exact (Option.some_inj.1 hback).symm
  constructor
  · intro heq
    have hpath := congrArg Prod.fst heq
    rw [splitTarget_fst, takeWhile_withQuery] at hpath
    have hle : ∀ t ∈ ts, t.bytes.length ≤ (utf8 t.text).length := by
      intro t _
      cases hplain : t.isPlain with
      | true => rw [Token.bytes_of_isPlain hplain]
      | false => exact Nat.le_of_lt (Token.length_bytes_lt hplain)
    have hcut : (utf8 (decoded.takeWhile fun c => !endsPath c)).length ≤ (utf8 decoded).length := by
      have hsplit := List.takeWhile_append_dropWhile (p := fun c => !endsPath c) (l := decoded)
      rw [← hsplit, utf8_append, List.length_append, hsplit]
      exact Nat.le_add_right _ _
    rw [hpath, hbytes, utf8, List.flatMap_assoc] at hcut
    have hplain : ∀ t ∈ ts, t.isPlain = true := by
      intro t ht
      by_contra hescape
      have hlt := Token.length_bytes_lt (Bool.eq_false_iff.2 hescape)
      have hlength := length_eq_of_flatMap hle hcut t ht
      exact absurd hlength (Nat.ne_of_lt hlt)
    have hall := hwhole hplain
    rw [hall] at hpath
    have hends : ∀ c ∈ decoded, endsPath c = false := by
      intro c hc
      simpa using List.takeWhile_eq_self_iff.1 hpath c hc
    rw [splitTarget_withQuery hends, Prod.mk.injEq] at heq
    exact ⟨⟨hplain, hends⟩, heq.2⟩
  · rintro ⟨⟨hplain, hends⟩, hsent⟩
    rw [splitTarget_withQuery hends, hwhole hplain, hsent]

/-- The parser keeps a query of characters that it leaves. -/
theorem parsedQuery_of_forall
    (query : Text)
    (h : ∀ c ∈ query, queryEncoded c = false) :
    parsedQuery query = query := by
  have hspace : ∀ c, queryEncoded c = false → isControlOrSpace c = false := by
    intro c hc
    simp only [queryEncoded, isControlEncoded, Bool.or_eq_false_iff, decide_eq_false_iff_not,
      List.contains_cons, beq_eq_false_iff_ne] at hc
    have hne : c.toNat ≠ 32 := fun heq => hc.2.1 (Char.toNat_inj.1 heq)
    exact decide_eq_false (by omega)
  have htab : ∀ c, queryEncoded c = false → isTabOrNewline c = false := by
    intro c hc
    cases htab : isTabOrNewline c with
    | false => rfl
    | true =>
        simp only [isTabOrNewline, Bool.or_eq_true, decide_eq_true_eq] at htab
        rcases htab with (rfl | rfl) | rfl <;> exact absurd hc (by decide)
  have htrim : query.rdropWhile isControlOrSpace = query :=
    List.rdropWhile_eq_self_iff.2 fun hne => by
      rw [hspace _ (h _ (List.getLast_mem hne))]
      exact Bool.false_ne_true
  have hfilter : query.filter (fun c => !isTabOrNewline c) = query :=
    List.filter_eq_self.2 fun c hc => by simp [htab c (h c hc)]
  have htake : query.takeWhile (fun c => c ≠ '#') = query := by
    refine List.takeWhile_eq_self_iff.2 fun c hc => ?_
    rw [decide_eq_true_eq]
    rintro rfl
    exact absurd (h _ hc) (by decide)
  rw [parsedQuery, htrim, hfilter, htake, percentEncode_of_forall h]

theorem not_encoded_of_mem_parsedQuery
    (query : Text) :
    ∀ c ∈ parsedQuery query, queryEncoded c = false :=
  fun _ hc => not_encoded_of_mem_percentEncode
    (fun b _ hb => (not_encoded_of_mem_percentByte b hb).2.1) hc

end Path

end Url
end Lib
end Vesta
