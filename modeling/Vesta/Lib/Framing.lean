import Mathlib.Data.List.Basic

/-!
# Frames that a mark ends

A stream is cut into frames at a mark.  A reader that keeps what follows the last mark and
cuts again when more has come finds the frames that cutting the whole stream gives: a mark
once found stays the first one, however the stream goes on.
-/

namespace Vesta
namespace Lib
namespace Framing

universe u

variable {α : Type u} [DecidableEq α]

/-- What is before the first mark and what is after it. -/
def cut (mark : List α) : List α → Option (List α × List α)
  | [] => if mark.isEmpty then some ([], []) else none
  | c :: rest =>
      if mark.isPrefixOf (c :: rest) then some ([], (c :: rest).drop mark.length)
      else (cut mark rest).map fun found => (c :: found.1, found.2)

/-- The frames of a text and what follows the last mark. -/
inductive Cuts (mark : List α) : List α → List (List α) → List α → Prop
  | rest {text : List α} :
      cut mark text = none →
      Cuts mark text [] text
  | frame {text frame rest left : List α} {frames : List (List α)} :
      cut mark text = some (frame, rest) →
      Cuts mark rest frames left →
      Cuts mark text (frame :: frames) left

/-- The pieces between the marks of a text, given enough fuel. -/
def pieces (mark : List α) : Nat → List α → List (List α)
  | 0, text => [text]
  | fuel + 1, text =>
      match cut mark text with
      | none => [text]
      | some (frame, rest) => frame :: pieces mark fuel rest

/-- `String.prototype.split`, for a mark that is not empty. -/
def split (mark text : List α) : List (List α) := pieces mark text.length text

variable {mark : List α}

/-- The text is put together again from what a cut finds. -/
theorem eq_of_cut
    {text frame rest : List α}
    (h : cut mark text = some (frame, rest)) :
    text = frame ++ mark ++ rest := by
  induction text generalizing frame with
  | nil =>
      simp only [cut] at h
      split at h
      · rename_i hmark
        cases h
        simp [List.isEmpty_iff.1 hmark]
      · cases h
  | cons c text ih =>
      simp only [cut] at h
      split at h
      · rename_i hprefix
        cases h
        obtain ⟨tail, htail⟩ := List.isPrefixOf_iff_prefix.1 hprefix
        rw [← htail, List.drop_left, List.nil_append]
      · obtain ⟨⟨before, after⟩, hfound, heq⟩ := Option.map_eq_some_iff.1 h
        cases heq
        rw [ih hfound]
        rfl

theorem cut_append
    {text frame rest : List α}
    (h : cut mark text = some (frame, rest))
    (more : List α) :
    cut mark (text ++ more) = some (frame, rest ++ more) := by
  induction text generalizing frame with
  | nil =>
      simp only [cut] at h
      split at h
      · rename_i hmark
        cases h
        rw [List.isEmpty_iff.1 hmark]
        cases more <;> simp [cut]
      · cases h
  | cons c text ih =>
      simp only [cut] at h
      split at h
      · rename_i hprefix
        cases h
        obtain ⟨tail, htail⟩ := List.isPrefixOf_iff_prefix.1 hprefix
        have hmore : mark.isPrefixOf (c :: (text ++ more)) = true :=
          List.isPrefixOf_iff_prefix.2 ⟨tail ++ more, by rw [← List.append_assoc, htail]; rfl⟩
        have hlength : mark.length ≤ (c :: text).length := by
          rw [← htail, List.length_append]
          omega
        rw [List.cons_append, cut, if_pos hmore, ← List.cons_append,
          List.drop_append_of_le_length hlength]
      · rename_i hprefix
        obtain ⟨⟨before, after⟩, hfound, heq⟩ := Option.map_eq_some_iff.1 h
        cases heq
        have hmore : ¬mark.isPrefixOf (c :: (text ++ more)) = true := by
          intro hmore
          apply hprefix
          have hlength : mark.length ≤ (c :: text).length := by
            simp only [eq_of_cut hfound, List.length_cons, List.length_append]
            omega
          exact List.isPrefixOf_iff_prefix.2 (List.prefix_of_prefix_length_le
            (List.isPrefixOf_iff_prefix.1 hmore) ⟨more, rfl⟩ hlength)
        rw [List.cons_append, cut, if_neg hmore, ih hfound]
        rfl

/-- A cut leaves less when the mark is not empty. -/
theorem length_lt_of_cut
    (hmark : mark ≠ [])
    {text frame rest : List α}
    (h : cut mark text = some (frame, rest)) :
    rest.length < text.length := by
  have hpos := List.length_pos_iff.2 hmark
  simp only [eq_of_cut h, List.length_append]
  omega

theorem cuts_exists
    (hmark : mark ≠ [])
    (text : List α) :
    ∃ frames left, Cuts mark text frames left := by
  induction hlength : text.length using Nat.strongRecOn generalizing text with
  | _ n ih =>
      cases hcut : cut mark text with
      | none => exact ⟨[], text, .rest hcut⟩
      | some found =>
          obtain ⟨frame, rest⟩ := found
          have hless := length_lt_of_cut hmark hcut
          obtain ⟨frames, left, hrest⟩ := ih rest.length (hlength ▸ hless) rest rfl
          exact ⟨frame :: frames, left, .frame hcut hrest⟩

theorem Cuts.left_none
    {text left : List α} {frames : List (List α)}
    (h : Cuts mark text frames left) :
    cut mark left = none := by
  induction h with
  | rest hcut => exact hcut
  | frame _ _ ih => exact ih

theorem Cuts.unique
    {text left left' : List α} {frames frames' : List (List α)}
    (h : Cuts mark text frames left)
    (h' : Cuts mark text frames' left') :
    frames = frames' ∧ left = left' := by
  induction h generalizing frames' with
  | rest hcut =>
      cases h' with
      | rest => exact ⟨rfl, rfl⟩
      | frame hcut' => simp [hcut] at hcut'
  | frame hcut _ ih =>
      cases h' with
      | rest hcut' => simp [hcut] at hcut'
      | frame hcut' hrest' =>
          cases hcut.symm.trans hcut'
          obtain ⟨rfl, rfl⟩ := ih hrest'
          exact ⟨rfl, rfl⟩

/-- Cutting goes on where it stopped when more of the text has come. -/
theorem Cuts.append
    {text left more left' : List α} {frames frames' : List (List α)}
    (h : Cuts mark text frames left)
    (h' : Cuts mark (left ++ more) frames' left') :
    Cuts mark (text ++ more) (frames ++ frames') left' := by
  induction h with
  | rest => exact h'
  | frame hcut _ ih => exact .frame (cut_append hcut more) (ih h')

theorem Cuts.pieces
    (hmark : mark ≠ [])
    {text left : List α} {frames : List (List α)}
    (h : Cuts mark text frames left)
    {fuel : Nat}
    (hfuel : text.length ≤ fuel) :
    pieces mark fuel text = frames ++ [left] := by
  induction h generalizing fuel with
  | rest hcut =>
      cases fuel with
      | zero => rfl
      | succ fuel => simp [Framing.pieces, hcut]
  | frame hcut _ ih =>
      have hless := length_lt_of_cut hmark hcut
      cases fuel with
      | zero => omega
      | succ fuel => simp [Framing.pieces, hcut, ih (show _ ≤ fuel by omega)]

/-- A split gives the frames and what is left. -/
theorem Cuts.split
    (hmark : mark ≠ [])
    {text left : List α} {frames : List (List α)}
    (h : Cuts mark text frames left) :
    split mark text = frames ++ [left] :=
  h.pieces hmark (Nat.le_refl _)

/-! ## Lines that an empty one ends -/

section Lines

variable {c : α}

theorem cut_skip
    {taken : List α}
    (h : c ∉ taken)
    (text : List α) :
    cut [c, c] (taken ++ text) =
      (cut [c, c] text).map fun found => (taken ++ found.1, found.2) := by
  induction taken with
  | nil => simp
  | cons d taken ih =>
      obtain ⟨hd, hrest⟩ := not_or.1 (mt List.mem_cons.2 h)
      have hfront : ¬[c, c].isPrefixOf (d :: (taken ++ text)) = true := by
        simp [List.isPrefixOf, hd]
      rw [List.cons_append, cut, if_neg hfront, ih hrest, Option.map_map]
      rfl

/-- An empty line is the first two marks in a row where no line before it is empty. -/
theorem cut_lines
    {lines : List (List α)}
    (hlines : lines ≠ [])
    (h : ∀ line ∈ lines, c ∉ line ∧ line ≠ [])
    (rest : List α) :
    cut [c, c] ([c].intercalate lines ++ c :: c :: rest) =
      some ([c].intercalate lines, rest) := by
  induction lines with
  | nil => exact absurd rfl hlines
  | cons line lines ih =>
      obtain ⟨⟨hfree, -⟩, hmore⟩ := List.forall_mem_cons.1 h
      cases lines with
      | nil =>
          rw [List.intercalate_singleton, cut_skip hfree]
          simp [cut, List.isPrefixOf]
      | cons next lines =>
          obtain ⟨hnext, hnonempty⟩ := hmore next List.mem_cons_self
          obtain ⟨d, tail, rfl⟩ := List.exists_cons_of_ne_nil hnonempty
          have hd : c ≠ d := fun heq => hnext (heq ▸ List.mem_cons_self)
          have hjoined : ∃ joined, [c].intercalate ((d :: tail) :: lines) = d :: joined := by
            cases lines with
            | nil => exact ⟨tail, List.intercalate_singleton⟩
            | cons => exact ⟨_, by rw [List.intercalate_cons_cons]; rfl⟩
          obtain ⟨joined, hjoined⟩ := hjoined
          have ih := ih (List.cons_ne_nil _ _) hmore
          rw [hjoined] at ih
          have hfront : ¬[c, c].isPrefixOf (c :: (d :: joined ++ c :: c :: rest)) = true := by
            simp [List.isPrefixOf, hd]
          rw [List.intercalate_cons_cons, hjoined, List.append_assoc, List.append_assoc,
            cut_skip hfree, List.singleton_append, cut, if_neg hfront, ih]
          simp

end Lines

end Framing
end Lib
end Vesta
