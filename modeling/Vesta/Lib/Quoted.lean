import Vesta.Lib.Text

/-!
# Marks outside of quotes

A scanner that turns a flag over at each double quote sees a mark only where the flag is
down.  Whether a quotation is open behind a text depends on its quotes alone, so texts that
open none can be put side by side: a text is cut at the mark between two of them, and its
pieces are the pieces of each.
-/

namespace Vesta
namespace Lib
namespace Quoted

/-- The flag behind a character. -/
def toggle (inQuotes : Bool) (c : Char) : Bool := if c = '"' then !inQuotes else inQuotes

/-- Whether a quotation is open behind a text. -/
def openAfter (inQuotes : Bool) (text : Text) : Bool := text.foldl toggle inQuotes

/-- The scanner sees its mark. -/
def sees (mark : Char) (inQuotes : Bool) (c : Char) : Bool := c != '"' && c == mark && !inQuotes

/-- No mark stands outside of quotes. -/
def Bare (mark : Char) : Bool → Text → Prop
  | _, [] => True
  | inQuotes, c :: rest => sees mark inQuotes c = false ∧ Bare mark (toggle inQuotes c) rest

/-- What is before the first mark outside of quotes, and what is behind it. -/
def cut (mark : Char) : Bool → Text → Option (Text × Text)
  | _, [] => none
  | inQuotes, c :: rest =>
      if sees mark inQuotes c then some ([], rest)
      else (cut mark (toggle inQuotes c) rest).map fun (left, right) => (c :: left, right)

/-- The pieces between the marks outside of quotes. -/
def split (mark : Char) : Bool → Text → List Text
  | _, [] => [[]]
  | inQuotes, c :: rest =>
      if sees mark inQuotes c then [] :: split mark (toggle inQuotes c) rest
      else (split mark (toggle inQuotes c) rest).modifyHead (c :: ·)

variable {mark other : Char} {inQuotes : Bool} {text left right : Text}

@[simp]
theorem openAfter_nil : openAfter inQuotes [] = inQuotes := rfl

@[simp]
theorem openAfter_cons (c : Char) :
    openAfter inQuotes (c :: text) = openAfter (toggle inQuotes c) text := rfl

theorem openAfter_append (left right : Text) :
    openAfter inQuotes (left ++ right) = openAfter (openAfter inQuotes left) right :=
  List.foldl_append

theorem toggle_of_ne
    {c : Char}
    (h : c ≠ '"') :
    toggle inQuotes c = inQuotes :=
  if_neg h

theorem toggle_eq_of_sees
    {c : Char}
    (h : sees mark inQuotes c = true) :
    c = mark ∧ inQuotes = false ∧ toggle inQuotes c = false := by
  simp only [sees, Bool.and_eq_true, bne_iff_ne, beq_iff_eq, Bool.not_eq_true'] at h
  exact ⟨h.1.2, h.2, by rw [toggle_of_ne h.1.1, h.2]⟩

theorem sees_self
    (h : mark ≠ '"') :
    sees mark false mark = true := by
  simp [sees, h]

theorem sees_of_ne
    {c : Char}
    (h : c ≠ mark) :
    sees mark inQuotes c = false := by
  simp [sees, h]

theorem openAfter_of_not_mem
    (h : '"' ∉ text) :
    openAfter inQuotes text = inQuotes := by
  induction text generalizing inQuotes with
  | nil => rfl
  | cons c text ih =>
      rw [List.mem_cons, not_or] at h
      rw [openAfter_cons, toggle_of_ne (Ne.symm h.1), ih h.2]

/-- A quote flips the end of a scan. -/
theorem openAfter_not (text : Text) : openAfter (!inQuotes) text = !openAfter inQuotes text := by
  induction text generalizing inQuotes with
  | nil => rfl
  | cons c text ih =>
      have htoggle : toggle (!inQuotes) c = !toggle inQuotes c := by
        unfold toggle
        split <;> rfl
      rw [openAfter_cons, openAfter_cons, htoggle, ih]

theorem bare_append :
    Bare mark inQuotes (left ++ right) ↔
      Bare mark inQuotes left ∧ Bare mark (openAfter inQuotes left) right := by
  induction left generalizing inQuotes with
  | nil => simp [Bare]
  | cons c left ih => rw [List.cons_append, Bare, Bare, ih, and_assoc, openAfter_cons]

theorem bare_of_not_mem
    (h : mark ∉ text) :
    Bare mark inQuotes text := by
  induction text generalizing inQuotes with
  | nil => trivial
  | cons c text ih =>
      rw [List.mem_cons, not_or] at h
      exact ⟨sees_of_ne (Ne.symm h.1), ih h.2⟩

/-! ## Cutting -/

theorem cut_append_of_bare
    (h : Bare mark inQuotes left) :
    cut mark inQuotes (left ++ right) =
      (cut mark (openAfter inQuotes left) right).map fun (a, b) => (left ++ a, b) := by
  induction left generalizing inQuotes with
  | nil => simp
  | cons c left ih =>
      rw [List.cons_append, cut, h.1, if_neg Bool.false_ne_true, ih h.2, openAfter_cons,
        Option.map_map]
      rfl

/-- A text without a mark of its own, that opens no quotation, is cut off before a mark. -/
theorem cut_append
    (hmark : mark ≠ '"')
    (hbare : Bare mark inQuotes left)
    (hclosed : openAfter inQuotes left = false) :
    cut mark inQuotes (left ++ mark :: right) = some (left, right) := by
  rw [cut_append_of_bare hbare, hclosed, cut, sees_self hmark, if_pos rfl]
  simp

theorem of_cut
    (h : cut mark inQuotes text = some (left, right)) :
    text = left ++ mark :: right ∧ Bare mark inQuotes left ∧
      openAfter inQuotes left = false := by
  induction text generalizing inQuotes left with
  | nil => cases h
  | cons c text ih =>
      rw [cut] at h
      split at h
      · rename_i hsees
        obtain ⟨rfl, hquotes, -⟩ := toggle_eq_of_sees hsees
        cases h
        exact ⟨rfl, trivial, hquotes⟩
      · rename_i hsees
        obtain ⟨⟨a, b⟩, hcut, heq⟩ := Option.map_eq_some_iff.1 h
        cases heq
        obtain ⟨rfl, hbare, hclosed⟩ := ih hcut
        exact ⟨rfl, ⟨Bool.eq_false_iff.2 hsees, hbare⟩, hclosed⟩

/-- A text that holds a mark is cut. -/
theorem cut_isSome_of_closed
    (hmark : mark ≠ '"')
    (hclosed : openAfter inQuotes left = false) :
    ∃ a b, cut mark inQuotes (left ++ mark :: right) = some (a, b) ∧
      (Bare mark inQuotes left ∧ a = left ∧ b = right ∨
        ¬Bare mark inQuotes left ∧ right.length < b.length) := by
  induction left generalizing inQuotes with
  | nil =>
      refine ⟨[], right, ?_, .inl ⟨trivial, rfl, rfl⟩⟩
      rw [openAfter_nil] at hclosed
      rw [List.nil_append, cut, hclosed, sees_self hmark, if_pos rfl]
  | cons c left ih =>
      rw [List.cons_append, cut]
      by_cases hsees : sees mark inQuotes c = true
      · refine ⟨[], left ++ mark :: right, by rw [hsees, if_pos rfl], .inr ⟨?_, ?_⟩⟩
        · intro hbare
          rw [hbare.1] at hsees
          cases hsees
        · rw [List.length_append, List.length_cons]
          omega
      · obtain ⟨a, b, hcut, hcases⟩ := ih hclosed
        refine ⟨c :: a, b, by rw [if_neg hsees, hcut]; rfl, ?_⟩
        rcases hcases with ⟨hbare, rfl, rfl⟩ | ⟨hbare, hlength⟩
        · exact .inl ⟨⟨Bool.eq_false_iff.2 hsees, hbare⟩, rfl, rfl⟩
        · exact .inr ⟨fun hall => hbare hall.2, hlength⟩

/-! ## Splitting -/

theorem split_ne_nil (mark : Char) (inQuotes : Bool) (text : Text) :
    split mark inQuotes text ≠ [] := by
  induction text generalizing inQuotes with
  | nil => simp [split]
  | cons c text ih =>
      rw [split]
      split
      · exact List.cons_ne_nil _ _
      · intro h
        exact ih _ (List.modifyHead_eq_nil_iff.1 h)

theorem split_append_of_bare
    (h : Bare mark inQuotes left) :
    split mark inQuotes (left ++ right) =
      (split mark (openAfter inQuotes left) right).modifyHead (left ++ ·) := by
  induction left generalizing inQuotes with
  | nil =>
      rw [List.nil_append, openAfter_nil]
      exact (List.modifyHead_id).symm ▸ rfl
  | cons c left ih =>
      rw [List.cons_append, split, h.1, if_neg Bool.false_ne_true, ih h.2, openAfter_cons,
        List.modifyHead_modifyHead]
      rfl

/-- The pieces on both sides of a mark behind a text that opens no quotation. -/
theorem split_append
    (hmark : mark ≠ '"')
    (hclosed : openAfter inQuotes left = false) :
    split mark inQuotes (left ++ mark :: right) =
      split mark inQuotes left ++ split mark false right := by
  induction left generalizing inQuotes with
  | nil =>
      rw [openAfter_nil] at hclosed
      subst hclosed
      have hfirst : split mark false (mark :: right) = [] :: split mark false right := by
        rw [split, sees_self hmark, if_pos rfl, toggle_of_ne hmark]
      exact hfirst
  | cons c left ih =>
      rw [List.cons_append, split, split, ih hclosed]
      split
      · rfl
      · obtain ⟨first, rest, hsplit⟩ := List.exists_cons_of_ne_nil
          (split_ne_nil mark (toggle inQuotes c) left)
        rw [hsplit]
        rfl

theorem split_of_bare
    (h : Bare mark inQuotes text) :
    split mark inQuotes text = [text] := by
  have hsplit : split mark inQuotes (text ++ []) =
      (split mark (openAfter inQuotes text) []).modifyHead (text ++ ·) := split_append_of_bare h
  rw [List.append_nil] at hsplit
  rw [hsplit, split]
  simp

/-- The first piece goes up to the first mark, and the others are those of what is behind. -/
theorem split_cases
    (hmark : mark ≠ '"')
    {first : Text} {rest : List Text}
    (h : split mark inQuotes text = first :: rest) :
    Bare mark inQuotes first ∧
      (text = first ∧ rest = [] ∨
        ∃ after, text = first ++ mark :: after ∧ openAfter inQuotes first = false ∧
          rest = split mark false after) := by
  induction text generalizing inQuotes first with
  | nil =>
      cases h
      exact ⟨trivial, .inl ⟨rfl, rfl⟩⟩
  | cons c text ih =>
      rw [split] at h
      split at h
      · rename_i hsees
        obtain ⟨rfl, hquotes, htoggle⟩ := toggle_eq_of_sees hsees
        rw [htoggle] at h
        cases h
        exact ⟨trivial, .inr ⟨text, rfl, hquotes, rfl⟩⟩
      · rename_i hsees
        obtain ⟨head, tail, hsplit⟩ := List.exists_cons_of_ne_nil
          (split_ne_nil mark (toggle inQuotes c) text)
        rw [hsplit] at h
        cases h
        obtain ⟨hbare, hcases⟩ := ih hsplit
        refine ⟨⟨Bool.eq_false_iff.2 hsees, hbare⟩, ?_⟩
        rcases hcases with ⟨rfl, rfl⟩ | ⟨after, rfl, hclosed, rfl⟩
        · exact .inl ⟨rfl, rfl⟩
        · exact .inr ⟨after, rfl, hclosed, rfl⟩

/-- The pieces are parts of the text. -/
theorem subset_of_mem_split
    {piece : Text}
    (h : piece ∈ split mark inQuotes text) :
    piece ⊆ text := by
  induction text generalizing inQuotes piece with
  | nil =>
      rw [split, List.mem_singleton] at h
      exact h ▸ List.Subset.refl _
  | cons c text ih =>
      rw [split] at h
      split at h
      · rcases List.mem_cons.1 h with rfl | h
        · exact List.nil_subset _
        · exact fun d hd => List.mem_cons_of_mem _ (ih h hd)
      · obtain ⟨first, rest, hsplit⟩ := List.exists_cons_of_ne_nil
          (split_ne_nil mark (toggle inQuotes c) text)
        have hall : ∀ other ∈ first :: rest, other ⊆ text := fun other hother =>
          ih (hsplit ▸ hother)
        rw [hsplit, List.modifyHead_cons] at h
        rcases List.mem_cons.1 h with rfl | h
        · exact List.cons_subset_cons _ (hall first List.mem_cons_self)
        · exact fun d hd => List.mem_cons_of_mem _ (hall piece (List.mem_cons_of_mem _ h) hd)

/-- Every piece of a text that opens no quotation opens none, has no mark outside of quotes, and
no other mark where the text has none. -/
theorem piece_of_mem
    (hmark : mark ≠ '"')
    (hclosed : openAfter false text = false)
    (hother : Bare other false text)
    {piece : Text}
    (h : piece ∈ split mark false text) :
    openAfter false piece = false ∧ Bare mark false piece ∧ Bare other false piece := by
  induction hn : text.length using Nat.strongRecOn generalizing text with
  | ind n ih =>
      obtain ⟨first, rest, hsplit⟩ := List.exists_cons_of_ne_nil
        (split_ne_nil mark false text)
      obtain ⟨hbare, hcases⟩ := split_cases hmark hsplit
      rw [hsplit] at h
      rcases hcases with ⟨rfl, rfl⟩ | ⟨after, rfl, hfirst, rfl⟩
      · cases List.mem_singleton.1 h
        exact ⟨hclosed, hbare, hother⟩
      · rw [openAfter_append, hfirst, openAfter_cons, toggle_of_ne hmark] at hclosed
        have hotherParts := bare_append.1 hother
        rcases List.mem_cons.1 h with rfl | h
        · exact ⟨hfirst, hbare, hotherParts.1⟩
        · refine ih after.length ?_ hclosed ?_ h rfl
          · rw [← hn, List.length_append, List.length_cons]
            omega
          · have hafter := hotherParts.2.2
            rwa [hfirst, toggle_of_ne hmark] at hafter

/-- A piece behind the first is at least its mark shorter than the text. -/
theorem length_lt_of_mem_tail
    (hmark : mark ≠ '"')
    {piece : Text}
    (h : piece ∈ (split mark inQuotes text).tail) :
    piece.length < text.length := by
  induction hn : text.length using Nat.strongRecOn generalizing text inQuotes with
  | ind n ih =>
      obtain ⟨first, rest, hsplit⟩ := List.exists_cons_of_ne_nil
        (split_ne_nil mark inQuotes text)
      rw [hsplit, List.tail_cons] at h
      rcases (split_cases hmark hsplit).2 with ⟨rfl, rfl⟩ | ⟨after, rfl, -, rfl⟩
      · cases h
      · have hlength : after.length < n := by
          rw [← hn, List.length_append, List.length_cons]
          omega
        obtain ⟨second, others, hafter⟩ := List.exists_cons_of_ne_nil
          (split_ne_nil mark false after)
        rw [hafter] at h
        rcases List.mem_cons.1 h with rfl | h
        · have hfirst : piece.length ≤ after.length := by
            rcases (split_cases hmark hafter).2 with ⟨rfl, -⟩ | ⟨more, rfl, -, -⟩
            · exact Nat.le_refl _
            · rw [List.length_append]
              omega
          omega
        · have hmem : piece ∈ (split mark false after).tail := by rwa [hafter, List.tail_cons]
          have hless := ih after.length hlength hmem rfl
          omega

end Quoted
end Lib
end Vesta
