import Vesta.EmailClient.Parameters

/-!
# Folded lines

A long line is written on several, and each of them but the first starts with a blank.  A
line that neither is empty nor starts with a blank is therefore read from its pieces again,
and every line read is of this kind, except that the first may start with a blank.
-/

namespace Vesta
namespace EmailClient

open Lib
open Agent.SignIn (newlines newlines_eq_iff return_notMem_newlines)

/-! ## Raw lines -/

theorem newlines_append_crlf
    {line : Text}
    (h : Unbroken line)
    (rest : Text) :
    newlines (line ++ (crlf ++ rest)) = line ++ '\n' :: newlines rest := by
  induction line with
  | nil => simp [crlf, newlines]
  | cons c line ih =>
      have hc : c ≠ '\r' := fun heq => h.2 (heq ▸ List.mem_cons_self)
      have hline : Unbroken line := h.mono (List.subset_cons_self c line)
      have hstep : newlines (c :: (line ++ (crlf ++ rest))) =
          c :: newlines (line ++ (crlf ++ rest)) := by
        rw [newlines]
        · exact fun _ heq => absurd heq hc
        · exact hc
      rw [List.cons_append, hstep, ih hline, List.cons_append]

theorem splitOn_newlines
    {pieces : List Text}
    (h : ∀ piece ∈ pieces, Unbroken piece) :
    (newlines (pieces.flatMap fun piece => piece ++ crlf)).splitOn '\n' = pieces ++ [[]] := by
  induction pieces with
  | nil => rfl
  | cons piece pieces ih =>
      have hpiece := h piece List.mem_cons_self
      have hrest := ih fun other hother => h other (List.mem_cons_of_mem _ hother)
      rw [List.flatMap_cons, List.append_assoc, newlines_append_crlf hpiece,
        List.splitOn_append_cons_self_of_not_mem hpiece.1, hrest]
      rfl

theorem unfold_written
    {pieces : List Text}
    (h : ∀ piece ∈ pieces, Unbroken piece) :
    unfold (pieces.flatMap fun piece => piece ++ crlf) =
      (pieces.foldl unfoldStep []).reverse := by
  rw [unfold, splitOn_newlines h, List.foldl_append]
  rfl

/-! ## Pieces of a line -/

theorem unfoldStep_of_unindented
    {line : Text}
    (hne : line ≠ [])
    (h : Unindented line)
    (before : List Text) :
    unfoldStep before line = line :: before := by
  cases line with
  | nil => exact absurd rfl hne
  | cons c rest =>
      cases before with
      | nil => rfl
      | cons last before =>
          have hc := h c rfl
          rw [unfoldStep, if_neg (not_or.2 hc)]

theorem foldl_unfoldStep_continuation
    {fuel : Nat} {rest : Text}
    (h : rest.length ≤ fuel)
    (last : Text) (before : List Text) :
    (continuation fuel rest).foldl unfoldStep (last :: before) = (last ++ rest) :: before := by
  induction fuel generalizing rest last with
  | zero =>
      rw [List.length_eq_zero_iff.1 (Nat.le_zero.1 h)]
      simp [continuation]
  | succ fuel ih =>
      cases rest with
      | nil => simp [continuation]
      | cons c rest =>
          have hdrop : ((c :: rest).drop (foldWidth - 1)).length ≤ fuel := by
            rw [List.length_drop, foldWidth]
            omega
          have hstep : ∀ part, unfoldStep (last :: before) (' ' :: part) =
              (last ++ part) :: before := fun part => by
            rw [unfoldStep, if_pos (Or.inl rfl)]
          rw [continuation, List.foldl_cons, hstep, ih hdrop, List.append_assoc,
            List.take_append_drop]

/-- The pieces of a line are put together again. -/
theorem foldl_unfoldStep_chunks
    {line : Text}
    (hne : line ≠ [])
    (h : Unindented line)
    (before : List Text) :
    (chunks line).foldl unfoldStep before = line :: before := by
  rw [chunks]
  split
  · exact unfoldStep_of_unindented hne h before
  · rename_i hlong
    have hhead : (line.take foldWidth).head? = line.head? := List.head?_take
    have htake : line.take foldWidth ≠ [] := by
      intro hnil
      rw [hnil] at hhead
      exact hne (List.head?_eq_none_iff.1 hhead.symm)
    have hdrop : (line.drop foldWidth).length ≤ line.length := by
      rw [List.length_drop]
      omega
    rw [List.foldl_cons, unfoldStep_of_unindented htake (by rw [Unindented, hhead]; exact h),
      foldl_unfoldStep_continuation hdrop, List.take_append_drop]

theorem unbroken_of_mem_continuation
    {fuel : Nat} {rest piece : Text}
    (h : Unbroken rest)
    (hmem : piece ∈ continuation fuel rest) :
    Unbroken piece := by
  induction fuel generalizing rest with
  | zero => cases hmem
  | succ fuel ih =>
      cases rest with
      | nil => cases hmem
      | cons c rest =>
          rcases List.mem_cons.1 hmem with rfl | hmem
          · have htake := h.mono (List.take_subset (foldWidth - 1) (c :: rest))
            constructor
            · exact fun hbreak => htake.1 ((List.mem_cons.1 hbreak).resolve_left (by decide))
            · exact fun hbreak => htake.2 ((List.mem_cons.1 hbreak).resolve_left (by decide))
          · exact ih (h.mono (List.drop_subset _ _)) hmem

theorem unbroken_of_mem_chunks
    {line piece : Text}
    (h : Unbroken line)
    (hmem : piece ∈ chunks line) :
    Unbroken piece := by
  rw [chunks] at hmem
  split at hmem
  · exact List.mem_singleton.1 hmem ▸ h
  · rcases List.mem_cons.1 hmem with rfl | hmem
    · exact h.mono (List.take_subset _ _)
    · exact unbroken_of_mem_continuation (h.mono (List.drop_subset _ _)) hmem

/-! ## Lines that are read -/

/-- Lines that are read, the last first. -/
structure Lines (lines : List Text) : Prop where
  ne_nil : ∀ line ∈ lines, line ≠ []
  unbroken : ∀ line ∈ lines, Unbroken line
  unindented : ∀ line ∈ lines.dropLast, Unindented line

theorem Lines.unfoldStep
    {lines : List Text} {raw : Text}
    (h : Lines lines)
    (hraw : Unbroken raw) :
    Lines (unfoldStep lines raw) := by
  cases raw with
  | nil => cases lines <;> exact h
  | cons c rest =>
      cases lines with
      | nil =>
          refine ⟨?_, ?_, fun line hline => absurd hline List.not_mem_nil⟩
          · exact fun line hline => List.mem_singleton.1 hline ▸ List.cons_ne_nil c rest
          · exact fun line hline => List.mem_singleton.1 hline ▸ hraw
      | cons last before =>
          have hlast := h.ne_nil last List.mem_cons_self
          rw [EmailClient.unfoldStep]
          split
          · -- The line that goes on starts as it did.
            have hhead : (last ++ rest).head? = last.head? := List.head?_append_of_ne_nil _ hlast
            have hrest : Unbroken rest := hraw.mono (List.subset_cons_self c rest)
            have hwhole := h.unbroken last List.mem_cons_self
            refine ⟨?_, ?_, ?_⟩
            · intro line hline
              rcases List.mem_cons.1 hline with rfl | hline
              · exact fun hnil => hlast (List.append_eq_nil_iff.1 hnil).1
              · exact h.ne_nil line (List.mem_cons_of_mem _ hline)
            · intro line hline
              rcases List.mem_cons.1 hline with rfl | hline
              · exact ⟨by simp [hwhole.1, hrest.1], by simp [hwhole.2, hrest.2]⟩
              · exact h.unbroken line (List.mem_cons_of_mem _ hline)
            · intro line hline
              cases before with
              | nil => cases hline
              | cons next before =>
                  rcases List.mem_cons.1 hline with rfl | hline
                  · rw [Unindented, hhead]
                    exact h.unindented last List.mem_cons_self
                  · exact h.unindented line (List.mem_cons_of_mem _ hline)
          · rename_i hblank
            refine ⟨?_, ?_, ?_⟩
            · intro line hline
              rcases List.mem_cons.1 hline with rfl | hline
              · exact List.cons_ne_nil _ _
              · exact h.ne_nil line hline
            · intro line hline
              rcases List.mem_cons.1 hline with rfl | hline
              · exact hraw
              · exact h.unbroken line hline
            · intro line hline
              rcases List.mem_cons.1 hline with rfl | hline
              · intro d hd
                have hd : c = d := Option.some.inj hd
                exact hd ▸ not_or.1 hblank
              · exact h.unindented line hline

theorem Lines.foldl_unfoldStep
    {lines raws : List Text}
    (h : Lines lines)
    (hraws : ∀ raw ∈ raws, Unbroken raw) :
    Lines (raws.foldl EmailClient.unfoldStep lines) := by
  induction raws generalizing lines with
  | nil => exact h
  | cons raw raws ih =>
      exact ih (h.unfoldStep (hraws raw List.mem_cons_self))
        fun other hother => hraws other (List.mem_cons_of_mem _ hother)

/-- The lines of any text. -/
theorem lines_unfold (text : Text) : Lines (unfold text).reverse := by
  have hraws : ∀ raw ∈ (newlines text).splitOn '\n', Unbroken raw := by
    intro raw hraw
    refine ⟨not_mem_of_mem_splitOn hraw, fun hmem => return_notMem_newlines text ?_⟩
    have hback : ['\n'].intercalate ((newlines text).splitOn '\n') = newlines text :=
      List.intercalate_splitOn '\n'
    rw [← hback]
    exact mem_intercalate_of_mem hraw hmem
  have hempty : Lines [] :=
    ⟨fun line hline => absurd hline List.not_mem_nil,
      fun line hline => absurd hline List.not_mem_nil,
      fun line hline => absurd hline List.not_mem_nil⟩
  rw [unfold, List.reverse_reverse]
  exact hempty.foldl_unfoldStep hraws

end EmailClient
end Vesta
