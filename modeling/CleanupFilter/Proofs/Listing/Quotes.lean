import Mathlib.Algebra.Group.Nat.Even
import CleanupFilter.Proofs.Listing.Comment

/-!
# Comments behind a text

Whether quotes are open behind a text depends on how many quotes it holds. A comment that is put
behind a line says nothing if quotes are closed there, or if the line has a comment already.

- `Line.bareQuotes`: the number of quotes that open or close.
- `Line.quotedAfter_eq_self_iff`: an even number of them changes nothing.
- `Line.stripCommentAfter_append`: a text in front of one that starts with a blank.
- `Line.read_append_comment`: a line reads as it does with a comment behind it.
-/

namespace CleanupFilter.Line

open Text (isBlank atBoundary)

/-! ### Quotes that open or close -/

/-- The number of double quotes that do not follow a backslash directly. The character before the
text is `previous`. -/
def bareQuotes (previous : Option Char) : List Char → Nat
  | [] => 0
  | c :: rest => bareQuotes (some c) rest + if c = '"' ∧ previous ≠ some '\\' then 1 else 0

/-- An even number of quotes leaves them open or closed, as they were. -/
theorem quotedAfter_eq_self_iff {previous : Option Char} {quoted : Bool} {text : List Char} :
    quotedAfter previous quoted text = quoted ↔ Even (bareQuotes previous text) := by
  induction text generalizing previous quoted with
  | nil => simp [quotedAfter, bareQuotes]
  | cons c rest ih =>
    rw [quotedAfter, bareQuotes]
    split
    · -- What is a change after this quote is none before it.
      rw [Nat.even_add_one, ← @ih (some c) (!quoted)]
      cases quoted <;> simp
    · exact ih

/-! ### Texts behind a text -/

section Append

variable {previous : Option Char} {quoted : Bool} {text back : List Char}

/-- What stands behind a comment belongs to it, and what stands behind a text without one is
stripped with the quotes that the text leaves open. -/
theorem stripCommentAfter_append (hback : atBoundary back = true) :
    stripCommentAfter previous quoted (text ++ back) =
      if stripCommentAfter previous quoted text = text then
        text ++ stripCommentAfter none (quotedAfter previous quoted text) back
      else stripCommentAfter previous quoted text := by
  induction text generalizing previous quoted with
  | nil => simpa [stripCommentAfter, quotedAfter] using stripCommentAfter_boundary hback _ _
  | cons c rest ih =>
    -- The second slash of a comment is in the text as well, since no blank is one.
    have hhead : (rest ++ back).head? = some '/' ↔ rest.head? = some '/' := by
      cases rest with
      | nil =>
        cases back with
        | nil => rfl
        | cons d back => simpa using (ne_of_isBlank hback).1
      | cons d rest => rfl
    rw [List.cons_append, stripCommentAfter, stripCommentAfter, quotedAfter]
    simp only [hhead]
    by_cases hcut : c = '/' ∧ quoted = false ∧ rest.head? = some '/' ∧ previous.all isBlank = true
    · rw [if_pos hcut, if_pos hcut, if_neg (List.cons_ne_nil c rest).symm]
    · simp only [if_neg hcut, ih, List.cons.injEq, true_and]
      exact apply_ite (c :: ·) _ _ _

/-- Blanks in front of a text stay when its comment goes. -/
theorem stripCommentAfter_blanks_append {blanks : List Char}
    (h : ∀ c ∈ blanks, isBlank c = true) :
    stripCommentAfter none quoted (blanks ++ text) =
      blanks ++ stripCommentAfter none quoted text := by
  induction blanks with
  | nil => rfl
  | cons c rest ih =>
    obtain ⟨hc, hrest⟩ := List.forall_mem_cons.1 h
    rw [List.cons_append, stripCommentAfter_cons_of_isBlank hc, ih hrest, List.cons_append]

end Append

/-! ### Comments and blanks behind a line -/

variable {line : List Char} {blank : Char}

/-- What stands behind a blank is cut off with a comment in front of it, or is stripped by itself.
-/
theorem stripComment_append (h : isBlank blank = true) (rest : List Char) :
    stripComment (line ++ blank :: rest) =
      if stripComment line = line then
        line ++ blank :: stripCommentAfter none (quotedAfter none false line) rest
      else stripComment line := by
  rw [stripComment, stripCommentAfter_append (show atBoundary (blank :: rest) = true from h),
    stripCommentAfter_cons_of_isBlank h, ← stripComment]

/-- A line reads as its text without comment does, whatever blank stands behind it. -/
theorem read_eq_of_stripComment {other : List Char}
    (h : stripComment other = stripComment line ∨
      ∃ blank, isBlank blank = true ∧ stripComment other = stripComment line ++ [blank]) :
    read other = read line := by
  have htrim : Text.trim (stripComment other) = Text.trim (stripComment line) := by
    rcases h with h | ⟨blank, hblank, h⟩
    · rw [h]
    · rw [h, Text.trim_append_of_blank (List.forall_mem_singleton.2 hblank)]
  rw [read, read, htrim]

/-- A blank behind a line says nothing. -/
theorem read_append_blank (h : isBlank blank = true) : read (line ++ [blank]) = read line := by
  refine read_eq_of_stripComment ?_
  rw [stripComment_append h]
  split
  · next hwhole => exact .inr ⟨blank, h, by rw [hwhole]; rfl⟩
  · exact .inl rfl

/-- A comment behind a line says nothing, unless the line leaves quotes open. -/
theorem read_append_comment (h : isBlank blank = true)
    (hline : stripComment line ≠ line ∨ Even (bareQuotes none line)) (comment : List Char) :
    read (line ++ blank :: '/' :: '/' :: comment) = read line := by
  refine read_eq_of_stripComment ?_
  rw [stripComment_append h]
  split
  · next hwhole =>
    have hquoted : quotedAfter none false line = false :=
      quotedAfter_eq_self_iff.2 (hline.resolve_left (not_not_intro hwhole))
    have hcut : stripCommentAfter none false ('/' :: '/' :: comment) = [] := if_pos (by simp)
    exact .inr ⟨blank, h, by rw [hquoted, hcut, hwhole]⟩
  · exact .inl rfl

end CleanupFilter.Line
