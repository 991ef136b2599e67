import CleanupFilter.Listing.Line
import CleanupFilter.Proofs.Text.Words

/-!
# Where comments start

Quotes open and close wherever they stand on a line, and a comment starts with the first word that
starts with two slashes outside of them. So whether a text holds a comment can be told from its
words.

- `Line.quotedAfter`: whether quotes are open behind a word.
- `Line.Uncut`: no word of a row starts a comment.
- `Line.uncut_words_stripCommentAfter`: what is left of a text has no such word.
- `Line.stripCommentAfter_of_uncut`: of a text without such a word all is left.
- `Line.words_stripCommentAfter_tokens`: of a text in which tokens stand in front of such a word
  the tokens are left.
-/

namespace CleanupFilter

open Text (isBlank IsWord atBoundary)

namespace Line

/-- Whether quotes are open behind a word if they are or are not in front of it. The character
before the word is `previous`. -/
def quotedAfter (previous : Option Char) (quoted : Bool) : List Char → Bool
  | [] => quoted
  | c :: rest =>
    quotedAfter (some c) (if c = '"' ∧ previous ≠ some '\\' then !quoted else quoted) rest

/-- No word starts with two slashes outside of quotes. -/
def Uncut (quoted : Bool) : List (List Char) → Prop
  | [] => True
  | word :: rest =>
    ¬ (quoted = false ∧ ['/', '/'] <+: word) ∧ Uncut (quotedAfter none quoted word) rest

instance decidableUncut : (quoted : Bool) → (ws : List (List Char)) → Decidable (Uncut quoted ws)
  | _, [] => isTrue trivial
  | quoted, word :: rest =>
    have := decidableUncut (quotedAfter none quoted word) rest
    inferInstanceAs (Decidable (_ ∧ _))

/-- A word without quotes neither opens nor closes any. -/
theorem quotedAfter_of_notMem {word : List Char} (h : '"' ∉ word) (previous : Option Char)
    (quoted : Bool) : quotedAfter previous quoted word = quoted := by
  induction word generalizing previous with
  | nil => rfl
  | cons c rest ih =>
    obtain ⟨hc, hrest⟩ := not_or.1 fun hmem => h (List.mem_cons.2 hmem)
    rw [quotedAfter, if_neg fun hquote => hc hquote.1.symm, ih hrest]

/-! ### Words and comments -/

/-- The character in front counts as a blank or as a backslash. -/
theorem stripCommentAfter_blank {previous : Option Char} (h : previous.all isBlank = true)
    (quoted : Bool) (text : List Char) :
    stripCommentAfter previous quoted text = stripCommentAfter none quoted text := by
  cases text with
  | nil => rfl
  | cons c rest =>
    -- No backslash is a blank.
    have hback : previous ≠ some '\\' := by
      rintro rfl
      revert h
      decide
    simp [stripCommentAfter, h, hback]

/-- A blank is neither a slash nor a quote. -/
theorem ne_of_isBlank {c : Char} (h : isBlank c = true) : c ≠ '/' ∧ c ≠ '"' :=
  ⟨fun heq => absurd (heq ▸ h) (by decide), fun heq => absurd (heq ▸ h) (by decide)⟩

/-- At the end of a word the character in front does not count at all. -/
theorem stripCommentAfter_boundary {text : List Char} (h : atBoundary text = true)
    (previous : Option Char) (quoted : Bool) :
    stripCommentAfter previous quoted text = stripCommentAfter none quoted text := by
  cases text with
  | nil => rfl
  | cons c rest =>
    obtain ⟨hslash, hquote⟩ := ne_of_isBlank h
    simp [stripCommentAfter, hslash, hquote]

/-- Behind a blank a comment may start as at the start of a line. -/
theorem stripCommentAfter_cons_of_isBlank {c : Char} (h : isBlank c = true)
    (previous : Option Char) (quoted : Bool) (rest : List Char) :
    stripCommentAfter previous quoted (c :: rest) = c :: stripCommentAfter none quoted rest := by
  obtain ⟨hslash, hquote⟩ := ne_of_isBlank h
  have hall : (some c).all isBlank = true := h
  simp [stripCommentAfter, hslash, hquote, stripCommentAfter_blank hall]

/-- No comment starts within a word. -/
theorem stripCommentAfter_within {word rest : List Char} (hword : ∀ c ∈ word, isBlank c = false)
    (hrest : atBoundary rest = true) {previous : Char} (hprevious : isBlank previous = false)
    (quoted : Bool) :
    stripCommentAfter (some previous) quoted (word ++ rest) =
      word ++ stripCommentAfter none (quotedAfter (some previous) quoted word) rest := by
  induction word generalizing previous quoted with
  | nil => exact stripCommentAfter_boundary hrest _ _
  | cons c tail ih =>
    obtain ⟨hc, htail⟩ := List.forall_mem_cons.1 hword
    rw [List.cons_append, stripCommentAfter, if_neg (by simp [hprevious]), quotedAfter]
    exact congrArg (c :: ·) (ih htail hc _)

/-- A comment starts with a word or not at all. -/
theorem stripCommentAfter_word {word rest : List Char} (hword : IsWord word)
    (hrest : atBoundary rest = true) {previous : Option Char}
    (hprevious : previous.all isBlank = true) (quoted : Bool) :
    stripCommentAfter previous quoted (word ++ rest) =
      if quoted = false ∧ ['/', '/'] <+: word then []
      else word ++ stripCommentAfter none (quotedAfter none quoted word) rest := by
  obtain ⟨hne, hblank⟩ := hword
  rcases word with _ | ⟨c, tail⟩
  · exact absurd rfl hne
  · obtain ⟨hc, htail⟩ := List.forall_mem_cons.1 hblank
    -- The second slash is one of the word, since no word goes on at a boundary.
    have hslashes : (c = '/' ∧ (tail ++ rest).head? = some '/') ↔ ['/', '/'] <+: c :: tail := by
      rcases tail with _ | ⟨d, tail⟩
      · rcases rest with _ | ⟨d, rest⟩
        · simp
        · simp [(ne_of_isBlank hrest).1]
      · simp [List.cons_prefix_cons, eq_comm]
    have hcut : (c = '/' ∧ quoted = false ∧ (tail ++ rest).head? = some '/' ∧
        (none : Option Char).all isBlank = true) ↔ quoted = false ∧ ['/', '/'] <+: c :: tail := by
      rw [← hslashes]
      simp only [Option.all_none, and_true]
      exact and_left_comm
    rw [stripCommentAfter_blank hprevious, List.cons_append, stripCommentAfter]
    simp only [hcut]
    split
    · rfl
    · exact congrArg (c :: ·) (stripCommentAfter_within htail hrest hc _)

/-! ### Texts and comments -/

/-- A text that starts with a blank, or is empty, still does without its comment. -/
theorem atBoundary_stripCommentAfter {text : List Char} (h : atBoundary text = true)
    (quoted : Bool) : atBoundary (stripCommentAfter none quoted text) = true := by
  cases text with
  | nil => rfl
  | cons c rest =>
    rw [stripCommentAfter_cons_of_isBlank h]
    exact h

/-- No word that is left of a text starts a comment. -/
theorem uncut_words_stripCommentAfter {previous : Option Char}
    (hprevious : previous.all isBlank = true) (quoted : Bool) (text : List Char) :
    Uncut quoted (Text.words (stripCommentAfter previous quoted text)) := by
  -- A comment can only start with a word, so the induction goes from word to word.
  rw [stripCommentAfter_blank hprevious]
  have hspaced := Text.spaced_words text
  generalize Text.words text = ws at hspaced
  induction hspaced generalizing quoted with
  | nil => exact trivial
  | blank hc _ ih =>
    rw [stripCommentAfter_cons_of_isBlank hc, Text.words, if_pos hc]
    exact ih quoted
  | @word word rest _ hword hrest _ ih =>
    rw [stripCommentAfter_word hword hrest rfl]
    split
    · exact trivial
    · next hcut =>
      rw [Text.words_append hword _ (atBoundary_stripCommentAfter hrest _)]
      exact ⟨hcut, ih _⟩

/-- All is left of a text none of whose words starts a comment. -/
theorem stripCommentAfter_of_uncut {previous : Option Char}
    (hprevious : previous.all isBlank = true) {quoted : Bool} {text : List Char}
    (h : Uncut quoted (Text.words text)) : stripCommentAfter previous quoted text = text := by
  rw [stripCommentAfter_blank hprevious]
  have hspaced := Text.spaced_words text
  generalize Text.words text = ws at h hspaced
  induction hspaced generalizing quoted with
  | nil => rfl
  | blank hc _ ih => rw [stripCommentAfter_cons_of_isBlank hc, ih h]
  | @word word rest _ hword hrest _ ih =>
    rw [stripCommentAfter_word hword hrest rfl, if_neg h.1, ih h.2]

/-- A word that starts with two slashes cuts off the rest of a text if it stands behind tokens. -/
theorem words_stripCommentAfter_tokens {previous : Option Char}
    (hprevious : previous.all isBlank = true) {text cut : List Char} {tokens rest : List (List Char)}
    (htokens : ∀ token ∈ tokens, Text.IsToken token) (hcut : ['/', '/'] <+: cut)
    (h : Text.words text = tokens ++ cut :: rest) :
    Text.words (stripCommentAfter previous false text) = tokens := by
  rw [stripCommentAfter_blank hprevious]
  have hspaced := Text.spaced_words text
  generalize Text.words text = ws at h hspaced
  induction hspaced generalizing tokens with
  | nil => exact absurd h (by simp)
  | blank hc _ ih =>
    rw [stripCommentAfter_cons_of_isBlank hc, Text.words, if_pos hc]
    exact ih htokens h
  | @word word after _ hword hafter _ ih =>
    rw [stripCommentAfter_word hword hafter rfl]
    cases tokens with
    | nil =>
      obtain ⟨rfl, -⟩ := List.cons.inj h
      rw [if_pos ⟨rfl, hcut⟩]
      rfl
    | cons token others =>
      obtain ⟨rfl, hothers⟩ := List.cons.inj h
      obtain ⟨⟨-, hquote, hslashes⟩, htokens⟩ := List.forall_mem_cons.1 htokens
      -- A token neither opens quotes nor starts a comment itself.
      rw [if_neg fun hcut => hslashes hcut.2, quotedAfter_of_notMem hquote,
        Text.words_append hword _ (atBoundary_stripCommentAfter hafter _), ih htokens hothers]

/-- What is left of a text has no characters but those of the text. -/
theorem mem_of_mem_stripCommentAfter {previous : Option Char} {quoted : Bool} {text : List Char}
    {c : Char} (h : c ∈ stripCommentAfter previous quoted text) : c ∈ text := by
  induction text generalizing previous quoted with
  | nil => exact h
  | cons d rest ih =>
    rw [stripCommentAfter] at h
    split at h
    · exact absurd h List.not_mem_nil
    · exact (List.mem_cons.1 h).elim (fun heq => heq ▸ List.mem_cons_self)
        fun hrest => List.mem_cons_of_mem _ (ih hrest)

end Line

end CleanupFilter
