import CleanupFilter.Listing.Printer
import CleanupFilter.Proofs.Listing.Comment
import CleanupFilter.Proofs.Text.Numeral

/-!
# Lines that were written

How a line reads that a printer has put together from a margin and a text.

- `Line.split_flatMap`: lines that a line feed ends each are split at the line feeds.
- `Line.notMem_newline_of_mem_split`: the lines of a text hold no line feeds.
- `Line.Uncommented`: no comment starts in a text that stands behind a blank.
- `Line.uncommented_iff_uncut`: this can be told from the words of the text.
- `Line.IndexText`: an index with its blanks, or nothing.
- `Line.read_margin`: an index between blanks does not change the words of a line.
-/

namespace CleanupFilter

open Text (isBlank IsWord IsToken Trimmed)

namespace Line

/-! ### Splitting -/

/-- A character of the first line is put in front of it. -/
theorem split_cons {c : Char} {rest line : List Char} {others : List (List Char)} (hc : c ≠ '\n')
    (hpair : ∀ t, c = '\r' → rest ≠ '\n' :: t) (h : split rest = line :: others) :
    split (c :: rest) = (c :: line) :: others := by
  rw [split, h]
  · exact hc
  · exact hpair

/-- A line that a line feed ends is the first line of a text. -/
theorem split_append {line : List Char} (hfeed : '\n' ∉ line) (hreturn : line.getLast? ≠ some '\r')
    (rest : List Char) : split (line ++ '\n' :: rest) = line :: split rest := by
  induction line with
  | nil => rfl
  | cons c tail ih =>
    obtain ⟨hc, hfeed⟩ := not_or.1 fun h => hfeed (List.mem_cons.2 h)
    have htail : tail.getLast? ≠ some '\r' := by
      rcases tail with _ | ⟨d, tail⟩
      · simp
      · simpa using hreturn
    refine split_cons (Ne.symm hc) ?_ (ih hfeed htail)
    -- Only a return that a line feed follows is taken away.
    rintro t rfl ht
    rcases tail with _ | ⟨d, tail⟩
    · simp at hreturn
    · simp_all

/-- So is a line that a carriage return and a line feed end. -/
theorem split_append_return {line : List Char} (hfeed : '\n' ∉ line) (rest : List Char) :
    split (line ++ '\r' :: '\n' :: rest) = line :: split rest := by
  induction line with
  | nil => rfl
  | cons c tail ih =>
    obtain ⟨hc, htail⟩ := not_or.1 fun h => hfeed (List.mem_cons.2 h)
    refine split_cons (Ne.symm hc) (fun t _ ht => ?_) (ih htail)
    cases tail with
    | nil => simp at ht
    | cons d tail =>
      obtain ⟨rfl, -⟩ := List.cons.inj ht
      exact htail List.mem_cons_self

/-- What has no line feed is one line, unless it is empty. -/
theorem split_of_notMem {line : List Char} (hfeed : '\n' ∉ line) (hne : line ≠ []) :
    split line = [line] := by
  induction line with
  | nil => exact absurd rfl hne
  | cons c tail ih =>
    obtain ⟨hc, htail⟩ := not_or.1 fun h => hfeed (List.mem_cons.2 h)
    -- The last character is a line by itself.
    by_cases hnil : tail = []
    · subst hnil
      rw [split]
      · rfl
      · exact Ne.symm hc
      · simp
    · refine split_cons (Ne.symm hc) ?_ (ih htail hnil)
      rintro t - rfl
      exact htail List.mem_cons_self

/-- Lines that a line feed ends each are split at the line feeds. -/
theorem split_flatMap {lines : List (List Char)}
    (h : ∀ line ∈ lines, '\n' ∉ line ∧ line.getLast? ≠ some '\r') :
    split (lines.flatMap (· ++ ['\n'])) = lines := by
  induction lines with
  | nil => rfl
  | cons line rest ih =>
    obtain ⟨hfeed, hreturn⟩ := h line List.mem_cons_self
    rw [List.flatMap_cons, List.append_assoc, List.singleton_append, split_append hfeed hreturn,
      ih fun line hline => h line (List.mem_cons_of_mem _ hline)]

/-- The lines of a text hold no line feeds. -/
theorem notMem_newline_of_mem_split {text line : List Char} (h : line ∈ split text) :
    '\n' ∉ line := by
  -- Only the last two cases put a character into a line, and it is no line feed.
  induction text using split.induct generalizing line with
  | case1 => exact absurd h List.not_mem_nil
  | case2 rest ih | case3 rest ih =>
    rcases List.mem_cons.1 h with rfl | h
    · exact List.not_mem_nil
    · exact ih h
  | case4 c rest hfeed hreturn hnone _ =>
    rw [split, hnone, List.mem_singleton] at h
    · rw [h, List.mem_singleton]
      exact fun heq => hfeed heq.symm
    · exact hfeed
    · exact hreturn
  | case5 c rest hfeed hreturn first others hsome ih =>
    rw [hsome, List.forall_mem_cons] at ih
    rw [split, hsome, List.mem_cons] at h
    · rcases h with rfl | h
      · rw [List.mem_cons, not_or]
        exact ⟨fun heq => hfeed heq.symm, ih.1⟩
      · exact ih.2 line h
    · exact hfeed
    · exact hreturn

/-! ### Comments -/

/-- No comment starts in a text that stands behind a blank. -/
def Uncommented (text : List Char) : Prop :=
  stripCommentAfter (some ' ') false text = text

/-- A text is without a comment if stripping it changes nothing. -/
theorem uncommented_iff {text : List Char} : Uncommented text ↔ stripComment text = text := by
  rw [Uncommented, stripComment, stripCommentAfter_blank (by decide)]

/-- A text holds a comment if and only if one of its words starts it. -/
theorem uncommented_iff_uncut {text : List Char} :
    Uncommented text ↔ Uncut false (Text.words text) := by
  have hspace : (some ' ').all isBlank = true := by decide
  refine ⟨fun h => ?_, stripCommentAfter_of_uncut hspace⟩
  have huncut := uncut_words_stripCommentAfter hspace false text
  rwa [show stripCommentAfter (some ' ') false text = text from h] at huncut

/-- A token neither starts a comment nor leaves quotes open. -/
theorem uncut_cons_of_isToken {word : List Char} (h : IsToken word) {rest : List (List Char)} :
    Uncut false (word :: rest) ↔ Uncut false rest := by
  obtain ⟨-, hquote, hslashes⟩ := h
  rw [Uncut, quotedAfter_of_notMem hquote]
  exact and_iff_right fun hcut => hslashes hcut.2

/-- A token in front of a text without comments. -/
theorem Uncommented.token_append {word text : List Char} (h : IsToken word)
    (htext : Uncommented text) : Uncommented (word ++ ' ' :: text) := by
  rw [uncommented_iff_uncut] at htext ⊢
  rwa [Text.words_append_blank h.1, uncut_cons_of_isToken h]

/-- Blanks in front of a text without comments. -/
theorem Uncommented.replicate_append {text : List Char} (h : Uncommented text) (n : Nat) :
    Uncommented (List.replicate n ' ' ++ text) := by
  rw [uncommented_iff_uncut] at h ⊢
  rwa [Text.words_replicate_append]

/-! ### Words that can stand on a line -/

/-- The words can stand on a line, behind words that leave no quotes open. -/
def Writable (ws : List (List Char)) : Prop :=
  (∀ word ∈ ws, IsWord word) ∧ Uncut false ws

instance (ws : List (List Char)) : Decidable (Writable ws) :=
  inferInstanceAs (Decidable (_ ∧ _))

/-- A token can stand in front of others. -/
theorem writable_cons_of_isToken {word : List Char} (h : IsToken word) {rest : List (List Char)} :
    Writable (word :: rest) ↔ Writable rest := by
  rw [Writable, Writable, List.forall_mem_cons, uncut_cons_of_isToken h]
  exact and_congr_left fun _ => and_iff_right h.1

/-- Tokens can stand on a line. -/
theorem Writable.of_isToken {ws : List (List Char)} (h : ∀ word ∈ ws, IsToken word) :
    Writable ws := by
  induction ws with
  | nil => exact ⟨by simp, trivial⟩
  | cons word rest ih =>
    obtain ⟨hword, hrest⟩ := List.forall_mem_cons.1 h
    exact (writable_cons_of_isToken hword).2 (ih hrest)

/-- An index is a token made of digits and a colon. -/
theorem exists_eq_of_isIndex {word : List Char} (h : isIndex word = true) :
    ∃ digits, word = digits ++ [':'] ∧ ∀ c ∈ digits, c.isDigit = true := by
  simp only [isIndex, Bool.and_eq_true, decide_eq_true_eq, List.all_eq_true] at h
  obtain ⟨⟨hlast, -⟩, hdigits⟩ := h
  obtain ⟨digits, rfl⟩ := List.getLast?_eq_some_iff.1 hlast
  rw [List.dropLast_concat] at hdigits
  exact ⟨digits, rfl, hdigits⟩

/-- An index is a token. -/
theorem isToken_of_isIndex {word : List Char} (h : isIndex word = true) : IsToken word := by
  obtain ⟨digits, rfl, hdigits⟩ := exists_eq_of_isIndex h
  refine .of_isPlain (by simp) fun c hc => ?_
  rcases List.mem_append.1 hc with hc | hc
  · exact Text.Numeral.isPlain_of_isDigit (hdigits c hc)
  · rw [List.mem_singleton.1 hc]
    decide

/-- The words of a line can be written down again. -/
theorem writable_read (line : List Char) : Writable (read line).words := by
  have hwords : Writable (Text.words (Text.trim (stripComment line))) := by
    rw [Text.words_trim]
    exact ⟨fun word => Text.isWord_of_mem_words, uncut_words_stripCommentAfter rfl false line⟩
  show Writable (dropIndex (Text.words (Text.trim (stripComment line))))
  generalize Text.words (Text.trim (stripComment line)) = ws at hwords ⊢
  -- An index is a token, so that the words behind it can stand without it.
  cases ws with
  | nil => exact hwords
  | cons first rest =>
    rw [dropIndex]
    split
    · next hindex => exact (writable_cons_of_isToken (isToken_of_isIndex hindex)).1 hwords
    · exact hwords

/-- A text has its words, an index apart, behind blanks and what the index is made of. -/
theorem exists_eq_of_dropIndex_words {text head : List Char} {rest : List (List Char)}
    (h : dropIndex (Text.words text) = head :: rest) :
    ∃ front after, text = front ++ (head ++ after) ∧ Text.words after = rest ∧
      ∀ c ∈ front, isBlank c = true ∨ c.isDigit = true ∨ c = ':' := by
  cases hwords : Text.words text with
  | nil => simp [hwords, dropIndex] at h
  | cons first others =>
    obtain ⟨blanks, after, rfl, hblanks, hafter⟩ := Text.exists_eq_of_words_eq_cons hwords
    rw [hwords, dropIndex] at h
    split at h
    · next hindex =>
      -- The index is the first word, and the other words stand behind it.
      obtain ⟨digits, rfl, hdigits⟩ := exists_eq_of_isIndex hindex
      obtain ⟨between, after, rfl, hbetween, hafter⟩ :=
        Text.exists_eq_of_words_eq_cons (hafter.trans h)
      refine ⟨blanks ++ (digits ++ [':'] ++ between), after, by simp, hafter, fun c hc => ?_⟩
      simp only [List.mem_append, List.mem_singleton] at hc
      rcases hc with hc | (hc | hc) | hc
      · exact .inl (hblanks c hc)
      · exact .inr (.inl (hdigits c hc))
      · exact .inr (.inr hc)
      · exact .inl (hbetween c hc)
    · obtain ⟨rfl, rfl⟩ := List.cons.inj h
      exact ⟨blanks, after, rfl, hafter, fun c hc => .inl (hblanks c hc)⟩

/-! ### Margins -/

/-- What an index adds between the blanks in front of a line and its text. -/
inductive IndexText : List Char → Prop
  | absent : IndexText []
  | present (position n : Nat) :
      IndexText (Text.Numeral.ofNat position ++ [':'] ++ ' ' :: List.replicate n ' ')

/-- A printed index is a token. -/
theorem isToken_index (position : Nat) : IsToken (Text.Numeral.ofNat position ++ [':']) :=
  Text.Numeral.isToken_between [] [':'] rfl position

/-- A printed index is read as one. -/
theorem isIndex_index (position : Nat) :
    isIndex (Text.Numeral.ofNat position ++ [':']) = true := by
  simp only [isIndex, List.getLast?_concat, List.dropLast_concat, decide_true, Bool.true_and,
    Bool.and_eq_true, decide_eq_true_eq, List.all_eq_true]
  exact ⟨Text.Numeral.ofNat_ne_nil _, fun c => Text.Numeral.isDigit_of_mem_ofNat⟩

/-- A margin changes neither the words of a line nor what its text ends with. -/
theorem read_margin {index text : List Char} (hindex : IndexText index) (htrimmed : Trimmed text)
    (huncommented : Uncommented text) (hfirst : dropIndex (Text.words text) = Text.words text)
    (n : Nat) :
    read (List.replicate n ' ' ++ (index ++ text)) =
      { text := index ++ text, words := Text.words text } := by
  cases hindex with
  | absent =>
    have hstrip := uncommented_iff.1 (huncommented.replicate_append n)
    simp only [List.nil_append, read, hstrip, Text.trim_replicate_append n htrimmed, hfirst]
  | present position k =>
    -- The index is a token like any other until it is dropped from the words.
    have hblanks := huncommented.replicate_append k
    have hstrip := uncommented_iff.1
      ((Uncommented.token_append (isToken_index position) hblanks).replicate_append n)
    have hwords : Text.words (Text.Numeral.ofNat position ++ [':'] ++ ' ' ::
        (List.replicate k ' ' ++ text)) =
        (Text.Numeral.ofNat position ++ [':']) :: Text.words text := by
      rw [Text.words_append_blank (isToken_index position).1, Text.words_replicate_append]
    have htrim := Text.trim_replicate_append n
      ((Trimmed.of_isWord (isToken_index position).1).append htrimmed
        (' ' :: List.replicate k ' '))
    simp only [List.append_assoc, List.cons_append, List.nil_append] at hstrip hwords htrim ⊢
    simp only [read, hstrip, htrim, hwords, dropIndex, isIndex_index, ↓reduceIte]

end Line

end CleanupFilter
