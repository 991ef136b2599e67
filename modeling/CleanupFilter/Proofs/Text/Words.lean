import CleanupFilter.Text.Blank

/-!
# Words of written text

How a text that was put together from words reads.

- `words_append_blank`, `words_of_isWord`: the words of a text that starts with a word.
- `Spaced`, `spaced_words`: every text is made of its words, with blanks around them.
- `trim_append`, `trim_replicate_append`: what trimming takes away around a trimmed text.
- `words_trim`, `Trimmed.of_trim`: trimming takes away all blanks at the ends and no word.
- `IsToken`: a word that neither quotes nor starts a comment.
-/

namespace CleanupFilter.Text

-- Instances that decide a property of all characters would go through all of them.
instance (word : List Char) : Decidable (IsWord word) :=
  have : Decidable (∀ c ∈ word, isBlank c = false) := List.decidableBAll _ _
  inferInstanceAs (Decidable (_ ∧ _))

theorem isBlank_space : isBlank ' ' = true := by decide

theorem isBlank_of_mem_replicate {n : Nat} {c : Char} (h : c ∈ List.replicate n ' ') :
    isBlank c = true :=
  (List.mem_replicate.1 h).2 ▸ isBlank_space

/-! ### Words -/

/-- Blanks in front of a text do not change its words. -/
theorem words_blanks_append {blanks : List Char} (h : ∀ c ∈ blanks, isBlank c = true)
    (text : List Char) : words (blanks ++ text) = words text := by
  induction blanks with
  | nil => rfl
  | cons c rest ih =>
    obtain ⟨hc, hrest⟩ := List.forall_mem_cons.1 h
    rw [List.cons_append, words, if_pos hc, ih hrest]

/-- Spaces in front of a text are no words. -/
theorem words_replicate_append (n : Nat) (text : List Char) :
    words (List.replicate n ' ' ++ text) = words text :=
  words_blanks_append (fun _ => isBlank_of_mem_replicate) text

/-- A text that starts with a word has it as its first word. -/
theorem words_append {word : List Char} (hword : IsWord word) (rest : List Char)
    (hrest : atBoundary rest = true) : words (word ++ rest) = word :: words rest := by
  obtain ⟨hne, hblank⟩ := hword
  induction word with
  | nil => exact absurd rfl hne
  | cons c tail ih =>
    have hc : isBlank c = false := hblank c List.mem_cons_self
    rcases tail with _ | ⟨d, tail⟩
    · simp [words, hc, hrest]
    · -- The first character belongs to the word that the others start.
      have hd : isBlank d = false := hblank d (by simp)
      have ih := ih (by simp) fun x hx => hblank x (List.mem_cons_of_mem _ hx)
      rw [List.cons_append, words, hc]
      simp only [List.cons_append] at ih ⊢
      simp [atBoundary, hd, ih]

/-- A word that a blank follows is the first word of a text. -/
theorem words_append_blank {word : List Char} (hword : IsWord word) (text : List Char) :
    words (word ++ ' ' :: text) = word :: words text := by
  rw [words_append hword (' ' :: text) isBlank_space, words, if_pos isBlank_space]

/-- A word is the only word of itself. -/
theorem words_of_isWord {word : List Char} (hword : IsWord word) : words word = [word] := by
  have h := words_append hword [] rfl
  rwa [List.append_nil] at h

/-- The text is made of the words, in this order, with blanks around them. -/
inductive Spaced : List Char → List (List Char) → Prop
  | nil : Spaced [] []
  | blank {c : Char} {text : List Char} {ws : List (List Char)} :
      isBlank c = true → Spaced text ws → Spaced (c :: text) ws
  | word {w text : List Char} {ws : List (List Char)} :
      IsWord w → atBoundary text = true → Spaced text ws → Spaced (w ++ text) (w :: ws)

/-- A text with words between blanks has these words. -/
theorem Spaced.words_eq {text : List Char} {ws : List (List Char)} (h : Spaced text ws) :
    words text = ws := by
  induction h with
  | nil => rfl
  | blank hblank _ ih => rw [words, if_pos hblank, ih]
  | word hword hboundary _ ih => rw [words_append hword _ hboundary, ih]

/-- Every text is made of its words. -/
theorem spaced_words (text : List Char) : Spaced text (words text) := by
  induction text with
  | nil => exact .nil
  | cons c rest ih =>
    rw [words]
    by_cases hblank : isBlank c = true
    -- A blank belongs to no word.
    · rw [if_pos hblank]
      exact .blank hblank ih
    · have hc : isBlank c = false := Bool.eq_false_iff.2 hblank
      rw [if_neg hblank]
      by_cases hboundary : atBoundary rest = true
      · rw [if_pos hboundary]
        exact .word (w := [c]) ⟨by simp, by simpa using hc⟩ hboundary ih
      · -- The character belongs to the word that the others start.
        rw [if_neg hboundary]
        generalize words rest = ws at ih ⊢
        cases ih with
        | nil => exact absurd rfl hboundary
        | blank hd _ => exact absurd hd hboundary
        | word hword hend hrest =>
          refine .word (w := c :: _) ⟨by simp, fun d hd => ?_⟩ hend hrest
          rcases List.mem_cons.1 hd with rfl | hd
          · exact hc
          · exact hword.2 d hd

/-- The words of a text are words. -/
theorem isWord_of_mem_words {text word : List Char} (h : word ∈ words text) : IsWord word := by
  have hspaced := spaced_words text
  generalize words text = ws at h hspaced
  induction hspaced with
  | nil => exact absurd h List.not_mem_nil
  | blank _ _ ih => exact ih h
  | word hword _ _ ih =>
    rcases List.mem_cons.1 h with rfl | h
    · exact hword
    · exact ih h

/-- A text with a word has it behind some blanks. -/
theorem exists_eq_of_words_eq_cons {text word : List Char} {ws : List (List Char)}
    (h : words text = word :: ws) :
    ∃ blanks rest, text = blanks ++ (word ++ rest) ∧ (∀ c ∈ blanks, isBlank c = true) ∧
      words rest = ws := by
  -- Blanks in front are collected until the first word stands at the start.
  have hspaced := spaced_words text
  rw [h] at hspaced
  clear h
  generalize hws : word :: ws = all at hspaced
  induction hspaced with
  | nil => exact absurd hws (by simp)
  | @blank c _ _ hc _ ih =>
    obtain ⟨blanks, rest, rfl, hblanks, hrest⟩ := ih hws
    exact ⟨c :: blanks, rest, rfl, List.forall_mem_cons.2 ⟨hc, hblanks⟩, hrest⟩
  | @word _ text _ _ _ hrest _ =>
    obtain ⟨rfl, rfl⟩ := List.cons.inj hws
    exact ⟨[], text, rfl, by simp, hrest.words_eq⟩

/-! ### Trimming -/

/-- Whether the text is not empty and has no blank at either end. -/
def Trimmed (text : List Char) : Prop :=
  text ≠ [] ∧ (∀ c ∈ text.head?, isBlank c = false) ∧ ∀ c ∈ text.getLast?, isBlank c = false

instance (text : List Char) : Decidable (Trimmed text) :=
  have : ∀ c : Option Char, Decidable (∀ a ∈ c, isBlank a = false) := Option.decidableForallMem
  inferInstanceAs (Decidable (_ ∧ _ ∧ _))

/-- Blanks in front of a text are left out. -/
theorem trimStart_append {blanks : List Char} (h : ∀ c ∈ blanks, isBlank c = true)
    (text : List Char) : trimStart (blanks ++ text) = trimStart text :=
  List.dropWhile_append_of_pos h

/-- Trimming takes away blanks in front of a text. -/
theorem trim_blanks_append {blanks : List Char} (h : ∀ c ∈ blanks, isBlank c = true)
    (text : List Char) : trim (blanks ++ text) = trim text :=
  congrArg trimEnd (trimStart_append h text)

/-- Behind a trimmed text only the end of another text is trimmed. -/
theorem trim_append {first : List Char} (h : Trimmed first) (text : List Char) :
    trim (first ++ text) = first ++ trimEnd text := by
  obtain ⟨hne, hhead, hlast⟩ := h
  -- There is nothing to leave out in front.
  have hstart : ∀ rest, trimStart (first ++ rest) = first ++ rest := by
    intro rest
    obtain ⟨c, tail, rfl⟩ := List.exists_cons_of_ne_nil hne
    simp [trimStart, hhead c rfl]
  obtain ⟨front, d, rfl⟩ := (List.eq_nil_or_concat first).resolve_left hne
  have hd : isBlank d = false := hlast d (by simp)
  rw [trim, hstart, trimEnd, trimEnd, List.reverse_append, trimStart, trimStart,
    List.dropWhile_append]
  split
  · next hempty => simp [List.isEmpty_iff.1 hempty, hd]
  · simp

/-- A text without blanks at its ends stays as it is. -/
theorem Trimmed.trim_eq {text : List Char} (h : Trimmed text) : trim text = text := by
  have htrim := trim_append h []
  rwa [List.append_nil, show trimEnd [] = [] from rfl, List.append_nil] at htrim

/-- Trimming takes away the blanks in front of a trimmed text and nothing else. -/
theorem trim_replicate_append (n : Nat) {text : List Char} (h : Trimmed text) :
    trim (List.replicate n ' ' ++ text) = text := by
  rw [trim_blanks_append fun _ => isBlank_of_mem_replicate, h.trim_eq]

/-- A word has no blanks at its ends. -/
theorem Trimmed.of_isWord {word : List Char} (h : IsWord word) : Trimmed word := by
  obtain ⟨hne, hblank⟩ := h
  exact ⟨hne, fun c hc => hblank c (List.mem_of_head? hc),
    fun c hc => hblank c (List.mem_of_getLast? hc)⟩

/-- What stands between two trimmed texts does not matter. -/
theorem Trimmed.append {first last : List Char} (hfirst : Trimmed first) (hlast : Trimmed last)
    (between : List Char) : Trimmed (first ++ between ++ last) := by
  obtain ⟨hne, hhead, -⟩ := hfirst
  obtain ⟨hne', -, hend⟩ := hlast
  obtain ⟨c, rest, rfl⟩ := List.exists_cons_of_ne_nil hne
  obtain ⟨front, d, rfl⟩ := (List.eq_nil_or_concat last).resolve_left hne'
  refine ⟨by simp, by simpa using hhead, fun e he => hend e ?_⟩
  rw [List.getLast?_append] at he
  simpa using he

/-- A text has the same words without blanks in front. -/
theorem words_trimStart (text : List Char) : words (trimStart text) = words text := by
  induction text with
  | nil => rfl
  | cons c rest ih =>
    rw [trimStart, List.dropWhile_cons]
    split
    · next hblank => rw [words, if_pos hblank, ← ih, trimStart]
    · rfl

/-- Blanks behind a text do not change its words. -/
theorem words_append_of_blank {blanks : List Char} (h : ∀ c ∈ blanks, isBlank c = true)
    (text : List Char) : words (text ++ blanks) = words text := by
  have hblanks : Spaced blanks [] := by
    induction blanks with
    | nil => exact .nil
    | cons c rest ih =>
      obtain ⟨hc, hrest⟩ := List.forall_mem_cons.1 h
      exact .blank hc (ih hrest)
  have hboundary : atBoundary blanks = true := by
    cases blanks with
    | nil => rfl
    | cons c rest => exact h c List.mem_cons_self
  -- The blanks stand at the end of every way in which the text is spaced.
  have hspaced := spaced_words text
  generalize words text = ws at hspaced ⊢
  refine Spaced.words_eq ?_
  induction hspaced with
  | nil => exact hblanks
  | blank hc _ ih => exact .blank hc ih
  | @word w text _ hw hend _ ih =>
    rw [List.append_assoc]
    refine .word hw ?_ ih
    cases text with
    | nil => exact hboundary
    | cons c rest => exact hend

/-- What trimming takes away at the end. -/
theorem exists_trimEnd_append (text : List Char) :
    ∃ blanks, text = trimEnd text ++ blanks ∧ ∀ c ∈ blanks, isBlank c = true := by
  refine ⟨(text.reverse.takeWhile isBlank).reverse, ?_, fun c hc => ?_⟩
  · have hsplit := congrArg List.reverse (List.takeWhile_append_dropWhile (p := isBlank)
      (l := text.reverse))
    rw [List.reverse_append, List.reverse_reverse] at hsplit
    exact hsplit.symm
  · exact List.all_eq_true.1 List.all_takeWhile c (List.mem_reverse.1 hc)

/-- A text has the same words without blanks at its ends. -/
theorem words_trim (text : List Char) : words (trim text) = words text := by
  obtain ⟨blanks, hsplit, hblanks⟩ := exists_trimEnd_append (trimStart text)
  have hwords := congrArg words hsplit
  rw [words_append_of_blank hblanks, words_trimStart] at hwords
  exact hwords.symm

/-- No blank is left in front. -/
theorem isBlank_of_head?_trimStart {text : List Char} {c : Char}
    (h : (trimStart text).head? = some c) : isBlank c = false := by
  have hhead := List.head?_dropWhile_not isBlank text
  rw [← trimStart, h] at hhead
  simpa using hhead

/-- Behind trimming a text has no blanks at its ends. -/
theorem Trimmed.of_trim {text : List Char} (h : trim text ≠ []) : Trimmed (trim text) := by
  obtain ⟨blanks, hsplit, -⟩ := exists_trimEnd_append (trimStart text)
  refine ⟨h, fun c hc => ?_, fun c hc => ?_⟩
  · -- The first character is that of the text with blanks behind it.
    have hhead : (trimStart text).head? = some c := by
      rw [hsplit, List.head?_append, ← trim, hc, Option.some_or]
    exact isBlank_of_head?_trimStart hhead
  · rw [trim, trimEnd, List.getLast?_reverse] at hc
    exact isBlank_of_head?_trimStart hc

/-- Blanks behind a text are left out. -/
theorem trimEnd_append {blanks : List Char} (h : ∀ c ∈ blanks, isBlank c = true)
    (text : List Char) : trimEnd (text ++ blanks) = trimEnd text := by
  rw [trimEnd, List.reverse_append,
    trimStart_append fun c hc => h c (List.mem_reverse.1 hc), ← trimEnd]

/-- Trimming takes away blanks behind a text. -/
theorem trim_append_of_blank {blanks : List Char} (h : ∀ c ∈ blanks, isBlank c = true)
    (text : List Char) : trim (text ++ blanks) = trim text := by
  rw [trim, trim, trimStart, trimStart, List.dropWhile_append]
  split
  · next hempty =>
    -- There are only blanks.
    have hblanks : trimStart blanks = [] := by simpa [trimStart] using trimStart_append h []
    rw [List.isEmpty_iff.1 hempty, ← trimStart, hblanks]
  · exact trimEnd_append h _

/-- What trimming takes away at either end. -/
theorem exists_trim (text : List Char) :
    ∃ front back, text = front ++ (trim text ++ back) ∧ (∀ c ∈ front, isBlank c = true) ∧
      ∀ c ∈ back, isBlank c = true := by
  obtain ⟨back, hback, hblank⟩ := exists_trimEnd_append (trimStart text)
  refine ⟨text.takeWhile isBlank, back, ?_, fun c hc => ?_, hblank⟩
  · rw [trim, ← hback]
    exact List.takeWhile_append_dropWhile.symm
  · exact List.all_eq_true.1 List.all_takeWhile c hc

/-- Behind a trimmed text some blanks are left in front of what is left of another text. -/
theorem exists_trim_append {blanks first text : List Char}
    (hblanks : ∀ c ∈ blanks, isBlank c = true) (hfirst : Trimmed first) (htext : trim text ≠ []) :
    ∃ between, (∀ c ∈ between, isBlank c = true) ∧
      trim (blanks ++ (first ++ text)) = first ++ between ++ trim text := by
  obtain ⟨between, back, hsplit, hbetween, hback⟩ := exists_trim text
  have htrimmed := hfirst.append (.of_trim htext) between
  refine ⟨between, hbetween, ?_⟩
  rw [trim_blanks_append hblanks]
  calc trim (first ++ text)
    _ = trim (first ++ (between ++ (trim text ++ back))) :=
      congrArg (fun t => trim (first ++ t)) hsplit
    _ = trim (first ++ between ++ trim text ++ back) := by simp only [List.append_assoc]
    _ = trim (first ++ between ++ trim text) := trim_append_of_blank hback _
    _ = first ++ between ++ trim text := htrimmed.trim_eq

/-- Trimming adds no characters. -/
theorem mem_of_mem_trim {text : List Char} {c : Char} (h : c ∈ trim text) : c ∈ text := by
  obtain ⟨blanks, hsplit, -⟩ := exists_trimEnd_append (trimStart text)
  have hstart : c ∈ trimStart text := by
    rw [hsplit]
    exact List.mem_append_left blanks h
  exact (List.dropWhile_sublist isBlank).subset hstart

/-! ### Tokens -/

/-- Whether the text can stand anywhere on a line: a word without quotes that does not start a
comment. -/
def IsToken (text : List Char) : Prop :=
  IsWord text ∧ '"' ∉ text ∧ ¬ ['/', '/'] <+: text

instance (text : List Char) : Decidable (IsToken text) :=
  inferInstanceAs (Decidable (_ ∧ _ ∧ _))

/-- Whether the character can stand anywhere in a token. -/
def isPlain (c : Char) : Bool :=
  !isBlank c && c != '"' && c != '/'

/-- Plain characters are neither blanks nor quotes nor slashes. -/
theorem isPlain_iff {c : Char} : isPlain c = true ↔ isBlank c = false ∧ c ≠ '"' ∧ c ≠ '/' := by
  simp [isPlain, and_assoc]

/-- Plain characters make a token. -/
theorem IsToken.of_isPlain {text : List Char} (hne : text ≠ [])
    (h : ∀ c ∈ text, isPlain c = true) : IsToken text := by
  refine ⟨⟨hne, fun c hc => (isPlain_iff.1 (h c hc)).1⟩, fun hquote => ?_, ?_⟩
  · exact (isPlain_iff.1 (h _ hquote)).2.1 rfl
  · rintro ⟨rest, rfl⟩
    exact (isPlain_iff.1 (h '/' (by simp))).2.2 rfl

end CleanupFilter.Text
