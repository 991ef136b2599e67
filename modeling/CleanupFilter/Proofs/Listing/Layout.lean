import CleanupFilter.Proofs.Listing.Composition
import CleanupFilter.Proofs.Listing.Quotes
import CleanupFilter.Proofs.Listing.RoundTrip

/-!
# Layout of listings

Indices in front of lines and comments behind them change nothing in what a listing reads as, be it
its methods or its first error. So a body is printed with or without positions to the same effect,
even one that cannot be read back.

- `Line.SameReading`: lines that can stand for each other.
- `Line.sameReading_index`: an index in front of a line.
- `Line.Relaid`, `Text.Relaid`: lines and sources with another layout.
- `Text.Relaid.sameReading`: another layout does not change what is read.
- `Body.readListing_indexedListing`: positions in front of nodes do not either.
- `readListing_relaid`: sources with another layout, and bodies printed with positions.
-/

namespace CleanupFilter

open Text (isBlank IsToken atBoundary)

-- The table is a large closed term, which the unifier would evaluate.
attribute [local irreducible] instructionTable

/-! ### Texts of items -/

namespace Item

/-- The text counts for constants only. -/
theorem instruction?_congr {mnemonic text other : List Char}
    (h : constant? mnemonic other = constant? mnemonic text) (opcode : Opcode)
    (operands : Operands) (words : List (List Char)) :
    instruction? opcode operands mnemonic other words =
      instruction? opcode operands mnemonic text words := by
  unfold instruction?
  rw [h]

/-- An instruction depends on the text only through its constant. -/
theorem instruction_congr {mnemonic text other : List Char}
    (h : ∀ opcode, Opcode.ofMnemonic? (String.ofList mnemonic) = some opcode →
      constant? mnemonic other = constant? mnemonic text) (words : List (List Char)) :
    instruction mnemonic other words = instruction mnemonic text words := by
  rw [instruction, instruction]
  cases hopcode : Opcode.ofMnemonic? (String.ofList mnemonic) with
  | none => rfl
  | some opcode => simp only [instruction?_congr (h opcode hopcode)]

/-- Blanks and indices in front of a text do not matter. -/
theorem read_front {front : List Char}
    (hfront : ∀ c ∈ front, isBlank c = true ∨ c.isDigit = true ∨ c = ':') (head text : List Char)
    (words : List (List Char)) : read head (front ++ text) words = read head text words := by
  have hinstruction : instruction head (front ++ text) words = instruction head text words := by
    refine instruction_congr (fun opcode hopcode => ?_) words
    -- A mnemonic starts with a letter, which does not occur in front of the text.
    obtain ⟨first, rest, rfl, hletter⟩ := Opcode.exists_eq_of_ofMnemonic? hopcode
    have hnot : first ∉ front := fun hmem =>
      not_index_of_isLower_toLower hletter (hfront first hmem)
    rw [constant?, constant?, afterFirst?_front hnot]
  rw [read, read, hinstruction]

end Item

/-! ### Lines that read alike -/

namespace Line

/-- The lines can stand for each other, whatever number they have and whatever is open. -/
def SameReading (line other : List Char) : Prop :=
  ∀ number opened, readLine number opened (read other) = readLine number opened (read line)

variable {line other : List Char}

/-- Lines with the same text and the same words are read alike. -/
theorem SameReading.of_read_eq (h : read other = read line) : SameReading line other :=
  fun number opened => congrArg (readLine number opened) h

/-- Lines with the same words can stand for each other if their texts differ by blanks and indices
in front. -/
theorem sameReading_of_words (hwords : (read other).words = (read line).words)
    (htext : (read line).words ≠ [] → ∃ front,
      (∀ c ∈ front, isBlank c = true ∨ c.isDigit = true ∨ c = ':') ∧
        (read other).text = front ++ (read line).text) : SameReading line other := by
  intro number opened
  rw [readLine, readLine, hwords]
  cases hline : (read line).words with
  | nil => rfl
  | cons head words =>
    obtain ⟨front, hfront, htext⟩ := htext (by rw [hline]; exact List.cons_ne_nil head words)
    have hitem := Item.read_front hfront head (read line).text words
    simp only [htext, continueMethod, hitem]

/-- Blanks in front of a line do not matter. -/
theorem sameReading_blanks {blanks : List Char} (h : ∀ c ∈ blanks, isBlank c = true)
    (line : List Char) : SameReading line (blanks ++ line) := by
  refine .of_read_eq ?_
  rw [read, read, stripComment, stripCommentAfter_blanks_append h, ← stripComment,
    Text.trim_blanks_append h]

/-- Without an index all words of a line count. -/
theorem words_read_of_not_index
    (hfirst : ∀ word ∈ (Text.words (stripComment line)).head?, isIndex word = false) :
    (read line).words = Text.words (stripComment line) := by
  show dropIndex (Text.words (Text.trim (stripComment line))) = _
  rw [Text.words_trim]
  cases hwords : Text.words (stripComment line) with
  | nil => rfl
  | cons word rest =>
    rw [dropIndex, hfirst word (by rw [hwords]; rfl)]
    rfl

/-- What is stripped from a line behind a token is stripped from the line. -/
theorem stripComment_token_append {blanks token after : List Char}
    (hblanks : ∀ c ∈ blanks, isBlank c = true) (htoken : IsToken token)
    (hafter : atBoundary after = true) :
    stripComment (blanks ++ (token ++ after)) = blanks ++ (token ++ stripComment after) := by
  obtain ⟨hword, hquote, hslashes⟩ := htoken
  rw [stripComment, stripCommentAfter_blanks_append hblanks,
    stripCommentAfter_word hword hafter rfl, if_neg fun h => hslashes h.2,
    quotedAfter_of_notMem hquote, ← stripComment]

/-- A blank in front of a line stays when its comment goes. -/
theorem stripComment_cons_of_isBlank {blank : Char} (h : isBlank blank = true)
    (line : List Char) : stripComment (blank :: line) = blank :: stripComment line :=
  stripCommentAfter_cons_of_isBlank h none false line

/-- An index in front of a line says nothing, unless the line has one already. -/
theorem sameReading_index {blanks digits : List Char} {blank : Char}
    (hblanks : ∀ c ∈ blanks, isBlank c = true) (hdigits : ∀ c ∈ digits, c.isDigit = true)
    (hne : digits ≠ []) (hblank : isBlank blank = true)
    (hfirst : ∀ word ∈ (Text.words (stripComment line)).head?, isIndex word = false) :
    SameReading line (blanks ++ (digits ++ ':' :: blank :: line)) := by
  have hindex : isIndex (digits ++ [':']) = true := by
    simpa [isIndex, hne] using hdigits
  have htoken := isToken_of_isIndex hindex
  have hboundary : ∀ text, atBoundary (blank :: text) = true := fun _ => hblank
  -- The index is a token, so no comment starts in it and no quotes are open behind it.
  have hstrip : stripComment (blanks ++ (digits ++ ':' :: blank :: line)) =
      blanks ++ (digits ++ [':'] ++ blank :: stripComment line) := by
    rw [List.append_cons, stripComment_token_append hblanks htoken (hboundary line),
      stripComment_cons_of_isBlank hblank]
  have hline := words_read_of_not_index hfirst
  refine sameReading_of_words ?_ fun hsome => ?_
  · -- The index is the first word and is dropped.
    show dropIndex (Text.words (Text.trim _)) = _
    rw [Text.words_trim, hstrip, Text.words_blanks_append hblanks,
      Text.words_append htoken.1 _ (hboundary _), dropIndex, if_pos hindex, Text.words,
      if_pos hblank, hline]
  · have htrim : Text.trim (blank :: stripComment line) = Text.trim (stripComment line) :=
      Text.trim_blanks_append (List.forall_mem_singleton.2 hblank) _
    have hsome : Text.trim (blank :: stripComment line) ≠ [] := by
      rw [hline, ← Text.words_trim, ← htrim] at hsome
      rintro hnil
      exact hsome (by rw [hnil]; rfl)
    obtain ⟨between, hbetween, htext⟩ :=
      Text.exists_trim_append hblanks (.of_isWord htoken.1) hsome
    refine ⟨digits ++ [':'] ++ between, fun c hc => ?_, ?_⟩
    · simp only [List.mem_append, List.mem_cons, List.not_mem_nil, or_false] at hc
      rcases hc with (hc | hc) | hc
      · exact .inr (.inl (hdigits c hc))
      · exact .inr (.inr hc)
      · exact .inl (hbetween c hc)
    · show Text.trim (stripComment _) = _ ++ Text.trim (stripComment line)
      rw [hstrip, htext, htrim]

/-! ### Lines with another layout -/

/-- The other line is the line itself, or has an index in front or a comment behind it. -/
inductive Relaid (line : List Char) : List Char → Prop
  | kept : Relaid line line
  | indexed {digits : List Char} {blank : Char} :
      digits ≠ [] → (∀ c ∈ digits, c.isDigit = true) → isBlank blank = true → blank ≠ '\n' →
      (∀ word ∈ (Text.words (stripComment line)).head?, isIndex word = false) →
      Relaid line (digits ++ ':' :: blank :: line)
  | commented {comment : List Char} {blank : Char} :
      isBlank blank = true → blank ≠ '\n' → '\n' ∉ comment →
      stripComment line ≠ line ∨ Even (bareQuotes none line) →
      Relaid line (line ++ blank :: '/' :: '/' :: comment)

/-- A line that is laid out in another way is read alike. -/
theorem Relaid.sameReading (h : Relaid line other) : SameReading line other := by
  cases h with
  | kept => exact .of_read_eq rfl
  | indexed hne hdigits hblank _ hfirst =>
    exact @sameReading_index line [] _ _ (List.forall_mem_nil _) hdigits hne hblank hfirst
  | commented hblank _ _ hline => exact .of_read_eq (read_append_comment hblank hline _)

/-- A line that is laid out in another way is still one line. -/
theorem Relaid.unbroken (h : Relaid line other) (hline : '\n' ∉ line) : '\n' ∉ other := by
  cases h with
  | kept => exact hline
  | @indexed digits blank _ hdigits _ hne _ =>
    have hdigit : '\n' ∉ digits := fun hmem => absurd (hdigits _ hmem) (by decide)
    simp [hdigit, hline, hne.symm]
  | commented _ hne hcomment _ => simp [hline, hcomment, hne.symm]

/-- What a line can end with. -/
def endings : List (List Char) :=
  [['\n'], ['\r', '\n']]

end Line

/-! ### Lines of a text -/

/-- Lines are read alike if the first ones are, and the others. -/
theorem readLines_cons_congr {line other : List Char} {rest otherRest : List (List Char)}
    (hline : Line.SameReading line other)
    (hrest : ∀ number opened, readLines number opened otherRest = readLines number opened rest)
    (number : Nat) (opened : Option OpenMethod) :
    readLines number opened (other :: otherRest) = readLines number opened (line :: rest) := by
  rw [readLines, readLines, hline]
  simp only [hrest]

/-- A line feed ends a line, whether or not the line ends with a carriage return. -/
theorem readLines_split_feed {line : List Char} (hfeed : '\n' ∉ line) (rest : List Char)
    (number : Nat) (opened : Option OpenMethod) :
    readLines number opened (Line.split (line ++ '\n' :: rest)) =
      readLines number opened (line :: Line.split rest) := by
  by_cases hreturn : line.getLast? = some '\r'
  · obtain ⟨front, rfl⟩ := List.getLast?_eq_some_iff.1 hreturn
    have hfront : '\n' ∉ front := fun hmem => hfeed (List.mem_append_left _ hmem)
    have hread : Line.read front = Line.read (front ++ ['\r']) :=
      (Line.read_append_blank (by decide)).symm
    rw [List.append_assoc, List.singleton_append, Line.split_append_return hfront]
    exact readLines_cons_congr (.of_read_eq hread) (fun _ _ => rfl) number opened
  · rw [Line.split_append hfeed hreturn]

/-- A line that is not ended counts as well; if it is empty, it says nothing. -/
theorem readLines_split_last {line : List Char} (hfeed : '\n' ∉ line) (number : Nat)
    (opened : Option OpenMethod) :
    readLines number opened (Line.split line) = readLines number opened [line] := by
  by_cases hne : line = []
  · subst hne
    cases opened <;> rfl
  · rw [Line.split_of_notMem hfeed hne]

/-! ### Sources that read alike -/

namespace Text

/-- The texts can stand for each other, whatever stands in front of them. -/
def SameReading (text other : List Char) : Prop :=
  ∀ number opened,
    readLines number opened (Line.split other) = readLines number opened (Line.split text)

namespace SameReading

variable {line other rest otherRest : List Char}

/-- A text is read like itself. -/
theorem refl (text : List Char) : SameReading text text :=
  fun _ _ => rfl

/-- Texts of one line are read alike if the lines are. -/
theorem last (hline : Line.SameReading line other) (hfeed : '\n' ∉ line) (hfeed' : '\n' ∉ other) :
    SameReading line other := by
  intro number opened
  rw [readLines_split_last hfeed, readLines_split_last hfeed']
  exact readLines_cons_congr hline (fun _ _ => rfl) number opened

/-- Texts are read alike if their first lines are, and the others. -/
theorem next (hline : Line.SameReading line other) (hfeed : '\n' ∉ line) (hfeed' : '\n' ∉ other)
    (hrest : SameReading rest otherRest) :
    SameReading (line ++ '\n' :: rest) (other ++ '\n' :: otherRest) := by
  intro number opened
  rw [readLines_split_feed hfeed, readLines_split_feed hfeed']
  exact readLines_cons_congr hline hrest number opened

/-- The same lines can stand in front of both texts. -/
theorem append_left {front : List Char} (hfront : IsComplete front)
    (hrest : SameReading rest otherRest) : SameReading (front ++ rest) (front ++ otherRest) := by
  intro number opened
  rw [Line.split_append_of_isComplete hfront, Line.split_append_of_isComplete hfront]
  generalize Line.split front = lines
  induction lines generalizing number opened with
  | nil => exact hrest number opened
  | cons line lines ih => exact readLines_cons_congr (.of_read_eq rfl) ih number opened

end SameReading

/-- The lines of the other text are those of the text, each of them possibly laid out in another
way, and end alike. -/
inductive Relaid : List Char → List Char → Prop
  | last {line other : List Char} : '\n' ∉ line → Line.Relaid line other → Relaid line other
  | next {line other ending rest otherRest : List Char} :
      '\n' ∉ line → Line.Relaid line other → ending ∈ Line.endings → Relaid rest otherRest →
      Relaid (line ++ (ending ++ rest)) (other ++ (ending ++ otherRest))

/-- Another layout does not change what is read. -/
theorem Relaid.sameReading {text other : List Char} (h : Relaid text other) :
    SameReading text other := by
  induction h with
  | last hfeed hline => exact .last hline.sameReading hfeed (hline.unbroken hfeed)
  | @next line other ending rest otherRest hfeed hline hending _ ih =>
    have hfeed' := hline.unbroken hfeed
    simp only [Line.endings, List.mem_cons, List.not_mem_nil, or_false] at hending
    rcases hending with rfl | rfl
    · exact .next hline.sameReading hfeed hfeed' ih
    · -- The carriage return is a blank behind either line.
      have hreturn : Line.SameReading (line ++ ['\r']) (other ++ ['\r']) := fun number opened => by
        have hblank : isBlank '\r' = true := by decide
        rw [Line.read_append_blank hblank, Line.read_append_blank hblank, hline.sameReading]
      have hnext := SameReading.next hreturn (by simpa using hfeed) (by simpa using hfeed') ih
      rwa [List.append_assoc, List.append_assoc] at hnext

end Text

/-! ### Printed bodies -/

namespace Line

/-- The first line of a text. -/
def firstOf (text : List Char) : List Char :=
  text.takeWhile (· ≠ '\n')

/-- The first line has no line feed. -/
theorem notMem_firstOf (text : List Char) : '\n' ∉ firstOf text := by
  intro hmem
  have hne := List.all_eq_true.1 List.all_takeWhile _ hmem
  exact of_decide_eq_true hne rfl

/-- What has no line feed belongs to the first line. -/
theorem firstOf_append {front : List Char} (h : '\n' ∉ front) (text : List Char) :
    firstOf (front ++ text) = front ++ firstOf text :=
  List.takeWhile_append_of_pos fun _ hc => decide_eq_true fun heq => h (heq ▸ hc)

/-- A text that starts with a blank, or is empty, has such a first line. -/
theorem atBoundary_firstOf {text : List Char} (h : atBoundary text = true) :
    atBoundary (firstOf text) = true := by
  cases text with
  | nil => rfl
  | cons c rest =>
    rw [firstOf, List.takeWhile_cons]
    split
    · exact h
    · rfl

/-- The other text has something in front that says nothing on its first line. -/
def Fronted (text other : List Char) : Prop :=
  ∃ front, other = front ++ text ∧ '\n' ∉ front ∧
    SameReading (firstOf text) (front ++ firstOf text)

/-- A text is fronted by nothing. -/
theorem Fronted.refl (text : List Char) : Fronted text text :=
  ⟨[], rfl, List.not_mem_nil, .of_read_eq rfl⟩

/-- A text may be fronted by spaces. -/
theorem Fronted.replicate (n : Nat) (text : List Char) :
    Fronted text (List.replicate n ' ' ++ text) :=
  ⟨_, rfl, by simp, sameReading_blanks (fun _ => Text.isBlank_of_mem_replicate) _⟩

/-- A line that is fronted by blanks or an index is read alike, with any lines behind it. -/
theorem Fronted.sameReading {text other rest otherRest : List Char} (h : Fronted text other)
    (hrest : Text.SameReading rest otherRest) :
    Text.SameReading (text ++ '\n' :: rest) (other ++ '\n' :: otherRest) := by
  obtain ⟨front, rfl, hfront, hline⟩ := h
  have hfeed := notMem_firstOf text
  have hfeed' : '\n' ∉ front ++ firstOf text := by simp [hfront, hfeed]
  have hsplit : firstOf text ++ text.dropWhile (· ≠ '\n') = text := List.takeWhile_append_dropWhile
  cases hmore : text.dropWhile (· ≠ '\n') with
  | nil =>
    rw [hmore, List.append_nil] at hsplit
    rw [← hsplit]
    exact .next hline hfeed hfeed' hrest
  | cons c more =>
    -- The other lines of the text are the same in both.
    obtain rfl : c = '\n' := by
      have hhead := List.head?_dropWhile_not (fun c : Char => decide (c ≠ '\n')) text
      rw [hmore] at hhead
      simpa using hhead
    have hcomplete : Text.IsComplete (more ++ ['\n']) := .inr ⟨more, rfl⟩
    have hnext := Text.SameReading.next hline hfeed hfeed' (hrest.append_left hcomplete)
    rw [hmore] at hsplit
    rw [← hsplit]
    simpa using hnext

/-- Lines that are fronted one by one are read alike. -/
theorem sameReading_flatMap {texts others : List (List Char)}
    (h : List.Forall₂ Fronted texts others) :
    Text.SameReading (texts.flatMap (· ++ ['\n'])) (others.flatMap (· ++ ['\n'])) := by
  induction h with
  | nil => exact .refl []
  | cons hfronted _ ih =>
    simp only [List.flatMap_cons, List.append_assoc, List.singleton_append]
    exact hfronted.sameReading ih

/-- The words of a line that starts with a token. -/
theorem words_stripComment_token {blanks token after : List Char}
    (hblanks : ∀ c ∈ blanks, isBlank c = true) (htoken : IsToken token)
    (hafter : atBoundary after = true) :
    Text.words (stripComment (blanks ++ (token ++ after))) =
      token :: Text.words (stripComment after) := by
  have hstrip : atBoundary (stripComment after) = true := atBoundary_stripCommentAfter hafter false
  rw [stripComment_token_append hblanks htoken hafter, Text.words_blanks_append hblanks,
    Text.words_append htoken.1 _ hstrip]

/-- A position says nothing in front of a token that is no index. -/
theorem fronted_indexColumn {word after : List Char} (hword : IsToken word)
    (hindex : isIndex word = false) (hafter : atBoundary after = true) (position n : Nat) :
    Fronted (List.replicate n ' ' ++ (word ++ after))
      (indexColumn position ++ (List.replicate n ' ' ++ (word ++ after))) := by
  have hfeed : '\n' ∉ List.replicate n ' ' ++ word := by
    simp [notMem_newline_of_isWord hword.1]
  have hfirst : firstOf (List.replicate n ' ' ++ (word ++ after)) =
      List.replicate n ' ' ++ (word ++ firstOf after) := by
    rw [← List.append_assoc, firstOf_append hfeed, List.append_assoc]
  have hwords := @words_stripComment_token (List.replicate n ' ') word (firstOf after)
    (fun _ => Text.isBlank_of_mem_replicate) hword (atBoundary_firstOf hafter)
  obtain ⟨k, hcolumn⟩ := exists_indexColumn_eq position
  refine ⟨indexColumn position, rfl, ?_, ?_⟩
  · simpa using (isMargin_indexColumn position 0).unbroken
  · rw [hfirst, hcolumn]
    simpa using sameReading_index (fun _ => Text.isBlank_of_mem_replicate)
      (fun _ => Text.Numeral.isDigit_of_mem_ofNat) (Text.Numeral.ofNat_ne_nil position)
      Text.isBlank_space fun first hmem => by
        rw [hwords] at hmem
        exact Option.some.inj hmem ▸ hindex

end Line

namespace Opcode

/-- Opcodes that are not defined have one printed form. -/
theorem display_of_isDefined_eq_false {opcode : Opcode} (h : opcode.isDefined = false) :
    opcode.display.toList = "<INVALID>".toList := by
  have hnone : opcode.instruction? = none := by
    rwa [isDefined, Option.isSome_eq_false_iff, Option.isNone_iff_eq_none] at h
  rw [toList_display]
  unfold mnemonic
  rw [hnone]
  decide +kernel

/-- The printed form of any opcode is a token but no index. -/
theorem isToken_and_not_index (opcode : Opcode) :
    IsToken opcode.display.toList ∧ Line.isIndex opcode.display.toList = false := by
  cases hdefined : opcode.isDefined with
  | true => exact ⟨isToken_display hdefined, by simp [Line.isIndex, getLast?_display_ne hdefined]⟩
  | false =>
    rw [display_of_isDefined_eq_false hdefined]
    decide

end Opcode

/-- Words that are joined start with the first one, which ends where it should. -/
theorem exists_joinWords_eq (first : List Char) (rest : List (List Char)) :
    ∃ after, joinWords (first :: rest) = first ++ after ∧ atBoundary after = true := by
  cases rest with
  | nil => exact ⟨[], by simp [joinWords], rfl⟩
  | cons second rest => exact ⟨' ' :: joinWords (second :: rest), Line.joinWords_cons_cons .., rfl⟩

/-- The text of a node starts with a token that is no index. -/
theorem Node.exists_text_eq {node : Node String}
    (hlabels : ∀ name ∈ node.mentioned?, IsLabelName name) :
    ∃ word after, node.text = word ++ after ∧ IsToken word ∧ Line.isIndex word = false ∧
      atBoundary after = true := by
  have htext : ∀ {word : List Char} {rest : List (List Char)},
      node.lineWords = word :: rest → IsToken word ∧ Line.isIndex word = false →
      ∃ word after, node.text = word ++ after ∧ IsToken word ∧ Line.isIndex word = false ∧
        atBoundary after = true := by
    rintro word rest hwords ⟨htoken, hindex⟩
    obtain ⟨after, hjoin, hafter⟩ := exists_joinWords_eq word rest
    exact ⟨word, after, by rw [text, hwords, hjoin], htoken, hindex, hafter⟩
  cases node with
  | label name =>
    obtain ⟨n, hn⟩ := hlabels name rfl
    refine htext rfl ⟨?_, ?_⟩
    · rw [hn]
      exact Text.Numeral.isToken_between ['L'] [':'] rfl n
    · have hall : name.toList.all Char.isDigit = false := by rw [hn]; rfl
      rw [Line.isIndex, List.dropLast_concat, hall, Bool.and_false]
  | line number start => exact htext rfl (by decide)
  | frame => exact htext rfl (by decide)
  | _ => exact htext rfl (Opcode.isToken_and_not_index _)

/-- A position in front of a node says nothing. -/
theorem Node.fronted {node : Node String} (hlabels : ∀ name ∈ node.mentioned?, IsLabelName name)
    (position : Nat) :
    Line.Fronted (node.indent ++ node.text)
      (indexColumn position ++ (node.indent ++ node.text)) := by
  obtain ⟨word, after, htext, htoken, hindex, hafter⟩ := exists_text_eq hlabels
  rw [htext, indent]
  exact Line.fronted_indexColumn htoken hindex hafter position _

namespace Body

variable (body : Body Label)

/-- Line by line, a body that is printed with positions has something in front that says nothing. -/
theorem forall₂_lines :
    List.Forall₂ Line.Fronted (body.withLabelNames.lines (fun _ => []) [])
      (body.withLabelNames.lines indexColumn (List.replicate 6 ' ')) := by
  refine List.rel_append (List.rel_append (.cons (.refl _) ?_) ?_) (.cons (.refl _) .nil)
  · rw [List.forall₂_map_left_iff, List.forall₂_map_right_iff, List.forall₂_same]
    -- Every node has its position in front.
    rintro ⟨node, position⟩ hmem
    have hnode := Array.mem_toList_iff.1
      (List.mem_of_getElem? (List.mem_zipIdx_iff_getElem?.1 hmem))
    obtain ⟨original, -, rfl⟩ := Array.mem_map.1 hnode
    have hfronted := Node.fronted
      (Node.mentioned?_isLabelName (.ofMentions body.mentions) original) position
    rwa [← List.append_assoc] at hfronted
  · rw [List.forall₂_map_left_iff, List.forall₂_map_right_iff, List.forall₂_same]
    -- Every entry has some more spaces in front.
    intro entry _
    have hfronted := Line.Fronted.replicate 6 (List.replicate 4 ' ' ++ entry.text)
    rwa [← List.append_assoc] at hfronted

/-- A listing with indices is read like one without. -/
theorem readListing_indexedListing :
    readListing body.indexedListing = readListing body.listing := by
  have hreading := Line.sameReading_flatMap body.forall₂_lines 1 none
  rw [readListing, readListing, indexedListing, listing, String.toList_ofList,
    String.toList_ofList]
  exact hreading

end Body

/-- Sources that differ in indices and comments only are read alike, errors included, and so are a
body that is printed with positions and the body printed without them, be it valid or not. -/
theorem readListing_relaid :
    (∀ source other : String, Text.Relaid source.toList other.toList →
        readListing other = readListing source) ∧
      ∀ body : Body Label, readListing body.indexedListing = readListing body.listing :=
  ⟨fun _ _ h => h.sameReading 1 none, Body.readListing_indexedListing⟩

/-- A method with slashes in a constant and a comment. -/
def plainListing : String :=
  "method f ()V\r\nLDC \"a // b\"\nRETURN // done\nend\n"

/-- The same method with an index and with comments behind other lines. -/
def annotatedListing : String :=
  "method f ()V // a \"method\r\n0: LDC \"a // b\"\nRETURN // done // \"\nend\n"

/-- A body with an undefined opcode behind a constant of three lines, the second of which ends the
method. -/
def brokenBody : Body Label where
  name := "f"
  desc := "()V"
  nodes := #[.ldc ⟨0x12⟩ "a\nend\n// \"", .plain ⟨0xff⟩]
  tryCatches := []

theorem relaid_annotatedListing : Text.Relaid plainListing.toList annotatedListing.toList := by
  have hheader : Line.Relaid "method f ()V".toList
      ("method f ()V".toList ++ ' ' :: '/' :: '/' :: " a \"method".toList) :=
    .commented (by decide) (by decide) (by decide) (.inr (by decide))
  have hconstant : Line.Relaid "LDC \"a // b\"".toList
      (['0'] ++ ':' :: ' ' :: "LDC \"a // b\"".toList) :=
    .indexed (by decide) (List.forall_mem_singleton.2 (by decide)) (by decide) (by decide)
      (by decide +kernel)
  have hreturn : Line.Relaid "RETURN // done".toList
      ("RETURN // done".toList ++ ' ' :: '/' :: '/' :: " \"".toList) :=
    .commented (by decide) (by decide) (by decide) (.inl (by decide))
  have hend : Text.Relaid ("end".toList ++ (['\n'] ++ [])) ("end".toList ++ (['\n'] ++ [])) :=
    .next (by decide) .kept (by decide) (.last (by decide) .kept)
  have hrelaid := Text.Relaid.next (by decide) hheader (by decide : ['\r', '\n'] ∈ Line.endings)
    (.next (by decide) hconstant (by decide : ['\n'] ∈ Line.endings)
      (.next (by decide) hreturn (by decide : ['\n'] ∈ Line.endings) hend))
  convert hrelaid using 1 <;> decide +kernel

/-- A listing with indices and comments is read alike, and the error of a body that is broken is
found on the same line. -/
theorem readListing_relaid_annotated :
    Text.Relaid plainListing.toList annotatedListing.toList ∧
      readListing annotatedListing = .ok
        [⟨"f", "()V", #[.ldc ⟨0x12⟩ "\"a // b\"", .plain .voidReturn], []⟩] ∧
      readListing brokenBody.indexedListing =
        .error (.line 5 (.outsideMethod "<INVALID>")) := by
  obtain ⟨hsources, hbodies⟩ := readListing_relaid
  refine ⟨relaid_annotatedListing, ?_, ?_⟩
  · rw [hsources _ _ relaid_annotatedListing]
    decide +kernel
  · rw [hbodies]
    decide +kernel

end CleanupFilter
