import CleanupFilter.Proofs.Listing.Accepted

/-!
# Printing what was read

A body that was read from a listing is printed as a listing that reads as the body with its labels
numbered by first mention, whatever its words are, with one exception. The type of an exception
table entry may start with two slashes if it stood behind a quote in the label names of its line,
and quotes in label names are not printed; so the type is taken for a comment.

- `TryCatch.readLine_commented`: the line of such an entry is refused.
- `Body.readLines_commented`: so are the lines of its body, at the first such entry.
- `Body.readListing_listing_of_mem`: what a printed body reads as.
-/

namespace CleanupFilter

open Text (IsToken)

/-! ### Types that start comments -/

namespace TryCatch

variable {entry : TryCatch String}

/-- Where an entry is printed, a type that starts a comment is not read. -/
theorem words_read_commented (hwritable : entry.Writable) (hcommented : entry.Commented)
    (hlabels : ∀ name ∈ entry.labels, IsLabelName name) (n : Nat) :
    (Line.read (List.replicate n ' ' ++ entry.text)).words = entry.labelWords := by
  obtain ⟨caught, hcaught, hslashes⟩ := hcommented
  have hwords : Text.words (List.replicate n ' ' ++ entry.text) =
      entry.labelWords ++ caught.toList :: [] := by
    rw [Text.words_replicate_append, (fills_text hwritable hlabels).words_eq, lineWords, hcaught]
    rfl
  have hread : (Line.read (List.replicate n ' ' ++ entry.text)).words =
      Line.dropIndex (Text.words (Text.trim
        (Line.stripComment (List.replicate n ' ' ++ entry.text)))) := rfl
  -- The labels are tokens, so that the slashes of the type start the comment.
  rw [hread, Text.words_trim, Line.stripComment, Line.words_stripCommentAfter_tokens rfl
    (isToken_of_mem_labelWords hlabels) hslashes hwords]
  rfl

/-- An entry with a type that starts a comment is refused as an entry without a type. -/
theorem readLine_commented (hwritable : entry.Writable) (hcommented : entry.Commented)
    (hlabels : ∀ name ∈ entry.labels, IsLabelName name) (n number : Nat) (method : OpenMethod) :
    readLine number (some method) (Line.read (List.replicate n ' ' ++ entry.text)) =
      .error (.line number .tryCatchEntry) := by
  rw [readLine, words_read_commented hwritable hcommented hlabels, labelWords]
  dsimp only
  rw [if_neg (by decide), if_neg (by decide)]
  rfl

end TryCatch

namespace Body

variable {body : Body Label}

/-- A line without a position is indented by a margin. -/
theorem isMargin_indent (position n : Nat) :
    IsMargin ((fun _ => []) position ++ List.replicate n ' ') :=
  isMargin_replicate n

/-- In front of the line of an entry stand the first line and lines of items. -/
theorem exists_lines_eq_append (hbuilt : body.IsBuilt) (hwritable : body.Writable)
    {before after : List (TryCatch String)} {entry : TryCatch String}
    (hentries : body.withLabelNames.tryCatches = before ++ entry :: after)
    (hbefore : ∀ earlier ∈ before, ¬ earlier.Commented) :
    ∃ middle rest, List.Forall₂ ItemLine middle
        (body.withLabelNames.nodes.toList.map .node ++ before.map .tryCatch) ∧
      body.withLabelNames.lines (fun _ => []) [] =
        joinWords [Keyword.openMethod, body.name.toList, body.desc.toList] ::
          (middle ++ (List.replicate 4 ' ' ++ entry.text) :: rest) := by
  have hmem : ∀ earlier ∈ before, earlier ∈ body.withLabelNames.tryCatches := by
    rw [hentries]
    exact fun earlier => List.mem_append_left _
  have hmargin : IsMargin ([] ++ List.replicate 4 ' ') := isMargin_replicate 4
  refine ⟨_, after.map (fun entry => [] ++ List.replicate 4 ' ' ++ entry.text) ++
    [Keyword.closeMethod], List.rel_append (itemLines_nodes hbuilt hwritable isMargin_indent)
    (itemLines_tryCatches hwritable hmargin hmem hbefore), ?_⟩
  rw [lines, hentries, List.map_append, List.map_cons]
  simp only [List.append_assoc, List.cons_append, List.nil_append]
  rfl

/-- The lines of a body are refused at the first entry with a type that starts a comment. -/
theorem readLines_commented (hbuilt : body.IsBuilt) (hwritable : body.Writable)
    {before after : List (TryCatch String)} {entry : TryCatch String}
    (hentries : body.withLabelNames.tryCatches = before ++ entry :: after)
    (hbefore : ∀ earlier ∈ before, ¬ earlier.Commented) (hcommented : entry.Commented)
    (number : Nat) :
    readLines number none (body.withLabelNames.lines (fun _ => []) []) =
      .error (.line (number + 1 + (body.nodes.size + before.length)) .tryCatchEntry) := by
  have hmem : entry ∈ body.withLabelNames.tryCatches := by
    rw [hentries]
    exact List.mem_append_right _ List.mem_cons_self
  obtain ⟨original, horiginal, rfl⟩ := List.mem_map.1 hmem
  obtain ⟨middle, rest, hmiddle, hlines⟩ :=
    exists_lines_eq_append hbuilt hwritable hentries hbefore
  have hlength : middle.length = body.nodes.size + before.length := by
    rw [hmiddle.length_eq, List.length_append, List.length_map, List.length_map,
      Array.length_toList, withLabelNames, mapLabel, Array.size_map]
  -- The first line opens the method, those of items add to it, and the entry is refused.
  rw [hlines, readLines_cons (readLine_header hwritable number), readLines_append hmiddle,
    readLines, TryCatch.readLine_commented (hwritable.tryCatches original horiginal) hcommented
      (original.labels_isLabelName _), hlength]
  rfl

/-- A printed body reads as the body with canonical labels, unless the type of an exception table
entry starts a comment; then the first line with such a type is refused. -/
theorem readListing_listing_of_mem {source : String} {bodies : List (Body Label)}
    (h : readListing source = .ok bodies) {body : Body Label} (hbody : body ∈ bodies) :
    readListing body.listing =
      match body.tryCatches.findIdx? fun entry => decide entry.Commented with
      | none => .ok [body.canonical]
      | some index => .error (.line (body.nodes.size + index + 2) .tryCatchEntry) := by
  obtain ⟨hbuilt, hwritable⟩ := isBuilt_and_writable_of_mem h hbody
  -- What labels are called does not matter for types.
  have hnamed : (body.withLabelNames.tryCatches.findIdx? fun entry => decide entry.Commented) =
      body.tryCatches.findIdx? fun entry => decide entry.Commented := List.findIdx?_map
  cases hindex : body.tryCatches.findIdx? fun entry => decide entry.Commented with
  | none =>
    simp only [List.findIdx?_eq_none_iff, decide_eq_false_iff_not] at hindex
    exact readListing_lines hbuilt hwritable hindex isMargin_indent (isMargin_replicate 4)
  | some index =>
    rw [hindex] at hnamed
    -- The table is split at the first entry with such a type.
    obtain ⟨hlt, hcommented, hbefore⟩ := List.findIdx?_eq_some_iff_getElem.1 hnamed
    have hentries := (List.take_append_drop index body.withLabelNames.tryCatches).symm
    rw [List.drop_eq_getElem_cons hlt] at hentries
    have hbefore : ∀ earlier ∈ body.withLabelNames.tryCatches.take index,
        ¬ earlier.Commented := by
      intro earlier hearlier
      obtain ⟨j, hj, rfl⟩ := List.mem_take_iff_getElem.1 hearlier
      simpa using hbefore j (by omega)
    rw [readListing, listing, String.toList_ofList, Line.split_flatMap
      (between_of_mem_lines hbuilt hwritable isMargin_indent (isMargin_replicate 4)),
      readLines_commented hbuilt hwritable hentries hbefore (of_decide_eq_true hcommented),
      List.length_take_of_le (Nat.le_of_lt hlt)]
    congr 2
    omega

/-- A method with an odd quote in a label name and another one in front of a type. -/
def slashedListing : String :=
  "method m ()V // quotes\na\"b:\n0: GETSTATIC p\"q.r : //s\nGOTO a\"b\nend\n"

/-- The method of `slashedListing`. -/
def slashedBody : Body Label where
  name := "m"
  desc := "()V"
  nodes := #[.label ⟨0⟩, .field ⟨0xb2⟩ ⟨"p\"q", "r", "//s"⟩, .jump .goto ⟨0⟩]
  tryCatches := []

/-- A type that starts with slashes is lost when it is printed. -/
theorem readListing_listing_slashed :
    readListing slashedListing = .ok [slashedBody] ∧
      readListing slashedBody.listing = .ok [slashedBody.canonical] := by
  have h : readListing slashedListing = .ok [slashedBody] := by decide +kernel
  exact ⟨h, readListing_listing_of_mem h List.mem_cons_self⟩

/-- A method with a quote in a label name and a type that starts with two slashes behind it. -/
def quotedListing : String :=
  "method m ()V\na\"b:\nc:\nd:\nTRYCATCHBLOCK a\"b c d //t\nend\n"

/-- The printed names hold no quote, so the type is taken for a comment. -/
theorem readListing_listing_quoted :
    ∃ body, readListing quotedListing = .ok [body] ∧
      readListing body.listing = .error (.line 5 .tryCatchEntry) := by
  refine ⟨⟨"m", "()V", #[.label ⟨0⟩, .label ⟨1⟩, .label ⟨2⟩], [⟨⟨0⟩, ⟨1⟩, ⟨2⟩, some "//t"⟩]⟩,
    ?_, ?_⟩
  · decide +kernel
  · decide +kernel

end Body

end CleanupFilter
