import CleanupFilter.Proofs.Method.Relabel

/-!
# Names in printed listings

A listing is a text with gaps for the names of labels. The gaps stand for the labels that the body
mentions, in the same order as those are numbered, so every printed name is `L` and a number by
first mention. Hence names tell labels apart and do not depend on handles, for any body.

- `Piece`, `Body.pieces`: the text with its gaps.
- `Body.filled_pieces`: filling the gaps gives the lines of the body with these names.
- `Body.gaps_pieces`: the gaps stand for the labels that are mentioned.
- `map_labelName_eraseDups`: the names in order of first mention.
- `Body.listing_mapLabel`: renamed labels are printed in the same way.
-/

namespace CleanupFilter

variable {L : Type}

/-! ### Texts with gaps -/

/-- A piece of a text: some characters, or a gap for the name of a label. -/
inductive Piece (L : Type)
  | chars (text : List Char)
  | gap (label : L)

namespace Piece

/-- The label that a gap stands for. -/
def label? : Piece L → Option L
  | chars _ => none
  | gap label => some label

/-- The characters of a piece, labels being called `name`. -/
def fill (name : L → String) : Piece L → List Char
  | chars text => text
  | gap label => (name label).toList

/-- The text of pieces, labels being called `name`. -/
def filled (name : L → String) (pieces : List (Piece L)) : List Char :=
  pieces.flatMap (fill name)

/-- The labels of the gaps in order. -/
def gaps (pieces : List (Piece L)) : List L :=
  pieces.filterMap label?

variable {name : L → String} {α : Type}

@[simp]
theorem filled_nil : filled name [] = [] :=
  rfl

@[simp]
theorem filled_cons (piece : Piece L) (rest : List (Piece L)) :
    filled name (piece :: rest) = piece.fill name ++ filled name rest :=
  List.flatMap_cons

/-- Pieces are filled one by one. -/
@[simp]
theorem filled_append (front back : List (Piece L)) :
    filled name (front ++ back) = filled name front ++ filled name back :=
  List.flatMap_append

@[simp]
theorem filled_flatMap (values : List α) (pieces : α → List (Piece L)) :
    filled name (values.flatMap pieces) = values.flatMap fun a => filled name (pieces a) :=
  List.flatMap_assoc

@[simp]
theorem gaps_nil : gaps ([] : List (Piece L)) = [] :=
  rfl

@[simp]
theorem gaps_flatMap (values : List α) (pieces : α → List (Piece L)) :
    gaps (values.flatMap pieces) = values.flatMap fun a => gaps (pieces a) :=
  List.filterMap_flatMap

/-- The gaps of pieces are those of their parts. -/
@[simp]
theorem gaps_append (front back : List (Piece L)) :
    gaps (front ++ back) = gaps front ++ gaps back :=
  List.filterMap_append

@[simp]
theorem gaps_chars (characters : List Char) (rest : List (Piece L)) :
    gaps (chars characters :: rest) = gaps rest :=
  rfl

end Piece

open Piece (filled gaps)

/-! ### The pieces of a body -/

/-- The pieces of a node on a line. Only labels that are mentioned leave gaps. -/
def Node.pieces : Node L → List (Piece L)
  | .jump opcode target => [.chars (opcode.display.toList ++ [' ']), .gap target]
  | .label name => [.gap name, .chars [':']]
  | .line number start =>
    [.chars (joinWords [Keyword.lineMarker, Text.Numeral.ofNat number.toNat] ++ [' ']), .gap start]
  | node => [.chars (node.mapLabel fun _ => "").text]

/-- The pieces of an exception table entry on a line. -/
def TryCatch.pieces (entry : TryCatch L) : List (Piece L) :=
  [.chars (Keyword.tryCatch ++ [' ']), .gap entry.start, .chars [' '], .gap entry.stop,
    .chars [' '], .gap entry.handler,
    .chars (' ' :: (entry.caught.map String.toList).getD Keyword.catchAll)]

/-- Filled with names, the pieces of a node are its text. -/
theorem Node.filled_pieces (name : L → String) (node : Node L) :
    filled name node.pieces = (node.mapLabel name).text := by
  cases node <;> simp [pieces, Piece.fill, mapLabel, Node.text, lineWords, joinWords]

/-- The gaps of a node are its labels. -/
theorem Node.gaps_pieces (node : Node L) : gaps node.pieces = node.mentioned?.toList := by
  cases node <;> rfl

/-- Filled with names, the pieces of an entry are its text. -/
theorem TryCatch.filled_pieces (name : L → String) (entry : TryCatch L) :
    filled name entry.pieces = (entry.mapLabel name).text := by
  simp [pieces, Piece.fill, mapLabel, TryCatch.text, lineWords, joinWords]

/-- The gaps of an entry are its labels. -/
theorem TryCatch.gaps_pieces (entry : TryCatch L) : gaps entry.pieces = entry.labels :=
  rfl

/-- A node is indented alike, whatever its label is. -/
theorem Node.indent_mapLabel {M : Type} (f : L → M) (node : Node L) :
    (node.mapLabel f).indent = node.indent := by
  rw [indent, indent, placed?_mapLabel, Option.isSome_map]

namespace Body

/-- The pieces of a body, `column` giving what stands in front of a node and `margin` what stands in
front of an exception table entry. -/
def pieces (column : Nat → List Char) (margin : List Char) (body : Body L) : List (Piece L) :=
  .chars (joinWords [Keyword.openMethod, body.name.toList, body.desc.toList] ++ ['\n']) ::
    body.nodes.toList.zipIdx.flatMap
      (fun (node, position) =>
        .chars (column position ++ node.indent) :: node.pieces ++ [.chars ['\n']]) ++
    body.tryCatches.flatMap
      (fun entry =>
        .chars (margin ++ List.replicate 4 ' ') :: entry.pieces ++ [.chars ['\n']]) ++
    [.chars (Keyword.closeMethod ++ ['\n'])]

variable (column : Nat → List Char) (margin : List Char)

/-- Filled with names, the pieces of a body are its listing. -/
theorem filled_pieces (name : L → String) (body : Body L) :
    filled name (body.pieces column margin) =
      ((body.mapLabel name).lines column margin).flatMap (· ++ ['\n']) := by
  simp only [pieces, lines, mapLabel, Array.toList_map, List.zipIdx_map, List.map_map,
    List.flatMap_append, List.flatMap_cons, List.flatMap_map, List.flatMap_nil,
    Piece.filled_append, Piece.filled_cons, Piece.filled_flatMap, Piece.filled_nil, Piece.fill,
    Node.filled_pieces, TryCatch.filled_pieces, List.append_nil, List.append_assoc,
    Function.comp_apply, Prod.map_fst, Prod.map_snd, id_eq, Node.indent_mapLabel]

/-- The gaps of a body are the labels that it mentions. -/
theorem gaps_pieces (body : Body L) : gaps (body.pieces column margin) = body.mentions := by
  -- Where a node stands only matters for what is in front of it.
  have hnodes : (body.nodes.toList.zipIdx.flatMap fun (node, _) => node.mentioned?.toList) =
      body.nodes.toList.filterMap Node.mentioned? := by
    rw [List.filterMap_eq_flatMap_toList, ← List.flatMap_map (f := Prod.fst)
      (g := fun node : Node L => node.mentioned?.toList), List.zipIdx_map_fst]
  have hentries : body.tryCatches.flatMap (fun entry => gaps entry.pieces) =
      body.tryCatches.flatMap TryCatch.labels :=
    rfl
  simp only [pieces, mentions, Piece.gaps_append, Piece.gaps_flatMap, List.cons_append,
    Piece.gaps_chars, Piece.gaps_nil, List.append_nil, Node.gaps_pieces, hnodes, hentries]

end Body

/-! ### Names by first mention -/

/-- The printed names, in the order in which they come up first. -/
theorem map_labelName_eraseDups (mentions : List Label) :
    (mentions.map (labelName (.ofMentions mentions))).eraseDups =
      (List.range mentions.eraseDups.length).map numberedName := by
  have hnames : mentions.eraseDups.map (labelName (.ofMentions mentions)) =
      mentions.eraseDups.map (numberedName ∘ (Numbering.ofMentions mentions).number) :=
    List.map_congr_left fun label hlabel => labelName_eq (List.mem_eraseDups.1 hlabel)
  have hnumbers := Numbering.map_number_members mentions
  rw [Numbering.members_ofMentions] at hnumbers
  rw [eraseDups_map (renamesOn_labelName mentions), hnames, ← List.map_map, hnumbers]

/-- Whatever the labels of a body are called, one to one, its listings are the same. Their names
stand for the labels that are mentioned, in this order. The same name is printed for equal labels
only, and the names by first mention are `L0`, `L1` and so on. -/
theorem Body.listing_mapLabel (body : Body Label) {f : Label → Label}
    (hf : RenamesOn f body.mentions) :
    let name := labelName (.ofMentions body.mentions)
    let plain := body.pieces (fun _ => []) []
    let indexed := body.pieces indexColumn (List.replicate 6 ' ')
    ((body.mapLabel f).listing = body.listing ∧
      (body.mapLabel f).indexedListing = body.indexedListing) ∧
    (body.listing = String.ofList (filled name plain) ∧ gaps plain = body.mentions) ∧
    (body.indexedListing = String.ofList (filled name indexed) ∧ gaps indexed = body.mentions) ∧
    (∀ a ∈ body.mentions, ∀ b ∈ body.mentions, name a = name b ↔ a = b) ∧
    (body.mentions.map name).eraseDups =
      (List.range body.mentions.eraseDups.length).map numberedName := by
  intro name plain indexed
  refine ⟨⟨?_, ?_⟩, ⟨?_, body.gaps_pieces _ _⟩, ⟨?_, body.gaps_pieces _ _⟩,
    fun a ha b hb => ⟨renamesOn_labelName _ a ha b hb, congrArg name⟩,
    map_labelName_eraseDups body.mentions⟩
  · rw [listing, listing, withLabelNames_mapLabel hf]
  · rw [indexedListing, indexedListing, withLabelNames_mapLabel hf]
  · rw [listing, filled_pieces, withLabelNames]
  · rw [indexedListing, filled_pieces, withLabelNames]

/-- A body with labels that are placed nowhere. It mentions them against the order of handles. -/
def Body.unplaced : Body Label where
  name := "pick"
  desc := "()V"
  nodes := #[.jump .goto ⟨1⟩, .label ⟨0⟩, .line 4 ⟨0⟩]
  tryCatches := [⟨⟨0⟩, ⟨1⟩, ⟨7⟩, some "E"⟩]

/-- The order of handles does not show in the listing. -/
theorem Body.listing_mapLabel_unplaced :
    let reversed : Body Label := unplaced.mapLabel fun label => ⟨7 - label.handle⟩
    reversed.mentions = [⟨6⟩, ⟨7⟩, ⟨7⟩, ⟨7⟩, ⟨6⟩, ⟨0⟩] ∧
      unplaced.listing = "method pick ()V\n    GOTO L0\n  L1:\n    LINENUMBER 4 L1\n" ++
        "    TRYCATCHBLOCK L1 L0 L2 E\nend\n" ∧
      reversed.listing = unplaced.listing ∧ reversed.indexedListing = unplaced.indexedListing := by
  intro reversed
  have hf : RenamesOn (fun label => (⟨7 - label.handle⟩ : Label)) unplaced.mentions := by
    rw [RenamesOn]
    decide +kernel
  obtain ⟨⟨hplain, hindexed⟩, -⟩ := unplaced.listing_mapLabel hf
  exact ⟨by decide +kernel, by decide +kernel, hplain, hindexed⟩

end CleanupFilter
