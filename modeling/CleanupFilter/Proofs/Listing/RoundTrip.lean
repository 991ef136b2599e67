import Mathlib.Data.List.Forall2
import CleanupFilter.Proofs.Listing.Interning
import CleanupFilter.Proofs.Listing.Item
import CleanupFilter.Proofs.Method.Builder

/-!
# Printed bodies read back

A listing of a body that a builder returned reads as that body with its labels numbered by first
mention, and so does a listing with positions in it.

- `Body.Printable`: name, descriptor and operands that are tokens, and constants.
- `Body.Writable`: what name, descriptor and operands have to be like at least.
- `ItemLine`: a line that adds an item to the method that is open.
- `readLines_append`: lines of items are read one by one.
- `OpenMethod.finish_items`: the label names of a printed body are numbered as its labels are.
- `Body.readLines_lines`: the lines of a body read as that body, in front of any other lines.
- `Body.readListing_listing`: the round trip.
-/

namespace CleanupFilter

open Text (IsToken Trimmed)
open Line (IndexText)

/-! ### What can be printed -/

/-- Everything in the body that is printed as it stands can stand on a line. -/
structure Body.Printable {L : Type} (body : Body L) : Prop where
  name : IsToken body.name.toList
  desc : IsToken body.desc.toList
  nodes : ∀ node ∈ body.nodes, node.Printable
  tryCatches : ∀ entry ∈ body.tryCatches, entry.Printable

/-- Everything in the body that is printed as it stands can stand where it is printed, except
that the types of exception table entries may start comments. -/
structure Body.Writable {L : Type} (body : Body L) : Prop where
  header : Line.Writable [body.name.toList, body.desc.toList]
  nodes : ∀ node ∈ body.nodes, node.Writable
  tryCatches : ∀ entry ∈ body.tryCatches, entry.Writable

/-- A body that can be printed can stand on lines, and no type of it starts a comment. -/
theorem Body.Printable.writable {L : Type} {body : Body L} (h : body.Printable) :
    body.Writable ∧ ∀ entry ∈ body.tryCatches, ¬ entry.Commented := by
  refine ⟨⟨.of_isToken (by simpa using ⟨h.name, h.desc⟩), fun node hnode => ?_,
    fun entry hentry => ?_⟩, fun entry hentry => ?_⟩
  · exact (h.nodes node hnode).writable
  · exact (h.tryCatches entry hentry).writable.1
  · exact (h.tryCatches entry hentry).writable.2

/-- Labels have no part in what can stand on a line. -/
theorem Node.writable_mapLabel {L M : Type} (f : L → M) (node : Node L) :
    (node.mapLabel f).Writable ↔ node.Writable := by
  cases node <;> rfl

/-- Nodes are printed with names of labels. -/
theorem Node.mentioned?_isLabelName (labels : Numbering Label) (node : Node Label) :
    ∀ name ∈ (node.mapLabel (labelName labels)).mentioned?, IsLabelName name := by
  intro name hname
  rw [mentioned?_mapLabel] at hname
  obtain ⟨label, -, rfl⟩ := Option.map_eq_some_iff.1 hname
  exact isLabelName_labelName labels label

theorem TryCatch.labels_isLabelName (labels : Numbering Label) (entry : TryCatch Label) :
    ∀ name ∈ (entry.mapLabel (labelName labels)).labels, IsLabelName name := by
  intro name hname
  have hlabel : name ∈ entry.labels.map (labelName labels) := hname
  obtain ⟨label, -, rfl⟩ := List.mem_map.1 hlabel
  exact isLabelName_labelName labels label

/-! ### Lines of items -/

/-- The line adds the item to the method that is open, and stands between two line feeds. -/
structure ItemLine (line : List Char) (item : Item String) : Prop where
  reads : ∀ number method,
    readLine number (some method) (Line.read line) = .ok (some (method.add item), none)
  unbroken : '\n' ∉ line
  unreturned : line.getLast? ≠ some '\r'

/-- What can stand in front of a text: blanks, or an index between blanks. -/
def IsMargin (margin : List Char) : Prop :=
  ∃ n index, IndexText index ∧ margin = List.replicate n ' ' ++ index

theorem isMargin_replicate (n : Nat) : IsMargin (List.replicate n ' ') :=
  ⟨n, [], .absent, (List.append_nil _).symm⟩

/-- A position is printed behind spaces, with a colon and a space behind it. -/
theorem exists_indexColumn_eq (position : Nat) :
    ∃ n, indexColumn position =
      List.replicate n ' ' ++ (Text.Numeral.ofNat position ++ [':', ' ']) := by
  refine ⟨4 - (Text.Numeral.ofNat position).length, ?_⟩
  rw [indexColumn, Text.Padding.apply, Text.Padding.blanksBefore, Nat.sub_self]
  simp

/-- A position and spaces are a margin. -/
theorem isMargin_indexColumn (position n : Nat) :
    IsMargin (indexColumn position ++ List.replicate n ' ') := by
  obtain ⟨k, hcolumn⟩ := exists_indexColumn_eq position
  exact ⟨k, _, .present position n, by simp [hcolumn]⟩

/-- A margin has no line feed. -/
theorem IsMargin.unbroken {margin : List Char} (h : IsMargin margin) : '\n' ∉ margin := by
  obtain ⟨n, index, hindex, rfl⟩ := h
  cases hindex with
  | absent => simp
  | present position k =>
    have hnumeral : '\n' ∉ Text.Numeral.ofNat position := fun h =>
      absurd (Text.Numeral.isDigit_of_mem_ofNat h) (by decide)
    simp [hnumeral]

/-- A text without blanks at its ends does not end with a carriage return. -/
theorem Text.Trimmed.unreturned {text : List Char} (h : Trimmed text) (front : List Char) :
    (front ++ text).getLast? ≠ some '\r' := by
  obtain ⟨hne, -, hlast⟩ := h
  rw [List.getLast?_append_of_ne_nil _ hne]
  intro hreturn
  exact absurd (hlast _ hreturn) (by decide)

/-- A line that was put together from a margin and a text stands between two line feeds. -/
theorem IsMargin.between {margin text : List Char} {words : List (List Char)} (h : IsMargin margin)
    (htext : Line.Fills text words) :
    '\n' ∉ margin ++ text ∧ (margin ++ text).getLast? ≠ some '\r' := by
  refine ⟨fun hmem => ?_, htext.trimmed.unreturned margin⟩
  rcases List.mem_append.1 hmem with hmem | hmem
  · exact h.unbroken hmem
  · exact htext.unbroken hmem

/-- A text that spells an item adds it to the open method, whatever margin it has. -/
theorem Item.Spells.itemLine {text : List Char} {item : Item String} (h : Item.Spells text item)
    {margin : List Char} (hmargin : IsMargin margin) : ItemLine (margin ++ text) item := by
  obtain ⟨head, words, hwritten, hfirst, hopen, hclose, hread⟩ := h
  obtain ⟨hunbroken, hunreturned⟩ := hmargin.between hwritten.toFills
  refine ⟨fun number method => ?_, hunbroken, hunreturned⟩
  obtain ⟨n, index, hindex, rfl⟩ := hmargin
  have hdrop : Line.dropIndex (Text.words text) = Text.words text := by
    rw [hwritten.words_eq, Line.dropIndex, hfirst]
    rfl
  rw [List.append_assoc,
    Line.read_margin hindex hwritten.trimmed hwritten.uncommented hdrop n, hwritten.words_eq]
  simp only [readLine, if_neg hopen, if_neg hclose, continueMethod, hread index hindex]

/-- The first line is read, and then the others. -/
theorem readLines_cons {number : Nat} {opened next : Option OpenMethod} {line : List Char}
    {completed : Option (Body Label)}
    (h : readLine number opened (Line.read line) = .ok (next, completed))
    (rest : List (List Char)) :
    readLines number opened (line :: rest) =
      (readLines (number + 1) next rest).map (completed.toList ++ ·) := by
  rw [readLines, h]
  dsimp only
  cases readLines (number + 1) next rest <;> rfl

/-- A line that completes no method leaves what is read to the lines behind it. -/
theorem readLines_cons_none {number : Nat} {opened next : Option OpenMethod} {line : List Char}
    (h : readLine number opened (Line.read line) = .ok (next, none)) (rest : List (List Char)) :
    readLines number opened (line :: rest) = readLines (number + 1) next rest := by
  rw [readLines_cons h]
  cases readLines (number + 1) next rest <;> rfl

/-- Lines of items are read one by one, in front of any other lines. -/
theorem readLines_append {lines : List (List Char)} {items : List (Item String)}
    (h : List.Forall₂ ItemLine lines items) (number : Nat) (method : OpenMethod)
    (rest : List (List Char)) :
    readLines number (some method) (lines ++ rest) =
      readLines (number + lines.length) (some (items.foldl OpenMethod.add method)) rest := by
  induction h generalizing number method with
  | nil => rfl
  | @cons line item lines items hline _ ih =>
    rw [List.cons_append, readLines_cons_none (hline.reads number method), ih, List.foldl_cons,
      List.length_cons, Nat.add_assoc, Nat.add_comm 1]

/-! ### The items of a body -/

namespace Body

/-- What the lines of a body between the first and the last stand for. -/
def items (body : Body String) : List (Item String) :=
  body.nodes.toList.map .node ++ body.tryCatches.map .tryCatch

/-- The nodes of a body are those of its items. -/
theorem nodes_eq_filterMap_items (body : Body String) :
    body.nodes.toList = body.items.filterMap Item.node? := by
  have hnodes : body.nodes.toList.filterMap (Item.node? ∘ .node) = body.nodes.toList :=
    List.filterMap_some
  have hentries : body.tryCatches.filterMap (Item.node? ∘ .tryCatch) = [] :=
    List.filterMap_eq_nil_iff.2 fun _ _ => rfl
  rw [items, List.filterMap_append, List.filterMap_map, List.filterMap_map, hnodes, hentries,
    List.append_nil]

theorem tryCatches_eq_filterMap_items (body : Body String) :
    body.tryCatches = body.items.filterMap Item.tryCatch? := by
  have hnodes : body.nodes.toList.filterMap (Item.tryCatch? ∘ .node) = [] :=
    List.filterMap_eq_nil_iff.2 fun _ _ => rfl
  have hentries : body.tryCatches.filterMap (Item.tryCatch? ∘ .tryCatch) = body.tryCatches :=
    List.filterMap_some
  rw [items, List.filterMap_append, List.filterMap_map, List.filterMap_map, hnodes, hentries,
    List.nil_append]

/-- The items of a body mention what the body does. -/
theorem flatMap_items_mentions (body : Body String) :
    body.items.flatMap Item.mentions = body.mentions := by
  have hnodes : ∀ nodes : List (Node String),
      nodes.flatMap (fun node => node.mentioned?.toList) = nodes.filterMap Node.mentioned? := by
    intro nodes
    rw [List.filterMap_eq_flatMap_toList]
  rw [items, List.flatMap_append, List.flatMap_map, List.flatMap_map, mentions, ← hnodes]
  rfl

end Body

namespace OpenMethod

/-- Items are added one behind the other. -/
theorem foldl_add (items : List (Item String)) (method : OpenMethod) :
    items.foldl add method = { method with items := method.items ++ items.toArray } := by
  induction items generalizing method with
  | nil => simp
  | cons item rest ih => simp [ih, add]

/-- The label names of a printed body are numbered as its labels are. -/
theorem finish_items {body : Body Label} (hcheck : body.check = .ok body) {method : OpenMethod}
    (hname : method.name = body.name) (hdesc : method.desc = body.desc)
    (hitems : method.items.toList = body.withLabelNames.items) :
    method.finish = .ok body.canonical := by
  have hbody : method.namedBody = body.withLabelNames := by
    rw [namedBody, hname, hdesc, hitems, ← Body.nodes_eq_filterMap_items,
      ← Body.tryCatches_eq_filterMap_items]
    rfl
  -- The names are mentioned in the order in which the labels are.
  have hmentions : method.labels =
      .ofMentions (body.mentions.map (labelName (.ofMentions body.mentions))) := by
    rw [labels, hitems, Body.flatMap_items_mentions, Body.withLabelNames, Body.mentions_mapLabel]
  -- Numbering the names undoes naming the labels.
  have hcanonical : (method.namedBody.mapLabel fun name => (⟨method.labels.number name⟩ : Label)) =
      body.canonical := by
    rw [hbody, hmentions, Body.withLabelNames, Body.mapLabel_mapLabel]
    refine Body.mapLabel_congr fun label hlabel => ?_
    rw [Function.comp_apply,
      Numbering.number_map (renamesOn_labelName body.mentions) hlabel]
    rfl
  rw [finish_eq, hcanonical, Body.check_canonical hcheck]

end OpenMethod

/-! ### The lines of a body -/

namespace Body

variable {body : Body Label}

/-- The line of a node, whatever stands in front of it. -/
theorem itemLine_node (hbuilt : body.IsBuilt) (hwritable : body.Writable) {node : Node String}
    (hnode : node ∈ body.withLabelNames.nodes) {margin : List Char} (hmargin : IsMargin margin) :
    ItemLine (margin ++ node.text) (.node node) := by
  obtain ⟨-, hfits, -, -⟩ := check_eq_ok_iff.1 hbuilt.check_eq
  -- What holds of a node does so whatever its label is called.
  obtain ⟨original, horiginal, rfl⟩ := Array.mem_map.1 hnode
  refine (Node.spells_text ?_ ?_ ?_ ?_).itemLine hmargin
  · exact (Node.fits_mapLabel _ original).2 (hfits original horiginal)
  · rw [Node.withInterfaceFlag_mapLabel, hbuilt.withInterfaceFlag_eq original horiginal]
  · exact (Node.writable_mapLabel _ original).2 (hwritable.nodes original horiginal)
  · exact Node.mentioned?_isLabelName _ original

/-- The line of an exception table entry, whatever stands in front of it. -/
theorem itemLine_tryCatch (hwritable : body.Writable) {entry : TryCatch String}
    (hentry : entry ∈ body.withLabelNames.tryCatches) (hcommented : ¬ entry.Commented)
    {margin : List Char} (hmargin : IsMargin margin) :
    ItemLine (margin ++ entry.text) (.tryCatch entry) := by
  obtain ⟨original, horiginal, rfl⟩ := List.mem_map.1 hentry
  refine (TryCatch.spells_text ?_ hcommented ?_).itemLine hmargin
  · exact hwritable.tryCatches original horiginal
  · exact original.labels_isLabelName _

/-- The header of a body can be written. -/
theorem written_header (hwritable : body.Writable) :
    Line.Written (joinWords [Keyword.openMethod, body.name.toList, body.desc.toList])
      [Keyword.openMethod, body.name.toList, body.desc.toList] :=
  .joinWords ((Line.writable_cons_of_isToken (by decide)).2 hwritable.header)

/-- The first line of a listing opens the method. -/
theorem readLine_header (hwritable : body.Writable) (number : Nat) :
    readLine number none (Line.read (joinWords
        [Keyword.openMethod, body.name.toList, body.desc.toList])) =
      .ok (some { line := number, name := body.name, desc := body.desc }, none) := by
  have hheader := written_header hwritable
  have hdrop : Line.dropIndex (Text.words (joinWords
      [Keyword.openMethod, body.name.toList, body.desc.toList])) = Text.words (joinWords
      [Keyword.openMethod, body.name.toList, body.desc.toList]) := by
    rw [hheader.words_eq]
    rfl
  have hread := Line.read_margin .absent hheader.trimmed hheader.uncommented hdrop 0
  rw [List.replicate_zero, List.nil_append, List.nil_append, hheader.words_eq] at hread
  simp only [hread, readLine, ↓reduceIte, startMethod, String.ofList_toList]

/-- The last line of a listing completes the body. -/
theorem readLine_close {method : OpenMethod} (h : method.finish = .ok body) (number : Nat) :
    readLine number (some method) (Line.read Keyword.closeMethod) = .ok (none, some body) := by
  have hread : readLine number (some method) (Line.read Keyword.closeMethod) =
      method.finish.map fun body => (none, some body) := rfl
  rw [hread, h, Except.map]

variable {column : Nat → List Char} {margin : List Char}

/-- The lines of the nodes. -/
theorem itemLines_nodes (hbuilt : body.IsBuilt) (hwritable : body.Writable)
    (hcolumn : ∀ position n, IsMargin (column position ++ List.replicate n ' ')) :
    List.Forall₂ ItemLine
      (body.withLabelNames.nodes.toList.zipIdx.map
        (fun (node, position) => column position ++ node.indent ++ node.text))
      (body.withLabelNames.nodes.toList.map .node) := by
  have hnodes : body.withLabelNames.nodes.toList.map Item.node =
      body.withLabelNames.nodes.toList.zipIdx.map (fun (node, _) => Item.node node) := by
    conv_lhs => rw [← List.zipIdx_map_fst 0 body.withLabelNames.nodes.toList, List.map_map]
    rfl
  rw [hnodes, List.forall₂_map_left_iff, List.forall₂_map_right_iff, List.forall₂_same]
  rintro ⟨node, position⟩ hmem
  have hnode := Array.mem_toList_iff.1
    (List.mem_of_getElem? (List.mem_zipIdx_iff_getElem?.1 hmem))
  exact itemLine_node hbuilt hwritable hnode (hcolumn position _)

/-- The lines of exception table entries whose types do not start comments. -/
theorem itemLines_tryCatches (hwritable : body.Writable)
    (hmargin : IsMargin (margin ++ List.replicate 4 ' ')) {entries : List (TryCatch String)}
    (hentries : ∀ entry ∈ entries, entry ∈ body.withLabelNames.tryCatches)
    (hcommented : ∀ entry ∈ entries, ¬ entry.Commented) :
    List.Forall₂ ItemLine
      (entries.map fun entry => margin ++ List.replicate 4 ' ' ++ entry.text)
      (entries.map .tryCatch) := by
  rw [List.forall₂_map_left_iff, List.forall₂_map_right_iff, List.forall₂_same]
  intro entry hentry
  exact itemLine_tryCatch hwritable (hentries entry hentry) (hcommented entry hentry) hmargin

/-- The lines of a body stand between line feeds, whatever margins they have. -/
theorem between_of_mem_lines (hbuilt : body.IsBuilt) (hwritable : body.Writable)
    (hcolumn : ∀ position n, IsMargin (column position ++ List.replicate n ' '))
    (hmargin : IsMargin (margin ++ List.replicate 4 ' ')) :
    ∀ line ∈ body.withLabelNames.lines column margin,
      '\n' ∉ line ∧ line.getLast? ≠ some '\r' := by
  have hheader := written_header hwritable
  intro line hline
  -- The lines are the first one, those of nodes, those of entries, and the last one.
  rw [lines, List.cons_append, List.cons_append, List.mem_cons, List.mem_append,
    List.mem_append, List.mem_map, List.mem_map, List.mem_singleton] at hline
  rcases hline with rfl | (⟨⟨node, position⟩, hmem, rfl⟩ | ⟨entry, hentry, rfl⟩) | rfl
  · exact ⟨hheader.unbroken, hheader.trimmed.unreturned []⟩
  · have hnode := Array.mem_toList_iff.1
      (List.mem_of_getElem? (List.mem_zipIdx_iff_getElem?.1 hmem))
    have hitem : ItemLine (column position ++ node.indent ++ node.text) (.node node) :=
      itemLine_node hbuilt hwritable hnode (hcolumn position _)
    exact ⟨hitem.unbroken, hitem.unreturned⟩
  · obtain ⟨original, horiginal, rfl⟩ := List.mem_map.1 hentry
    exact hmargin.between (TryCatch.fills_text (hwritable.tryCatches original horiginal)
      (original.labels_isLabelName _))
  · decide

/-- Between the first line and the last one stand those of the items. -/
theorem exists_lines_eq (hbuilt : body.IsBuilt) (hwritable : body.Writable)
    (hcommented : ∀ entry ∈ body.tryCatches, ¬ entry.Commented)
    (hcolumn : ∀ position n, IsMargin (column position ++ List.replicate n ' '))
    (hmargin : IsMargin (margin ++ List.replicate 4 ' ')) :
    ∃ middle, List.Forall₂ ItemLine middle body.withLabelNames.items ∧
      body.withLabelNames.lines column margin =
        joinWords [Keyword.openMethod, body.name.toList, body.desc.toList] ::
          (middle ++ [Keyword.closeMethod]) := by
  have hnamed : ∀ entry ∈ body.withLabelNames.tryCatches, ¬ entry.Commented := by
    intro entry hentry
    obtain ⟨original, horiginal, rfl⟩ := List.mem_map.1 hentry
    exact hcommented original horiginal
  refine ⟨_, List.rel_append (itemLines_nodes hbuilt hwritable hcolumn)
    (itemLines_tryCatches hwritable hmargin (fun _ => id) hnamed), ?_⟩
  rw [lines, List.cons_append, List.cons_append]
  rfl

/-- The lines of a body read as the body with canonical labels, whatever margins they have and
whatever lines follow. -/
theorem readLines_lines (hbuilt : body.IsBuilt) (hwritable : body.Writable)
    (hcommented : ∀ entry ∈ body.tryCatches, ¬ entry.Commented)
    (hcolumn : ∀ position n, IsMargin (column position ++ List.replicate n ' '))
    (hmargin : IsMargin (margin ++ List.replicate 4 ' ')) (number : Nat)
    (rest : List (List Char)) :
    readLines number none (body.withLabelNames.lines column margin ++ rest) =
      (readLines (number + (body.withLabelNames.lines column margin).length) none rest).map
        (body.canonical :: ·) := by
  obtain ⟨middle, hitems, hlines⟩ :=
    exists_lines_eq hbuilt hwritable hcommented hcolumn hmargin
  -- Nothing but the items of the lines enters the body that is completed.
  have hfinish : (body.withLabelNames.items.foldl OpenMethod.add
      { line := number, name := body.name, desc := body.desc }).finish = .ok body.canonical := by
    rw [OpenMethod.foldl_add]
    exact OpenMethod.finish_items hbuilt.check_eq rfl rfl (by simp)
  have hlength : number + 1 + middle.length + 1 =
      number + (body.withLabelNames.lines column margin).length := by
    rw [hlines, List.length_cons, List.length_append, List.length_singleton]
    omega
  -- The first line opens the method, those of items add to it, and the last one completes it.
  rw [← hlength, hlines, List.cons_append, readLines_cons (readLine_header hwritable number),
    List.append_assoc, readLines_append hitems, List.singleton_append,
    readLines_cons (readLine_close hfinish _)]
  cases readLines (number + 1 + middle.length + 1) none rest <;> rfl

/-- A listing reads as the body with canonical labels, whatever margins its lines have. -/
theorem readListing_lines (hbuilt : body.IsBuilt) (hwritable : body.Writable)
    (hcommented : ∀ entry ∈ body.tryCatches, ¬ entry.Commented)
    (hcolumn : ∀ position n, IsMargin (column position ++ List.replicate n ' '))
    (hmargin : IsMargin (margin ++ List.replicate 4 ' ')) :
    readListing (String.ofList
      ((body.withLabelNames.lines column margin).flatMap (· ++ ['\n']))) =
      .ok [body.canonical] := by
  have hread := readLines_lines hbuilt hwritable hcommented hcolumn hmargin 1 []
  rw [List.append_nil] at hread
  rw [readListing, String.toList_ofList,
    Line.split_flatMap (between_of_mem_lines hbuilt hwritable hcolumn hmargin), hread]
  rfl

/-- A listing of a built body reads as the body with canonical labels, with and without positions
in it, and the body that was read has the same listing. -/
theorem readListing_listing (hbuilt : body.IsBuilt) (hprintable : body.Printable) :
    readListing body.listing = .ok [body.canonical] ∧
      readListing body.indexedListing = .ok [body.canonical] ∧
      body.canonical.listing = body.listing := by
  obtain ⟨hwritable, hcommented⟩ := hprintable.writable
  refine ⟨?_, ?_, listing_canonical body⟩
  · refine readListing_lines hbuilt hwritable hcommented (fun _ n => ?_) (isMargin_replicate 4)
    exact isMargin_replicate n
  · refine readListing_lines hbuilt hwritable hcommented isMargin_indexColumn ?_
    rw [List.replicate_append_replicate]
    exact isMargin_replicate 10

/-- A builder whose labels are used out of order, with a comment's text within a constant. -/
def guardedBuilder : Builder :=
  let builder : Builder := { name := "run", desc := "(Ljava/lang/Object;)V" }
  let builder := builder.add (.label ⟨5⟩)
  let builder := builder.add (.line 12 ⟨5⟩)
  let builder := builder.add (.ldc ⟨0x12⟩ "\"see // there\"")
  let builder := builder.add (.call .invokeInterface ⟨"java/io/Closeable", "close", "()V"⟩)
  let builder := builder.add (.jump .goto ⟨2⟩)
  let builder := builder.add (.label ⟨9⟩)
  let builder := builder.add (.var .aload 1)
  let builder := builder.add (.label ⟨2⟩)
  let builder := builder.add (.plain .voidReturn)
  builder.guard ⟨⟨5⟩, ⟨9⟩, ⟨2⟩, some "java/lang/Throwable"⟩

/-- A method with an entry is read back as it was built. -/
theorem readListing_listing_guarded :
    guardedBuilder.body.IsBuilt ∧ guardedBuilder.body.Printable ∧
      readListing guardedBuilder.body.listing = .ok [guardedBuilder.body.canonical] ∧
      readListing guardedBuilder.body.indexedListing = .ok [guardedBuilder.body.canonical] ∧
      guardedBuilder.body.canonical.listing = guardedBuilder.body.listing := by
  have hreachable : guardedBuilder.Reachable := by
    refine .guard _ ?_
    repeat refine .add _ ?_
    exact .empty _ _
  have hbuilt : guardedBuilder.body.IsBuilt := ⟨guardedBuilder, hreachable, by decide +kernel⟩
  have hprintable : guardedBuilder.body.Printable :=
    ⟨by decide, by decide, by decide, by decide⟩
  exact ⟨hbuilt, hprintable, readListing_listing hbuilt hprintable⟩

end Body

end CleanupFilter
