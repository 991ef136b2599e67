import CleanupFilter.Proofs.Listing.Accepted
import CleanupFilter.Proofs.Method.Diagnosis

/-!
# Lines and what is read of them

Every line between the first and the last line of a method is blank, or stands for a node or an
exception table entry of its body. Nothing else is in the body, and its labels are numbered as the
lines mention their names.

- `Line.isNode`, `Line.isEntry`: the lines of nodes and those of entries.
- `Body.StandsOn`: the body is what the lines of a method say.
- `Listed`: the bodies are those of the methods of a listing, in order.
- `Item.fits_of_item?`: the opcode on a line fits the node of the line.
- `OpenMethod.Follows`, `Pending`: the lines that have been read of the open method.
- `LineStep.pending`: what one more line leaves pending.
- `listed_of_readListing`: what is read of a listing, and what is never wrong with it.
-/

namespace CleanupFilter

-- The table is a large closed term, which the unifier would evaluate.
attribute [local irreducible] instructionTable

/-! ### Lines of methods -/

namespace Line

/-- The line is that of an exception table entry. -/
def isEntry (line : Line) : Bool :=
  line.words.head? = some Keyword.tryCatch

/-- The line is that of a node: it is neither blank nor that of an entry. -/
def isNode (line : Line) : Bool :=
  line.words ≠ [] && !line.isEntry

/-- The label names on the line, in order. -/
def mentions (line : Line) : List String :=
  line.item?.toList.flatMap Item.mentions

end Line

/-- The label names on lines, numbered by first mention. -/
def labelNumbering (lines : List Line) : Numbering String :=
  .ofMentions (lines.flatMap Line.mentions)

/-- The label that a name stands for in the method of these lines. -/
def labelOn (lines : List Line) (name : String) : Label :=
  ⟨(labelNumbering lines).number name⟩

/-- The body is what the lines of a method say. -/
structure Body.StandsOn (lines : List Line) (body : Body Label) : Prop where
  /-- The nodes are the lines that are neither blank nor of entries, one for one, and have the
  operands that stand there. -/
  nodes : List.Forall₂
    (fun line node => ∃ named, line.item? = some (.node named) ∧ line.Says (.node named) ∧
      node = named.mapLabel (labelOn lines))
    (lines.filter Line.isNode) body.nodes.toList
  /-- The entries are their lines, one for one, and have the labels and types that stand there. -/
  tryCatches : List.Forall₂
    (fun line entry => ∃ named, line.item? = some (.tryCatch named) ∧
      line.Says (.tryCatch named) ∧ entry = named.mapLabel (labelOn lines))
    (lines.filter Line.isEntry) body.tryCatches
  /-- Every opcode has the operand form of its node. -/
  fits : ∀ node ∈ body.nodes, node.Fits
  /-- Flags follow from opcodes. -/
  interface : ∀ opcode target interface, .method opcode target interface ∈ body.nodes →
    (interface = true ↔ opcode = .invokeInterface)
  /-- A name that is mentioned first has the first number that is free. -/
  numbered : ((lines.flatMap Line.mentions).map (labelOn lines)).eraseDups =
    (List.range (labelNumbering lines).members.length).map Label.mk
  /-- Labels are equal only if their names are. -/
  distinct : RenamesOn (labelOn lines) (lines.flatMap Line.mentions)
  /-- Every label with a number occurs, and no other one does. -/
  occurring : ∀ label, label ∈ body.mentions ↔ label.handle < (labelNumbering lines).members.length
  /-- Every label is placed at one node. -/
  placed : ∀ label ∈ body.mentions,
    ∃! position : Nat, body.nodes[position]? = some (.label label)

/-- The lines are those of a listing, and the bodies those of its methods. -/
inductive Listed : List Line → List (Body Label) → Prop
  | nil : Listed [] []
  | blank {line : Line} {rest : List Line} {bodies : List (Body Label)} :
      line.words = [] → Listed rest bodies → Listed (line :: rest) bodies
  | method {header close : Line} {lines rest : List Line} {body : Body Label}
      {bodies : List (Body Label)} :
      header.words = [Keyword.openMethod, body.name.toList, body.desc.toList] →
      close.words.head? = some Keyword.closeMethod →
      (∀ line ∈ lines, line.words.head? ≠ some Keyword.openMethod ∧
        line.words.head? ≠ some Keyword.closeMethod) →
      body.StandsOn lines → Listed rest bodies →
      Listed (header :: lines ++ close :: rest) (body :: bodies)

/-! ### What a line stands for -/

namespace Item

variable {line : Line}

/-- The opcode on a line fits the node of the line, and the flag of a call follows from it. -/
theorem fits_of_item? {named : Node String} (h : line.item? = some (.node named)) :
    named.Fits ∧ named.withInterfaceFlag = named := by
  obtain ⟨head, words, -, hsays⟩ := Line.says_of_item? h
  cases hsays with
  | label | frame | lineMarker => exact ⟨rfl, rfl⟩
  | instruction _ _ hfits hon => exact ⟨hfits, hon.withInterfaceFlag_eq⟩

/-- The line of an exception table entry starts with the keyword of entries. -/
theorem isEntry_of_item? {entry : TryCatch String} (h : line.item? = some (.tryCatch entry)) :
    line.isEntry = true := by
  obtain ⟨head, words, hwords, hsays⟩ := Line.says_of_item? h
  cases hsays with
  | tryCatch hhead => exact decide_eq_true (by rw [hwords, hhead, List.head?_cons])

/-- The line of a node does not start with the keyword of entries. -/
theorem isNode_of_item? {named : Node String} (h : line.item? = some (.node named)) :
    line.isNode = true ∧ line.isEntry = false := by
  obtain ⟨head, words, hwords, hread⟩ := Line.exists_read_of_item? h
  have hhead : head ≠ Keyword.tryCatch := by
    rintro rfl
    -- Behind this keyword nothing but an entry is read.
    have hentry : read Keyword.tryCatch line.text words = (Item.entry words).map .tryCatch := rfl
    rw [hentry] at hread
    obtain ⟨found, -, hfound⟩ := exists_of_map_eq_ok hread
    cases hfound
  have hentry : line.isEntry = false := by
    rw [Line.isEntry, hwords, List.head?_cons, decide_eq_false_iff_not, Option.some.injEq]
    exact hhead
  rw [Line.isNode, hentry, hwords]
  exact ⟨rfl, rfl⟩

end Item

/-! ### Lines that have been read -/

/-- The method was opened by the header, and every line behind it is blank or adds its item. -/
structure OpenMethod.Follows (header : Line) (lines : List Line) (method : OpenMethod) : Prop where
  header : header.words = [Keyword.openMethod, method.name.toList, method.desc.toList]
  behind : ∀ line ∈ lines, line.words = [] ∨ ∃ item, line.item? = some item
  items : method.items.toList = lines.filterMap Line.item?

/-- Lines of one kind and what they stand for, one for one. -/
theorem forall₂_filter_lines {β : Type} {keep : Line → Bool} {select? : Item String → Option β}
    (hblank : ∀ line : Line, line.words = [] → keep line = false)
    (hkeep : ∀ line item, line.item? = some item → keep line = (select? item).isSome)
    {lines : List Line} (h : ∀ line ∈ lines, line.words = [] ∨ ∃ item, line.item? = some item) :
    List.Forall₂ (fun line b => ∃ item, line.item? = some item ∧ select? item = some b)
      (lines.filter keep) ((lines.filterMap Line.item?).filterMap select?) := by
  induction lines with
  | nil => exact .nil
  | cons line rest ih =>
    obtain ⟨hline, hrest⟩ := List.forall_mem_cons.1 h
    have ih := ih hrest
    rcases hline with hline | ⟨item, hitem⟩
    · -- A blank line is of no kind and stands for nothing.
      have hnone : line.item? = none := by rw [Line.item?, hline]
      rwa [List.filter_cons_of_neg (by simp [hblank line hline]), List.filterMap_cons_none hnone]
    · rw [List.filterMap_cons_some hitem]
      have hkeep := hkeep line item hitem
      cases hselect : select? item with
      | none =>
        rw [hselect, Option.isSome_none] at hkeep
        rwa [List.filter_cons_of_neg (by simp [hkeep]), List.filterMap_cons_none hselect]
      | some b =>
        rw [hselect, Option.isSome_some] at hkeep
        rw [List.filter_cons_of_pos hkeep, List.filterMap_cons_some hselect]
        exact .cons ⟨item, hitem, hselect⟩ ih

/-- A blank line is not that of a node. -/
theorem Line.isNode_of_blank {line : Line} (h : line.words = []) : line.isNode = false := by
  rw [isNode, h]
  rfl

/-- The lines of nodes are those that stand for nodes. -/
theorem Line.isNode_eq {line : Line} {item : Item String} (h : line.item? = some item) :
    line.isNode = item.node?.isSome := by
  cases item with
  | node named => exact (Item.isNode_of_item? h).1
  | tryCatch entry =>
    rw [isNode, Item.isEntry_of_item? h, Bool.not_true, Bool.and_false]
    rfl

/-- The lines of entries are those that stand for entries. -/
theorem Line.isEntry_eq {line : Line} {item : Item String} (h : line.item? = some item) :
    line.isEntry = item.tryCatch?.isSome := by
  cases item with
  | node named => exact (Item.isNode_of_item? h).2
  | tryCatch entry => exact Item.isEntry_of_item? h

/-! ### Labels of a method that was read -/

/-- Names that are mentioned on the lines have different labels. -/
theorem renamesOn_labelOn (lines : List Line) :
    RenamesOn (labelOn lines) (lines.flatMap Line.mentions) :=
  fun a ha b hb heq => Numbering.renamesOn_number _ a ha b hb (congrArg Label.handle heq)

/-- The labels on lines, without repeats, are numbered from 0 on. -/
theorem eraseDups_map_labelOn (lines : List Line) :
    ((lines.flatMap Line.mentions).map (labelOn lines)).eraseDups =
      (List.range (labelNumbering lines).members.length).map Label.mk := by
  rw [eraseDups_map (renamesOn_labelOn lines), ← Numbering.members_ofMentions, labelNumbering,
    ← Numbering.map_number_members, List.map_map]
  rfl

/-- The labels of names on lines are those whose numbers were given out. -/
theorem mem_map_labelOn_iff {lines : List Line} {label : Label} :
    label ∈ (lines.flatMap Line.mentions).map (labelOn lines) ↔
      label.handle < (labelNumbering lines).members.length := by
  rw [← List.mem_eraseDups, eraseDups_map_labelOn, List.mem_map]
  constructor
  · rintro ⟨number, hnumber, rfl⟩
    exact List.mem_range.1 hnumber
  · exact fun h => ⟨label.handle, List.mem_range.2 h, rfl⟩

namespace OpenMethod

/-- The labels of the named body are those of the items, in another order. -/
theorem mem_mentions_namedBody_iff {method : OpenMethod} {name : String} :
    name ∈ method.namedBody.mentions ↔ name ∈ method.items.toList.flatMap Item.mentions := by
  rw [Body.mentions, namedBody, List.filterMap_filterMap, List.mem_append, List.mem_filterMap,
    List.mem_flatMap, List.mem_flatMap]
  constructor
  -- Nodes are named by their items, and so are entries.
  · rintro (⟨item, hitem, hname⟩ | ⟨entry, hentry, hname⟩)
    · cases item with
      | node node => exact ⟨_, hitem, Option.mem_toList.2 hname⟩
      | tryCatch entry => cases hname
    · obtain ⟨item, hitem, hentry⟩ := List.mem_filterMap.1 hentry
      cases item with
      | node node => cases hentry
      | tryCatch found =>
        cases hentry
        exact ⟨_, hitem, hname⟩
  · rintro ⟨item, hitem, hname⟩
    cases item with
    | node node => exact .inl ⟨_, hitem, Option.mem_toList.1 hname⟩
    | tryCatch entry => exact .inr ⟨entry, List.mem_filterMap.2 ⟨_, hitem, rfl⟩, hname⟩

namespace Follows

variable {header : Line} {lines : List Line} {method : OpenMethod}

/-- The items of a method mention the names on its lines, in their order. -/
theorem flatMap_mentions (h : method.Follows header lines) :
    method.items.toList.flatMap Item.mentions = lines.flatMap Line.mentions := by
  rw [h.items, List.filterMap_eq_flatMap_toList, List.flatMap_assoc]
  rfl

/-- The labels are numbered as on the lines. -/
theorem number_eq (h : method.Follows header lines) :
    (fun name => ⟨method.labels.number name⟩) = labelOn lines := by
  rw [labels, h.flatMap_mentions]
  rfl

/-- The nodes have the opcodes of their lines. -/
theorem fits (h : method.Follows header lines) {node : Node String}
    (hnode : node ∈ method.namedBody.nodes) : node.Fits ∧ node.withInterfaceFlag = node := by
  have hitem := Array.mem_toList_iff.2 (mem_items_of_mem_nodes hnode)
  rw [h.items] at hitem
  obtain ⟨line, -, hline⟩ := List.mem_filterMap.1 hitem
  exact Item.fits_of_item? hline

/-- Lines of nodes stand for the nodes, one for one. -/
theorem forall₂_nodes (h : method.Follows header lines) :
    List.Forall₂ (fun line named => line.item? = some (.node named)) (lines.filter Line.isNode)
      method.namedBody.nodes.toList := by
  rw [namedBody, h.items]
  refine (forall₂_filter_lines (fun _ => Line.isNode_of_blank) (fun _ _ => Line.isNode_eq)
    h.behind).imp ?_
  rintro line named ⟨item, hitem, hnode⟩
  cases item with
  | node found =>
    cases hnode
    exact hitem
  | tryCatch entry => cases hnode

/-- Lines of entries stand for the entries, one for one. -/
theorem forall₂_tryCatches (h : method.Follows header lines) :
    List.Forall₂ (fun line named => line.item? = some (.tryCatch named))
      (lines.filter Line.isEntry) method.namedBody.tryCatches := by
  rw [namedBody, h.items]
  refine (forall₂_filter_lines ?_ (fun _ _ => Line.isEntry_eq) h.behind).imp ?_
  · intro line hblank
    rw [Line.isEntry, hblank]
    rfl
  · rintro line named ⟨item, hitem, hentry⟩
    cases item with
    | node found => cases hentry
    | tryCatch entry =>
      cases hentry
      exact hitem

/-- The body of a method is what its lines say. -/
theorem standsOn (h : method.Follows header lines) {body : Body Label}
    (hfinish : method.finish = .ok body) : body.StandsOn lines := by
  obtain ⟨heq, hcheck⟩ := eq_of_finish hfinish
  -- The labels are those of the lines.
  rw [h.number_eq] at heq
  obtain ⟨-, hwell⟩ := Body.check_eq_ok_iff_wellFormed.1 hcheck
  refine ⟨?_, ?_, hwell.fits, fun opcode target interface hnode => ?_, eraseDups_map_labelOn lines,
    renamesOn_labelOn lines, fun label => ?_, fun label hlabel => ?_⟩
  · rw [heq, Body.mapLabel, Array.toList_map, List.forall₂_map_right_iff]
    exact h.forall₂_nodes.imp fun _ named hnamed =>
      ⟨named, hnamed, Line.says_of_item? hnamed, rfl⟩
  · rw [heq, Body.mapLabel, List.forall₂_map_right_iff]
    exact h.forall₂_tryCatches.imp fun _ named hnamed =>
      ⟨named, hnamed, Line.says_of_item? hnamed, rfl⟩
  · rw [heq] at hnode
    obtain ⟨named, hnamed, hnode⟩ := Array.mem_map.1 hnode
    -- The flag was set when the line was read, and labels do not change it.
    have hflag : (named.mapLabel (labelOn lines)).withInterfaceFlag =
        .method opcode target interface := by
      rw [Node.withInterfaceFlag_mapLabel, (h.fits hnamed).2, hnode]
    exact Node.interface_eq_true_iff hflag
  · -- Entries are mentioned behind the nodes of the body, wherever their lines stand.
    rw [← mem_map_labelOn_iff, heq, Body.mentions_mapLabel, List.mem_map, List.mem_map,
      ← h.flatMap_mentions]
    simp only [mem_mentions_namedBody_iff]
  · refine Body.existsUnique_placement hwell.placedOnce ?_
    -- A label that is not placed is referred to, and so it is placed.
    rcases Body.mem_placements_or_references hlabel with hplaced | hreferenced
    · exact hplaced
    · exact hwell.placed label hreferenced

/-- No opcode on the lines of a method is wrong for its node. -/
theorem finish_ne_operandForm (h : method.Follows header lines) (name : String) (index : Nat)
    (opcode : Opcode) (expected : OperandForm) (actual : Option OperandForm) :
    method.finish ≠ .error (.malformedBody name (.operandForm index opcode expected actual)) := by
  intro hfinish
  rw [finish_eq] at hfinish
  split at hfinish
  · next cause hcheck =>
    cases hfinish
    -- The node that is reported is one of those that fit.
    cases Body.check_eq_error_iff.1 hcheck with
    | @operandForm front back node _ _ hnodes _ hopcode hform hne =>
      have hnode : node ∈ (method.namedBody.mapLabel fun name =>
          ⟨method.labels.number name⟩).nodes := by
        rw [← Array.mem_toList_iff, hnodes]
        exact List.mem_append_right _ List.mem_cons_self
      obtain ⟨named, hnamed, rfl⟩ := Array.mem_map.1 hnode
      rw [Node.opcode?_mapLabel] at hopcode
      rw [Node.form?_mapLabel] at hform
      have hfits := (h.fits hnamed).1
      rw [Node.Fits, hopcode, hform] at hfits
      exact hne hfits
  · cases hfinish

end Follows

end OpenMethod

/-! ### Listings -/

namespace OpenMethod.Follows

variable {header line : Line} {lines : List Line} {method : OpenMethod}

/-- A method that was opened follows no lines yet. -/
theorem start (h : line.words = [Keyword.openMethod, method.name.toList, method.desc.toList])
    (hitems : method.items = #[]) : method.Follows line [] :=
  ⟨h, by simp, by rw [hitems]; rfl⟩

/-- A blank line leaves the method as it is. -/
theorem skip (h : method.Follows header lines) (hline : line.words = []) :
    method.Follows header (lines ++ [line]) := by
  have hnone : line.item? = none := by rw [Line.item?, hline]
  refine ⟨h.header, List.forall_mem_append.2 ⟨h.behind, by simp [hline]⟩, ?_⟩
  rw [List.filterMap_append, List.filterMap_cons_none hnone, List.filterMap_nil, List.append_nil,
    h.items]

/-- A line with an item adds the item. -/
theorem add (h : method.Follows header lines) {item : Item String}
    (hitem : line.item? = some item) : (method.add item).Follows header (lines ++ [line]) := by
  refine ⟨h.header, List.forall_mem_append.2 ⟨h.behind, by simp [hitem]⟩, ?_⟩
  rw [List.filterMap_append, List.filterMap_cons_some hitem, List.filterMap_nil, ← h.items,
    OpenMethod.add, Array.toList_push]

/-- No line of a method starts or ends one. -/
theorem head?_ne (h : method.Follows header lines) (hline : line ∈ lines) :
    line.words.head? ≠ some Keyword.openMethod ∧ line.words.head? ≠ some Keyword.closeMethod := by
  rcases h.behind line hline with hwords | ⟨item, hitem⟩
  · simp [hwords]
  · rw [Line.item?] at hitem
    split at hitem
    · cases hitem
    · next hwords =>
      rw [Option.ite_none_left_eq_some, not_or] at hitem
      simpa [hwords] using hitem.1

end OpenMethod.Follows

/-- The lines that have been read of the method that is open, if there is one. -/
inductive Pending : Option OpenMethod → List Line → Prop
  | none : Pending none []
  | some {method : OpenMethod} {header : Line} {lines : List Line} :
      method.Follows header lines → Pending (some method) (header :: lines)

section Reading

variable {number : Nat} {opened next : Option OpenMethod} {line : Line} {before : List Line}
  {completed : Option (Body Label)}

/-- What a line leaves pending, which is completed as the line and the lines before it are. -/
theorem LineStep.pending (h : LineStep line opened next completed)
    (hopened : Pending opened before) :
    ∃ after, Pending next after ∧ ∀ rest bodies, Listed (after ++ rest) bodies →
      Listed (before ++ line :: rest) (completed.toList ++ bodies) := by
  cases h with
  -- A blank line belongs to the open method, if there is one.
  | skip _ hwords =>
    cases hopened with
    | none => exact ⟨[], .none, fun rest bodies => .blank hwords⟩
    | some hfollows =>
      refine ⟨_, .some (hfollows.skip hwords), fun rest bodies hlisted => ?_⟩
      simpa using hlisted
  | start hwords hitems =>
    cases hopened
    exact ⟨_, .some (.start hwords hitems), fun rest bodies hlisted => hlisted⟩
  -- The pending lines and this one are those of a method.
  | finish hclose hfinish =>
    cases hopened with
    | some hfollows =>
      have hheader := hfollows.header
      refine ⟨[], .none, fun rest bodies =>
        .method ?_ hclose (fun _ => hfollows.head?_ne) (hfollows.standsOn hfinish)⟩
      rw [(OpenMethod.eq_of_finish hfinish).1]
      exact hheader
  | add hitem =>
    cases hopened with
    | some hfollows =>
      refine ⟨_, .some (hfollows.add hitem), fun rest bodies hlisted => ?_⟩
      simpa using hlisted

/-- The lines before and those that are still to be read are the lines of a listing. -/
theorem listed_of_readLines (hopened : Pending opened before) {rest : List (List Char)}
    {bodies : List (Body Label)} (h : readLines number opened rest = .ok bodies) :
    Listed (before ++ rest.map Line.read) bodies := by
  induction rest generalizing number opened before bodies with
  | nil =>
    cases hopened with
    | none =>
      cases h
      exact .nil
    | some => cases h
  | cons line rest ih =>
    rw [readLines] at h
    split at h
    · cases h
    next next completed hread =>
    split at h
    · cases h
    next others hothers =>
    cases h
    -- What the first line leaves pending goes on with the others.
    obtain ⟨after, hnext, hlisted⟩ := (LineStep.of_readLine hread).pending hopened
    exact hlisted _ _ (ih hnext hothers)

/-- The last line of a method reports no opcode, and no other line reports a body. -/
theorem readLine_ne_operandForm (hopened : Pending opened before) (name : String) (index : Nat)
    (opcode : Opcode) (expected : OperandForm) (actual : Option OperandForm) :
    readLine number opened line ≠
      .error (.malformedBody name (.operandForm index opcode expected actual)) := by
  intro h
  rw [readLine] at h
  split at h
  · cases h
  split at h
  · unfold startMethod at h
    split at h <;> cases h
  split at h
  · cases hopened with
    | none => cases h
    | @some method header lines hfollows =>
      -- Only the end of a method reports anything of its opcodes.
      refine hfollows.finish_ne_operandForm name index opcode expected actual ?_
      rw [endMethod] at h
      cases hfinish : method.finish with
      | error error =>
        rw [hfinish] at h
        cases h
        rfl
      | ok body =>
        rw [hfinish] at h
        cases h
  · unfold continueMethod at h
    split at h
    · split at h <;> cases h
    · cases h

/-- No line of a listing reports an opcode that is wrong for its node. -/
theorem readLines_ne_operandForm (hopened : Pending opened before) (rest : List (List Char))
    (name : String) (index : Nat) (opcode : Opcode) (expected : OperandForm)
    (actual : Option OperandForm) :
    readLines number opened rest ≠
      .error (.malformedBody name (.operandForm index opcode expected actual)) := by
  induction rest generalizing number opened before with
  | nil => cases opened <;> nofun
  | cons line rest ih =>
    intro h
    rw [readLines] at h
    split at h
    · next hread =>
      cases h
      exact readLine_ne_operandForm hopened name index opcode expected actual hread
    next hread =>
    split at h
    · next hrest =>
      cases h
      -- The error is one of the other lines.
      obtain ⟨after, hnext, -⟩ := (LineStep.of_readLine hread).pending hopened
      exact ih hnext hrest
    · cases h

end Reading

/-- No opcode of a listing is wrong for its node, and what is read are the methods of the listing,
each being what its lines say. -/
theorem listed_of_readListing (source : String) :
    (∀ name index opcode expected actual, readListing source ≠
      .error (.malformedBody name (.operandForm index opcode expected actual))) ∧
    ∀ bodies, readListing source = .ok bodies →
      Listed ((Line.split source.toList).map Line.read) bodies :=
  ⟨readLines_ne_operandForm .none _, fun _ => listed_of_readLines .none⟩

/-- A method with a blank line whose labels are mentioned before they are placed. -/
def callListing : String :=
  "method call ()V\nTRYCATCHBLOCK a b c null\n//\na:\n1: INVOKEINTERFACE R.run ()V\nb:\nc:\nend"

/-- The method of `callListing`. -/
def callBody : Body Label where
  name := "call"
  desc := "()V"
  nodes := #[.label ⟨0⟩, .method .invokeInterface ⟨"R", "run", "()V"⟩ true, .label ⟨1⟩, .label ⟨2⟩]
  tryCatches := [⟨⟨0⟩, ⟨1⟩, ⟨2⟩, none⟩]

/-- The method is what its lines say, though its first line mentions all labels. -/
theorem listed_of_readListing_call :
    readListing callListing = .ok [callBody] ∧
      Listed ((Line.split callListing.toList).map Line.read) [callBody] := by
  have hread : readListing callListing = .ok [callBody] := by decide +kernel
  exact ⟨hread, (listed_of_readListing callListing).2 _ hread⟩

end CleanupFilter
