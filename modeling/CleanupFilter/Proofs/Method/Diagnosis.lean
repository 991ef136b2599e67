import CleanupFilter.Proofs.Method.Insertion
import CleanupFilter.Proofs.Method.Relabel

/-!
# What the check of a body says

A body passes its check if and only if it is well formed. Otherwise the check reports the first
misfitting opcode, or else the first label that is placed again, or else the first label that is
referred to and never placed.

- `Body.WellFormed`: opcodes fit, and every label that occurs is placed once.
- `Body.Reports`: the error that has to be reported of a body.
- `Body.check_eq_ok_iff_wellFormed`, `Body.check_eq_error_iff`: the check says exactly this.
- `Body.WellFormed.placement?_eq_some_iff`: a label of a well-formed body is where it is placed.
-/

namespace CleanupFilter

variable {α : Type}

/-- The first repeated element is the first one that stands among those before it. -/
theorem firstRepeat?_eq_some_iff [DecidableEq α] {seen values : List α} {a : α} :
    firstRepeat? seen values = some a ↔ ∃ front back, values = front ++ a :: back ∧
      front.Nodup ∧ (∀ b ∈ front, b ∉ seen) ∧ (a ∈ seen ∨ a ∈ front) := by
  induction values generalizing seen with
  | nil => simp [firstRepeat?]
  | cons first rest ih =>
    rw [firstRepeat?]
    by_cases hfirst : first ∈ seen
    · rw [if_pos hfirst, Option.some.injEq]
      constructor
      · rintro rfl
        exact ⟨[], rest, rfl, List.nodup_nil, by simp, .inl hfirst⟩
      · rintro ⟨front, back, hsplit, -, hseen, -⟩
        -- Nothing can stand in front of an element that has been seen.
        cases front with
        | nil => exact (List.cons.inj hsplit).1
        | cons b front =>
          obtain ⟨rfl, -⟩ := List.cons.inj hsplit
          exact absurd hfirst (hseen _ List.mem_cons_self)
    · rw [if_neg hfirst, ih]
      constructor
      · rintro ⟨front, back, rfl, hnodup, hseen, ha⟩
        refine ⟨first :: front, back, rfl, ?_, ?_, ?_⟩
        · refine List.nodup_cons.2 ⟨fun hmem => hseen first hmem List.mem_cons_self, hnodup⟩
        · refine List.forall_mem_cons.2 ⟨hfirst, fun b hb hmem => ?_⟩
          exact hseen b hb (List.mem_cons_of_mem _ hmem)
        · simp only [List.mem_cons] at ha ⊢
          tauto
      · rintro ⟨front, back, hsplit, hnodup, hseen, ha⟩
        cases front with
        | nil =>
          obtain ⟨rfl, -⟩ := List.cons.inj hsplit
          exact absurd ha (by simp [hfirst])
        | cons b front =>
          obtain ⟨rfl, rfl⟩ := List.cons.inj hsplit
          obtain ⟨hnotMem, hnodup⟩ := List.nodup_cons.1 hnodup
          refine ⟨front, back, rfl, hnodup, fun c hc hmem => ?_, ?_⟩
          · rcases List.mem_cons.1 hmem with rfl | hmem
            · exact hnotMem hc
            · exact hseen c (List.mem_cons_of_mem _ hc) hmem
          · simp only [List.mem_cons] at ha ⊢
            tauto

namespace Node

variable {L : Type} {node : Node L} {index : Nat}

/-- Only the placement of a label places it. -/
theorem placed?_eq_some_iff {label : L} : node.placed? = some label ↔ node = .label label := by
  cases node <;> simp [placed?]

/-- What is reported of a node is that its opcode lacks the form of the node. -/
theorem misfitAt?_eq_some_iff {error : BuildError} : node.misfitAt? index = some error ↔
    ∃ opcode expected, node.opcode? = some opcode ∧ node.form? = some expected ∧
      opcode.form? ≠ some expected ∧ error = .operandForm index opcode expected opcode.form? := by
  rw [misfitAt?]
  cases node.opcode? <;> cases node.form? <;> simp [eq_comm]

end Node

namespace Body

/-! ### What is right and what is wrong -/

/-- Every opcode has the operand form of its node, no label is placed twice, and every label that is
referred to is placed. -/
structure WellFormed (body : Body Label) : Prop where
  fits : ∀ node ∈ body.nodes, node.Fits
  placedOnce : body.placements.Nodup
  placed : ∀ label ∈ body.references, label ∈ body.placements

/-- The error that has to be reported of a body. -/
inductive Reports (body : Body Label) : BuildError → Prop
  /-- The first node whose opcode does not have its operand form. -/
  | operandForm {front back : List (Node Label)} {node : Node Label} {opcode : Opcode}
      {expected : OperandForm} :
      body.nodes.toList = front ++ node :: back → (∀ earlier ∈ front, earlier.Fits) →
      node.opcode? = some opcode → node.form? = some expected → opcode.form? ≠ some expected →
      Reports body (.operandForm front.length opcode expected opcode.form?)
  /-- The first placement of a label that an earlier node places. -/
  | duplicateLabel {front back : List (Node Label)} {label : Label} :
      (∀ node ∈ body.nodes, node.Fits) →
      body.nodes.toList = front ++ .label label :: back → (front.filterMap Node.placed?).Nodup →
      .label label ∈ front → Reports body (.duplicateLabel label)
  /-- The first reference to a label that is not placed. -/
  | unplacedLabel {front back : List Label} {label : Label} :
      (∀ node ∈ body.nodes, node.Fits) → body.placements.Nodup →
      body.references = front ++ label :: back → (∀ earlier ∈ front, earlier ∈ body.placements) →
      label ∉ body.placements → Reports body (.unplacedLabel label)

variable {body : Body Label} {error : BuildError}

/-! ### What the check finds -/

/-- The first misfit is that of the first node that does not fit. -/
theorem misfit?_eq_some_iff : body.misfit? = some error ↔
    ∃ front node back, body.nodes.toList = front ++ node :: back ∧
      (∀ earlier ∈ front, earlier.Fits) ∧ node.misfitAt? front.length = some error := by
  rw [misfit?_eq, List.findSome?_eq_some_iff]
  constructor
  · rintro ⟨indexed, ⟨node, index⟩, rest, hsplit, herror, hearlier⟩
    -- The index of the node is the number of nodes in front of it.
    obtain ⟨front, tail, hnodes, rfl, htail⟩ := List.zipIdx_eq_append_iff.1 hsplit
    obtain ⟨found, back, rfl, hfound, -⟩ := List.zipIdx_eq_cons_iff.1 htail.symm
    obtain ⟨rfl, rfl⟩ := Prod.mk.inj hfound
    refine ⟨front, node, back, hnodes, fun earlier hmem => ?_, by simpa using herror⟩
    obtain ⟨index, hindex⟩ := List.mem_iff_getElem?.1 hmem
    exact Node.misfitAt?_eq_none_iff.1
      (hearlier (earlier, index) (List.mem_zipIdx_iff_getElem?.2 hindex))
  · rintro ⟨front, node, back, hnodes, hfront, herror⟩
    refine ⟨front.zipIdx, (node, front.length), back.zipIdx (front.length + 1), ?_, herror, ?_⟩
    · rw [hnodes, List.zipIdx_append, List.zipIdx_cons, Nat.zero_add]
    · rintro ⟨earlier, index⟩ hmem
      have hmem := List.mem_of_getElem? (List.mem_zipIdx_iff_getElem?.1 hmem)
      exact Node.misfitAt?_eq_none_iff.2 (hfront earlier hmem)

/-- The first duplicate is the first node that places a label again. -/
theorem duplicate?_eq_some_iff : body.duplicate? = some error ↔
    ∃ front back label, body.nodes.toList = front ++ .label label :: back ∧
      (front.filterMap Node.placed?).Nodup ∧ .label label ∈ front ∧
      error = .duplicateLabel label := by
  have hmem : ∀ {label : Label} {front : List (Node Label)},
      label ∈ front.filterMap Node.placed? ↔ .label label ∈ front := by
    simp [List.mem_filterMap, Node.placed?_eq_some_iff]
  rw [duplicate?, Option.map_eq_some_iff, placements]
  constructor
  · rintro ⟨label, hrepeat, rfl⟩
    obtain ⟨placed, more, hsplit, hnodup, -, hlabel⟩ := firstRepeat?_eq_some_iff.1 hrepeat
    -- Nodes that place no label may stand in front of the one that does.
    obtain ⟨front, tail, hnodes, rfl, htail⟩ := List.filterMap_eq_append_iff.1 hsplit
    obtain ⟨skipped, node, back, rfl, hskipped, hnode, -⟩ := List.filterMap_eq_cons_iff.1 htail
    obtain rfl := Node.placed?_eq_some_iff.1 hnode
    have hfilter : (front ++ skipped).filterMap Node.placed? = front.filterMap Node.placed? := by
      rw [List.filterMap_append, List.filterMap_eq_nil_iff.2 hskipped, List.append_nil]
    refine ⟨front ++ skipped, back, label, ?_, by rwa [hfilter], ?_, rfl⟩
    · rw [hnodes, List.append_assoc]
    · rw [← hmem, hfilter]
      exact hlabel.resolve_left List.not_mem_nil
  · rintro ⟨front, back, label, hnodes, hnodup, hlabel, rfl⟩
    refine ⟨label, firstRepeat?_eq_some_iff.2 ⟨front.filterMap Node.placed?,
      back.filterMap Node.placed?, ?_, hnodup, by simp, .inr (hmem.2 hlabel)⟩, rfl⟩
    rw [hnodes, List.filterMap_append]
    rfl

/-- The first unplaced label is the first reference to a label that is not placed. -/
theorem unplaced?_eq_some_iff : body.unplaced? = some error ↔
    ∃ front back label, body.references = front ++ label :: back ∧
      (∀ earlier ∈ front, earlier ∈ body.placements) ∧ label ∉ body.placements ∧
      error = .unplacedLabel label := by
  rw [unplaced?, Option.map_eq_some_iff]
  constructor
  · rintro ⟨label, hfind, rfl⟩
    obtain ⟨hlabel, front, back, hsplit, hfront⟩ := List.find?_eq_some_iff_append.1 hfind
    exact ⟨front, back, label, hsplit, by simpa using hfront, by simpa using hlabel, rfl⟩
  · rintro ⟨front, back, label, hsplit, hfront, hlabel, rfl⟩
    refine ⟨label, List.find?_eq_some_iff_append.2 ⟨by simpa using hlabel, front, back, hsplit, ?_⟩,
      rfl⟩
    simpa using hfront

/-- A body passes its check if and only if it is well formed. -/
theorem check_eq_ok_iff_wellFormed {result : Body Label} :
    body.check = .ok result ↔ result = body ∧ body.WellFormed := by
  rw [check_eq_ok_iff]
  exact and_congr_right fun _ =>
    ⟨fun ⟨hfits, honce, hplaced⟩ => ⟨hfits, honce, hplaced⟩,
      fun h => ⟨h.fits, h.placedOnce, h.placed⟩⟩

/-- The check reports what has to be reported. -/
theorem check_eq_error_iff : body.check = .error error ↔ body.Reports error := by
  have hcheck : body.check = .error error ↔ body.misfit? = some error ∨
      body.misfit? = none ∧ (body.duplicate? = some error ∨
        body.duplicate? = none ∧ body.unplaced? = some error) := by
    rw [check]
    cases body.misfit? <;> cases body.duplicate? <;> cases body.unplaced? <;> simp
  -- Each of the three searches says what it finds, and what it means to find nothing.
  rw [hcheck, misfit?_eq_some_iff, misfit?_eq_none_iff, duplicate?_eq_some_iff,
    duplicate?_eq_none_iff, unplaced?_eq_some_iff]
  constructor
  · rintro (⟨front, node, back, hnodes, hfront, herror⟩ | ⟨hfits, hlabels⟩)
    · obtain ⟨opcode, expected, hopcode, hform, hne, rfl⟩ := Node.misfitAt?_eq_some_iff.1 herror
      exact .operandForm hnodes hfront hopcode hform hne
    obtain ⟨front, back, label, hnodes, hnodup, hlabel, rfl⟩ |
      ⟨hnodup, front, back, label, hreferences, hfront, hlabel, rfl⟩ := hlabels
    · exact .duplicateLabel hfits hnodes hnodup hlabel
    · exact .unplacedLabel hfits hnodup hreferences hfront hlabel
  · intro h
    cases h with
    | operandForm hnodes hfront hopcode hform hne =>
      exact .inl ⟨_, _, _, hnodes, hfront,
        Node.misfitAt?_eq_some_iff.2 ⟨_, _, hopcode, hform, hne, rfl⟩⟩
    | duplicateLabel hfits hnodes hnodup hlabel =>
      exact .inr ⟨hfits, .inl ⟨_, _, _, hnodes, hnodup, hlabel, rfl⟩⟩
    | unplacedLabel hfits hnodup hreferences hfront hlabel =>
      exact .inr ⟨hfits, .inr ⟨hnodup, _, _, _, hreferences, hfront, hlabel, rfl⟩⟩

/-! ### Labels of well-formed bodies -/

/-- Two nodes that place the same label are one, if no label is placed twice. -/
theorem eq_of_placed (h : body.placements.Nodup) {label : Label} {first second : Nat}
    (hfirst : body.nodes[first]? = some (.label label))
    (hsecond : body.nodes[second]? = some (.label label)) : first = second := by
  rw [← Array.getElem?_toList] at hfirst hsecond
  have hpairwise := List.pairwise_iff_getElem.1 (List.pairwise_filterMap.1 h)
  obtain ⟨hlt, hfirst⟩ := List.getElem?_eq_some_iff.1 hfirst
  obtain ⟨hlt', hsecond⟩ := List.getElem?_eq_some_iff.1 hsecond
  -- Otherwise the earlier placement differs from the later one.
  rcases Nat.lt_trichotomy first second with h | h | h
  · have hne := hpairwise first second hlt hlt' h
    rw [hfirst, hsecond] at hne
    exact absurd rfl (hne label rfl label rfl)
  · exact h
  · have hne := hpairwise second first hlt' hlt h
    rw [hfirst, hsecond] at hne
    exact absurd rfl (hne label rfl label rfl)

/-- The labels that are placed are those that stand somewhere. -/
theorem mem_placements_iff {label : Label} :
    label ∈ body.placements ↔ ∃ position : Nat, body.nodes[position]? = some (.label label) := by
  rw [placements, List.mem_filterMap]
  simp only [Node.placed?_eq_some_iff, exists_eq_right]
  rw [List.mem_iff_getElem?]
  simp only [Array.getElem?_toList]

/-- A label is where it is placed, if no label is placed twice. -/
theorem placement?_eq_some_iff (h : body.placements.Nodup) {label : Label} {position : Nat} :
    Code.placement? body.nodes label = some position ↔
      body.nodes[position]? = some (.label label) := by
  rw [Code.placement?_eq_some_iff]
  refine and_iff_left_of_imp fun hat later hlt hlater => ?_
  exact absurd (eq_of_placed h hat hlater) (Nat.ne_of_lt hlt)

/-- A label that is placed is placed at exactly one node, if no label is placed twice. -/
theorem existsUnique_placement (h : body.placements.Nodup) {label : Label}
    (hlabel : label ∈ body.placements) :
    ∃! position : Nat, body.nodes[position]? = some (.label label) := by
  obtain ⟨position, hat⟩ := mem_placements_iff.1 hlabel
  exact ⟨position, hat, fun other hother => eq_of_placed h hother hat⟩

end Body

end CleanupFilter
