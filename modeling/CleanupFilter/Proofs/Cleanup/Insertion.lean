import Mathlib.Data.List.InsertIdx
import CleanupFilter.Proofs.Cleanup.Finding
import CleanupFilter.Proofs.Method.Insertion
import CleanupFilter.Proofs.Pattern.Insertion

/-!
# Metadata within cleanup code

Compilers put line markers, frames and labels anywhere between instructions. One more of them in
front of an instruction moves cleanup code, but neither hides nor creates any.

- `Cleanup.ignores_language`: cleanup code reads the same with and without a pseudo-node.
- `Cleanup.spans_insertNode_iff`: where cleanup code is after an insertion.
- `Body.cleanups_insertNode`: resource cleanups and monitor releases are found as before.
-/

namespace CleanupFilter

variable {node : Node Label}

/-! ### Chains with and without a pseudo-node -/

namespace Ecj

section Known

variable (scope : Scope) (known : List Key)

/-- A close makes its label known. -/
theorem knownAfter?_close :
    Step.knownAfter? scope known close = some (closed.resolve scope :: known) :=
  rfl

theorem knownAfter?_closeAndThrow :
    Step.knownAfter? scope known closeAndThrow = some (rethrow.resolve scope :: known) := by
  simp [closeAndThrow, Step.knownAfter?, Step.known?]

theorem knownAfter?_suppress :
    Step.knownAfter? scope known suppress = some (suppressEnd.resolve scope ::
      suppressEnd.resolve scope :: suppressStart.resolve scope :: known) := by
  simp [suppress, Step.knownAfter?, Step.known?]

theorem knownAfter?_handler :
    Step.knownAfter? scope known (closeAndThrow ++ suppress) = some (suppressEnd.resolve scope ::
      suppressEnd.resolve scope :: suppressStart.resolve scope :: rethrow.resolve scope ::
        known) := by
  rw [Step.knownAfter?_append, knownAfter?_closeAndThrow]
  exact knownAfter?_suppress _ _

/-- A layer makes the labels of its parts known, and that of the resource it closes. -/
theorem knownAfter?_layer :
    Step.knownAfter? scope known (close ++ [.jump .goto closed] ++ suppress ++ closeAndThrow) =
      some (rethrow.resolve scope :: suppressEnd.resolve scope :: suppressEnd.resolve scope ::
        suppressStart.resolve scope :: closed.resolve scope :: closed.resolve scope ::
          known) := by
  rw [Step.knownAfter?_append, Step.knownAfter?_append, Step.knownAfter?_append,
    knownAfter?_close, Option.bind_some, Step.knownAfter?, Step.known?, Option.bind_some,
    Step.knownAfter?, Option.bind_some, knownAfter?_suppress, Option.bind_some]
  exact knownAfter?_closeAndThrow _ _

end Known

/-- A layer asks for the label of the resource that it is around, and jumps to its own. -/
theorem exists_known_layer (inner : Nat) :
    ∃ given, Segment.known? [closed.resolve (.resource inner)] (layer inner) = some given ∧
      closed.resolve (.resource (inner + 1)) ∈ given := by
  have hlabel : Step.knownAfter? (.resource inner) [closed.resolve (.resource inner)]
      [.label closed] = some [closed.resolve (.resource inner)] := by
    simp [Step.knownAfter?, Step.known?]
  have hcode := knownAfter?_layer (.resource (inner + 1)) [closed.resolve (.resource inner)]
  refine ⟨_, Eq.trans ?_ hcode, by simp⟩
  rw [layer, Segment.known?, hlabel, Option.bind_some]
  exact Option.bind_fun_some _

/-- The handlers only ask for labels that they jump to themselves. -/
theorem exists_known_handlers (count : Nat) (known : List Key) :
    ∃ given, Segment.known? known (handlers count) = some given := by
  refine Segment.exists_known (fun s hs known => ?_) known
  rw [handlers, List.cons_append, List.mem_cons, List.mem_append, List.mem_map,
    List.mem_singleton] at hs
  rcases hs with rfl | ⟨index, -, rfl⟩ | rfl
  · exact ⟨known, rfl⟩
  · exact ⟨_, knownAfter?_handler _ _⟩
  · exact ⟨known, rfl⟩

/-- Pseudo-nodes between layers are ignored. -/
theorem ignores_layersOf (hpseudo : node.isPseudo = true) (count inner : Nat) :
    (layersOf count inner).Ignores node [closed.resolve (.resource inner)] [] := by
  induction count generalizing inner with
  | zero =>
    have hsuppress := Language.ignores_ofSteps hpseudo
      (knownAfter?_suppress .outermost [closed.resolve (.resource inner)])
    exact (hsuppress.seq (Language.ignores_ofSteps hpseudo rfl)).mono (by simp)
  | succ count ih =>
    obtain ⟨given, hgiven, hmem⟩ := exists_known_layer inner
    have hlayer := Language.ignores_ofSegments hpseudo hgiven
    exact (hlayer.mono (by simpa using hmem)).seq (ih (inner + 1))

/-- Pseudo-nodes between closes are ignored. -/
theorem ignores_closesOf (hpseudo : node.isPseudo = true) (count first : Nat)
    (needed : List Key) : (closesOf count first).Ignores node needed [] := by
  induction count generalizing first needed with
  | zero => exact (Language.ignores_opcode hpseudo _).mono (by simp)
  | succ count ih =>
    exact (Language.ignores_ofSteps hpseudo (knownAfter?_close _ needed)).seq (ih (first + 1) _)

/-- Pseudo-nodes in a chain behind a jump are ignored. -/
theorem ignores_jumping (hpseudo : node.isPseudo = true) (needed : List Key) :
    jumping.Ignores node needed [] := by
  have hinnermost : Step.knownAfter? (.resource 0) needed innermost =
      some (rethrow.resolve (.resource 0) :: closed.resolve (.resource 0) :: needed) := by
    rw [innermost, Step.knownAfter?_append]
    exact knownAfter?_closeAndThrow _ _
  have hlayers : (Layers 0).Ignores node [closed.resolve (.resource 0)] [] := by
    rw [layers_eq]
    exact Language.Ignores.exists fun count => ignores_layersOf hpseudo count 0
  exact (Language.ignores_ofSteps hpseudo hinnermost).seq (hlayers.mono_needed (by simp))

/-- Pseudo-nodes in a chain behind a return are ignored. -/
theorem ignores_returning (hpseudo : node.isPseudo = true) (needed : List Key) :
    returning.Ignores node needed [] := by
  have hcount : ∀ count, ((closesOf count 1).seq
      (.ofSegments (handlers (count + 1)))).Ignores node needed [] := by
    intro count
    obtain ⟨given, hgiven⟩ := exists_known_handlers (count + 1) []
    exact (ignores_closesOf hpseudo count 1 needed).seq
      ((Language.ignores_ofSegments hpseudo hgiven).mono (by simp))
  rw [returning_eq]
  exact Language.Ignores.exists hcount

/-- Pseudo-nodes within a chain are ignored wherever they stand. -/
theorem ignores_language (hpseudo : node.isPseudo = true) : language.Ignores node [] [] :=
  (Language.ignores_ofSteps hpseudo (knownAfter?_close _ [])).seq
    ((ignores_jumping hpseudo _).either (ignores_returning hpseudo _))

end Ecj

/-! ### Cleanup code with and without a pseudo-node -/

namespace Cleanup

/-- No cleanup asks for a label that it has not jumped to before. -/
theorem ignores_language (hpseudo : node.isPseudo = true) (cleanup : Cleanup) :
    cleanup.language.Ignores node [] [] := by
  have hsegments : ∀ {segments : List Segment}, (Segment.known? [] segments).isSome = true →
      (Language.ofSegments segments).Ignores node [] [] := by
    intro segments h
    obtain ⟨given, hgiven⟩ := Option.isSome_iff_exists.1 h
    exact (Language.ignores_ofSegments hpseudo hgiven).mono (by simp)
  cases cleanup with
  | monitor shape => cases shape <;> exact Language.ignores_ofSteps hpseudo rfl
  | resources shape =>
    cases shape with
    | ecj => exact Ecj.ignores_language hpseudo
    | javacOptimal | javacFull | javacOmittedNullCheck | javacMethod => exact hsegments (by decide)

end Cleanup

/-- Empty bindings are settled. -/
theorem Bindings.Settled.empty (node : Node Label) : Bindings.empty.Settled node [] :=
  ⟨by simp, fun _ _ _ h => absurd h.symm (Option.some_ne_none _)⟩

/-! ### Where cleanup code is after an insertion -/

variable {code : Code} {index first : Nat} {real : Node Label} {nodes : List (Node Label)}

namespace Code

/-- Nodes in front of the insertion stay where they are. -/
theorem holds_insertNode_of_le (h : first + nodes.length ≤ index) :
    (code.insertNode index node).Holds first nodes ↔ code.Holds first nodes := by
  have hat : ∀ k < nodes.length,
      (code.insertNode index node)[first + k]? = code[first + k]? := by
    intro k hk
    have hshift := code.getElem?_insertNode_shift index node (first + k)
    rwa [shift_of_lt (by omega)] at hshift
  exact ⟨fun hholds => hholds.transfer fun k hk => (hat k hk).symm,
    fun hholds => hholds.transfer hat⟩

/-- Nodes behind the insertion move by one. -/
theorem holds_insertNode_of_ge (h : index ≤ first) :
    (code.insertNode index node).Holds (first + 1) nodes ↔ code.Holds first nodes := by
  have hat : ∀ k, (code.insertNode index node)[first + 1 + k]? = code[first + k]? := by
    intro k
    have hshift := code.getElem?_insertNode_shift index node (first + k)
    rwa [shift_of_le (by omega), Nat.add_right_comm] at hshift
  exact ⟨fun hholds => hholds.transfer fun k _ => (hat k).symm,
    fun hholds => hholds.transfer fun k _ => hat k⟩

/-- Nodes around the insertion have the inserted one among them. -/
theorem holds_insertNode_append {front back : List (Node Label)} (hindex : index ≤ code.size)
    (hfront : first + front.length = index) :
    (code.insertNode index node).Holds first (front ++ node :: back) ↔
      code.Holds first (front ++ back) := by
  rw [holds_append, holds_append, holds_cons, hfront, getElem?_insertNode_self hindex,
    holds_insertNode_of_le (Nat.le_of_eq hfront), holds_insertNode_of_ge (Nat.le_refl index)]
  exact and_congr_right fun _ => and_iff_right rfl

end Code

/-- A label that no jump of the code refers to is not referred to in a part of it. -/
theorem Untargeted.of_holds {first : Nat} (huntargeted : Untargeted node code.toList)
    (hpseudo : node.isPseudo = true) (hholds : (code.insertNode index node).Holds first nodes) :
    Untargeted node nodes := by
  intro label hlabel n hn
  have hmem : n ∈ code.toList.insertIdx index node :=
    List.mem_of_mem_drop (hholds.subset hn)
  rcases List.eq_or_mem_of_mem_insertIdx hmem with rfl | hmem
  · -- The inserted node is no jump.
    cases n <;> simp_all [Node.isPseudo, Node.target?]
  · exact huntargeted label hlabel n hmem

namespace Cleanup

variable {cleanup : Cleanup} {position last : Nat}

/-- Cleanup code ends where it would end without the inserted node, so it does not end there. -/
theorem not_spans_insertNode (hindex : index ≤ code.size) (hpseudo : node.isPseudo = true)
    (huntargeted : Untargeted node code.toList) (hle : position + 1 ≤ index) :
    ¬ cleanup.Spans (code.insertNode index node) (position + 1) index := by
  intro h
  obtain ⟨nodes, after, hnodes, hholds, hlast⟩ := id h
  obtain ⟨front, back, rfl, hfront⟩ :=
    hholds.exists_split (Code.getElem?_insertNode_self hindex) hle (by omega)
  have huntargeted := huntargeted.of_holds hpseudo hholds
  rw [List.length_append, List.length_cons] at hlast
  -- Without the node at its end it would be a shorter cleanup from the same start.
  obtain rfl : back = [] := List.length_eq_zero_iff.1 (by omega)
  have hremoved := (cleanup.ignores_language hpseudo).remove (.empty node) huntargeted hnodes
  rw [List.append_nil] at hremoved
  have hfrontSpans : cleanup.Spans (code.insertNode index node) (position + 1) (index - 1) :=
    ⟨front, after, hremoved, (Code.holds_append.1 hholds).1, by omega⟩
  have := (h.unique hfrontSpans).2
  omega

/-- Cleanup code that starts in front of the insertion takes the inserted node in, or ends in front
of it as well. -/
theorem spans_insertNode_of_lt (hreal : code[index]? = some real)
    (hinstruction : real.isPseudo = false) (hpseudo : node.isPseudo = true)
    (huntargeted : Untargeted node code.toList) (hlt : position + 1 < index) :
    cleanup.Spans (code.insertNode index node) (position + 1) last ↔
      ∃ l, cleanup.Spans code (position + 1) l ∧ Code.shift index l = last := by
  have hindex : index ≤ code.size := Nat.le_of_lt (Array.getElem?_eq_some_iff.1 hreal).1
  have hignores := cleanup.ignores_language hpseudo
  constructor
  · intro h
    -- No cleanup ends with the inserted node.
    have hne : last ≠ index := by
      rintro rfl
      exact not_spans_insertNode hindex hpseudo huntargeted (Nat.le_of_lt hlt) h
    obtain ⟨nodes, after, hnodes, hholds, hlast⟩ := h
    rcases Nat.lt_or_ge last index with hbefore | hbehind
    · refine ⟨last, ⟨nodes, after, hnodes, ?_, hlast⟩, Code.shift_of_lt hbefore⟩
      exact (Code.holds_insertNode_of_le (by omega)).1 hholds
    · -- The inserted node is inside, so it is taken out.
      have huntargeted := huntargeted.of_holds hpseudo hholds
      obtain ⟨front, back, rfl, hfront⟩ := hholds.exists_split
        (Code.getElem?_insertNode_self hindex) (Nat.le_of_lt hlt) (by omega)
      rw [List.length_append, List.length_cons] at hlast
      refine ⟨last - 1, ⟨front ++ back, after,
        hignores.remove (.empty node) huntargeted hnodes,
        (Code.holds_insertNode_append hindex hfront).1 hholds, ?_⟩, ?_⟩
      · rw [List.length_append]
        omega
      · rw [Code.shift_of_le (by omega)]
        omega
  · rintro ⟨l, ⟨nodes, after, hnodes, hholds, hlast⟩, rfl⟩
    rcases Nat.lt_or_ge l index with hbefore | hbehind
    · rw [Code.shift_of_lt hbefore]
      exact ⟨nodes, after, hnodes, (Code.holds_insertNode_of_le (by omega)).2 hholds, hlast⟩
    · -- The instruction is inside, so the node is put in front of it.
      obtain ⟨front, back, rfl, hfront⟩ :=
        hholds.exists_split hreal (Nat.le_of_lt hlt) (by omega)
      rw [List.length_append, List.length_cons] at hlast
      refine ⟨front ++ node :: real :: back, after, hignores.insert hinstruction hnodes,
        (Code.holds_insertNode_append hindex hfront).2 hholds, ?_⟩
      rw [Code.shift_of_le hbehind, List.length_append, List.length_cons, List.length_cons]
      omega

/-- Cleanup code behind the insertion moves by one. -/
theorem spans_insertNode_of_le (hle : index ≤ position + 1) :
    cleanup.Spans (code.insertNode index node) (position + 1 + 1) last ↔
      ∃ l, cleanup.Spans code (position + 1) l ∧ Code.shift index l = last := by
  constructor
  · intro h
    have hlt := h.lt_size.1
    -- All nodes of the cleanup have moved by one.
    obtain ⟨nodes, after, hnodes, hholds, hlast⟩ := h
    refine ⟨last - 1, ⟨nodes, after, hnodes, ?_, by omega⟩, ?_⟩
    · exact (Code.holds_insertNode_of_ge hle).1 hholds
    · rw [Code.shift_of_le (by omega)]
      omega
  · rintro ⟨l, h, rfl⟩
    have hlt := h.lt_size.1
    obtain ⟨nodes, after, hnodes, hholds, hlast⟩ := h
    rw [Code.shift_of_le (by omega)]
    exact ⟨nodes, after, hnodes, (Code.holds_insertNode_of_ge hle).2 hholds, by omega⟩

/-- What an insertion in front of an instruction does to cleanup code is to move it. -/
theorem spans_insertNode_iff (hreal : code[index]? = some real) (hinstruction : real.isPseudo = false)
    (hpseudo : node.isPseudo = true) (huntargeted : Untargeted node code.toList) :
    cleanup.Spans (code.insertNode index node) (Code.shift index (position + 1)) last ↔
      ∃ l, cleanup.Spans code (position + 1) l ∧ Code.shift index l = last := by
  rcases Nat.lt_or_ge (position + 1) index with hlt | hle
  · rw [Code.shift_of_lt hlt]
    exact spans_insertNode_of_lt hreal hinstruction hpseudo huntargeted hlt
  · rw [Code.shift_of_le hle]
    exact spans_insertNode_of_le hle

end Cleanup

section Insertion

variable (hreal : code[index]? = some real) (hinstruction : real.isPseudo = false)
  (hpseudo : node.isPseudo = true) (huntargeted : Untargeted node code.toList)

include hreal hinstruction hpseudo huntargeted

/-- The place behind a node is in front of the inserted node where the latter follows. -/
theorem Cleanup.spans_behind_iff {cleanup : Cleanup} {position last : Nat} :
    cleanup.Spans (code.insertNode index node) (Code.shift index position + 1) last ↔
      ∃ l, cleanup.Spans code (position + 1) l ∧ Code.shift index l = last := by
  have hindex : index ≤ code.size := Nat.le_of_lt (Array.getElem?_eq_some_iff.1 hreal).1
  rw [← spans_insertNode_iff hreal hinstruction hpseudo huntargeted]
  rcases Nat.lt_trichotomy (position + 1) index with hlt | heq | hgt
  · rw [Code.shift_of_lt hlt, Code.shift_of_lt (by omega)]
  · rw [Code.shift_of_le (Nat.le_of_eq heq.symm), Code.shift_of_lt (by omega)]
    refine Cleanup.spans_congr (Code.realFrom?_of_isPseudo ?_ hpseudo)
    rw [heq]
    exact Code.getElem?_insertNode_self hindex
  · rw [Code.shift_of_le (by omega), Code.shift_of_le (by omega)]

/-! ### What is found -/

/-- A cleanup is found in the code with one more pseudo-node exactly where it was, shifted. -/
theorem resourceCleanup?_insertNode {start position : Nat}
    (hstart : start = Code.shift index (position + 1) ∨ start = Code.shift index position + 1) :
    resourceCleanup? (code.insertNode index node) start =
      (resourceCleanup? code (position + 1)).map
        fun (shape, last) => (shape, Code.shift index last) := by
  have hpos : 0 < start := by
    rcases hstart with rfl | rfl
    · rw [Code.shift]
      split_ifs <;> omega
    · omega
  -- At either start the same cleanups are found, those that have moved.
  have hspans : ∀ {cleanup : Cleanup} {last : Nat},
      cleanup.Spans (code.insertNode index node) start last ↔
        ∃ l, cleanup.Spans code (position + 1) l ∧ Code.shift index l = last := by
    intro cleanup last
    rcases hstart with rfl | rfl
    · exact Cleanup.spans_insertNode_iff hreal hinstruction hpseudo huntargeted
    · exact Cleanup.spans_behind_iff hreal hinstruction hpseudo huntargeted
  ext ⟨shape, last⟩
  rw [resourceCleanup?_eq_some_iff, and_iff_right hpos, hspans, Option.map_eq_some_iff]
  constructor
  · rintro ⟨l, hl, rfl⟩
    exact ⟨(shape, l), resourceCleanup?_eq_some_iff.2 ⟨Nat.succ_pos position, hl⟩, rfl⟩
  · rintro ⟨⟨_, l⟩, hfound, ⟨⟩⟩
    exact ⟨l, (resourceCleanup?_eq_some_iff.1 hfound).2, rfl⟩

/-- A release is found in the code with one more pseudo-node exactly where it was, shifted. -/
theorem monitorRelease?_insertNode {entry : TryCatch Label}
    (hhandler : node.placed? ≠ some entry.handler) :
    monitorRelease? (code.insertNode index node) entry =
      (monitorRelease? code entry).map fun (shape, last) => (shape, Code.shift index last) := by
  have hindex : index ≤ code.size := Nat.le_of_lt (Array.getElem?_eq_some_iff.1 hreal).1
  -- A shape that is found behind the handler is found behind it in its new place.
  have hlast : ∀ (shape : MonitorShape) (handler : Nat),
      ((Cursor.run (code.insertNode index node) .method shape.steps).follow?
          (.after (Code.shift index handler))).bind Cursor.position =
        (((Cursor.run code .method shape.steps).follow? (.after handler)).bind
          Cursor.position).map (Code.shift index) := by
    intro shape handler
    ext last
    rw [Option.map_eq_some_iff]
    refine (@Cleanup.bind_follow?_eq_some_iff _ (.monitor shape) _ _).trans ?_
    rw [Cleanup.spans_behind_iff hreal hinstruction hpseudo huntargeted]
    exact exists_congr fun l => and_congr_left fun _ =>
      (@Cleanup.bind_follow?_eq_some_iff _ (.monitor shape) _ _).symm
  rw [monitorRelease?, monitorRelease?]
  split_ifs
  · rw [TryCatch.handlerPosition?, TryCatch.handlerPosition?,
      Code.placement?_insertNode hindex hhandler]
    cases code.placement? entry.handler with
    | none => rfl
    | some handler =>
      rw [Option.map_some, Option.bind_some, Option.bind_some, List.map_findSome?]
      congr 1
      funext shape
      rw [hlast, Function.comp_apply, Option.map_map, Option.map_map]
      rfl
  · rfl

end Insertion

namespace Body

/-- The labels of jumps and of exception table entries are among those of the body. -/
theorem untargeted_of_notMem_mentions {body : Body Label}
    (hfresh : ∀ label ∈ node.placed?, label ∉ body.mentions) :
    Untargeted node body.nodes.toList := by
  intro label hlabel n hn htarget
  refine hfresh label hlabel (List.mem_append_left _ (List.mem_filterMap.2 ⟨n, hn, ?_⟩))
  cases n with
  | jump opcode target => exact htarget
  | _ => exact absurd htarget (Option.some_ne_none label).symm

/-- A line marker, a frame or an unused label in front of an instruction neither hides nor creates
cleanup code: every cleanup is found where it has moved to, and the one that the instruction starts
is found at the inserted node as well. -/
theorem cleanups_insertNode (body : Body Label) {index : Nat} {real node : Node Label}
    (hreal : body.nodes[index]? = some real) (hinstruction : real.isPseudo = false)
    (hpseudo : node.isPseudo = true) (hfresh : ∀ label ∈ node.placed?, label ∉ body.mentions) :
    (∀ start, 1 ≤ start →
        resourceCleanup? (Code.insertNode body.nodes index node) (Code.shift index start) =
          (resourceCleanup? body.nodes start).map
            fun (shape, last) => (shape, Code.shift index last)) ∧
      (1 ≤ index →
        resourceCleanup? (Code.insertNode body.nodes index node) index =
          (resourceCleanup? body.nodes index).map
            fun (shape, last) => (shape, Code.shift index last)) ∧
      ∀ entry ∈ body.tryCatches,
        monitorRelease? (Code.insertNode body.nodes index node) entry =
          (monitorRelease? body.nodes entry).map
            fun (shape, last) => (shape, Code.shift index last) := by
  have huntargeted := untargeted_of_notMem_mentions hfresh
  refine ⟨fun start hpos => ?_, fun hpos => ?_, fun entry hentry => ?_⟩
  · obtain ⟨position, rfl⟩ : ∃ position, start = position + 1 := ⟨start - 1, by omega⟩
    exact resourceCleanup?_insertNode hreal hinstruction hpseudo huntargeted (.inl rfl)
  · obtain ⟨position, rfl⟩ : ∃ position, index = position + 1 := ⟨index - 1, by omega⟩
    refine resourceCleanup?_insertNode hreal hinstruction hpseudo huntargeted (.inr ?_)
    rw [Code.shift_of_lt (Nat.lt_succ_self position)]
  · refine monitorRelease?_insertNode hreal hinstruction hpseudo huntargeted fun hplaced => ?_
    refine hfresh entry.handler hplaced (List.mem_append_right _ ?_)
    exact List.mem_flatMap.2 ⟨entry, hentry, by simp [TryCatch.labels]⟩

/-- A fresh label within a cleanup moves its end by one position. -/
theorem cleanups_insertNode_fresh :
    closedAndReleased.nodes[1]? = some (.var .aload 1) ∧
      (⟨9⟩ : Label) ∉ closedAndReleased.mentions ∧
      resourceCleanup? (Code.insertNode closedAndReleased.nodes 1 (.label ⟨9⟩)) 2 =
        some (.javacOptimal, 17) ∧
      resourceCleanup? (Code.insertNode closedAndReleased.nodes 1 (.label ⟨9⟩)) 1 =
        some (.javacOptimal, 17) ∧
      monitorRelease? (Code.insertNode closedAndReleased.nodes 1 (.label ⟨9⟩))
        ⟨⟨0⟩, ⟨2⟩, ⟨2⟩, none⟩ = some (.javac, 25) := by
  have hreal : closedAndReleased.nodes[1]? = some (.var .aload 1) := rfl
  have hfresh : (⟨9⟩ : Label) ∉ closedAndReleased.mentions := by decide
  have hcleanup : resourceCleanup? closedAndReleased.nodes 1 = some (.javacOptimal, 16) := by
    decide +kernel
  have hrelease : monitorRelease? closedAndReleased.nodes ⟨⟨0⟩, ⟨2⟩, ⟨2⟩, none⟩ =
      some (.javac, 24) := by
    decide +kernel
  have hpseudo : (Node.label ⟨9⟩ : Node Label).isPseudo = true := rfl
  obtain ⟨hstarts, hself, hentries⟩ := cleanups_insertNode closedAndReleased hreal rfl hpseudo
    fun label hlabel => Option.some.inj hlabel ▸ hfresh
  refine ⟨hreal, hfresh, ?_, ?_, ?_⟩
  · exact (hstarts 1 (Nat.le_refl 1)).trans (by rw [hcleanup]; rfl)
  · exact (hself (Nat.le_refl 1)).trans (by rw [hcleanup]; rfl)
  · exact (hentries _ List.mem_cons_self).trans (by rw [hrelease]; rfl)

end Body

end CleanupFilter
