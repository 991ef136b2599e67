import Mathlib.Logic.Function.Basic
import CleanupFilter.Proofs.Cleanup.ResourceShape
import CleanupFilter.Proofs.Pattern.Unification

/-!
# The code of resource cleanup by ecj

Cleanup by ecj reads as one of two templates for every number of resources, filled with slots,
labels and the owners of the `close` methods. In either of them the handlers are about the resources
that are closed on the normal path, in the same order.

- `Ecj.Operands`: the operands of a chain of resources.
- `Ecj.Operands.jumping`, `Ecj.Operands.returning`: the templates.
- `Ecj.exists_language_iff`: the cleanup of a chain reads as one of them.
- `Ecj.last?_eq_some_iff_jumping`, `Ecj.last?_eq_some_iff_returning`: a `GOTO` behind the first
  close decides which.
-/

namespace CleanupFilter

open CleanupFilter.Symbol (primaryException)

namespace Ecj

/-! ### Templates -/

/-- The operands of a handler that makes an exception the primary one, or adds it to the one that
there is. -/
structure Handler where
  /-- The slot of the exception that is caught. -/
  caught : UInt16
  /-- The part of the handler for a primary exception that is already there. -/
  start : Label
  /-- The end of that part. -/
  stop : Label

/-- The operands of a chain of resources. -/
structure Operands where
  /-- The slot of the primary exception. -/
  primary : UInt16
  /-- The slot of a resource. -/
  resource : Nat → UInt16
  /-- The class whose `close` method is called on a resource. -/
  owner : Nat → String
  /-- Where the code after the normal close of a resource is. -/
  closed : Nat → Label
  /-- The rethrow in the handler of a resource. -/
  rethrow : Nat → Label
  /-- What handles an exception around the close of a resource. -/
  handler : Nat → Handler
  /-- What handles an exception around all of the resources. -/
  outermost : Handler

namespace Operands

variable (operands : Operands)

/-- `if (r != null) r.close();`. -/
def close (index : Nat) : List Template :=
  [.var .aload (operands.resource index), .jump .ifNull (operands.closed index),
    .var .aload (operands.resource index), .callClose (operands.owner index)]

/-- `if (r != null) r.close(); throw primaryExc;`, with any slot in the last load. -/
def closeAndThrow (index : Nat) : List Template :=
  [.var .aload (operands.resource index), .jump .ifNull (operands.rethrow index),
    .var .aload (operands.resource index), .callClose (operands.owner index),
    .placement (operands.rethrow index), .opcode .aload, .opcode .athrow]

/-- `catch (Throwable t)`, which makes `t` the primary exception or adds it to the one that there
is. -/
def suppress (handler : Handler) : List Template :=
  [.var .astore handler.caught, .var .aload operands.primary, .jump .ifNonNull handler.start,
    .opcode .aload, .var .astore operands.primary, .jump .goto handler.stop,
    .placement handler.start, .var .aload operands.primary, .opcode .aload,
    .jump .ifAcmpEq handler.stop, .var .aload operands.primary, .var .aload handler.caught,
    .callAddSuppressed, .placement handler.stop]

/-- `throw primaryExc;`. -/
def throwPrimary : List Template :=
  [.var .aload operands.primary, .opcode .athrow]

/-- The innermost resource. -/
def innermost : List Template :=
  operands.close 0 ++ [.jump .goto (operands.closed 0), .var .astore operands.primary] ++
    operands.closeAndThrow 0

/-- The resource around the one with index `inner`. -/
def layer (inner : Nat) : List Template :=
  [.placement (operands.closed inner)] ++ operands.close (inner + 1) ++
    [.jump .goto (operands.closed (inner + 1))] ++ operands.suppress (operands.handler (inner + 1)) ++
    operands.closeAndThrow (inner + 1)

/-- A chain of resources in which jumps lead outwards, `outer` of them around the innermost one. -/
def jumping (outer : Nat) : List Template :=
  operands.innermost ++ (List.range outer).flatMap operands.layer ++
    operands.suppress operands.outermost ++ operands.throwPrimary

/-- A chain of `count` resources that are closed in front of a value return. -/
def returning (count : Nat) : List Template :=
  (List.range count).flatMap operands.close ++
    [.valueReturn, .var .astore operands.primary] ++
    (List.range count).flatMap (fun index =>
      operands.closeAndThrow index ++ operands.suppress (operands.handler index)) ++
    operands.throwPrimary

end Operands

/-! ### Operands of keys -/

/-- The operands of the keys of a handler. -/
def Handler.ofValuation (values : Valuation) (scope : Scope) : Handler where
  caught := values.slots (suppressed.resolve scope)
  start := values.labels (suppressStart.resolve scope)
  stop := values.labels (suppressEnd.resolve scope)

/-- The operands of the keys. -/
def Operands.ofValuation (values : Valuation) : Operands where
  primary := values.slots (primaryException.resolve .method)
  resource index := values.slots (Ecj.resource.resolve (.resource index))
  owner index := values.owners (Ecj.resource.resolve (.resource index))
  closed index := values.labels (Ecj.closed.resolve (.resource index))
  rethrow index := values.labels (Ecj.rethrow.resolve (.resource index))
  handler index := .ofValuation values (.resource index)
  outermost := .ofValuation values .outermost

/-- A valuation for the operands. -/
def Operands.valuation (operands : Operands) : Valuation where
  slots
    | ⟨.resource index, "r"⟩ => operands.resource index
    | ⟨.resource index, _⟩ => (operands.handler index).caught
    | ⟨.outermost, _⟩ => operands.outermost.caught
    | _ => operands.primary
  labels
    | ⟨.resource index, "end"⟩ => operands.closed index
    | ⟨.resource index, "throw"⟩ => operands.rethrow index
    | ⟨.resource index, "suppressStart"⟩ => (operands.handler index).start
    | ⟨.resource index, _⟩ => (operands.handler index).stop
    | ⟨_, "suppressStart"⟩ => operands.outermost.start
    | _ => operands.outermost.stop
  owners
    | ⟨.resource index, _⟩ => operands.owner index
    | _ => ""

/-- Any operands are those of some valuation, as no two of them have the same key. -/
theorem Operands.ofValuation_surjective : Function.Surjective ofValuation := fun operands =>
  ⟨operands.valuation, rfl⟩

/-! ### Chains as segments -/

/-- The segments of a chain in which jumps lead outwards. -/
def jumpingSegments (outer : Nat) : List Segment :=
  [⟨.resource 0, close⟩, ⟨.resource 0, innermost⟩] ++ (List.range outer).flatMap layer ++
    [⟨.outermost, suppress⟩, ⟨.method, throwPrimary⟩]

/-- The closes in front of a value return. -/
def closeSegments (count : Nat) : List Segment :=
  (List.range count).map fun index => ⟨.resource index, close⟩

/-- Layers are the segments of their resources, from the inner one outwards, and the tail. -/
theorem layersOf_eq (count inner : Nat) :
    layersOf count inner = .ofSegments ((List.range' inner count).flatMap layer ++
      [⟨.outermost, suppress⟩, ⟨.method, throwPrimary⟩]) := by
  induction count generalizing inner with
  | zero =>
    rw [layersOf, outermost, List.range'_zero, List.flatMap_nil, List.nil_append,
      Language.ofSegments, Language.ofSegments, Language.ofSegments, Language.seq_nothing]
  | succ count ih =>
    rw [layersOf, ih, List.range'_succ, List.flatMap_cons, List.append_assoc]
    exact (Language.ofSegments_append _ _).symm

/-- Closes are the segments of their resources and the return behind them. -/
theorem closesOf_eq (count first : Nat) :
    closesOf count first = (Language.ofSegments ((List.range' first count).map fun index =>
      ⟨.resource index, close⟩)).seq .valueReturn := by
  induction count generalizing first with
  | zero => exact (Language.nothing_seq _).symm
  | succ count ih =>
    rw [closesOf, ih, List.range'_succ, List.map_cons, Language.ofSegments, Language.seq_assoc]

/-- A cleanup behind which a jump stands is put together of segments for some number of outer
resources. -/
theorem close_seq_jumping_eq :
    (Language.ofSteps (.resource 0) close).seq jumping = fun before nodes after =>
      ∃ outer, Language.ofSegments (jumpingSegments outer) before nodes after := by
  rw [jumping, layers_eq, Language.seq_exists, Language.seq_exists]
  simp only [layersOf_eq, ← List.range_eq_range']
  rfl

/-- So is a cleanup behind which the resources are closed until a return. -/
theorem close_seq_returning_eq :
    (Language.ofSteps (.resource 0) close).seq returning = fun before nodes after =>
      ∃ outer, ((Language.ofSegments (closeSegments (outer + 1))).seq
        (Language.valueReturn.seq (.ofSegments (handlers (outer + 1))))) before nodes after := by
  have hcloses : ∀ outer, (Language.ofSteps (.resource 0) close).seq (closesOf outer 1) =
      (Language.ofSegments (closeSegments (outer + 1))).seq .valueReturn := by
    intro outer
    rw [closeSegments, List.range_eq_range', ← closesOf_eq, closesOf]
  rw [returning_eq, Language.seq_exists]
  simp only [← Language.seq_assoc, hcloses]

/-! ### What the segments ask for -/

/-- The steps of a cleanup with a jump in it are plain. -/
theorem isPlain_jumpingSegments (outer : Nat) :
    ∀ segment ∈ jumpingSegments outer, ∀ s ∈ segment.steps, s.isPlain = true := by
  rw [jumpingSegments, List.forall_mem_append, List.forall_mem_append, List.forall_mem_flatMap]
  exact ⟨⟨by decide, fun inner _ => forall_layer (by decide) inner⟩, by decide⟩

theorem isPlain_closeSegments (count : Nat) :
    ∀ segment ∈ closeSegments count, ∀ s ∈ segment.steps, s.isPlain = true := by
  have hclose : ∀ s ∈ close, s.isPlain = true := by decide
  rw [closeSegments, List.forall_mem_map]
  exact fun index _ => hclose

theorem isPlain_handlers (count : Nat) :
    ∀ segment ∈ handlers count, ∀ s ∈ segment.steps, s.isPlain = true :=
  forall_handlers (by decide) count

/-- Read with fixed values, the segments are the templates with these values as operands. -/
theorem templates_jumpingSegments (values : Valuation) (earlier : List Key) (outer : Nat) :
    Segment.templates values earlier (jumpingSegments outer) =
      (Operands.ofValuation values).jumping outer := by
  rw [Segment.templates_eq_flatMap (isPlain_jumpingSegments outer), jumpingSegments,
    List.flatMap_append, List.flatMap_append, List.flatMap_assoc]
  exact (List.append_assoc _ _ _).symm

theorem templates_returning (values : Valuation) (keys others : List Key) (count : Nat) :
    Segment.templates values keys (closeSegments count) ++
        ([.valueReturn] ++ Segment.templates values others (handlers count)) =
      (Operands.ofValuation values).returning count := by
  rw [Segment.templates_eq_flatMap (isPlain_closeSegments count), closeSegments, List.flatMap_map,
    Segment.templates_eq_flatMap (isPlain_handlers count), handlers, List.flatMap_append,
    List.flatMap_cons, List.flatMap_map, Operands.returning]
  simp only [List.append_assoc]
  rfl

/-! ### What chains read -/

/-- A cleanup in front of a jump is recognised if the templates fit for some operands. -/
theorem exists_jumpingSegments_iff {outer : Nat} {nodes : List (Node Label)} :
    (∃ after, Language.ofSegments (jumpingSegments outer) .empty nodes after) ↔
      ∃ operands : Operands, Template.sequence (operands.jumping outer) nodes := by
  have hexit := fun segment h => Step.exit_notMem (isPlain_jumpingSegments outer segment h)
  rw [(Language.amountsTo_ofSegments [] hexit).exists_empty_iff,
    Operands.ofValuation_surjective.exists]
  simp only [templates_jumpingSegments]

theorem exists_returning_iff {count : Nat} {nodes : List (Node Label)} :
    (∃ after, ((Language.ofSegments (closeSegments count)).seq
        (Language.valueReturn.seq (.ofSegments (handlers count)))) .empty nodes after) ↔
      ∃ operands : Operands, Template.sequence (operands.returning count) nodes := by
  have hcloses := fun segment h => Step.exit_notMem (isPlain_closeSegments count segment h)
  have hhandlers := fun segment h => Step.exit_notMem (isPlain_handlers count segment h)
  rw [((Language.amountsTo_ofSegments [] hcloses).seq ((Language.amountsTo_valueReturn _).seq
      (Language.amountsTo_ofSegments _ hhandlers))).exists_empty_iff,
    Operands.ofValuation_surjective.exists]
  simp only [templates_returning]

/-- The cleanup of a chain reads as one of the templates for the number of its resources. -/
theorem exists_language_iff {nodes : List (Node Label)} :
    (∃ after, language .empty nodes after) ↔ ∃ (operands : Operands) (outer : Nat),
      Template.sequence (operands.jumping outer) nodes ∨
        Template.sequence (operands.returning (outer + 1)) nodes := by
  rw [language, Language.seq_either, close_seq_jumping_eq, close_seq_returning_eq]
  constructor
  · rintro ⟨after, ⟨outer, h⟩ | ⟨outer, h⟩⟩
    · obtain ⟨operands, h⟩ := exists_jumpingSegments_iff.1 ⟨after, h⟩
      exact ⟨operands, outer, .inl h⟩
    · obtain ⟨operands, h⟩ := exists_returning_iff.1 ⟨after, h⟩
      exact ⟨operands, outer, .inr h⟩
  · rintro ⟨operands, outer, h | h⟩
    · obtain ⟨after, h⟩ := exists_jumpingSegments_iff.2 ⟨operands, h⟩
      exact ⟨after, .inl ⟨outer, h⟩⟩
    · obtain ⟨after, h⟩ := exists_returning_iff.2 ⟨operands, h⟩
      exact ⟨after, .inr ⟨outer, h⟩⟩

/-! ### What stands behind the first close -/

variable {code : Code} {start last : Nat}

/-- The first close of a resource, at `start`, has its call at `middle`. -/
def FirstClose (code : Code) (start middle : Nat) : Prop :=
  ∃ operands : Operands, (Template.sequence (operands.close 0)).Spans code start middle

/-- The first close ends where the matcher stands after the first steps of a chain. -/
theorem firstClose_iff {position middle : Nat} :
    FirstClose code (position + 1) middle ↔
      ((Cursor.run code (.resource 0) close).follow? (.after position)).bind Cursor.position =
        some middle := by
  rw [(Cursor.recognises_run (.resource 0) close).bind_position_eq_some_iff, FirstClose,
    ← Template.spans_exists_iff]
  refine Template.spans_iff fun nodes => ?_
  rw [(Language.amountsTo_ofSteps (Step.exit_notMem (by decide))).exists_empty_iff,
    Operands.ofValuation_surjective.exists]
  rfl

/-- What is read behind the first close is what one sees when looking ahead from it. -/
theorem exists_peek?_eq {operands : Operands} {accepted : Node Label → Prop} {rest : List Template}
    (hstart : 0 < start)
    (h : (Template.sequence (operands.close 0 ++ .instruction accepted :: rest)).Spans
      code start last) :
    ∃ middle node, FirstClose code start middle ∧ accepted node ∧
      (Cursor.after middle).peek? code = node.opcode? := by
  obtain ⟨nodes, hnodes, hholds, -⟩ := h
  obtain ⟨front, _, rfl, hfront, back, _, rfl, hback, -⟩ := Template.sequence_append.1 hnodes
  obtain ⟨skipped, node, rfl, hskipped, hreal, haccepted⟩ := hback
  obtain ⟨hfrontHolds, hbehind⟩ := Code.holds_append.1 hholds
  have hback := (Code.holds_append.1 hbehind).1
  -- The position in front of the instruction is that of the call.
  obtain ⟨middle, hmiddle⟩ : ∃ middle, start + front.length = middle + 1 :=
    ⟨start + front.length - 1, by omega⟩
  rw [hmiddle] at hback
  exact ⟨middle, node, ⟨operands, front, hfront, hfrontHolds, hmiddle.symm⟩, haccepted,
    Cursor.peek?_eq hskipped hreal hback .empty⟩

/-- In front of a jump stands the close of the inner resource. -/
theorem jumping_eq (operands : Operands) (outer : Nat) : ∃ rest,
    operands.jumping outer = operands.close 0 ++ .jump .goto (operands.closed 0) :: rest :=
  ⟨_, rfl⟩

/-- A chain that returns a value goes on with the return or with another close. -/
theorem returning_succ_eq (operands : Operands) (outer : Nat) : ∃ accepted rest,
    operands.returning (outer + 1) = operands.close 0 ++ .instruction accepted :: rest ∧
      ∀ node, accepted node → node.opcode? ≠ some .goto := by
  rw [Operands.returning, List.range_succ_eq_map, List.flatMap_cons]
  cases outer with
  | zero =>
    refine ⟨_, _, rfl, ?_⟩
    rintro node ⟨opcode, hopcode, hreturn⟩ hgoto
    obtain rfl := Option.some.inj (hopcode.symm.trans hgoto)
    exact absurd hreturn (by decide +kernel)
  | succ outer =>
    rw [List.range_succ_eq_map, List.map_cons, List.flatMap_cons]
    refine ⟨_, _, rfl, ?_⟩
    rintro node ⟨hopcode, -⟩ hgoto
    exact absurd (hopcode.symm.trans hgoto) (by decide)

/-! ### What is found -/

/-- A chain of cleanups is recognised exactly if it is that of a jump or that of a return. -/
theorem last?_eq_some_iff_or (hstart : 0 < start) :
    ResourceShape.ecj.last? code start = some last ↔
      (∃ (operands : Operands) (outer : Nat),
        (Template.sequence (operands.jumping outer)).Spans code start last) ∨
      ∃ (operands : Operands) (outer : Nat),
        (Template.sequence (operands.returning (outer + 1))).Spans code start last := by
  refine (ResourceShape.ecj.last?_eq_some_iff_of_template (fun _ => exists_language_iff)
    hstart).trans ?_
  constructor
  · rintro ⟨nodes, ⟨operands, outer, h | h⟩, hholds, hlast⟩
    · exact .inl ⟨operands, outer, nodes, h, hholds, hlast⟩
    · exact .inr ⟨operands, outer, nodes, h, hholds, hlast⟩
  · rintro (⟨operands, outer, nodes, h, hholds, hlast⟩ | ⟨operands, outer, nodes, h, hholds, hlast⟩)
    · exact ⟨nodes, ⟨operands, outer, .inl h⟩, hholds, hlast⟩
    · exact ⟨nodes, ⟨operands, outer, .inr h⟩, hholds, hlast⟩

/-- Where a `GOTO` follows the first close, cleanup by ecj is found exactly where the nodes, with any
pseudo-nodes in front of instructions, read as a chain of at least one resource in which jumps lead
outwards. -/
theorem last?_eq_some_iff_jumping (hstart : 0 < start)
    (hgoto : ∀ middle, FirstClose code start middle →
      (Cursor.after middle).peek? code = some .goto) :
    ResourceShape.ecj.last? code start = some last ↔ ∃ (operands : Operands) (outer : Nat),
      (Template.sequence (operands.jumping outer)).Spans code start last := by
  rw [last?_eq_some_iff_or hstart]
  refine or_iff_left ?_
  rintro ⟨operands, outer, h⟩
  obtain ⟨accepted, rest, heq, haccepted⟩ := returning_succ_eq operands outer
  rw [heq] at h
  obtain ⟨middle, node, hclose, hnode, hpeek⟩ := exists_peek?_eq hstart h
  exact haccepted node hnode (hpeek.symm.trans (hgoto middle hclose))

/-- The close of the resource in a slot, unless it is null. -/
def nullCheckedClose (slot : UInt16) (stop : Label) : List (Node Label) :=
  [.var .aload slot, .jump .ifNull stop] ++ closeCall slot

/-- The handler that closes the resource in a slot and throws the exception in slot 0. -/
def closedAndThrown (slot : UInt16) (rethrow : Label) : List (Node Label) :=
  nullCheckedClose slot rethrow ++ [.label rethrow, .var .aload 0, .plain .athrow]

/-- The handler that makes the exception in slot 1 the primary one in slot 0, or adds it to that. -/
def suppressedByPrimary (start stop : Label) : List (Node Label) :=
  [.var .astore 1, .var .aload 0, .jump .ifNonNull start, .var .aload 1, .var .astore 0,
    .jump .goto stop, .label start, .var .aload 0, .var .aload 1, .jump .ifAcmpEq stop] ++
    addSuppressedCall 0 1 ++ [.label stop]

/-- Two resources, with jumps that lead outwards. -/
def chainedByJumps : Code :=
  List.toArray <| .frame :: nullCheckedClose 3 ⟨0⟩ ++ [.jump .goto ⟨0⟩, .frame, .var .astore 0] ++
    closedAndThrown 3 ⟨1⟩ ++ [.label ⟨0⟩] ++ nullCheckedClose 2 ⟨2⟩ ++ [.jump .goto ⟨2⟩] ++
    suppressedByPrimary ⟨3⟩ ⟨4⟩ ++ closedAndThrown 2 ⟨5⟩ ++ suppressedByPrimary ⟨6⟩ ⟨7⟩ ++
    [.var .aload 0, .plain .athrow, .label ⟨2⟩, .plain .voidReturn]

/-- Two resources in front of a jump are recognised, with the operands of their chain. -/
theorem last?_chainedByJumps :
    0 < 1 ∧
      (∀ middle, FirstClose chainedByJumps 1 middle →
        (Cursor.after middle).peek? chainedByJumps = some .goto) ∧
      ResourceShape.ecj.last? chainedByJumps 1 = some 57 ∧
      ∃ (operands : Operands) (outer : Nat),
        (Template.sequence (operands.jumping outer)).Spans chainedByJumps 1 57 := by
  have hgoto : ∀ middle, FirstClose chainedByJumps 1 middle →
      (Cursor.after middle).peek? chainedByJumps = some .goto := by
    intro middle hmiddle
    have hfour : ((Cursor.run chainedByJumps (.resource 0) close).follow? (.after 0)).bind
        Cursor.position = some 4 := by decide +kernel
    obtain rfl := Option.some.inj (hfour.symm.trans (firstClose_iff.1 hmiddle))
    decide +kernel
  have hfound : ResourceShape.ecj.last? chainedByJumps 1 = some 57 := by decide +kernel
  exact ⟨Nat.one_pos, hgoto, hfound, (last?_eq_some_iff_jumping Nat.one_pos hgoto).1 hfound⟩

/-! ### The loop over the closes -/

/-- One round of the loop that reads the closes in front of a value return: there is no return yet,
and the next resource is closed. -/
def Round (code : Code) (state next : Nat × Cursor) : Prop :=
  (Cursor.expectValueReturn code state.2).1 = false ∧
    Cursor.run code (.resource state.1) close state.2 = (true, next.2) ∧ next.1 = state.1 + 1

/-- The loop goes on with the state after the round. -/
theorem closes?_of_round {state next : Nat × Cursor} (h : Round code state next) :
    closes? code state.1 state.2 = closes? code next.1 next.2 := by
  obtain ⟨hreturn, hclose, hnext⟩ := h
  have hnone : (Cursor.expectValueReturn code).follow? state.2 = none := by
    rw [Option.eq_none_iff_forall_ne_some]
    intro after hafter
    rw [Primitive.follow?_eq_some_iff.1 hafter] at hreturn
    exact Bool.noConfusion hreturn
  rw [closes?_eq, hnone]
  dsimp only
  rw [Primitive.follow?_eq_some_iff.2 hclose, Option.bind_some, hnext]

/-- Every close leaves fewer nodes behind the cursor, so the loop comes to an end. -/
theorem wellFounded_round (code : Code) : WellFounded fun next state => Round code state next :=
  Subrelation.wf (fun h => Cursor.remaining_lt_of_run_var h.2.1)
    (measure fun state : Nat × Cursor => state.2.remaining code).wf

/-- Where anything but a `GOTO` follows the first close, the loop over the closes comes to an end
after finitely many rounds, and cleanup by ecj is found exactly where the nodes, with any
pseudo-nodes in front of instructions, read as a chain of at least one resource that is closed in
front of a value return. The handlers are about the same resources as the closes, in the same
order. -/
theorem last?_eq_some_iff_returning (hstart : 0 < start)
    (hgoto : ∀ middle, FirstClose code start middle →
      (Cursor.after middle).peek? code ≠ some .goto) :
    (∀ state next, Round code state next →
        closes? code state.1 state.2 = closes? code next.1 next.2) ∧
      (WellFounded fun next state => Round code state next) ∧
      (ResourceShape.ecj.last? code start = some last ↔ ∃ (operands : Operands) (outer : Nat),
        (Template.sequence (operands.returning (outer + 1))).Spans code start last) := by
  refine ⟨fun _ _ => closes?_of_round, wellFounded_round code, ?_⟩
  rw [last?_eq_some_iff_or hstart]
  refine or_iff_right ?_
  rintro ⟨operands, outer, h⟩
  obtain ⟨rest, heq⟩ := jumping_eq operands outer
  rw [heq] at h
  obtain ⟨middle, node, hclose, ⟨hnode, -⟩, hpeek⟩ := exists_peek?_eq hstart h
  exact hgoto middle hclose (hpeek.trans hnode)

/-- Two resources that are closed in front of a value return. -/
def chainedByReturn : Code :=
  List.toArray <| .frame :: nullCheckedClose 3 ⟨0⟩ ++ [.label ⟨0⟩] ++ nullCheckedClose 2 ⟨1⟩ ++
    [.label ⟨1⟩, .plain ⟨0xb0⟩, .var .astore 0] ++ closedAndThrown 3 ⟨2⟩ ++
    suppressedByPrimary ⟨3⟩ ⟨4⟩ ++ closedAndThrown 2 ⟨5⟩ ++ suppressedByPrimary ⟨6⟩ ⟨7⟩ ++
    [.var .aload 0, .plain .athrow]

/-- Two resources in front of a return are recognised, with the operands of their chain. -/
theorem last?_chainedByReturn :
    0 < 1 ∧
      (∀ middle, FirstClose chainedByReturn 1 middle →
        (Cursor.after middle).peek? chainedByReturn ≠ some .goto) ∧
      (WellFounded fun next state => Round chainedByReturn state next) ∧
      ResourceShape.ecj.last? chainedByReturn 1 = some 56 ∧
      ∃ (operands : Operands) (outer : Nat),
        (Template.sequence (operands.returning (outer + 1))).Spans chainedByReturn 1 56 := by
  have hgoto : ∀ middle, FirstClose chainedByReturn 1 middle →
      (Cursor.after middle).peek? chainedByReturn ≠ some .goto := by
    intro middle hmiddle
    have hfour : ((Cursor.run chainedByReturn (.resource 0) close).follow? (.after 0)).bind
        Cursor.position = some 4 := by decide +kernel
    obtain rfl := Option.some.inj (hfour.symm.trans (firstClose_iff.1 hmiddle))
    decide +kernel
  have hfound : ResourceShape.ecj.last? chainedByReturn 1 = some 56 := by decide +kernel
  obtain ⟨-, hrounds, hiff⟩ := @last?_eq_some_iff_returning chainedByReturn 1 56 Nat.one_pos hgoto
  exact ⟨Nat.one_pos, hgoto, hrounds, hfound, hiff.1 hfound⟩

end Ecj

end CleanupFilter
