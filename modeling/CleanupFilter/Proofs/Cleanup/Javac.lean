import CleanupFilter.Proofs.Cleanup.ResourceShape
import CleanupFilter.Proofs.Pattern.Exit

/-!
# The code of resource cleanup by javac

Cleanup by javac reads as one template for each shape, filled with slots, labels and the owner of the
`close` method. The same operands fill the cleanup on the normal and on the exceptional path, and
the label in the end is there exactly if the code between the paths jumps to it.

- `Javac.Operands`: the operands of a cleanup.
- `Javac.Operands.optimal`, `Javac.Operands.duplicated`: the templates of the shapes.
- `Javac.exists_duplicated_iff`: cleanup on either path reads as its template.
- `Javac.last?_eq_some_iff_spans`: a cleanup is found where the nodes read as its template.
-/

namespace CleanupFilter

open CleanupFilter.Symbol (primaryException)

namespace Javac

/-! ### Templates -/

/-- The operands of the cleanup on one path. -/
structure Path where
  /-- Where the path goes on. -/
  stop : Label
  /-- The close that nothing pending can suppress. -/
  closing : Label
  /-- The slot of the exception of a failing close. -/
  suppressed : UInt16

/-- `if (r != null)`, with any slot for what is compared. -/
def Path.unlessNull (path : Path) : List Template :=
  [.opcode .aload, .jump .ifNull path.stop]

/-- The operands of a cleanup. -/
structure Operands where
  /-- The slot of the primary exception. -/
  primary : UInt16
  /-- The slot of the resource. -/
  resource : UInt16
  /-- The slot of the second argument of `$closeResource`. -/
  helperResource : UInt16
  /-- The slot of an exception of the body while it becomes the primary one. -/
  caught : UInt16
  /-- The slot of the exception that the catch-all handler throws again. -/
  caughtAny : UInt16
  /-- The class whose `close` method is called. -/
  owner : String
  /-- The path of normal completion. -/
  normal : Path
  /-- The path of an exception. -/
  exceptional : Path

namespace Operands

variable (operands : Operands)

/-- `catch (Throwable t) { primaryExc = t; throw t; }`. -/
def save : List Template :=
  [.opcode .astore, .var .aload operands.caught, .var .astore operands.primary,
    .var .aload operands.caught, .opcode .athrow]

/-- `$closeResource(primaryExc, r)`. -/
def helper : List Template :=
  [.var .aload operands.primary, .var .aload operands.helperResource,
    .callNamed .invokeStatic "$closeResource"
      "(Ljava/lang/Throwable;Ljava/lang/AutoCloseable;)V"]

/-- `r.close()`. -/
def close : List Template :=
  [.var .aload operands.resource, .callClose operands.owner]

/-- A close whose exception is added to the primary one if there is one, and the close otherwise. -/
def closeInline (path : Path) : List Template :=
  [.var .aload operands.primary, .jump .ifNull path.closing] ++ operands.close ++
    [.jump .goto path.stop, .var .astore path.suppressed, .var .aload operands.primary,
      .var .aload path.suppressed, .callAddSuppressed, .jump .goto path.stop,
      .placement path.closing] ++ operands.close

/-- Cleanup by the synthetic method, without any null check. -/
def optimal (exit : Exit) : List Template :=
  operands.helper ++ exit.templates operands.normal.stop ++ operands.save ++ [.opcode .astore] ++
    operands.helper ++ [.opcode .aload, .opcode .athrow] ++ exit.join operands.normal.stop

/-- Cleanup that occurs on the normal and on the exceptional path. -/
def duplicated (cleanup : Path → List Template) (exit : Exit) : List Template :=
  cleanup operands.normal ++ exit.templates operands.normal.stop ++ operands.save ++
    [.var .astore operands.caughtAny] ++ cleanup operands.exceptional ++
    [.placement operands.exceptional.stop, .var .aload operands.caughtAny, .opcode .athrow] ++
    exit.join operands.normal.stop

end Operands

/-! ### Operands of keys -/

/-- The operands of the keys on a path. -/
def Path.ofValuation (values : Valuation) (scope : Scope) : Path where
  stop := values.labels (finallyExit.resolve scope)
  closing := values.labels (closeLabel.resolve scope)
  suppressed := values.slots (Javac.suppressed.resolve scope)

/-- The operands of the keys. -/
def Operands.ofValuation (values : Valuation) : Operands where
  primary := values.slots (primaryException.resolve .method)
  resource := values.slots (Javac.resource.resolve .method)
  helperResource := values.slots (Javac.helperResource.resolve .method)
  caught := values.slots (Javac.caught.resolve .method)
  caughtAny := values.slots (Javac.caughtAny.resolve .method)
  owner := values.owners (Javac.resource.resolve .method)
  normal := Path.ofValuation values .normal
  exceptional := Path.ofValuation values .exceptional

/-- A valuation for the operands. -/
def Operands.valuation (operands : Operands) : Valuation where
  slots
    | ⟨.method, "primaryExc"⟩ => operands.primary
    | ⟨.method, "r"⟩ => operands.resource
    | ⟨.method, "suppressedExc"⟩ => operands.helperResource
    | ⟨.method, "t1"⟩ => operands.caught
    | ⟨.normal, _⟩ => operands.normal.suppressed
    | ⟨.exceptional, _⟩ => operands.exceptional.suppressed
    | _ => operands.caughtAny
  labels
    | ⟨.normal, "finallyExit"⟩ => operands.normal.stop
    | ⟨.normal, _⟩ => operands.normal.closing
    | ⟨.exceptional, "finallyExit"⟩ => operands.exceptional.stop
    | _ => operands.exceptional.closing
  owners _ := operands.owner

/-- Any operands are those of some valuation, as no two of them have the same key. -/
theorem Operands.ofValuation_surjective : Function.Surjective ofValuation := fun operands =>
  ⟨operands.valuation, rfl⟩

/-! ### What the segments ask for -/

/-- Segments around an exit read as a template, if they ask for it under every valuation and for
either way out. -/
theorem exists_ofSegments_iff (front back : List Segment) {form : Operands → Exit → List Template}
    (hfront : ∀ segment ∈ front, ∀ target, .exit target ∉ segment.steps)
    (hback : ∀ segment ∈ back, ∀ target, .exit target ∉ segment.steps)
    (htarget : normalExit.resolve .method ∉ back.flatMap Segment.labelKeys)
    (hform : ∀ values exit,
      Segment.templates values [] front ++
          exit.templates (values.labels (normalExit.resolve .method)) ++
          Segment.templates values
            (exit.labelKeys (normalExit.resolve .method) (front.flatMap Segment.labelKeys)) back =
        form (.ofValuation values) exit) {nodes : List (Node Label)} :
    (∃ after, Language.ofSegments (front ++ ⟨.method, [.exit normalExit]⟩ :: back)
        .empty nodes after) ↔
      ∃ operands exit, Template.sequence (form operands exit) nodes := by
  rw [Language.exists_ofSegments_exit_iff hfront hback htarget,
    Operands.ofValuation_surjective.exists]
  refine exists_congr fun values => exists_congr fun exit => ?_
  rw [hform]

variable {nodes : List (Node Label)}

/-- The shape with one close is recognised if its template fits for some operands. -/
theorem exists_optimal_iff :
    (∃ after, Language.ofSegments optimal .empty nodes after) ↔
      ∃ (operands : Operands) (exit : Exit), Template.sequence (operands.optimal exit) nodes := by
  refine exists_ofSegments_iff [⟨.method, closeByHelper⟩] _ (by simp [closeByHelper, helperCall])
    (by simp [closeByHelper, helperCall, savePrimaryException]) (by decide) ?_
  rintro values (_ | _) <;> rfl

/-- Cleanup on either path reads as its template, if it does so on one path. -/
theorem exists_duplicated_iff {cleanup : List Step} (form : Operands → Path → List Template)
    (hexit : ∀ target, .exit target ∉ cleanup)
    (htarget : normalExit.resolve .method ∉ cleanup.flatMap (Step.labelKeys .exceptional))
    (hform : ∀ values scope earlier, Step.templatesOf values scope earlier cleanup =
      form (.ofValuation values) (.ofValuation values scope)) :
    (∃ after, Language.ofSegments (duplicated cleanup) .empty nodes after) ↔
      ∃ (operands : Operands) (exit : Exit),
        Template.sequence (operands.duplicated (form operands) exit) nodes := by
  have hne : normalExit.resolve .method ≠ exceptionalExit.resolve .method := by decide
  rw [List.mem_flatMap] at htarget
  refine exists_ofSegments_iff [⟨.normal, cleanup⟩] _ (by simpa using hexit)
    (by simpa [savePrimaryException] using hexit) ?_ fun values exit => ?_
  · simpa [Segment.labelKeys, Step.labelKeys, savePrimaryException, hne] using htarget
  · simp only [Segment.templates, hform, Step.templatesOf, Step.templates, List.append_nil,
      List.append_assoc]
    rw [Exit.join_eq]
    · simp only [Operands.duplicated, List.append_assoc]
      rfl
    · simpa [Segment.labelKeys, Step.labelKeys, savePrimaryException, hne] using htarget

/-! ### What is found -/

/-- A cleanup by javac is found exactly where the nodes, with any pseudo-nodes in front of
instructions, read as the template of its shape for some operands. -/
theorem last?_eq_some_iff_spans {code : Code} {start last : Nat} (hstart : 0 < start) :
    (ResourceShape.javacOptimal.last? code start = some last ↔
        ∃ (operands : Operands) (exit : Exit),
          (Template.sequence (operands.optimal exit)).Spans code start last) ∧
      (ResourceShape.javacFull.last? code start = some last ↔
        ∃ (operands : Operands) (exit : Exit), (Template.sequence (operands.duplicated
          (fun path => path.unlessNull ++ operands.closeInline path) exit)).Spans
            code start last) ∧
      (ResourceShape.javacOmittedNullCheck.last? code start = some last ↔
        ∃ (operands : Operands) (exit : Exit), (Template.sequence (operands.duplicated
          operands.closeInline exit)).Spans code start last) ∧
      (ResourceShape.javacMethod.last? code start = some last ↔
        ∃ (operands : Operands) (exit : Exit), (Template.sequence (operands.duplicated
          (fun path => path.unlessNull ++ operands.helper) exit)).Spans code start last) := by
  simp only [← Template.spans_exists_iff]
  refine ⟨?_, ?_, ?_, ?_⟩ <;> refine ResourceShape.last?_eq_some_iff_of_template _ ?_ hstart
  · exact fun nodes => exists_optimal_iff
  · exact fun nodes => exists_duplicated_iff
      (fun operands path => path.unlessNull ++ operands.closeInline path)
      (by simp [unlessNull, closeInline]) (by decide) fun _ _ _ => rfl
  · exact fun nodes => exists_duplicated_iff Operands.closeInline
      (by simp [closeInline]) (by decide) fun _ _ _ => rfl
  · exact fun nodes => exists_duplicated_iff
      (fun operands path => path.unlessNull ++ operands.helper)
      (by simp [unlessNull, closeByHelper, helperCall]) (by decide) fun _ _ _ => rfl

/-- A resource that is closed by the helper method is recognised by one shape only. -/
theorem last?_closedByHelper :
    0 < 1 ∧ ResourceShape.javacOptimal.last? closedByHelper 1 = some 16 ∧
      (∃ (operands : Operands) (exit : Exit),
        (Template.sequence (operands.optimal exit)).Spans closedByHelper 1 16) ∧
      ¬ ∃ (operands : Operands) (exit : Exit), (Template.sequence (operands.duplicated
          (fun path => path.unlessNull ++ operands.helper) exit)).Spans closedByHelper 1 16 := by
  have hfound : ResourceShape.javacOptimal.last? closedByHelper 1 = some 16 := by decide +kernel
  have hmethod : ResourceShape.javacMethod.last? closedByHelper 1 ≠ some 16 := by decide +kernel
  obtain ⟨hoptimal, -, -, hchecked⟩ :=
    @last?_eq_some_iff_spans closedByHelper 1 16 Nat.one_pos
  exact ⟨Nat.one_pos, hfound, hoptimal.1 hfound, mt hchecked.2 hmethod⟩

end Javac

end CleanupFilter
