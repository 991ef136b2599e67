import CleanupFilter.Cleanup.Finding
import CleanupFilter.Proofs.Cleanup.Ecj

/-!
# What cleanup code reads

Resource cleanups and monitor releases are stretches of code that a language describes, whatever
stands around them.

- `Cleanup.follow?`, `Cleanup.language`: matcher and language of a cleanup.
- `Cleanup.Spans`: the nodes between two positions are the cleanup.
- `Cleanup.bind_follow?_eq_some_iff`: the matcher finds the last node of what it spans.
- `Cleanup.spans_congr`: the pseudo-nodes in front of a cleanup do not count.
- `Cleanup.Spans.endsInThrow`: a cleanup ends with the rethrow of an exception.
-/

namespace CleanupFilter

/-! ### Languages and matchers -/

namespace ResourceShape

/-- What the shape may read. -/
def language : ResourceShape → Language
  | ecj => Ecj.language
  | javacOptimal => .ofSegments Javac.optimal
  | javacFull => .ofSegments Javac.full
  | javacOmittedNullCheck => .ofSegments Javac.omittedNullCheck
  | javacMethod => .ofSegments Javac.helperMethod

end ResourceShape

namespace Cleanup

/-- The cursor after the cleanup, if the code behind the cursor is one. -/
def follow? (code : Code) : Cleanup → Cursor → Option Cursor
  | resources shape => shape.follow? code
  | monitor shape => (Cursor.run code .method shape.steps).follow?

/-- What the cleanup may read. -/
def language : Cleanup → Language
  | resources shape => shape.language
  | monitor shape => .ofSteps .method shape.steps

/-- The nodes from `first` to `last` are the cleanup, with pseudo-nodes in front of it. -/
def Spans (code : Code) (cleanup : Cleanup) (first last : Nat) : Prop :=
  ∃ nodes after, cleanup.language .empty nodes after ∧ code.Holds first nodes ∧
    last + 1 = first + nodes.length

variable {code : Code}

/-- Every cleanup is recognised by its language. -/
theorem recognises_follow? (cleanup : Cleanup) :
    Recognises code (cleanup.follow? code) cleanup.language := by
  cases cleanup with
  | monitor shape => exact Cursor.recognises_run .method shape.steps
  | resources shape =>
    cases shape with
    | ecj => exact Ecj.recognises_follow?
    | javacOptimal => exact Cursor.recognises_runSegments Javac.optimal
    | javacFull => exact Cursor.recognises_runSegments Javac.full
    | javacOmittedNullCheck => exact Cursor.recognises_runSegments Javac.omittedNullCheck
    | javacMethod => exact Cursor.recognises_runSegments Javac.helperMethod

/-- The matcher finds the last node of what the cleanup spans. -/
theorem bind_follow?_eq_some_iff {cleanup : Cleanup} {position last : Nat} :
    (cleanup.follow? code (.after position)).bind Cursor.position = some last ↔
      cleanup.Spans code (position + 1) last :=
  cleanup.recognises_follow?.bind_position_eq_some_iff

end Cleanup

/-! ### Where matching starts -/

/-- The matcher moves to the next instruction before it does anything else. -/
def StartsWithInstruction (code : Code) (follow? : Cursor → Option Cursor) : Prop :=
  ∀ cursor other, cursor.advance code = other.advance code → follow? cursor = follow? other

namespace Cursor

variable {code : Code}

/-- What starts with an instruction still does if more follows. -/
theorem startsWithInstruction_bind {first second : Cursor → Option Cursor}
    (h : StartsWithInstruction code first) :
    StartsWithInstruction code fun cursor => (first cursor).bind second := by
  intro cursor other hadvance
  exact congrArg (Option.bind · second) (h cursor other hadvance)

theorem startsWithInstruction_andThen {first second : Primitive}
    (h : StartsWithInstruction code first.follow?) :
    StartsWithInstruction code (first.andThen second).follow? := by
  rw [funext (Primitive.follow?_andThen first second)]
  exact startsWithInstruction_bind h

/-- An opcode is looked for at an instruction. -/
theorem startsWithInstruction_expect (opcode : Opcode) :
    StartsWithInstruction code (expect code opcode).follow? := by
  intro cursor other hadvance
  rw [Primitive.follow?, Primitive.follow?, expect, expect, hadvance]

theorem startsWithInstruction_op (scope : Scope) (opcode : Opcode) (rest : List Step) :
    StartsWithInstruction code (run code scope (.op opcode :: rest)).follow? :=
  startsWithInstruction_andThen (startsWithInstruction_expect opcode)

theorem startsWithInstruction_var (scope : Scope) (opcode : Opcode) (slot : Symbol)
    (rest : List Step) :
    StartsWithInstruction code (run code scope (.var opcode slot :: rest)).follow? :=
  startsWithInstruction_andThen <|
    startsWithInstruction_andThen (startsWithInstruction_expect opcode)

end Cursor

namespace Cleanup

variable {code : Code}

/-- Every cleanup starts with an instruction. -/
theorem startsWithInstruction (cleanup : Cleanup) :
    StartsWithInstruction code (cleanup.follow? code) := by
  cases cleanup with
  | monitor shape => cases shape <;> exact Cursor.startsWithInstruction_op _ _ _
  | resources shape =>
    cases shape with
    | ecj =>
      show StartsWithInstruction code (Ecj.follow? code)
      rw [funext (Ecj.follow?_eq code)]
      exact Cursor.startsWithInstruction_bind (Cursor.startsWithInstruction_var _ _ _ _)
    | javacOptimal | javacOmittedNullCheck =>
      exact Cursor.startsWithInstruction_andThen (Cursor.startsWithInstruction_var _ _ _ _)
    | javacFull | javacMethod =>
      exact Cursor.startsWithInstruction_andThen (Cursor.startsWithInstruction_op _ _ _)

/-- Only where the first instruction stands counts for what a cleanup spans. -/
theorem spans_congr {cleanup : Cleanup} {p q last : Nat}
    (h : code.realFrom? (p + 1) = code.realFrom? (q + 1)) :
    cleanup.Spans code (p + 1) last ↔ cleanup.Spans code (q + 1) last := by
  -- Both cursors are moved to that instruction before anything else happens.
  have hadvance : (Cursor.after p).advance code = (Cursor.after q).advance code := by
    rw [Cursor.advance, Cursor.advance]
    exact congrArg (fun found => (⟨found, .empty⟩ : Cursor)) h
  rw [← bind_follow?_eq_some_iff, ← bind_follow?_eq_some_iff,
    cleanup.startsWithInstruction _ _ hadvance]

end Cleanup

/-! ### Where matching ends -/

/-- The nodes end with the rethrow of an exception, behind which only a label may stand. -/
def EndsInThrow (nodes : List (Node Label)) : Prop :=
  ∃ front node, node.opcode? = some .athrow ∧
    (nodes = front ++ [node] ∨ ∃ label, nodes = front ++ [node, .label label])

/-- Code still ends in a throw if more stands in front of it. -/
theorem EndsInThrow.append_left {back : List (Node Label)} (h : EndsInThrow back)
    (front : List (Node Label)) : EndsInThrow (front ++ back) := by
  obtain ⟨middle, node, hnode, hback⟩ := h
  refine ⟨front ++ middle, node, hnode, ?_⟩
  rcases hback with rfl | ⟨label, rfl⟩
  · exact .inl (List.append_assoc _ _ _).symm
  · exact .inr ⟨label, (List.append_assoc _ _ _).symm⟩

/-- The steps end with a throw, behind which only a label may be asked for. -/
def Step.endInThrow : List Step → Bool
  | [.op opcode] | [.op opcode, .joinLabel _] => opcode = .athrow
  | _ :: rest => endInThrow rest
  | [] => false

namespace Language

/-- A single step is recognised by its own language. -/
theorem ofSteps_singleton {scope : Scope} {s : Step} {before after : Bindings}
    {nodes : List (Node Label)} (h : ofSteps scope [s] before nodes after) :
    s.language scope before nodes after := by
  obtain ⟨u, v, between, rfl, hu, rfl, rfl⟩ := h
  rwa [List.append_nil]

/-- An instruction with the opcode of a throw ends the code. -/
theorem throw_of_instruction {before after : Bindings} {nodes : List (Node Label)}
    (h : instruction (.opcode (· = .athrow)) before nodes after) :
    ∃ front node, nodes = front ++ [node] ∧ node.opcode? = some .athrow := by
  obtain ⟨skipped, node, rfl, -, -, ⟨_, hopcode, rfl⟩, -⟩ := h
  exact ⟨skipped, node, rfl, hopcode⟩

/-- Steps of which the last one throws end in a throw. -/
theorem endsInThrow_ofSteps {scope : Scope} {steps : List Step} (h : Step.endInThrow steps = true)
    {before after : Bindings} {nodes : List (Node Label)}
    (hnodes : ofSteps scope steps before nodes after) : EndsInThrow nodes := by
  fun_induction Step.endInThrow steps generalizing before nodes with
  | case1 opcode =>
    obtain rfl := of_decide_eq_true h
    obtain ⟨front, node, rfl, hnode⟩ := throw_of_instruction (ofSteps_singleton hnodes)
    exact ⟨front, node, hnode, .inl rfl⟩
  | case2 opcode name =>
    obtain rfl := of_decide_eq_true h
    obtain ⟨u, v, between, rfl, hu, hv⟩ := hnodes
    obtain ⟨front, node, rfl, hnode⟩ := throw_of_instruction hu
    refine ⟨front, node, hnode, ?_⟩
    have hjoin : joinLabel (name.resolve scope) between v after := ofSteps_singleton hv
    rw [joinLabel] at hjoin
    -- The label is read if a jump in the window leads to it.
    split_ifs at hjoin
    · obtain ⟨label, rfl, -⟩ := hjoin
      exact .inr ⟨label, List.append_assoc _ _ _⟩
    · obtain ⟨rfl, -⟩ := hjoin
      exact .inl (List.append_nil _)
  | case3 first rest _ _ ih =>
    -- The nodes of the first step stand in front of the end.
    obtain ⟨u, v, between, rfl, -, hv⟩ := hnodes
    exact (ih h hv).append_left u
  | case4 => exact absurd h (by simp)

/-- Segments of which the last one ends in a throw do so too. -/
theorem endsInThrow_ofSegments {segments : List Segment}
    (h : ∀ last ∈ segments.getLast?, Step.endInThrow last.steps = true) (hne : segments ≠ [])
    {before after : Bindings} {nodes : List (Node Label)}
    (hnodes : ofSegments segments before nodes after) : EndsInThrow nodes := by
  induction segments generalizing before nodes with
  | nil => exact absurd rfl hne
  | cons first rest ih =>
    obtain ⟨u, v, between, rfl, hu, hv⟩ := hnodes
    -- Only the last segment counts.
    cases rest with
    | nil =>
      obtain ⟨rfl, -⟩ := hv
      rw [List.append_nil]
      exact endsInThrow_ofSteps (h first rfl) hu
    | cons second rest =>
      exact (ih (fun last hlast => h last hlast) (List.cons_ne_nil _ _) hv).append_left u

end Language

namespace Ecj

/-- Layers end in a throw, whatever their number. -/
theorem endsInThrow_layers {inner : Nat} {before after : Bindings} {nodes : List (Node Label)}
    (h : Layers inner before nodes after) : EndsInThrow nodes := by
  induction h with
  | outermost houtermost =>
    obtain ⟨u, v, between, rfl, -, hv⟩ := houtermost
    exact (Language.endsInThrow_ofSteps (by decide) hv).append_left u
  | layer _ _ ih => exact ih.append_left _

/-- A chain ends in a throw, in front of a jump and in front of a return. -/
theorem endsInThrow_language {before after : Bindings} {nodes : List (Node Label)}
    (h : language before nodes after) : EndsInThrow nodes := by
  obtain ⟨first, behind, between, rfl, -, hbehind⟩ := h
  refine EndsInThrow.append_left ?_ first
  -- Layers end with the outermost handler, and so do the handlers behind a return.
  rcases hbehind with ⟨u, v, _, rfl, -, hv⟩ | ⟨total, u, v, _, rfl, -, hv⟩
  · exact (endsInThrow_layers hv).append_left u
  · have hlast : ∀ last ∈ (handlers total).getLast?, Step.endInThrow last.steps = true := by
      intro last hlast
      rw [handlers, List.getLast?_concat, Option.mem_some_iff] at hlast
      subst hlast
      decide
    exact (Language.endsInThrow_ofSegments hlast (by simp [handlers]) hv).append_left u

end Ecj

namespace Cleanup

/-- Every cleanup ends in a throw. -/
theorem endsInThrow {cleanup : Cleanup} {before after : Bindings} {nodes : List (Node Label)}
    (h : cleanup.language before nodes after) : EndsInThrow nodes := by
  cases cleanup with
  | monitor shape => exact Language.endsInThrow_ofSteps (by cases shape <;> decide) h
  | resources shape =>
    cases shape with
    | ecj => exact Ecj.endsInThrow_language h
    | javacOptimal | javacFull | javacOmittedNullCheck | javacMethod =>
      exact Language.endsInThrow_ofSegments (by decide) (List.cons_ne_nil _ _) h

end Cleanup

end CleanupFilter
