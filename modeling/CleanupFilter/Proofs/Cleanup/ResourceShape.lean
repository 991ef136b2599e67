import CleanupFilter.Proofs.Cleanup.Word
import CleanupFilter.Proofs.Pattern.Template

/-!
# Where resource cleanup is found

A resource cleanup is found exactly where the code spells one. Neither the order in which the shapes
are tried nor the code around the cleanup has a say in it.

- `resourceCleanupIn?`: the search with the shapes in any order.
- `resourceCleanup?_eq_some_iff`: what is found are the cleanups that start at the position.
- `resourceCleanupIn?_perm`: at most one shape succeeds, so their order does not matter.
- `resourceCleanup?_of_window`: a cleanup is found in any code that holds its nodes.
-/

namespace CleanupFilter

variable {code : Code} {start last : Nat} {shape : ResourceShape}

/-- The resource cleanup that starts at `start`, with the shapes tried in the given order. -/
def resourceCleanupIn? (order : List ResourceShape) (code : Code) (start : Nat) :
    Option (ResourceShape × Nat) :=
  (Cursor.before? code start).bind fun cursor =>
    order.findSome? fun shape =>
      ((shape.follow? code cursor).bind Cursor.position).map fun last => (shape, last)

/-- A cursor starts behind the position in front of a candidate. -/
theorem before?_eq_some_iff {cursor : Cursor} :
    Cursor.before? code start = some cursor ↔
      ∃ position, start = position + 1 ∧ position < code.size ∧ cursor = .after position := by
  rw [Cursor.before?, Code.prev?]
  -- In front of the first node and past the end no cursor starts.
  by_cases h : start = 0 ∨ code.size < start
  · rw [if_pos h, Option.map_none]
    constructor
    · exact fun h => absurd h (by simp)
    · rintro ⟨position, rfl, hlt, -⟩
      omega
  · rw [if_neg h, Option.map_some, Option.some.injEq]
    constructor
    · rintro rfl
      exact ⟨start - 1, by omega, by omega, rfl⟩
    · rintro ⟨position, rfl, -, rfl⟩
      rfl

/-! ### What is found -/

/-- A cleanup ends within the code, and not in front of its start. -/
theorem Cleanup.Spans.lt_size {cleanup : Cleanup} (h : cleanup.Spans code start last) :
    start ≤ last ∧ last < code.size := by
  obtain ⟨nodes, after, hnodes, hholds, hlast⟩ := h
  -- There is at least the throw at the end.
  have hne : nodes ≠ [] := by
    rintro rfl
    obtain ⟨front, node, -, hend⟩ := Cleanup.endsInThrow hnodes
    simp at hend
  have hle := hholds.le_size hne
  have hpos := List.length_pos_iff.2 hne
  omega

/-- What a shape finds is where a cleanup of this shape ends. -/
theorem map_follow?_eq_some_iff {position : Nat} {other : ResourceShape}
    {found : ResourceShape × Nat} :
    ((other.follow? code (.after position)).bind Cursor.position).map (fun last => (other, last)) =
        some found ↔
      found.1 = other ∧ (Cleanup.resources other).Spans code (position + 1) found.2 := by
  obtain ⟨shape, last⟩ := found
  rw [← Cleanup.bind_follow?_eq_some_iff, Option.map_eq_some_iff]
  constructor
  · rintro ⟨_, hlast, ⟨⟩⟩
    exact ⟨rfl, hlast⟩
  · rintro ⟨rfl, hlast⟩
    exact ⟨last, hlast, rfl⟩

/-- What is found are the cleanups that start at the position, in whatever order the shapes are
tried. -/
theorem resourceCleanupIn?_eq_some_iff {order : List ResourceShape}
    (horder : ∀ shape, shape ∈ order) :
    resourceCleanupIn? order code start = some (shape, last) ↔
      0 < start ∧ (Cleanup.resources shape).Spans code start last := by
  rw [resourceCleanupIn?, Option.bind_eq_some_iff]
  constructor
  · rintro ⟨cursor, hcursor, hfound⟩
    obtain ⟨position, rfl, -, rfl⟩ := before?_eq_some_iff.1 hcursor
    obtain ⟨other, -, hother⟩ := List.exists_of_findSome?_eq_some hfound
    obtain ⟨rfl, hspans⟩ := map_follow?_eq_some_iff.1 hother
    exact ⟨Nat.succ_pos position, hspans⟩
  · rintro ⟨hpos, hspans⟩
    obtain ⟨position, rfl⟩ : ∃ position, start = position + 1 := ⟨start - 1, by omega⟩
    have hlt := hspans.lt_size
    refine ⟨.after position, before?_eq_some_iff.2 ⟨position, rfl, by omega, rfl⟩, ?_⟩
    cases hfound : order.findSome? fun other =>
        ((other.follow? code (.after position)).bind Cursor.position).map
          fun last => (other, last) with
    | none =>
      have hsome : _ = some (shape, last) := map_follow?_eq_some_iff.2 ⟨rfl, hspans⟩
      exact absurd (hsome.symm.trans (List.findSome?_eq_none_iff.1 hfound shape (horder shape)))
        (Option.some_ne_none _)
    | some found =>
      -- Some shape was found first, but no other one spans the same nodes.
      obtain ⟨other, -, hother⟩ := List.exists_of_findSome?_eq_some hfound
      obtain ⟨rfl, hothers⟩ := map_follow?_eq_some_iff.1 hother
      obtain ⟨hshape, hlast⟩ := hothers.unique hspans
      rw [← hlast, ← Cleanup.resources.inj hshape]

theorem ResourceShape.mem_all (shape : ResourceShape) : shape ∈ all := by
  cases shape <;> decide

/-- What is found at a position is the cleanup that starts there, in the shape it has. -/
theorem resourceCleanup?_eq_some_iff :
    resourceCleanup? code start = some (shape, last) ↔
      0 < start ∧ (Cleanup.resources shape).Spans code start last :=
  resourceCleanupIn?_eq_some_iff ResourceShape.mem_all

/-- The last node of the cleanup of the shape that starts at `start`. -/
def ResourceShape.last? (shape : ResourceShape) (code : Code) (start : Nat) : Option Nat :=
  (Cursor.before? code start).bind fun cursor => (shape.follow? code cursor).bind Cursor.position

/-- A shape by itself finds the cleanups of this shape. -/
theorem ResourceShape.last?_eq_some_iff (hstart : 0 < start) :
    shape.last? code start = some last ↔ (Cleanup.resources shape).Spans code start last := by
  rw [last?, Option.bind_eq_some_iff]
  constructor
  · rintro ⟨cursor, hcursor, hfound⟩
    obtain ⟨position, rfl, -, rfl⟩ := before?_eq_some_iff.1 hcursor
    exact Cleanup.bind_follow?_eq_some_iff.1 hfound
  · intro hspans
    obtain ⟨position, rfl⟩ : ∃ position, start = position + 1 := ⟨start - 1, by omega⟩
    have hlt := hspans.lt_size
    exact ⟨.after position, before?_eq_some_iff.2 ⟨position, rfl, by omega, rfl⟩,
      Cleanup.bind_follow?_eq_some_iff.2 hspans⟩

/-- A shape that reads as a template is found where the nodes are what the template reads. -/
theorem ResourceShape.last?_eq_some_iff_of_template (shape : ResourceShape) {template : Template}
    (htemplate : ∀ nodes, (∃ after, shape.language .empty nodes after) ↔ template nodes)
    (hstart : 0 < start) :
    shape.last? code start = some last ↔ template.Spans code start last :=
  (last?_eq_some_iff hstart).trans (Template.spans_iff htemplate).symm

/-! ### The order of the shapes -/

/-- At most one shape succeeds, so that the order in which they are tried does not matter. -/
theorem resourceCleanupIn?_perm (code : Code) (start : Nat) :
    (∀ cursor ∈ Cursor.before? code start, ∀ shape other : ResourceShape,
        (shape.follow? code cursor).isSome → (other.follow? code cursor).isSome →
          shape = other) ∧
      ∀ order : List ResourceShape, order.Perm ResourceShape.all →
        resourceCleanupIn? order code start = resourceCleanup? code start := by
  constructor
  · intro cursor hcursor shape other hshape hother
    obtain ⟨position, rfl, -, rfl⟩ := before?_eq_some_iff.1 hcursor
    have hspans : ∀ {shape : ResourceShape}, (shape.follow? code (.after position)).isSome →
        ∃ last, (Cleanup.resources shape).Spans code (position + 1) last := by
      intro shape hshape
      obtain ⟨final, hfinal⟩ := Option.isSome_iff_exists.1 hshape
      obtain ⟨nodes, after, hnodes, hholds, -⟩ :=
        ((Cleanup.resources shape).recognises_follow? position .empty final).1 hfinal
      exact ⟨position + nodes.length, nodes, after, hnodes, hholds, Nat.add_right_comm _ _ _⟩
    obtain ⟨last, hlast⟩ := hspans hshape
    obtain ⟨otherLast, hotherLast⟩ := hspans hother
    exact Cleanup.resources.inj (hlast.unique hotherLast).1
  · intro order hperm
    have horder : ∀ shape, shape ∈ order := fun shape => hperm.mem_iff.2 shape.mem_all
    -- What is found does not depend on the order.
    ext ⟨shape, last⟩
    rw [resourceCleanupIn?_eq_some_iff horder, resourceCleanup?_eq_some_iff]

/-- The call of `close` on the object in a slot. -/
def closeCall (slot : UInt16) : List (Node Label) :=
  [.var .aload slot, .call .invokeVirtual ⟨"Reader", "close", "()V"⟩]

/-- The call that adds the exception in one slot to those that the one in the other suppresses. -/
def addSuppressedCall (primary suppressed : UInt16) : List (Node Label) :=
  [.var .aload primary, .var .aload suppressed,
    .call .invokeVirtual ⟨"java/lang/Throwable", "addSuppressed", "(Ljava/lang/Throwable;)V"⟩]

/-- Two closes by the synthetic method, a primary exception between them, and then the code that
follows. -/
def closedByHelper : Code :=
  let close : Node Label := .call .invokeStatic
    ⟨"Reader", "$closeResource", "(Ljava/lang/Throwable;Ljava/lang/AutoCloseable;)V"⟩
  #[.label ⟨0⟩, .var .aload 1, .var .aload 2, close, .jump .goto ⟨1⟩, .var .astore 3,
    .var .aload 3, .var .astore 1, .var .aload 3, .plain .athrow, .var .astore 4, .var .aload 1,
    .var .aload 2, close, .var .aload 4, .plain .athrow, .label ⟨1⟩, .plain .voidReturn]

/-- The same cleanup is found with the shapes in the opposite order. -/
theorem resourceCleanupIn?_closedByHelper :
    (∀ other : ResourceShape, (other.follow? closedByHelper (.after 0)).isSome →
        ResourceShape.javacOptimal = other) ∧
      resourceCleanupIn? ResourceShape.all.reverse closedByHelper 1 = some (.javacOptimal, 16) := by
  have hfound : resourceCleanup? closedByHelper 1 = some (.javacOptimal, 16) := by decide +kernel
  obtain ⟨hexclusive, hperm⟩ := resourceCleanupIn?_perm closedByHelper 1
  refine ⟨fun other => hexclusive (.after 0) rfl .javacOptimal other (by decide +kernel), ?_⟩
  rw [hperm _ (List.reverse_perm _), hfound]

/-! ### The window of a cleanup -/

/-- A resource cleanup ends with a throw, and any code that holds its nodes behind some first node
has the same cleanup there. -/
theorem resourceCleanup?_of_window (h : resourceCleanup? code start = some (shape, last)) :
    1 ≤ start ∧ start ≤ last ∧ last < code.size ∧
      (code[last]?.bind Node.opcode? = some .athrow ∨
        (∃ label, code[last]? = some (.label label)) ∧
          code[last - 1]?.bind Node.opcode? = some .athrow) ∧
      ∀ (other : Code) (otherStart : Nat), 1 ≤ otherStart →
        otherStart + (last - start) < other.size →
        (∀ k ≤ last - start, other[otherStart + k]? = code[start + k]?) →
        resourceCleanup? other otherStart = some (shape, otherStart + (last - start)) := by
  obtain ⟨hpos, hspans⟩ := resourceCleanup?_eq_some_iff.1 h
  obtain ⟨hle, hlt⟩ := hspans.lt_size
  -- The nodes of the cleanup are all that counts.
  obtain ⟨nodes, after, hnodes, hholds, hlast⟩ := hspans
  refine ⟨hpos, hle, hlt, ?_, fun other otherStart hotherPos hbound hagree => ?_⟩
  · -- The last node is the throw or a label behind it.
    obtain ⟨front, node, hnode, rfl | ⟨label, rfl⟩⟩ := Cleanup.endsInThrow hnodes
    · have hat := hholds.getElem?
      rw [List.length_append, List.length_singleton] at hlast
      rw [show last = start + front.length by omega, hat]
      exact .inl hnode
    · have hat := hholds.getElem?
      rw [List.append_cons] at hholds
      have hlabel := hholds.getElem?
      rw [List.length_append, List.length_singleton] at hlabel
      rw [List.length_append, List.length_cons, List.length_singleton] at hlast
      rw [show last - 1 = start + front.length by omega,
        show last = start + (front.length + 1) by omega, hat]
      exact .inr ⟨⟨label, hlabel⟩, hnode⟩
  · -- The same nodes are the same cleanup wherever they stand.
    have hother : other.Holds otherStart nodes :=
      hholds.transfer fun k hk => hagree k (by omega)
    exact resourceCleanup?_eq_some_iff.2
      ⟨hotherPos, nodes, after, hnodes, hother, by omega⟩

/-- The same nodes are a cleanup at another place of other code. -/
theorem resourceCleanup?_elsewhere :
    resourceCleanup? closedByHelper 1 = some (.javacOptimal, 16) ∧
      resourceCleanup? (#[.frame, .plain .athrow] ++ closedByHelper.extract 1 17) 2 =
        some (.javacOptimal, 17) := by
  have hfound : resourceCleanup? closedByHelper 1 = some (.javacOptimal, 16) := by decide +kernel
  obtain ⟨-, -, -, -, hwindow⟩ := resourceCleanup?_of_window hfound
  exact ⟨hfound, hwindow _ 2 (by decide) (by decide) (by decide)⟩

end CleanupFilter
