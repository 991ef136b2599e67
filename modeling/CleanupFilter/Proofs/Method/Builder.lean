import CleanupFilter.Method.Builder
import CleanupFilter.Proofs.Method.Relabel

/-!
# Bodies that were built

A builder refuses nothing on the way. The interface flags of the calls that it collects follow from
their opcodes, and the error that it has noted is the first misfit of what it has collected.

- `Builder.add_eq`: what one more node does to a builder.
- `Builder.Reachable`: the builders that calls make of an empty one.
- `Builder.Latched`, `Builder.Reachable.latched`: the error that is noted, from call to call.
- `Builder.Reachable.build_eq`: what is built is what passes the check of a whole body.
- `Body.IsBuilt`: the bodies that such builders return.
- `Body.IsBuilt.withInterfaceFlag_eq`: the flags of a built body follow from its opcodes.
- `Body.isBuilt_iff`: that, and to pass its own check, is all that it takes.
-/

namespace CleanupFilter

-- The table is a large closed term, which the unifier would evaluate.
attribute [local irreducible] instructionTable

namespace Node

variable {L M : Type}

/-- Setting the flag of a call once is enough. -/
theorem withInterfaceFlag_withInterfaceFlag (node : Node L) :
    node.withInterfaceFlag.withInterfaceFlag = node.withInterfaceFlag := by
  cases node <;> rfl

/-- A flag that was set follows from the opcode. -/
theorem interface_eq_true_iff {node : Node L} {opcode : Opcode} {target : Member}
    {interface : Bool} (h : node.withInterfaceFlag = .method opcode target interface) :
    interface = true ↔ opcode = .invokeInterface := by
  cases node with
  | method =>
    cases h
    exact beq_iff_eq
  | _ => cases h

/-- Flags have nothing to do with labels. -/
theorem withInterfaceFlag_mapLabel (f : L → M) (node : Node L) :
    (node.mapLabel f).withInterfaceFlag = node.withInterfaceFlag.mapLabel f := by
  cases node <;> rfl

end Node

namespace Builder

/-! ### One more node -/

/-- A call for opcodes of the form of its node notes the misfit of the node, unless one has been
noted. -/
theorem push_eq {node : Node Label} {opcode : Opcode} {expected : OperandForm}
    (hopcode : node.opcode? = some opcode) (hform : node.form? = some expected)
    (builder : Builder) :
    builder.push opcode expected node = { builder with
      nodes := builder.nodes.push node
      error? := builder.error?.or (node.misfitAt? builder.position) } := by
  simp only [push, append, Node.misfitAt?, hopcode, hform, position]
  cases builder.error? with
  | some error => simp
  | none =>
    by_cases hfits : opcode.form? = some expected
    · simp [hfits]
    · simp [hfits]

/-- A node that is appended as it is always fits. -/
theorem append_eq {node : Node Label} (h : node.Fits) (builder : Builder) :
    builder.append node = { builder with
      nodes := builder.nodes.push node
      error? := builder.error?.or (node.misfitAt? builder.position) } := by
  rw [append, Node.misfitAt?_eq_none_iff.2 h, Option.or_none]

/-- One more node is added with the flag of its opcode, and its misfit is noted unless there is an
earlier one. -/
theorem add_eq (builder : Builder) (node : Node Label) : builder.add node = { builder with
    nodes := builder.nodes.push node.withInterfaceFlag
    error? := builder.error?.or (node.withInterfaceFlag.misfitAt? builder.position) } := by
  cases node with
  | plain | int | var | type | field | method | jump | ldc => exact push_eq rfl rfl builder
  | iinc slot increment =>
    have hiinc : Opcode.iinc.form? = some .iinc := by decide +kernel
    refine append_eq ?_ builder
    exact hiinc
  | label | line | frame =>
    refine append_eq ?_ builder
    exact rfl

/-- The first misfit of a body is that of an earlier node, or else that of the last one. -/
theorem misfit?_add (builder : Builder) (node : Node Label) :
    (builder.add node).body.misfit? =
      builder.body.misfit?.or (node.withInterfaceFlag.misfitAt? builder.position) := by
  rw [Body.misfit?_eq, Body.misfit?_eq, body, body, add_eq]
  dsimp only
  rw [Array.toList_push, List.zipIdx_append, List.findSome?_append, List.zipIdx_singleton,
    List.findSome?_singleton, Nat.zero_add, Array.length_toList]
  rfl

/-! ### Calls in any order -/

/-- The builders that calls make of an empty one. -/
inductive Reachable : Builder → Prop
  | empty (name desc : String) : Reachable { name, desc }
  | freshLabel {builder : Builder} : Reachable builder → Reachable builder.freshLabel.2
  | add {builder : Builder} (node : Node Label) :
      Reachable builder → Reachable (builder.add node)
  | guard {builder : Builder} (entry : TryCatch Label) :
      Reachable builder → Reachable (builder.guard entry)

/-- The error that has been noted is the first misfit of what has been collected. -/
def Latched (builder : Builder) : Prop :=
  builder.error? = builder.body.misfit?

/-- Once an error is noted it stays, and it is the first one. -/
theorem latched_add {builder : Builder} (h : builder.Latched) (node : Node Label) :
    (builder.add node).Latched := by
  rw [Latched, misfit?_add, ← h, add_eq]

/-- Whatever the calls, the error that is noted is the first misfit. -/
theorem Reachable.latched {builder : Builder} (h : Reachable builder) : builder.Latched := by
  induction h with
  | empty name desc => rfl
  | freshLabel _ ih => exact ih
  | add node _ ih => exact latched_add ih node
  | guard _ _ ih => exact ih

/-- What is built is what passes the check of the whole body. -/
theorem Reachable.build_eq {builder : Builder} (h : Reachable builder) :
    builder.build = builder.body.check := by
  have hlatched : builder.error? = builder.body.misfit? := h.latched
  rw [build, hlatched]
  rfl

/-- The flags of what has been collected follow from the opcodes. -/
theorem Reachable.withInterfaceFlag_eq {builder : Builder} (h : Reachable builder) :
    ∀ node ∈ builder.nodes, node.withInterfaceFlag = node := by
  induction h with
  | empty name desc =>
    intro node hnode
    exact absurd hnode (Array.not_mem_empty node)
  | freshLabel _ ih => exact ih
  | add added _ ih =>
    intro node hnode
    rw [add_eq] at hnode
    -- A node is adjusted as it is added.
    rcases Array.mem_push.1 hnode with hnode | rfl
    · exact ih node hnode
    · exact Node.withInterfaceFlag_withInterfaceFlag added
  | guard _ _ ih => exact ih

/-- Nodes can be added one by one. -/
theorem Reachable.foldl_add {builder : Builder} (h : Reachable builder)
    (nodes : List (Node Label)) : Reachable (nodes.foldl Builder.add builder) := by
  induction nodes generalizing builder with
  | nil => exact h
  | cons node rest ih => exact ih (h.add node)

/-- Entries can be added one by one. -/
theorem Reachable.foldl_guard {builder : Builder} (h : Reachable builder)
    (entries : List (TryCatch Label)) : Reachable (entries.foldl Builder.guard builder) := by
  induction entries generalizing builder with
  | nil => exact h
  | cons entry rest ih => exact ih (h.guard entry)

/-- Nodes with the flags of their opcodes are collected as they are. -/
theorem body_foldl_add {nodes : List (Node Label)}
    (h : ∀ node ∈ nodes, node.withInterfaceFlag = node) (builder : Builder) :
    (nodes.foldl add builder).body =
      { builder.body with nodes := builder.nodes ++ nodes.toArray } := by
  induction nodes generalizing builder with
  | nil => simp [body]
  | cons node rest ih =>
    obtain ⟨hnode, hrest⟩ := List.forall_mem_cons.1 h
    rw [List.foldl_cons, ih hrest, add_eq]
    simp [body, hnode]

/-- Entries are collected as they are. -/
theorem body_foldl_guard (entries : List (TryCatch Label)) (builder : Builder) :
    (entries.foldl guard builder).body =
      { builder.body with tryCatches := builder.body.tryCatches ++ entries } := by
  induction entries generalizing builder with
  | nil => simp
  | cons entry rest ih =>
    rw [List.foldl_cons, ih]
    simp [guard, body]

end Builder

namespace Body

/-- A builder returns the body. -/
def IsBuilt (body : Body Label) : Prop :=
  ∃ builder : Builder, builder.Reachable ∧ builder.build = .ok body

variable {body : Body Label}

/-- A body that was built is what its builder has collected. -/
theorem IsBuilt.exists_reachable (h : body.IsBuilt) :
    ∃ builder : Builder, builder.Reachable ∧ builder.body = body ∧ body.check = .ok body := by
  obtain ⟨builder, hreachable, hbuild⟩ := h
  rw [hreachable.build_eq] at hbuild
  obtain ⟨rfl, -⟩ := check_eq_ok_iff.1 hbuild
  exact ⟨builder, hreachable, rfl, hbuild⟩

/-- A body that was built passes its own check. -/
theorem IsBuilt.check_eq (h : body.IsBuilt) : body.check = .ok body := by
  obtain ⟨-, -, -, hcheck⟩ := h.exists_reachable
  exact hcheck

/-- The flags of a body that was built follow from its opcodes. -/
theorem IsBuilt.withInterfaceFlag_eq (h : body.IsBuilt) :
    ∀ node ∈ body.nodes, node.withInterfaceFlag = node := by
  obtain ⟨builder, hreachable, rfl, -⟩ := h.exists_reachable
  exact hreachable.withInterfaceFlag_eq

/-- A builder returns a body if the body passes its own check and its flags follow from its
opcodes. -/
theorem isBuilt_iff : body.IsBuilt ↔
    body.check = .ok body ∧ ∀ node ∈ body.nodes, node.withInterfaceFlag = node := by
  refine ⟨fun h => ⟨h.check_eq, h.withInterfaceFlag_eq⟩, fun ⟨hcheck, hflags⟩ => ?_⟩
  -- The nodes are added one by one, and then the entries of the exception table.
  let empty : Builder := { name := body.name, desc := body.desc }
  have hreachable : (body.tryCatches.foldl Builder.guard
      (body.nodes.toList.foldl Builder.add empty)).Reachable :=
    ((Builder.Reachable.empty _ _).foldl_add _).foldl_guard _
  refine ⟨_, hreachable, ?_⟩
  have hbody : (body.tryCatches.foldl Builder.guard
      (body.nodes.toList.foldl Builder.add empty)).body = body := by
    rw [Builder.body_foldl_guard, Builder.body_foldl_add fun node hnode =>
      hflags node (Array.mem_toList_iff.1 hnode)]
    simp [empty, Builder.body]
  rw [hreachable.build_eq, hbody, hcheck]

end Body

end CleanupFilter
