import CleanupFilter.Proofs.Method.Builder
import CleanupFilter.Proofs.Method.Diagnosis

/-!
# What calls on a builder make

Calls on a builder may come in any order and with any labels. The builder answers them by counting,
labels in words of 32 bits, and what it builds in the end is what the calls have added, if that is
well formed.

- `Builder.Call`: a call on a builder, which adds a node or an entry or asks for a fresh label.
- `Builder.made`: the builder after some calls.
- `Builder.collected`: the body that calls describe.
- `Builder.body_perform`, `Builder.body_made`: what is collected by one call, and by all of them.
- `Builder.nextLabel_made`: the labels that have been handed out.
- `Builder.build_made`: what the builder answers, and what it builds or reports.
-/

namespace CleanupFilter

namespace Builder

/-- A call on a builder. -/
inductive Call
  | freshLabel
  /-- The call that appends a node of the given kind. -/
  | add (node : Node Label)
  | guard (entry : TryCatch Label)
  deriving DecidableEq, Repr

namespace Call

/-- The node that the call adds, a method call with the interface flag of its opcode. -/
def node? : Call → Option (Node Label)
  | add node => some node.withInterfaceFlag
  | freshLabel | guard _ => none

/-- The entry that the call adds to the exception table. -/
def entry? : Call → Option (TryCatch Label)
  | guard entry => some entry
  | freshLabel | add _ => none

end Call

/-- The builder after a call. -/
def perform (builder : Builder) : Call → Builder
  | .freshLabel => builder.freshLabel.2
  | .add node => builder.add node
  | .guard entry => builder.guard entry

/-- The builder of a method after calls in the given order. -/
def made (name desc : String) (calls : List Call) : Builder :=
  calls.foldl perform { name, desc }

/-- The body that calls in the given order describe. -/
def collected (name desc : String) (calls : List Call) : Body Label where
  name := name
  desc := desc
  nodes := (calls.filterMap Call.node?).toArray
  tryCatches := calls.filterMap Call.entry?

/-- One more call adds its node or its entry to what has been collected. -/
theorem body_perform (builder : Builder) (call : Call) :
    (builder.perform call).body = { builder.body with
      nodes := builder.nodes ++ call.node?.toList.toArray
      tryCatches := builder.body.tryCatches ++ call.entry?.toList } := by
  cases call with
  | freshLabel => simp [perform, freshLabel, body, Call.node?, Call.entry?]
  | add node => simp [perform, add_eq, body, Call.node?, Call.entry?]
  | guard entry => simp [perform, guard, body, Call.node?, Call.entry?]

/-- One more call hands out a label if it asks for one. -/
theorem nextLabel_perform (builder : Builder) (call : Call) :
    (builder.perform call).nextLabel =
      builder.nextLabel + if call = .freshLabel then 1 else 0 := by
  cases call with
  | freshLabel => rfl
  | add node => rw [perform, add_eq, if_neg Call.noConfusion, UInt32.add_zero]
  | guard entry => exact (UInt32.add_zero _).symm

/-- Calls make reachable builders of reachable ones. -/
theorem Reachable.perform {builder : Builder} (h : Reachable builder) (call : Call) :
    Reachable (builder.perform call) := by
  cases call with
  | freshLabel => exact h.freshLabel
  | add node => exact h.add node
  | guard entry => exact h.guard entry

section Run

variable (calls : List Call) (builder : Builder)

/-- Calls add their nodes and entries, each in order. -/
theorem body_foldl_perform : (calls.foldl perform builder).body = { builder.body with
    nodes := builder.nodes ++ (calls.filterMap Call.node?).toArray
    tryCatches := builder.body.tryCatches ++ calls.filterMap Call.entry? } := by
  induction calls generalizing builder with
  | nil => simp [body]
  | cons call rest ih =>
    -- What the first call adds stands in front of what the others add.
    have hnodes : (builder.perform call).nodes = (builder.perform call).body.nodes := rfl
    rw [List.foldl_cons, ih, hnodes, body_perform]
    simp only [List.filterMap_eq_flatMap_toList, List.flatMap_cons, List.append_toArray,
      Array.append_assoc, List.append_assoc]

/-- Calls hand out as many labels as they ask for. -/
theorem nextLabel_foldl_perform : (calls.foldl perform builder).nextLabel =
    builder.nextLabel + .ofNat (calls.count .freshLabel) := by
  induction calls generalizing builder with
  | nil => exact (UInt32.add_zero _).symm
  | cons call rest ih =>
    rw [List.foldl_cons, ih, nextLabel_perform, List.count_cons, UInt32.ofNat_add,
      UInt32.add_assoc, UInt32.add_comm (.ofNat _)]
    simp only [beq_iff_eq]
    split <;> rfl

/-- Calls make reachable builders of reachable ones. -/
theorem Reachable.foldl_perform {builder : Builder} (h : Reachable builder) :
    Reachable (calls.foldl Builder.perform builder) := by
  induction calls generalizing builder with
  | nil => exact h
  | cons call rest ih => exact ih (h.perform call)

end Run

section Made

variable (name desc : String) (calls : List Call)

/-- A builder has collected what its calls describe. -/
theorem body_made : (made name desc calls).body = collected name desc calls := by
  rw [made, body_foldl_perform]
  simp [body, collected]

/-- The next label of a builder counts those that its calls have asked for. -/
theorem nextLabel_made :
    (made name desc calls).nextLabel.toNat = calls.count .freshLabel % UInt32.size := by
  rw [made, nextLabel_foldl_perform, UInt32.zero_add]
  exact UInt32.toNat_ofNat'

/-- A builder builds what passes the check of a whole body. -/
theorem build_made_eq : (made name desc calls).build = (collected name desc calls).check := by
  have hreachable : (made name desc calls).Reachable :=
    (Reachable.empty name desc).foldl_perform calls
  rw [hreachable.build_eq, body_made]

/-- The flag of a collected call follows from its opcode. -/
theorem interface_of_mem_collected {opcode : Opcode} {target : Member} {interface : Bool}
    (h : .method opcode target interface ∈ (collected name desc calls).nodes) :
    interface = true ↔ opcode = .invokeInterface := by
  obtain ⟨call, -, hnode⟩ := List.mem_filterMap.1 (List.mem_toArray.1 h)
  cases call with
  | add node => exact Node.interface_eq_true_iff (Option.some.inj hnode)
  | freshLabel | guard entry => cases hnode

/-- After any calls the position is the number of nodes that were added, and a fresh label counts
the labels before it, up to the number of words. The body that is built holds the nodes and entries
of the calls in order, if they make a well-formed body, and every label that is referred to then has
its place. Otherwise the error is the one to be reported of them. -/
theorem build_made :
    (made name desc calls).position = (calls.filterMap Call.node?).length ∧
      ((made name desc calls).freshLabel.1 = ⟨calls.count .freshLabel % UInt32.size⟩ ∧
        (calls.count .freshLabel < UInt32.size →
          (made name desc calls).freshLabel.1 = ⟨calls.count .freshLabel⟩)) ∧
      (∀ body, (made name desc calls).build = .ok body ↔
        body = collected name desc calls ∧ body.WellFormed) ∧
      (∀ error, (made name desc calls).build = .error error ↔
        (collected name desc calls).Reports error) ∧
      (∀ opcode target interface,
        .method opcode target interface ∈ (collected name desc calls).nodes →
          (interface = true ↔ opcode = .invokeInterface)) ∧
      ∀ body, (made name desc calls).build = .ok body →
        (∀ label position, Code.placement? body.nodes label = some position ↔
          body.nodes[position]? = some (.label label)) ∧
        ∀ label ∈ body.references,
          ∃! position : Nat, body.nodes[position]? = some (.label label) := by
  have hlabel : (made name desc calls).freshLabel.1 = ⟨calls.count .freshLabel % UInt32.size⟩ :=
    congrArg Label.mk (nextLabel_made name desc calls)
  have hok : ∀ body, (made name desc calls).build = .ok body ↔
      body = collected name desc calls ∧ body.WellFormed := by
    intro body
    rw [build_made_eq, Body.check_eq_ok_iff_wellFormed]
    exact and_congr_right fun h => by rw [h]
  refine ⟨?_, ⟨hlabel, fun hcount => ?_⟩, hok, ?_, ?_, ?_⟩
  · have hnodes := congrArg (fun body => body.nodes.size) (body_made name desc calls)
    exact hnodes.trans List.size_toArray
  · rw [hlabel, Nat.mod_eq_of_lt hcount]
  · intro error
    rw [build_made_eq, Body.check_eq_error_iff]
  · intro opcode target interface hmem
    exact interface_of_mem_collected name desc calls hmem
  · intro body hbody
    obtain ⟨-, hbody⟩ := (hok body).1 hbody
    exact ⟨fun label position => Body.placement?_eq_some_iff hbody.placedOnce,
      fun label hlabel => Body.existsUnique_placement hbody.placedOnce (hbody.placed label hlabel)⟩

end Made

/-- A loop with a label that the builder has not handed out. -/
def loopCalls : List Call :=
  [.add (.label ⟨7⟩), .freshLabel, .add (.jump .goto ⟨7⟩)]

/-- The loop is built, and the label of the next one would be 1. With a jump in front and the loop
twice, the second placement of its label is reported, and with two misfits the first of them. -/
theorem build_made_loop :
    (made "spin" "()V" loopCalls).freshLabel.1 = ⟨1⟩ ∧
      (made "spin" "()V" loopCalls).build = .ok (collected "spin" "()V" loopCalls) ∧
      (made "spin" "()V" (.add (.jump .goto ⟨0⟩) :: loopCalls ++ loopCalls)).build =
        .error (.duplicateLabel ⟨7⟩) ∧
      (made "spin" "()V" (loopCalls ++ [.add (.var .goto 1), .add (.plain .aload)])).build =
        .error (.operandForm 2 .goto .var (some .jump)) := by
  refine ⟨?_, ?_, ?_, ?_⟩
  · obtain ⟨-, ⟨-, hlabel⟩, -⟩ := build_made "spin" "()V" loopCalls
    exact hlabel (by decide)
  · obtain ⟨-, -, hok, -⟩ := build_made "spin" "()V" loopCalls
    refine (hok _).2 ⟨rfl, ?_, by decide, by decide⟩
    decide +kernel
  · obtain ⟨-, -, -, herror, -⟩ :=
      build_made "spin" "()V" (.add (.jump .goto ⟨0⟩) :: loopCalls ++ loopCalls)
    -- No label is placed twice before the fourth node, and label 0 does not count yet.
    have hsplit : (collected "spin" "()V"
        (.add (.jump .goto ⟨0⟩) :: loopCalls ++ loopCalls)).nodes.toList =
        [.jump .goto ⟨0⟩, .label ⟨7⟩, .jump .goto ⟨7⟩] ++ .label ⟨7⟩ :: [.jump .goto ⟨7⟩] := rfl
    refine (herror _).2 (.duplicateLabel ?_ hsplit (by decide) (by decide))
    decide +kernel
  · obtain ⟨-, -, -, herror, -⟩ :=
      build_made "spin" "()V" (loopCalls ++ [.add (.var .goto 1), .add (.plain .aload)])
    have hsplit : (collected "spin" "()V"
        (loopCalls ++ [.add (.var .goto 1), .add (.plain .aload)])).nodes.toList =
        [.label ⟨7⟩, .jump .goto ⟨7⟩] ++ .var .goto 1 :: [.plain .aload] := rfl
    have hjump : Opcode.goto.form? = some .jump := by decide +kernel
    rw [herror, ← hjump]
    refine .operandForm hsplit ?_ rfl rfl ?_
    · decide +kernel
    · decide +kernel

end Builder

end CleanupFilter
