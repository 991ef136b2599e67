import CleanupFilter.Pattern.Run

/-!
# What patterns may read

A pattern that succeeds has read the nodes between two positions of a cursor. Which nodes these may
be does not depend on the code around them: it is a relation between the nodes and the bindings
before and after them.

- `Code.Holds`: nodes that stand from a position on.
- `Code.realFrom?_eq_some_iff`: the first instruction stands behind pseudo-nodes.
- `Language`: what may be read, with `Language.seq` and `Language.instruction`.
- `Step.language`, `Language.ofSegments`: what a step and what segments may read.
-/

namespace CleanupFilter

/-! ### Nodes that stand in code -/

namespace Code

variable {code : Code}

/-- The nodes stand in the code from position `first` on. -/
def Holds (code : Code) (first : Nat) (nodes : List (Node Label)) : Prop :=
  nodes <+: code.toList.drop first

theorem holds_nil (code : Code) (first : Nat) : code.Holds first [] :=
  List.nil_prefix

/-- Code holds two stretches if it holds each where it should stand. -/
theorem holds_append {first : Nat} {front back : List (Node Label)} :
    code.Holds first (front ++ back) ↔
      code.Holds first front ∧ code.Holds (first + front.length) back := by
  constructor
  · rintro ⟨rest, hrest⟩
    refine ⟨⟨back ++ rest, by rw [← hrest, List.append_assoc]⟩, rest, ?_⟩
    rw [← List.drop_drop, ← hrest, List.append_assoc, List.drop_left]
  · rintro ⟨⟨rest, hrest⟩, hback⟩
    rw [Holds, ← List.drop_drop, ← hrest, List.drop_left] at hback
    rw [Holds, ← hrest]
    exact (List.prefix_append_right_inj front).2 hback

/-- The nodes behind a cursor at `position`, in two parts. -/
theorem holds_succ_append {position : Nat} {front back : List (Node Label)} :
    code.Holds (position + 1) (front ++ back) ↔
      code.Holds (position + 1) front ∧ code.Holds (position + front.length + 1) back := by
  rw [holds_append, Nat.add_right_comm]

/-- Code holds nodes if it holds the first one and the others behind it. -/
theorem holds_cons {first : Nat} {node : Node Label} {nodes : List (Node Label)} :
    code.Holds first (node :: nodes) ↔
      code[first]? = some node ∧ code.Holds (first + 1) nodes := by
  rw [← List.singleton_append, holds_append, List.length_singleton]
  refine and_congr_left fun _ => ?_
  -- A list of one node is a prefix of what is left iff the node is the head of it.
  rw [← Array.getElem?_toList, ← List.head?_drop, Holds]
  cases code.toList.drop first <;> simp [eq_comm]

/-- What the code holds ends within it. -/
theorem Holds.le_size {first : Nat} {nodes : List (Node Label)} (h : code.Holds first nodes)
    (hne : nodes ≠ []) : first + nodes.length ≤ code.size := by
  have hlength := h.length_le
  have hpos := List.length_pos_iff.2 hne
  have hsize : code.toList.length = code.size := Array.length_toList
  rw [List.length_drop] at hlength
  omega

/-- A node that the code holds is found by counting those in front of it. -/
theorem Holds.getElem? {first : Nat} {front back : List (Node Label)} {node : Node Label}
    (h : code.Holds first (front ++ node :: back)) : code[first + front.length]? = some node :=
  (holds_cons.1 (holds_append.1 h).2).1

/-- The nodes on either side of a position that they take up. -/
theorem Holds.exists_split {first position : Nat} {nodes : List (Node Label)} {node : Node Label}
    (h : code.Holds first nodes) (hnode : code[position]? = some node) (hfirst : first ≤ position)
    (hlast : position < first + nodes.length) :
    ∃ front back, nodes = front ++ node :: back ∧ first + front.length = position := by
  obtain ⟨k, rfl⟩ := Nat.exists_eq_add_of_le hfirst
  have hk : k < nodes.length := by omega
  -- Cut the nodes in front of the one with index `k`.
  have hsplit := List.take_append_drop k nodes
  rw [List.drop_eq_getElem_cons hk] at hsplit
  have hlength : (nodes.take k).length = k := List.length_take_of_le (Nat.le_of_lt hk)
  rw [← hsplit] at h
  have hat := h.getElem?
  rw [hlength, hnode, Option.some.injEq] at hat
  exact ⟨nodes.take k, nodes.drop (k + 1), by rw [hat, hsplit], by rw [hlength]⟩

/-- Every position that nodes take up holds one of them. -/
theorem Holds.mem {first position : Nat} {nodes : List (Node Label)} {node : Node Label}
    (h : code.Holds first nodes) (hnode : code[position]? = some node) (hfirst : first ≤ position)
    (hlast : position < first + nodes.length) : node ∈ nodes := by
  obtain ⟨front, back, rfl, -⟩ := h.exists_split hnode hfirst hlast
  exact List.mem_append_right front List.mem_cons_self

/-- Nodes stand in two codes if the codes agree where the nodes stand. -/
theorem Holds.transfer {other : Code} {first otherFirst : Nat} {nodes : List (Node Label)}
    (h : code.Holds first nodes)
    (hagree : ∀ k < nodes.length, other[otherFirst + k]? = code[first + k]?) :
    other.Holds otherFirst nodes := by
  induction nodes generalizing first otherFirst with
  | nil => exact other.holds_nil otherFirst
  | cons node rest ih =>
    obtain ⟨hnode, hrest⟩ := holds_cons.1 h
    refine holds_cons.2 ⟨?_, ih hrest fun k hk => ?_⟩
    · exact (hagree 0 (Nat.succ_pos _)).trans hnode
    · have hnext := hagree (k + 1) (Nat.succ_lt_succ hk)
      rwa [← Nat.add_assoc, ← Nat.add_assoc, Nat.add_right_comm, Nat.add_right_comm first] at hnext

/-- The first instruction from a position on is the one behind its pseudo-nodes. -/
theorem realFrom?_eq_some_iff {first found : Nat} :
    code.realFrom? first = some found ↔
      ∃ skipped node, (∀ n ∈ skipped, n.isPseudo = true) ∧ node.isPseudo = false ∧
        code.Holds first (skipped ++ [node]) ∧ found = first + skipped.length := by
  constructor
  · intro h
    fun_induction realFrom? code first with
    | case1 first hlt hpseudo ih =>
      -- A pseudo-node is one more that is skipped.
      obtain ⟨skipped, node, hskipped, hnode, hholds, rfl⟩ := ih h
      refine ⟨code[first] :: skipped, node, List.forall_mem_cons.2 ⟨hpseudo, hskipped⟩, hnode,
        holds_cons.2 ⟨Array.getElem?_eq_getElem hlt, hholds⟩, ?_⟩
      rw [List.length_cons]
      omega
    | case2 first hlt hreal =>
      refine ⟨[], code[first], by simp, by simpa using hreal, ?_, (Option.some.inj h).symm⟩
      exact holds_cons.2 ⟨Array.getElem?_eq_getElem hlt, holds_nil _ _⟩
    | case3 => exact absurd h (by simp)
  · rintro ⟨skipped, node, hskipped, hnode, hholds, rfl⟩
    induction skipped generalizing first with
    | nil =>
      obtain ⟨hfirst, -⟩ := holds_cons.1 hholds
      obtain ⟨hlt, rfl⟩ := Array.getElem?_eq_some_iff.1 hfirst
      rw [realFrom?, dif_pos hlt, if_neg (by simp [hnode])]
      rfl
    | cons pseudo rest ih =>
      obtain ⟨hpseudo, hrest⟩ := List.forall_mem_cons.1 hskipped
      rw [List.cons_append] at hholds
      obtain ⟨hfirst, hbehind⟩ := holds_cons.1 hholds
      obtain ⟨hlt, rfl⟩ := Array.getElem?_eq_some_iff.1 hfirst
      rw [realFrom?, dif_pos hlt, if_pos hpseudo, ih hrest hbehind, List.length_cons]
      congr 1
      omega

/-- What is found from a position on is an instruction. -/
theorem exists_node_of_realFrom? {first found : Nat} (h : code.realFrom? first = some found) :
    ∃ node, code[found]? = some node ∧ node.isPseudo = false := by
  obtain ⟨skipped, node, -, hnode, hholds, rfl⟩ := realFrom?_eq_some_iff.1 h
  exact ⟨node, hholds.getElem?, hnode⟩

/-- No instruction stands in front of the first one. -/
theorem le_of_realFrom? {first found position : Nat} {node : Node Label}
    (h : code.realFrom? first = some found) (hfirst : first ≤ position)
    (hat : code[position]? = some node) (hnode : node.isPseudo = false) : found ≤ position := by
  obtain ⟨skipped, real, hskipped, -, hholds, rfl⟩ := realFrom?_eq_some_iff.1 h
  refine Nat.le_of_not_lt fun hlt => ?_
  -- Otherwise the node is one of those that were skipped.
  have hmem := (holds_append.1 hholds).1.mem hat hfirst hlt
  rw [hskipped node hmem] at hnode
  exact Bool.noConfusion hnode

/-- An instruction is the first one from its own position on. -/
theorem realFrom?_of_node {position : Nat} {node : Node Label} (hat : code[position]? = some node)
    (hnode : node.isPseudo = false) : code.realFrom? position = some position := by
  refine realFrom?_eq_some_iff.2 ⟨[], node, by simp, hnode, ?_, rfl⟩
  exact holds_cons.2 ⟨hat, code.holds_nil _⟩

/-- A pseudo-node is skipped. -/
theorem realFrom?_of_isPseudo {position : Nat} {node : Node Label}
    (hat : code[position]? = some node) (hnode : node.isPseudo = true) :
    code.realFrom? position = code.realFrom? (position + 1) := by
  obtain ⟨hlt, rfl⟩ := Array.getElem?_eq_some_iff.1 hat
  rw [realFrom?, dif_pos hlt, if_pos hnode]

/-- An instruction is found at its own position. -/
theorem realFrom?_self {first found : Nat} (h : code.realFrom? first = some found) :
    code.realFrom? found = some found := by
  obtain ⟨node, hat, hnode⟩ := exists_node_of_realFrom? h
  exact realFrom?_of_node hat hnode

end Code

/-! ### Languages -/

/-- What a pattern may read: the nodes, and the bindings before and after. -/
abbrev Language := Bindings → List (Node Label) → Bindings → Prop

/-- What a node has to be like, and what it changes about the bindings. -/
abbrev Inspection := Bindings → Node Label → Bindings → Prop

namespace Inspection

/-- The opcode of the node is one of these. -/
def opcode (accepted : Opcode → Prop) : Inspection := fun before node after =>
  (∃ opcode, node.opcode? = some opcode ∧ accepted opcode) ∧ after = before

/-- The node has an operand, which unifies. -/
def operand {α : Type} (operand? : Node Label → Option α)
    (unify : Bindings → α → Bool × Bindings) : Inspection := fun before node after =>
  ∃ a, operand? node = some a ∧ unify before a = (true, after)

/-- The node calls one of these methods. -/
def callee (accepted : Member → Bool) : Inspection := fun before node after =>
  (∃ callee, node.callee? = some callee ∧ accepted callee = true) ∧ after = before

/-- Both inspections of the same node, one after the other. -/
def andThen (first second : Inspection) : Inspection := fun before node after =>
  ∃ between, first before node between ∧ second between node after

end Inspection

namespace Language

/-- Reads nothing. -/
def nothing : Language := fun before nodes after =>
  nodes = [] ∧ after = before

/-- Reads what the first language may read and then what the second one may. -/
def seq (first second : Language) : Language := fun before nodes after =>
  ∃ front back between, nodes = front ++ back ∧ first before front between ∧
    second between back after

/-- Reads what either of the languages may read. -/
def either (first second : Language) : Language := fun before nodes after =>
  first before nodes after ∨ second before nodes after

/-- Reads an instruction with any pseudo-nodes in front of it. -/
def instruction (inspection : Inspection) : Language := fun before nodes after =>
  ∃ skipped node, nodes = skipped ++ [node] ∧ (∀ n ∈ skipped, n.isPseudo = true) ∧
    node.isPseudo = false ∧ inspection before node after

/-- Reads the placement of a label, and no other pseudo-node before it. -/
def placement (key : Key) : Language := fun before nodes after =>
  ∃ label, nodes = [.label label] ∧ before.unifyLabel key label = (true, after)

/-- A load or store of the key's slot. -/
def var (opcode : Opcode) (key : Key) : Language :=
  instruction ((Inspection.opcode (· = opcode)).andThen
    (.operand Node.slot? (·.unifySlot key)))

/-- A jump to the key's label. -/
def jump (opcode : Opcode) (key : Key) : Language :=
  instruction ((Inspection.opcode (· = opcode)).andThen
    (.operand Node.target? (·.unifyLabel key)))

/-- A call of a method that `accepted` holds of. -/
def call (opcode : Opcode) (accepted : Member → Bool) : Language :=
  instruction ((Inspection.opcode (· = opcode)).andThen (.callee accepted))

/-- A load of the key's slot and a call of `close` on the key's owner. -/
def close (key : Key) : Language :=
  (var .aload key).seq (instruction (.operand Cursor.closedOwner? (·.unifyOwner key)))

/-- The call that adds the exception of the key to those that the primary one suppresses. -/
def addSuppressed (key : Key) : Language :=
  (var .aload (Symbol.primaryException.resolve .method)).seq <|
    (var .aload key).seq <|
      call .invokeVirtual fun callee =>
        callee.owner = "java/lang/Throwable" && callee.name = "addSuppressed"

/-- The return of a value. -/
def valueReturn : Language :=
  instruction (.opcode (·.isValueReturn = true))

/-- Reads the same after the label of the key has become unknown. -/
def forgetting (key : Key) (language : Language) : Language := fun before nodes after =>
  language (before.forgetLabel key) nodes after

/-- The return of a value, loaded just before, or a jump to the key's label. -/
def exit (key : Key) : Language :=
  ((instruction (.opcode (·.isVarLoad = true))).seq (valueReturn.forgetting key)).either
    (jump .goto key)

/-- The placement of the key's label, if the key has one. -/
def joinLabel (key : Key) : Language := fun before nodes after =>
  if (before.labels key).isSome then placement key before nodes after
  else nothing before nodes after

end Language

/-- What a step may read in a scope. -/
def Step.language (scope : Scope) : Step → Language
  | .op opcode => .instruction (.opcode (· = opcode))
  | .var opcode slot => .var opcode (slot.resolve scope)
  | .jump opcode target => .jump opcode (target.resolve scope)
  | .label name => .placement (name.resolve scope)
  | .close resource => .close (resource.resolve scope)
  | .addSuppressed exception => .addSuppressed (exception.resolve scope)
  | .invoke opcode name desc => .call opcode fun callee => callee.name = name && callee.desc = desc
  | .exit target => .exit (target.resolve scope)
  | .joinLabel name => .joinLabel (name.resolve scope)

namespace Language

/-- What steps may read in a scope, one after the other. -/
def ofSteps (scope : Scope) : List Step → Language
  | [] => nothing
  | first :: rest => (first.language scope).seq (ofSteps scope rest)

/-- What segments may read, one after the other. -/
def ofSegments : List Segment → Language
  | [] => nothing
  | first :: rest => (ofSteps first.scope first.steps).seq (ofSegments rest)

/-- Nothing in front of a language is left out. -/
theorem nothing_seq (language : Language) : nothing.seq language = language := by
  funext before nodes after
  rw [eq_iff_iff]
  constructor
  · rintro ⟨_, back, _, rfl, ⟨rfl, rfl⟩, h⟩
    exact h
  · intro h
    exact ⟨[], nodes, before, rfl, ⟨rfl, rfl⟩, h⟩

/-- Nothing behind a language is left out. -/
theorem seq_nothing (language : Language) : language.seq nothing = language := by
  funext before nodes after
  rw [eq_iff_iff]
  constructor
  · rintro ⟨front, _, _, rfl, h, rfl, rfl⟩
    rwa [List.append_nil]
  · intro h
    exact ⟨nodes, [], after, (List.append_nil nodes).symm, h, rfl, rfl⟩

/-- Languages one after the other may be taken together in any way. -/
theorem seq_assoc (first second third : Language) :
    (first.seq second).seq third = first.seq (second.seq third) := by
  funext before nodes after
  rw [eq_iff_iff]
  constructor
  · rintro ⟨_, w, _, rfl, ⟨u, v, between, rfl, hu, hv⟩, hw⟩
    exact ⟨u, v ++ w, between, List.append_assoc _ _ _, hu, v, w, _, rfl, hv, hw⟩
  · rintro ⟨u, _, between, rfl, hu, v, w, between', rfl, hv, hw⟩
    exact ⟨u ++ v, w, between', (List.append_assoc _ _ _).symm, ⟨u, v, between, rfl, hu, hv⟩, hw⟩

/-- What follows a choice follows each side. -/
theorem either_seq (first second third : Language) :
    (first.either second).seq third = (first.seq third).either (second.seq third) := by
  funext before nodes after
  rw [eq_iff_iff]
  constructor
  · rintro ⟨u, v, between, hnodes, hu | hu, hv⟩
    · exact .inl ⟨u, v, between, hnodes, hu, hv⟩
    · exact .inr ⟨u, v, between, hnodes, hu, hv⟩
  · rintro (⟨u, v, between, hnodes, hu, hv⟩ | ⟨u, v, between, hnodes, hu, hv⟩)
    · exact ⟨u, v, between, hnodes, .inl hu, hv⟩
    · exact ⟨u, v, between, hnodes, .inr hu, hv⟩

/-- A choice may be made before what is in front of it. -/
theorem seq_either (first second third : Language) :
    first.seq (second.either third) = (first.seq second).either (first.seq third) := by
  funext before nodes after
  rw [eq_iff_iff]
  constructor
  · rintro ⟨u, v, between, hnodes, hu, hv | hv⟩
    · exact .inl ⟨u, v, between, hnodes, hu, hv⟩
    · exact .inr ⟨u, v, between, hnodes, hu, hv⟩
  · rintro (⟨u, v, between, hnodes, hu, hv⟩ | ⟨u, v, between, hnodes, hu, hv⟩)
    · exact ⟨u, v, between, hnodes, hu, .inl hv⟩
    · exact ⟨u, v, between, hnodes, hu, .inr hv⟩

/-- So may a choice among any number of languages. -/
theorem seq_exists {ι : Type} (first : Language) (second : ι → Language) :
    (first.seq fun before nodes after => ∃ i, second i before nodes after) =
      fun before nodes after => ∃ i, (first.seq (second i)) before nodes after := by
  funext before nodes after
  rw [eq_iff_iff]
  constructor
  · rintro ⟨u, v, between, hnodes, hu, i, hv⟩
    exact ⟨i, u, v, between, hnodes, hu, hv⟩
  · rintro ⟨i, u, v, between, hnodes, hu, hv⟩
    exact ⟨u, v, between, hnodes, hu, i, hv⟩

/-- Segments are read one after the other. -/
theorem ofSegments_append (front back : List Segment) :
    ofSegments (front ++ back) = (ofSegments front).seq (ofSegments back) := by
  induction front with
  | nil => exact (nothing_seq _).symm
  | cons first rest ih => rw [List.cons_append, ofSegments, ofSegments, ih, seq_assoc]

end Language

end CleanupFilter
