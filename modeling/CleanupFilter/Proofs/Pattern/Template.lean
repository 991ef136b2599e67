import CleanupFilter.Proofs.Pattern.Language

/-!
# Templates

A template says what nodes are to be read when every operand that counts is given beforehand. It
neither binds anything nor depends on what has been bound, so that it can be compared with code on
its own.

- `Template`: what nodes have to be like, with `Template.sequence` for one after the other.
- `Template.Spans`: the nodes between two positions are what the template reads.
- `Exit`: the two ways in which a block is left, and what either of them reads.
- `Valuation`: a slot, a label and an owner for every key.
- `Step.templates`, `Segment.templates`: what steps and segments ask for under a valuation.
-/

namespace CleanupFilter

/-! ### Nodes with given operands -/

/-- What nodes have to be like, whatever is bound. -/
abbrev Template := List (Node Label) → Prop

namespace Template

/-- Reads what the templates read, one after the other. -/
def sequence : List Template → Template
  | [] => fun nodes => nodes = []
  | first :: rest => fun nodes =>
    ∃ front back, nodes = front ++ back ∧ first front ∧ sequence rest back

/-- Reads an instruction with any pseudo-nodes in front of it. -/
def instruction (accepted : Node Label → Prop) : Template := fun nodes =>
  ∃ skipped node, nodes = skipped ++ [node] ∧ (∀ n ∈ skipped, n.isPseudo = true) ∧
    node.isPseudo = false ∧ accepted node

/-- An instruction with the opcode. -/
def opcode (opcode : Opcode) : Template :=
  instruction fun node => node.opcode? = some opcode

/-- A typed load of any slot. -/
def load : Template :=
  instruction fun node => ∃ opcode, node.opcode? = some opcode ∧ opcode.isVarLoad = true

/-- The return of a value. -/
def valueReturn : Template :=
  instruction fun node => ∃ opcode, node.opcode? = some opcode ∧ opcode.isValueReturn = true

/-- A load or store with the opcode, of the slot. -/
def var (opcode : Opcode) (slot : UInt16) : Template :=
  instruction fun node => node.opcode? = some opcode ∧ node.slot? = some slot

/-- A jump with the opcode, to the label. -/
def jump (opcode : Opcode) (target : Label) : Template :=
  instruction fun node => node.opcode? = some opcode ∧ node.target? = some target

/-- The placement of the label, and no other pseudo-node before it. -/
def placement (label : Label) : Template := fun nodes =>
  nodes = [.label label]

/-- A call with the opcode of a method that `accepted` holds of. -/
def call (opcode : Opcode) (accepted : Member → Bool) : Template :=
  instruction fun node => node.opcode? = some opcode ∧
    ∃ callee, node.callee? = some callee ∧ accepted callee = true

/-- The call of a method by its name and descriptor, whatever its owner is. -/
def callNamed (opcode : Opcode) (name desc : String) : Template :=
  call opcode fun callee => callee.name = name && callee.desc = desc

/-- The call of the owner's `close` on an object. -/
def callClose (owner : String) : Template :=
  instruction fun node => ∃ opcode interface,
    (opcode = .invokeInterface ∨ opcode = .invokeVirtual) ∧
      node = .method opcode ⟨owner, "close", "()V"⟩ interface

/-- The call of `addSuppressed` on an exception. -/
def callAddSuppressed : Template :=
  call .invokeVirtual fun callee =>
    callee.owner = "java/lang/Throwable" && callee.name = "addSuppressed"

/-- The nodes from `first` to `last` are what the template reads. A template that reads nothing has
the position in front of `first` for `last`. -/
def Spans (code : Code) (template : Template) (first last : Nat) : Prop :=
  ∃ nodes, template nodes ∧ code.Holds first nodes ∧ last + 1 = first + nodes.length

/-- A choice of templates spans what one of them does. -/
theorem spans_exists_iff {code : Code} {ι : Type} {template : ι → Template} {first last : Nat} :
    Spans code (fun nodes => ∃ i, template i nodes) first last ↔
      ∃ i, (template i).Spans code first last := by
  constructor
  · rintro ⟨nodes, ⟨i, hnodes⟩, hholds, hlast⟩
    exact ⟨i, nodes, hnodes, hholds, hlast⟩
  · rintro ⟨i, nodes, hnodes, hholds, hlast⟩
    exact ⟨nodes, ⟨i, hnodes⟩, hholds, hlast⟩

/-- A template that is what a language reads from the start spans what the language reads. -/
theorem spans_iff {code : Code} {language : Language} {template : Template} {first last : Nat}
    (h : ∀ nodes, (∃ after, language .empty nodes after) ↔ template nodes) :
    template.Spans code first last ↔ ∃ nodes after, language .empty nodes after ∧
      code.Holds first nodes ∧ last + 1 = first + nodes.length := by
  constructor
  · rintro ⟨nodes, hnodes, hholds, hlast⟩
    obtain ⟨after, hnodes⟩ := (h nodes).2 hnodes
    exact ⟨nodes, after, hnodes, hholds, hlast⟩
  · rintro ⟨nodes, after, hnodes, hholds, hlast⟩
    exact ⟨nodes, (h nodes).1 ⟨after, hnodes⟩, hholds, hlast⟩

/-- A single template is a sequence. -/
theorem sequence_singleton {template : Template} {nodes : List (Node Label)} :
    sequence [template] nodes ↔ template nodes := by
  constructor
  · rintro ⟨front, back, rfl, hfront, rfl⟩
    rwa [List.append_nil]
  · intro h
    exact ⟨nodes, [], (List.append_nil nodes).symm, h, rfl⟩

/-- Templates fit one after the other if each part does. -/
theorem sequence_append {first second : List Template} {nodes : List (Node Label)} :
    sequence (first ++ second) nodes ↔
      ∃ front back, nodes = front ++ back ∧ sequence first front ∧ sequence second back := by
  induction first generalizing nodes with
  | nil =>
    constructor
    · intro h
      exact ⟨[], nodes, rfl, rfl, h⟩
    · rintro ⟨front, back, rfl, rfl, h⟩
      exact h
  | cons template rest ih =>
    constructor
    -- The first template takes its nodes, and the others are split.
    · rintro ⟨front, back, rfl, hfront, hback⟩
      obtain ⟨middle, last, rfl, hmiddle, hlast⟩ := ih.1 hback
      exact ⟨front ++ middle, last, (List.append_assoc _ _ _).symm,
        ⟨front, middle, rfl, hfront, hmiddle⟩, hlast⟩
    · rintro ⟨_, last, rfl, ⟨front, middle, rfl, hfront, hmiddle⟩, hlast⟩
      exact ⟨front, middle ++ last, List.append_assoc _ _ _, hfront,
        ih.2 ⟨middle, last, rfl, hmiddle, hlast⟩⟩

end Template

/-! ### Ways out of a block -/

/-- How a block is left. -/
inductive Exit
  /-- By a jump. -/
  | jump
  /-- By the return of a value. -/
  | valueReturn

namespace Exit

/-- What is read where the block is left: a jump to the label, or a typed load and the return of the
value. -/
def templates (target : Label) : Exit → List Template
  | jump => [.jump .goto target]
  | valueReturn => [.load, .valueReturn]

/-- What is read where the code goes on: the label, if there is a jump to it. -/
def join (target : Label) : Exit → List Template
  | jump => [.placement target]
  | valueReturn => []

/-- The keys that have labels behind the exit, if those in `keys` have labels in front of it. A
return makes the label unknown that a jump would lead to. -/
def labelKeys (target : Key) (keys : List Key) : Exit → List Key
  | jump => keys ++ [target]
  | valueReturn => keys.filter (· ≠ target)

/-- The label is asked for behind the exit exactly if it was jumped to. -/
theorem join_eq (exit : Exit) {target : Key} {keys others : List Key} (h : target ∉ others)
    (label : Label) :
    (if target ∈ exit.labelKeys target keys ++ others then [.placement label] else []) =
      exit.join label := by
  cases exit <;> simp [labelKeys, join, h]

end Exit

/-! ### Steps under a valuation -/

/-- Operands for all keys. -/
structure Valuation where
  /-- The local variable slot of a key. -/
  slots : Key → UInt16
  /-- The label of a key. -/
  labels : Key → Label
  /-- The class whose `close` method is called under a key. -/
  owners : Key → String

/-- The keys whose labels a step names by a jump or by a placement. -/
def Step.labelKeys (scope : Scope) : Step → List Key
  | .jump _ target => [target.resolve scope]
  | .label name => [name.resolve scope]
  | .op _ | .var _ _ | .close _ | .addSuppressed _ | .invoke _ _ _ | .exit _ | .joinLabel _ => []

/-- What a step asks for under a valuation. Only `joinLabel` looks at the keys that were named
`earlier`. -/
def Step.templates (values : Valuation) (scope : Scope) (earlier : List Key) : Step → List Template
  | .op opcode => [.opcode opcode]
  | .var opcode slot => [.var opcode (values.slots (slot.resolve scope))]
  | .jump opcode target => [.jump opcode (values.labels (target.resolve scope))]
  | .label name => [.placement (values.labels (name.resolve scope))]
  | .close resource =>
    [.var .aload (values.slots (resource.resolve scope)),
      .callClose (values.owners (resource.resolve scope))]
  | .addSuppressed exception =>
    [.var .aload (values.slots (Symbol.primaryException.resolve .method)),
      .var .aload (values.slots (exception.resolve scope)), .callAddSuppressed]
  | .invoke opcode name desc => [.callNamed opcode name desc]
  | .exit target => [fun nodes =>
      ∃ exit : Exit, Template.sequence (exit.templates (values.labels (target.resolve scope))) nodes]
  | .joinLabel name =>
    if name.resolve scope ∈ earlier then [.placement (values.labels (name.resolve scope))] else []

/-- What steps ask for in a scope. -/
def Step.templatesOf (values : Valuation) (scope : Scope) :
    (earlier : List Key) → List Step → List Template
  | _, [] => []
  | earlier, first :: rest =>
    first.templates values scope earlier ++
      templatesOf values scope (earlier ++ first.labelKeys scope) rest

/-- The keys whose labels the steps of a segment name by jumps or by placements. -/
def Segment.labelKeys (segment : Segment) : List Key :=
  segment.steps.flatMap (Step.labelKeys segment.scope)

/-- What segments ask for. -/
def Segment.templates (values : Valuation) : (earlier : List Key) → List Segment → List Template
  | _, [] => []
  | earlier, first :: rest =>
    Step.templatesOf values first.scope earlier first.steps ++
      templates values (earlier ++ first.labelKeys) rest

/-- The step neither leaves a block nor asks for a label only where it is known. -/
def Step.isPlain : Step → Bool
  | .exit _ | .joinLabel _ => false
  | .op _ | .var _ _ | .jump _ _ | .label _ | .close _ | .addSuppressed _ | .invoke _ _ _ => true

/-- Plain steps leave no block. -/
theorem Step.exit_notMem {steps : List Step} (hsteps : ∀ s ∈ steps, s.isPlain = true)
    (target : Symbol) : .exit target ∉ steps := fun hmem =>
  Bool.noConfusion (hsteps _ hmem)

/-- For plain steps it does not matter which keys were named earlier. -/
theorem Step.templatesOf_eq_flatMap {values : Valuation} {scope : Scope} {steps : List Step}
    (hsteps : ∀ s ∈ steps, s.isPlain = true) (earlier : List Key) :
    templatesOf values scope earlier steps = steps.flatMap (templates values scope []) := by
  induction steps generalizing earlier with
  | nil => rfl
  | cons first rest ih =>
    obtain ⟨hplain, hrest⟩ := List.forall_mem_cons.1 hsteps
    have hfirst : first.templates values scope earlier = first.templates values scope [] := by
      cases first with
      | joinLabel name => exact absurd hplain (by simp [isPlain])
      | _ => rfl
    rw [templatesOf, hfirst, ih hrest, List.flatMap_cons]

/-- For plain segments it does not matter either. -/
theorem Segment.templates_eq_flatMap {values : Valuation} {segments : List Segment}
    (hsegments : ∀ segment ∈ segments, ∀ s ∈ segment.steps, s.isPlain = true)
    (earlier : List Key) :
    templates values earlier segments = segments.flatMap fun segment =>
      segment.steps.flatMap (Step.templates values segment.scope []) := by
  induction segments generalizing earlier with
  | nil => rfl
  | cons first rest ih =>
    obtain ⟨hfirst, hrest⟩ := List.forall_mem_cons.1 hsegments
    rw [templates, Step.templatesOf_eq_flatMap hfirst, ih hrest, List.flatMap_cons]

end CleanupFilter
