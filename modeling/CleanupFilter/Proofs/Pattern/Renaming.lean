import Mathlib.Logic.Function.Basic
import CleanupFilter.Proofs.Pattern.Recognition

/-!
# Patterns under other names

A pattern compares operands with each other and never looks at one of them by itself, apart from
one class name. Running it on code whose operands have been renamed one to one therefore gives the
same answer, and the cursor that is left has its bindings renamed.

- `Renaming`: new names for slots, labels and the classes of called methods.
- `Node.rename`, `Bindings.rename`, `Cursor.rename`: nodes and cursors under the new names.
- `Renames`: a primitive that answers the same under either names.
- `Cursor.renames_step`, `Cursor.renames_runSegments`: steps and segments do.
-/

namespace CleanupFilter

/-- New names for local slots, labels and the classes of called methods, given one to one. The class
that patterns mention keeps its name. -/
structure Renaming where
  /-- The new slot of a local variable. -/
  slot : UInt16 → UInt16
  /-- The new identity of a label. -/
  label : Label → Label
  /-- The new name of a class. -/
  owner : String → String
  slot_injective : Function.Injective slot
  label_injective : Function.Injective label
  owner_injective : Function.Injective owner
  owner_throwable : owner "java/lang/Throwable" = "java/lang/Throwable"

variable (r : Renaming)

/-! ### What is renamed -/

/-- The member with its class renamed. -/
def Member.rename (member : Member) : Member :=
  { member with owner := r.owner member.owner }

/-- The node with its slot, its label or the class of the method that it calls renamed. -/
def Node.rename : Node Label → Node Label
  | var opcode slot => var opcode (r.slot slot)
  | iinc slot increment => iinc (r.slot slot) increment
  | method opcode target interface => method opcode (target.rename r) interface
  | node => node.mapLabel r.label

/-- The code with its operands renamed. -/
def Code.rename (code : Code) : Code :=
  code.map (Node.rename r)

/-- The bindings with the values of all keys renamed. -/
def Bindings.rename (bindings : Bindings) : Bindings where
  slots key := (bindings.slots key).map r.slot
  labels key := (bindings.labels key).map r.label
  owners key := (bindings.owners key).map r.owner

/-- The cursor with its bindings renamed. -/
def Cursor.rename (cursor : Cursor) : Cursor :=
  { cursor with bindings := cursor.bindings.rename r }

/-! ### Nodes -/

namespace Node

variable (node : Node Label)

/-- A renamed node has the same opcode. -/
@[simp]
theorem opcode?_rename : (node.rename r).opcode? = node.opcode? := by
  cases node <;> rfl

@[simp]
theorem isPseudo_rename : (node.rename r).isPseudo = node.isPseudo := by
  cases node <;> rfl

@[simp]
theorem slot?_rename : (node.rename r).slot? = node.slot?.map r.slot := by
  cases node <;> rfl

@[simp]
theorem target?_rename : (node.rename r).target? = node.target?.map r.label := by
  cases node <;> rfl

@[simp]
theorem placed?_rename : (node.rename r).placed? = node.placed?.map r.label := by
  cases node <;> rfl

@[simp]
theorem callee?_rename : (node.rename r).callee? = node.callee?.map (Member.rename r) := by
  cases node <;> rfl

@[simp]
theorem closedOwner?_rename :
    Cursor.closedOwner? (node.rename r) = (Cursor.closedOwner? node).map r.owner := by
  cases node with
  | method opcode target interface =>
    -- Whether `close` is called does not depend on the class that it is called on.
    simp only [rename, Member.rename, Cursor.closedOwner?]
    split <;> rfl
  | _ => rfl

/-- Only a label is renamed to a label. -/
theorem rename_eq_label_iff {label : Label} :
    node.rename r = .label (r.label label) ↔ node = .label label := by
  cases node with
  | label name =>
    simp only [rename, mapLabel, Node.label.injEq]
    exact r.label_injective.eq_iff
  | _ => simp [rename, mapLabel]

end Node

/-! ### Positions -/

namespace Code

variable (code : Code)

/-- Renamed code has as many nodes. -/
@[simp]
theorem size_rename : (code.rename r).size = code.size :=
  Array.size_map

/-- Renamed code has the renamed nodes at their positions. -/
@[simp]
theorem getElem?_rename (position : Nat) :
    (code.rename r)[position]? = code[position]?.map (Node.rename r) :=
  Array.getElem?_map

/-- Renamed code has instructions at the same positions. -/
@[simp]
theorem realFrom?_rename (position : Nat) :
    (code.rename r).realFrom? position = code.realFrom? position := by
  fun_induction realFrom? code position with
  | case1 position hlt hpseudo ih =>
    rw [realFrom?, dif_pos (by simpa using hlt), if_pos (by simpa [rename] using hpseudo), ih]
  | case2 position hlt hreal =>
    rw [realFrom?, dif_pos (by simpa using hlt), if_neg (by simpa [rename] using hreal)]
  | case3 position hle => rw [realFrom?, dif_neg (by simpa using hle)]

@[simp]
theorem nextReal?_rename (position : Nat) :
    (code.rename r).nextReal? position = code.nextReal? position :=
  realFrom?_rename r code (position + 1)

@[simp]
theorem next?_rename (position : Nat) : (code.rename r).next? position = code.next? position := by
  rw [next?, next?, size_rename]

@[simp]
theorem prev?_rename (position : Nat) : (code.rename r).prev? position = code.prev? position := by
  rw [prev?, prev?, size_rename]

/-- A renamed label is placed where the label was. -/
@[simp]
theorem placement?_rename (label : Label) :
    (code.rename r).placement? (r.label label) = code.placement? label := by
  -- A position holds the one label exactly where it held the other.
  have hplaced : ∀ position : Nat,
      (code.rename r)[position]? = some (Node.label (r.label label)) ↔
        code[position]? = some (Node.label label) := by
    intro position
    rw [getElem?_rename]
    cases code[position]? with
    | none => simp
    | some node => simp [Node.rename_eq_label_iff]
  simp only [placement?, positions, size_rename, hplaced]

end Code

/-! ### Cursors -/

namespace Cursor

variable (code : Code) (cursor : Cursor)

@[simp]
theorem position_rename : (cursor.rename r).position = cursor.position := rfl

@[simp]
theorem bindings_rename : (cursor.rename r).bindings = cursor.bindings.rename r := rfl

/-- As much remains of renamed code. -/
@[simp]
theorem remaining_rename : (cursor.rename r).remaining (code.rename r) = cursor.remaining code := by
  simp [remaining]

/-- A cursor is at the renamed node in renamed code. -/
@[simp]
theorem current?_rename :
    (cursor.rename r).current? (code.rename r) = (cursor.current? code).map (Node.rename r) := by
  rcases cursor with ⟨_ | position, bindings⟩ <;> simp [current?]

/-- A cursor advances alike in renamed code. -/
@[simp]
theorem advance_rename :
    (cursor.rename r).advance (code.rename r) = (cursor.advance code).rename r := by
  simp only [advance, rename, Code.nextReal?_rename]

@[simp]
theorem advanceLiteral_rename :
    (cursor.rename r).advanceLiteral (code.rename r) = (cursor.advanceLiteral code).rename r := by
  simp only [advanceLiteral, rename, Code.next?_rename]

/-- A cursor sees the same opcode in renamed code. -/
@[simp]
theorem opcode?_rename : (cursor.rename r).opcode? (code.rename r) = cursor.opcode? code := by
  rw [opcode?, opcode?, current?_rename]
  cases cursor.current? code <;> simp

/-- A cursor looks ahead alike in renamed code. -/
@[simp]
theorem peek?_rename : (cursor.rename r).peek? (code.rename r) = cursor.peek? code := by
  rw [peek?, peek?, advance_rename, opcode?_rename]

end Cursor

/-! ### Bindings -/

/-- Unifying renamed values is unifying the values, as equal names come from equal values. -/
theorem unify_map {α : Type} [DecidableEq α] {f : α → α} (hf : Function.Injective f)
    (bound : Key → Option α) (key : Key) (a : α) :
    unify (fun k => (bound k).map f) key (f a) =
      ((unify bound key a).1, fun k => ((unify bound key a).2 k).map f) := by
  cases hbound : bound key with
  | some known => simp [unify, hbound, hf.eq_iff]
  | none =>
    simp only [unify, hbound, Option.map_none, Prod.mk.injEq, true_and]
    funext k
    split <;> rfl

namespace Bindings

variable (bindings : Bindings) (key : Key)

/-- A renamed slot unifies with renamed bindings as the slot does with the bindings. -/
theorem unifySlot_rename (slot : UInt16) :
    (bindings.rename r).unifySlot key (r.slot slot) =
      ((bindings.unifySlot key slot).1, (bindings.unifySlot key slot).2.rename r) := by
  simp only [unifySlot, rename, unify_map r.slot_injective]

theorem unifyLabel_rename (label : Label) :
    (bindings.rename r).unifyLabel key (r.label label) =
      ((bindings.unifyLabel key label).1, (bindings.unifyLabel key label).2.rename r) := by
  simp only [unifyLabel, rename, unify_map r.label_injective]

theorem unifyOwner_rename (owner : String) :
    (bindings.rename r).unifyOwner key (r.owner owner) =
      ((bindings.unifyOwner key owner).1, (bindings.unifyOwner key owner).2.rename r) := by
  simp only [unifyOwner, rename, unify_map r.owner_injective]

/-- A label is forgotten alike. -/
theorem forgetLabel_rename :
    (bindings.rename r).forgetLabel key = (bindings.forgetLabel key).rename r := by
  simp only [forgetLabel, rename, mk.injEq, true_and, and_true]
  funext k
  split <;> rfl

end Bindings

/-! ### Primitives -/

/-- On renamed cursors the one primitive answers as the other one does on the cursors themselves,
and leaves what the other one leaves, renamed. -/
def Renames (renamed original : Primitive) : Prop :=
  ∀ cursor : Cursor,
    renamed (cursor.rename r) = ((original cursor).1, (original cursor).2.rename r)

variable {r}

/-- What always succeeds does so in renamed code. -/
theorem renames_accept : Renames r .accept .accept :=
  fun _ => rfl

/-- Primitives one after the other act alike in renamed code if each of them does. -/
theorem renames_andThen {first second first' second' : Primitive} (hfirst : Renames r first first')
    (hsecond : Renames r second second') :
    Renames r (first.andThen second) (first'.andThen second') := by
  intro cursor
  rw [Primitive.andThen, Primitive.andThen, hfirst cursor]
  rcases first' cursor with ⟨_ | _, next⟩
  · rfl
  · exact hsecond next

/-- A primitive that acts alike is followed alike. -/
theorem Renames.follow? {renamed original : Primitive} (h : Renames r renamed original)
    (cursor : Cursor) :
    renamed.follow? (cursor.rename r) = (original.follow? cursor).map (Cursor.rename r) := by
  rw [Primitive.follow?, Primitive.follow?, h cursor]
  rcases original cursor with ⟨_ | _, next⟩ <;> rfl

namespace Cursor

variable {code : Code}

/-- A primitive that unifies an operand of the current node. -/
theorem renames_operand {α : Type} {operand? : Node Label → Option α} {f : α → α}
    (primitive : Code → Primitive) (unify : Bindings → α → Bool × Bindings)
    (hnone : ∀ code cursor, (cursor.current? code).bind operand? = none →
      primitive code cursor = (false, cursor))
    (hsome : ∀ code cursor a, (cursor.current? code).bind operand? = some a →
      primitive code cursor =
        ((unify cursor.bindings a).1, { cursor with bindings := (unify cursor.bindings a).2 }))
    (hoperand : ∀ node : Node Label, operand? (node.rename r) = (operand? node).map f)
    (hunify : ∀ bindings a, unify (bindings.rename r) (f a) =
      ((unify bindings a).1, (unify bindings a).2.rename r)) :
    Renames r (primitive (code.rename r)) (primitive code) := by
  intro cursor
  -- Both nodes have the operand or none has it.
  have hcurrent : ((cursor.rename r).current? (code.rename r)).bind operand? =
      ((cursor.current? code).bind operand?).map f := by
    rw [current?_rename]
    cases cursor.current? code <;> simp [hoperand]
  cases h : (cursor.current? code).bind operand? with
  | none =>
    rw [h, Option.map_none] at hcurrent
    rw [hnone _ _ h, hnone _ _ hcurrent]
  | some a =>
    rw [h, Option.map_some] at hcurrent
    rw [hsome _ _ _ h, hsome _ _ _ hcurrent, bindings_rename, hunify]
    rfl

/-- Slots are bound alike in renamed code. -/
theorem renames_bindSlot (key : Key) :
    Renames r (bindSlot (code.rename r) key) (bindSlot code key) :=
  renames_operand (fun code => bindSlot code key) (·.unifySlot key)
    (fun _ _ h => by rw [bindSlot, h]) (fun _ _ _ h => by rw [bindSlot, h]) (Node.slot?_rename r)
    fun bindings => bindings.unifySlot_rename r key

theorem renames_bindTarget (key : Key) :
    Renames r (bindTarget (code.rename r) key) (bindTarget code key) :=
  renames_operand (fun code => bindTarget code key) (·.unifyLabel key)
    (fun _ _ h => by rw [bindTarget, h]) (fun _ _ _ h => by rw [bindTarget, h]) (Node.target?_rename r)
    fun bindings => bindings.unifyLabel_rename r key

theorem renames_bindPlaced (key : Key) :
    Renames r (bindPlaced (code.rename r) key) (bindPlaced code key) :=
  renames_operand (fun code => bindPlaced code key) (·.unifyLabel key)
    (fun _ _ h => by rw [bindPlaced, h]) (fun _ _ _ h => by rw [bindPlaced, h]) (Node.placed?_rename r)
    fun bindings => bindings.unifyLabel_rename r key

theorem renames_bindOwner (key : Key) :
    Renames r (bindOwner (code.rename r) key) (bindOwner code key) :=
  renames_operand (fun code => bindOwner code key) (·.unifyOwner key)
    (fun _ _ h => by rw [bindOwner, h]) (fun _ _ _ h => by rw [bindOwner, h]) (Node.closedOwner?_rename r)
    fun bindings => bindings.unifyOwner_rename r key

/-- A test of the called method that renaming its class does not change. -/
theorem renames_checkCallee {accepted : Member → Bool}
    (h : ∀ member : Member, accepted (member.rename r) = accepted member) :
    Renames r (checkCallee (code.rename r) accepted) (checkCallee code accepted) := by
  intro cursor
  rw [checkCallee, checkCallee, current?_rename]
  cases cursor.current? code with
  | none => rfl
  | some node => cases hcallee : node.callee? <;> simp [hcallee, h]

/-- The next instruction is looked for alike in renamed code. -/
theorem renames_advancing : Renames r (advancing (code.rename r)) (advancing code) := by
  intro cursor
  rw [advancing, advancing, advance_rename]

/-- Opcodes are expected alike in renamed code. -/
theorem renames_expect (opcode : Opcode) :
    Renames r (expect (code.rename r) opcode) (expect code opcode) := by
  intro cursor
  simp only [expect, advance_rename, opcode?_rename]

theorem renames_expectVar (opcode : Opcode) (key : Key) :
    Renames r (expectVar (code.rename r) opcode key) (expectVar code opcode key) :=
  renames_andThen (renames_expect opcode) (renames_bindSlot key)

theorem renames_expectJump (opcode : Opcode) (key : Key) :
    Renames r (expectJump (code.rename r) opcode key) (expectJump code opcode key) :=
  renames_andThen (renames_expect opcode) (renames_bindTarget key)

theorem renames_expectLabel (key : Key) :
    Renames r (expectLabel (code.rename r) key) (expectLabel code key) := by
  intro cursor
  rw [expectLabel, expectLabel, advanceLiteral_rename]
  exact renames_bindPlaced key _

theorem renames_expectClose (key : Key) :
    Renames r (expectClose (code.rename r) key) (expectClose code key) :=
  renames_andThen (renames_expectVar .aload key)
    (renames_andThen renames_advancing (renames_bindOwner key))

/-- The class whose method is called is compared with one name, which stays as it is. -/
theorem renames_expectAddSuppressed (key : Key) :
    Renames r (expectAddSuppressed (code.rename r) key) (expectAddSuppressed code key) := by
  have howner : ∀ name : String,
      r.owner name = "java/lang/Throwable" ↔ name = "java/lang/Throwable" := by
    intro name
    exact ⟨fun h => r.owner_injective (h.trans r.owner_throwable.symm),
      fun h => by rw [h, r.owner_throwable]⟩
  refine renames_andThen (renames_expectVar .aload _) ?_
  refine renames_andThen (renames_expectVar .aload key) ?_
  refine renames_andThen (renames_expect .invokeVirtual) (renames_checkCallee fun member => ?_)
  rw [Member.rename, decide_eq_decide.2 (howner member.owner)]

theorem renames_expectInvoke (opcode : Opcode) (name desc : String) :
    Renames r (expectInvoke (code.rename r) opcode name desc) (expectInvoke code opcode name desc) :=
  renames_andThen (renames_expect opcode) (renames_checkCallee fun _ => rfl)

theorem renames_expectValueReturn :
    Renames r (expectValueReturn (code.rename r)) (expectValueReturn code) := by
  intro cursor
  simp only [expectValueReturn, advance_rename, opcode?_rename]

/-- A block is left alike in renamed code. -/
theorem renames_exit (key : Key) : Renames r (exit (code.rename r) key) (exit code key) := by
  intro cursor
  rw [exit, exit, peek?_rename]
  -- The same branch is taken under either names.
  split
  · simp only [advance_rename, bindings_rename, Bindings.forgetLabel_rename]
    exact renames_expectValueReturn
      ⟨(cursor.advance code).position, (cursor.advance code).bindings.forgetLabel key⟩
  · exact renames_expectJump .goto key cursor

theorem renames_joinLabel (key : Key) :
    Renames r (joinLabel (code.rename r) key) (joinLabel code key) := by
  intro cursor
  have hbound : ((cursor.rename r).bindings.labels key).isSome =
      (cursor.bindings.labels key).isSome := by
    simp [Bindings.rename]
  rw [joinLabel, joinLabel, hbound]
  split
  · exact renames_expectLabel key cursor
  · rfl

/-! ### Patterns -/

/-- A step answers the same under either names. -/
theorem renames_step (scope : Scope) (s : Step) :
    Renames r (step (code.rename r) scope s) (step code scope s) := by
  cases s with
  | op opcode => exact renames_expect opcode
  | var opcode slot => exact renames_expectVar opcode _
  | jump opcode target => exact renames_expectJump opcode _
  | label name => exact renames_expectLabel _
  | close resource => exact renames_expectClose _
  | addSuppressed exception => exact renames_expectAddSuppressed _
  | invoke opcode name desc => exact renames_expectInvoke opcode name desc
  | exit target => exact renames_exit _
  | joinLabel name => exact renames_joinLabel _

/-- Steps run alike in renamed code, since each of them does. -/
theorem renames_run (scope : Scope) (steps : List Step) :
    Renames r (run (code.rename r) scope steps) (run code scope steps) := by
  induction steps with
  | nil => exact renames_accept
  | cons first rest ih => exact renames_andThen (renames_step scope first) ih

/-- Segments answer the same under either names. -/
theorem renames_runSegments (segments : List Segment) :
    Renames r (runSegments (code.rename r) segments) (runSegments code segments) := by
  induction segments with
  | nil => exact renames_accept
  | cons first rest ih => exact renames_andThen (renames_run first.scope first.steps) ih

end Cursor

end CleanupFilter
