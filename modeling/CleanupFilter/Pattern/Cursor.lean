import CleanupFilter.Method.Code
import CleanupFilter.Pattern.Bindings

/-!
# Cursors

A cursor walks forward through code. A primitive moves it to the next node that it inspects, says
whether that node is as expected and binds the symbols that it meets. After a failure the cursor
stands on the node that was inspected and keeps the bindings made so far.

- `Cursor`: a position, `none` once past the end, with bindings.
- `Cursor.after`, `Cursor.before?`: the cursor of a fresh attempt.
- `Cursor.peek?`, `Cursor.peekByIndex?`: a look at the next instruction, also by index.
- `Primitive.andThen`: one primitive after the other, up to the first failure.
- `Cursor.expect` and its relatives: the primitives.
-/

namespace CleanupFilter

/-- A place in code and what has been bound on the way there. -/
structure Cursor where
  /-- The node that was inspected last; none past the end. -/
  position : Option Nat
  /-- The operands bound so far. -/
  bindings : Bindings

/-- What a primitive makes of a cursor: whether the code is as expected, and the cursor after it. -/
abbrev Primitive := Cursor → Bool × Cursor

namespace Primitive

/-- Succeeds and leaves the cursor as it is. -/
def accept : Primitive := fun cursor => (true, cursor)

/-- Runs `second` after `first` has succeeded. -/
def andThen (first second : Primitive) : Primitive := fun cursor =>
  match first cursor with
  | (true, next) => second next
  | (false, next) => (false, next)

/-- Two primitives succeed one after the other if each of them does. -/
theorem andThen_eq_true {first second : Primitive} {cursor final : Cursor}
    (h : first.andThen second cursor = (true, final)) :
    ∃ next, first cursor = (true, next) ∧ second next = (true, final) := by
  unfold andThen at h
  split at h
  · exact ⟨_, by assumption, h⟩
  · simp at h

end Primitive

namespace Cursor

/-- The cursor of a fresh attempt whose first primitive inspects the node after `position`. -/
def after (position : Nat) : Cursor :=
  ⟨some position, .empty⟩

/-- The cursor of a fresh attempt whose first primitive inspects `start`. The first node of the
code has no such cursor. -/
def before? (code : Code) (start : Nat) : Option Cursor :=
  (code.prev? start).map after

/-- The number of nodes after the cursor. -/
def remaining (code : Code) (cursor : Cursor) : Nat :=
  match cursor.position with
  | some position => code.size - (position + 1)
  | none => 0

/-- The node that the cursor stands on. -/
def current? (code : Code) (cursor : Cursor) : Option (Node Label) :=
  cursor.position.bind fun position => code[position]?

/-- Moves to the next node, whatever it is. -/
def advanceLiteral (code : Code) (cursor : Cursor) : Cursor :=
  { cursor with position := cursor.position.bind (code.next? ·) }

/-- Moves to the next instruction. -/
def advance (code : Code) (cursor : Cursor) : Cursor :=
  { cursor with position := cursor.position.bind (code.nextReal? ·) }

/-- The opcode of the node that the cursor stands on. -/
def opcode? (code : Code) (cursor : Cursor) : Option Opcode :=
  (cursor.current? code).bind Node.opcode?

/-- The opcode of the next instruction. -/
def peek? (code : Code) (cursor : Cursor) : Option Opcode :=
  (cursor.advance code).opcode? code

/-- The look at the next instruction as it reads the nodes by their indices. There is no result if no
node has an index that is read. -/
def peekByIndex? (code : Code) (cursor : Cursor) : Option (Option Opcode) :=
  match cursor.position with
  | none => some none
  | some position =>
    match code.searchByIndex? position with
    | none => none
    | some none => some none
    | some (some found) => code[found]?.map Node.opcode?

/-! ### Primitives that bind what the cursor stands on -/

/-- Unifies the slot of the current node. -/
def bindSlot (code : Code) (key : Key) : Primitive := fun cursor =>
  match (cursor.current? code).bind Node.slot? with
  | none => (false, cursor)
  | some slot =>
    let (same, bindings) := cursor.bindings.unifySlot key slot
    (same, { cursor with bindings })

/-- Unifies the branch target of the current node. -/
def bindTarget (code : Code) (key : Key) : Primitive := fun cursor =>
  match (cursor.current? code).bind Node.target? with
  | none => (false, cursor)
  | some label =>
    let (same, bindings) := cursor.bindings.unifyLabel key label
    (same, { cursor with bindings })

/-- Unifies the label that the current node places. -/
def bindPlaced (code : Code) (key : Key) : Primitive := fun cursor =>
  match (cursor.current? code).bind Node.placed? with
  | none => (false, cursor)
  | some label =>
    let (same, bindings) := cursor.bindings.unifyLabel key label
    (same, { cursor with bindings })

/-- The owner of a `close` method that a node calls on an object. -/
def closedOwner? : Node Label → Option String
  | .method opcode target _ =>
    if (opcode = .invokeInterface ∨ opcode = .invokeVirtual)
        ∧ target.name = "close" ∧ target.desc = "()V" then
      some target.owner
    else none
  | _ => none

/-- Unifies the owner of the `close` method that the current node calls. -/
def bindOwner (code : Code) (key : Key) : Primitive := fun cursor =>
  match (cursor.current? code).bind closedOwner? with
  | none => (false, cursor)
  | some owner =>
    let (same, bindings) := cursor.bindings.unifyOwner key owner
    (same, { cursor with bindings })

/-- Whether the current node calls a method that `accepted` holds of. -/
def checkCallee (code : Code) (accepted : Member → Bool) : Primitive := fun cursor =>
  (((cursor.current? code).bind Node.callee?).any accepted, cursor)

/-- Moves to the next instruction and succeeds. -/
def advancing (code : Code) : Primitive := fun cursor =>
  (true, cursor.advance code)

/-! ### Primitives that inspect the next node -/

/-- The next instruction has the opcode. -/
def expect (code : Code) (opcode : Opcode) : Primitive := fun cursor =>
  let next := cursor.advance code
  (next.opcode? code = some opcode, next)

/-- The next instruction is a load or store with the opcode, of the key's slot. -/
def expectVar (code : Code) (opcode : Opcode) (key : Key) : Primitive :=
  (expect code opcode).andThen (bindSlot code key)

/-- The next instruction is a jump with the opcode, to the key's label. -/
def expectJump (code : Code) (opcode : Opcode) (key : Key) : Primitive :=
  (expect code opcode).andThen (bindTarget code key)

/-- The next node of all places the key's label. -/
def expectLabel (code : Code) (key : Key) : Primitive := fun cursor =>
  bindPlaced code key (cursor.advanceLiteral code)

/-- The next instructions load the key's slot and call `close` on the key's owner. -/
def expectClose (code : Code) (key : Key) : Primitive :=
  (expectVar code .aload key).andThen ((advancing code).andThen (bindOwner code key))

/-- The next instructions load the primary exception and the key's slot, and add the exception in
the latter to those that the former suppresses. -/
def expectAddSuppressed (code : Code) (key : Key) : Primitive :=
  (expectVar code .aload (Symbol.primaryException.resolve .method)).andThen <|
    (expectVar code .aload key).andThen <|
      (expect code .invokeVirtual).andThen <|
        checkCallee code fun callee =>
          callee.owner = "java/lang/Throwable" && callee.name = "addSuppressed"

/-- The next instruction is a call with the opcode of a method with this name and descriptor. -/
def expectInvoke (code : Code) (opcode : Opcode) (name desc : String) : Primitive :=
  (expect code opcode).andThen <|
    checkCallee code fun callee => callee.name = name && callee.desc = desc

/-- The next instruction returns a value. -/
def expectValueReturn (code : Code) : Primitive := fun cursor =>
  let next := cursor.advance code
  ((next.opcode? code).any Opcode.isValueReturn, next)

/-- The next instructions leave a block: a typed load, which makes the key's label unknown, and
the return of a value, or else a `GOTO` to the key's label. -/
def exit (code : Code) (key : Key) : Primitive := fun cursor =>
  if (cursor.peek? code).any Opcode.isVarLoad then
    let next := cursor.advance code
    expectValueReturn code { next with bindings := next.bindings.forgetLabel key }
  else expectJump code .goto key cursor

/-- The next node of all places the key's label, if the key has one; otherwise nothing is read. -/
def joinLabel (code : Code) (key : Key) : Primitive := fun cursor =>
  if (cursor.bindings.labels key).isSome then expectLabel code key cursor else (true, cursor)

end Cursor

end CleanupFilter
