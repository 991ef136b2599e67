import CleanupFilter.Pattern.Run

/-!
# Cursors move forward

Main statements:

- `Cursor.forward_run`: running steps leaves no more nodes after the cursor than before.
- `Cursor.remaining_lt_of_run_var`: a pattern that starts with a load or store leaves fewer.
-/

namespace CleanupFilter

namespace Cursor

/-- A primitive that leaves no more nodes after the cursor than there were before. -/
def Forward (code : Code) (primitive : Primitive) : Prop :=
  ∀ cursor, (primitive cursor).2.remaining code ≤ cursor.remaining code

/-- A cursor that advances has no more code in front of it than before. -/
theorem remaining_advance_le (code : Code) (cursor : Cursor) :
    (cursor.advance code).remaining code ≤ cursor.remaining code := by
  rcases cursor with ⟨_ | position, bindings⟩
  · simp [advance, remaining]
  · simp only [advance, remaining, Option.bind_some]
    split
    · rename_i found h
      have := Code.le_of_realFrom?_eq_some h
      omega
    · omega

/-- A cursor that advances to an instruction has less code in front of it. -/
theorem remaining_advance_lt {code : Code} {cursor : Cursor}
    (h : (cursor.advance code).position.isSome) :
    (cursor.advance code).remaining code < cursor.remaining code := by
  rcases cursor with ⟨_ | position, bindings⟩
  · simp [advance] at h
  · simp only [advance, Option.bind_some] at h
    obtain ⟨found, hfound⟩ := Option.isSome_iff_exists.1 h
    have hle := Code.le_of_realFrom?_eq_some hfound
    have hlt := Code.lt_size_of_realFrom?_eq_some hfound
    simp only [advance, remaining, Option.bind_some, hfound]
    omega

/-- A cursor that advances by one node has no more code in front of it than before. -/
theorem remaining_advanceLiteral_le (code : Code) (cursor : Cursor) :
    (cursor.advanceLiteral code).remaining code ≤ cursor.remaining code := by
  rcases cursor with ⟨_ | position, bindings⟩
  · simp [advanceLiteral, remaining]
  · simp only [advanceLiteral, remaining, Option.bind_some, Code.next?]
    split
    · rename_i found h
      split at h <;> simp at h
      omega
    · omega

theorem forward_accept (code : Code) : Forward code .accept :=
  fun _ => Nat.le_refl _

/-- Primitives that move forward do so one after the other. -/
theorem forward_andThen {code : Code} {first second : Primitive} (hfirst : Forward code first)
    (hsecond : Forward code second) : Forward code (first.andThen second) := by
  intro cursor
  have := hfirst cursor
  unfold Primitive.andThen
  split <;> rename_i next h <;> rw [h] at this
  · exact Nat.le_trans (hsecond next) this
  · exact this

/-- Binding a slot leaves the cursor where it is. -/
theorem position_bindSlot (code : Code) (key : Key) (cursor : Cursor) :
    (bindSlot code key cursor).2.position = cursor.position := by
  unfold bindSlot; split <;> rfl

theorem position_bindTarget (code : Code) (key : Key) (cursor : Cursor) :
    (bindTarget code key cursor).2.position = cursor.position := by
  unfold bindTarget; split <;> rfl

theorem position_bindPlaced (code : Code) (key : Key) (cursor : Cursor) :
    (bindPlaced code key cursor).2.position = cursor.position := by
  unfold bindPlaced; split <;> rfl

theorem position_bindOwner (code : Code) (key : Key) (cursor : Cursor) :
    (bindOwner code key cursor).2.position = cursor.position := by
  unfold bindOwner; split <;> rfl

/-- What remains depends on the position only. -/
theorem remaining_congr {code : Code} {a b : Cursor} (h : a.position = b.position) :
    a.remaining code = b.remaining code := by
  simp [remaining, h]

theorem forward_bindSlot (code : Code) (key : Key) : Forward code (bindSlot code key) :=
  fun cursor => Nat.le_of_eq (remaining_congr (position_bindSlot code key cursor))

theorem forward_bindTarget (code : Code) (key : Key) : Forward code (bindTarget code key) :=
  fun cursor => Nat.le_of_eq (remaining_congr (position_bindTarget code key cursor))

theorem forward_bindPlaced (code : Code) (key : Key) : Forward code (bindPlaced code key) :=
  fun cursor => Nat.le_of_eq (remaining_congr (position_bindPlaced code key cursor))

theorem forward_bindOwner (code : Code) (key : Key) : Forward code (bindOwner code key) :=
  fun cursor => Nat.le_of_eq (remaining_congr (position_bindOwner code key cursor))

/-- Looking at the called method leaves the cursor where it is. -/
theorem forward_checkCallee (code : Code) (accepted : Member → Bool) :
    Forward code (checkCallee code accepted) :=
  fun _ => Nat.le_refl _

/-- Looking for the next instruction moves forward. -/
theorem forward_advancing (code : Code) : Forward code (advancing code) :=
  remaining_advance_le code

/-- A primitive that expects an opcode moves forward. -/
theorem forward_expect (code : Code) (opcode : Opcode) : Forward code (expect code opcode) :=
  remaining_advance_le code

theorem forward_expectVar (code : Code) (opcode : Opcode) (key : Key) :
    Forward code (expectVar code opcode key) :=
  forward_andThen (forward_expect code opcode) (forward_bindSlot code key)

theorem forward_expectJump (code : Code) (opcode : Opcode) (key : Key) :
    Forward code (expectJump code opcode key) :=
  forward_andThen (forward_expect code opcode) (forward_bindTarget code key)

theorem forward_expectLabel (code : Code) (key : Key) : Forward code (expectLabel code key) :=
  fun cursor =>
    Nat.le_trans (forward_bindPlaced code key _) (remaining_advanceLiteral_le code cursor)

theorem forward_expectClose (code : Code) (key : Key) : Forward code (expectClose code key) :=
  forward_andThen (forward_expectVar code .aload key)
    (forward_andThen (forward_advancing code) (forward_bindOwner code key))

theorem forward_expectAddSuppressed (code : Code) (key : Key) :
    Forward code (expectAddSuppressed code key) :=
  forward_andThen (forward_expectVar code .aload _)
    (forward_andThen (forward_expectVar code .aload key)
      (forward_andThen (forward_expect code .invokeVirtual) (forward_checkCallee code _)))

theorem forward_expectInvoke (code : Code) (opcode : Opcode) (name desc : String) :
    Forward code (expectInvoke code opcode name desc) :=
  forward_andThen (forward_expect code opcode) (forward_checkCallee code _)

theorem forward_expectValueReturn (code : Code) : Forward code (expectValueReturn code) :=
  remaining_advance_le code

/-- Leaving a block by a jump or by a return moves forward. -/
theorem forward_exit (code : Code) (key : Key) : Forward code (exit code key) := by
  intro cursor
  unfold exit
  split
  · exact Nat.le_trans (forward_expectValueReturn code _) (remaining_advance_le code cursor)
  · exact forward_expectJump code .goto key cursor

/-- Passing the label where two paths join moves forward. -/
theorem forward_joinLabel (code : Code) (key : Key) : Forward code (joinLabel code key) := by
  intro cursor
  unfold joinLabel
  split
  · exact forward_expectLabel code key cursor
  · exact Nat.le_refl _

/-- Every step of a pattern moves forward. -/
theorem forward_step (code : Code) (scope : Scope) (s : Step) :
    Forward code (step code scope s) := by
  cases s with
  | op opcode => exact forward_expect code opcode
  | var opcode slot => exact forward_expectVar code opcode _
  | jump opcode target => exact forward_expectJump code opcode _
  | label name => exact forward_expectLabel code _
  | close resource => exact forward_expectClose code _
  | addSuppressed exception => exact forward_expectAddSuppressed code _
  | invoke opcode name desc => exact forward_expectInvoke code opcode name desc
  | exit target => exact forward_exit code _
  | joinLabel name => exact forward_joinLabel code _

/-- A run of steps moves forward, since each of them does. -/
theorem forward_run (code : Code) (scope : Scope) (steps : List Step) :
    Forward code (run code scope steps) := by
  induction steps with
  | nil => exact forward_accept code
  | cons first rest ih => exact forward_andThen (forward_step code scope first) ih

/-- An instruction that is found stands after the cursor. -/
theorem remaining_lt_of_expect {code : Code} {opcode : Opcode} {cursor next : Cursor}
    (h : expect code opcode cursor = (true, next)) :
    next.remaining code < cursor.remaining code := by
  simp only [expect, Prod.mk.injEq, decide_eq_true_eq] at h
  obtain ⟨hop, rfl⟩ := h
  apply remaining_advance_lt
  cases hpos : (cursor.advance code).position with
  | none => simp [opcode?, current?, hpos] at hop
  | some position => rfl

/-- A pattern that starts with a load or store moves forward when it succeeds. -/
theorem remaining_lt_of_run_var {code : Code} {scope : Scope} {opcode : Opcode} {slot : Symbol}
    {rest : List Step} {cursor final : Cursor}
    (h : run code scope (.var opcode slot :: rest) cursor = (true, final)) :
    final.remaining code < cursor.remaining code := by
  obtain ⟨next, hvar, hrest⟩ := Primitive.andThen_eq_true h
  obtain ⟨found, hop, hbind⟩ := Primitive.andThen_eq_true hvar
  have h₁ := remaining_lt_of_expect hop
  have h₂ := forward_bindSlot code (slot.resolve scope) found
  have h₃ := forward_run code scope rest next
  rw [hbind] at h₂
  rw [hrest] at h₃
  exact Nat.lt_of_le_of_lt (Nat.le_trans h₃ h₂) h₁

end Cursor

end CleanupFilter
