import CleanupFilter.Method.Node
import CleanupFilter.Pattern.Step

/-!
# Bindings of symbols

The first operand that a symbol meets is bound to its key, and every later one has to be equal to
it.

- `unify`: compares a value with the one bound to a key, binding it if there is none.
- `Bindings`: the slots, labels and owners that keys are bound to, independent of each other.
-/

namespace CleanupFilter

/-- Compares a value with the one that `key` is bound to. An unbound key is bound to the value. -/
def unify {α : Type} [DecidableEq α] (bound : Key → Option α) (key : Key) (value : α) :
    Bool × (Key → Option α) :=
  match bound key with
  | some known => (known = value, bound)
  | none => (true, fun k => if k = key then some value else bound k)

/-- Unification succeeds if the key has this value, or none, which it then gets. -/
theorem unify_eq_true_iff {α : Type} [DecidableEq α] {bound next : Key → Option α} {key : Key}
    {value : α} : unify bound key value = (true, next) ↔
      bound key = some value ∧ next = bound ∨
        bound key = none ∧ next = fun k => if k = key then some value else bound k := by
  rw [unify]
  cases bound key with
  | none => simp [eq_comm]
  | some known => simp [eq_comm]

/-- The operands that keys are bound to. -/
structure Bindings where
  /-- Local variable slots. -/
  slots : Key → Option UInt16
  /-- Branch targets. -/
  labels : Key → Option Label
  /-- Classes whose `close` method is called. -/
  owners : Key → Option String

namespace Bindings

/-- No key is bound. -/
def empty : Bindings :=
  ⟨fun _ => none, fun _ => none, fun _ => none⟩

/-- Unifies the slot of a key. -/
def unifySlot (bindings : Bindings) (key : Key) (slot : UInt16) : Bool × Bindings :=
  let (same, slots) := unify bindings.slots key slot
  (same, { bindings with slots })

/-- Unifies the label of a key. -/
def unifyLabel (bindings : Bindings) (key : Key) (label : Label) : Bool × Bindings :=
  let (same, labels) := unify bindings.labels key label
  (same, { bindings with labels })

/-- Unifies the owner of a key. -/
def unifyOwner (bindings : Bindings) (key : Key) (owner : String) : Bool × Bindings :=
  let (same, owners) := unify bindings.owners key owner
  (same, { bindings with owners })

/-- The bindings without the label of a key. -/
def forgetLabel (bindings : Bindings) (key : Key) : Bindings :=
  { bindings with labels := fun k => if k = key then none else bindings.labels k }

end Bindings

/-- After a label was unified its key has it, and no other key has changed. -/
theorem labels_of_unifyLabel {before after : Bindings} {key : Key} {label : Label}
    (h : before.unifyLabel key label = (true, after)) :
    before.labels key = some label ∧ after = before ∨
      before.labels key = none ∧
        ∀ k, after.labels k = if k = key then some label else before.labels k := by
  unfold Bindings.unifyLabel unify at h
  cases hkey : before.labels key with
  | some known =>
    simp only [hkey, Prod.mk.injEq, decide_eq_true_eq] at h
    obtain ⟨rfl, rfl⟩ := h
    exact .inl ⟨rfl, rfl⟩
  | none =>
    simp only [hkey, Prod.mk.injEq, true_and] at h
    exact .inr ⟨rfl, fun k => h ▸ rfl⟩

end CleanupFilter
