import CleanupFilter.Method.Body

/-!
# Positions in code

Nodes are addressed by position, from 0. Positions past the end are allowed as arguments; a
position that is returned is always one of a node, except that the node before the end of the code
may be asked for by the length of the code.

- `Code.next?`, `Code.prev?`, `Code.span`: arithmetic on positions.
- `Code.placement?`: where a label is placed; the last placement counts.
- `Code.realFrom?`: the first instruction at or after a position.
- `Code.searchByIndex?`: the same search, by an index that might be that of no node.
-/

namespace CleanupFilter

/-- The nodes of a method body. -/
abbrev Code := Array (Node Label)

namespace Code

/-- The position after `position`, unless the code ends there. -/
def next? (code : Code) (position : Nat) : Option Nat :=
  if position + 1 < code.size then some (position + 1) else none

/-- The next position is one further on, if the code goes that far. -/
theorem next?_eq_some_iff {code : Code} {position next : Nat} :
    code.next? position = some next ↔ position + 1 < code.size ∧ next = position + 1 := by
  rw [next?, Option.ite_none_right_eq_some, Option.some.injEq, eq_comm (a := next)]

/-- The position before `position`, which may be the length of the code but not more. -/
def prev? (code : Code) (position : Nat) : Option Nat :=
  if position = 0 ∨ code.size < position then none else some (position - 1)

/-- All positions, in order. -/
def positions (code : Code) : List Nat :=
  List.range code.size

/-- The positions from `first` to `last`, both included, as far as the code goes. -/
def span (code : Code) (first last : Nat) : List Nat :=
  List.range' first (min (last + 1) code.size - first)

/-- The position at which `label` is placed, the last one if there are several. -/
def placement? (code : Code) (label : Label) : Option Nat :=
  code.positions.reverse.find? fun position => code[position]? = some (.label label)

/-- The first position from `position` on that holds an instruction. -/
def realFrom? (code : Code) (position : Nat) : Option Nat :=
  if h : position < code.size then
    if code[position].isPseudo then code.realFrom? (position + 1) else some position
  else none
termination_by code.size - position

/-- The first position after `position` that holds an instruction. -/
def nextReal? (code : Code) (position : Nat) : Option Nat :=
  code.realFrom? (position + 1)

/-- Fewer nodes stand behind the next position. -/
theorem sub_lt_of_next? {code : Code} {position next : Nat} (h : code.next? position = some next) :
    code.size - next < code.size - position := by
  obtain ⟨hlt, rfl⟩ := next?_eq_some_iff.1 h
  omega

/-- The search for the next instruction as it reads one node after the other by its index. There is
no result if no node has the index. -/
def searchByIndex? (code : Code) (position : Nat) : Option (Option Nat) :=
  match _hnext : code.next? position with
  | none => some none
  | some next =>
    match code[next]? with
    | none => none
    | some node => if node.isPseudo then code.searchByIndex? next else some (some next)
termination_by code.size - position
decreasing_by exact sub_lt_of_next? _hnext

/-! ### Where `realFrom?` stops -/

/-- An instruction that is found stands at or after the position. -/
theorem le_of_realFrom?_eq_some {code : Code} {position found : Nat}
    (h : code.realFrom? position = some found) : position ≤ found := by
  fun_induction realFrom? code position with
  | case1 position _ _ ih => have := ih h; omega
  | case2 position _ _ => simp at h; omega
  | case3 => simp at h

/-- An instruction that is found stands within the code. -/
theorem lt_size_of_realFrom?_eq_some {code : Code} {position found : Nat}
    (h : code.realFrom? position = some found) : found < code.size := by
  fun_induction realFrom? code position with
  | case1 _ _ _ ih => exact ih h
  | case2 position hlt _ => simp at h; omega
  | case3 => simp at h

end Code

/-- Where the handler of an exception table entry is placed. -/
def TryCatch.handlerPosition? (code : Code) (entry : TryCatch Label) : Option Nat :=
  code.placement? entry.handler

end CleanupFilter
