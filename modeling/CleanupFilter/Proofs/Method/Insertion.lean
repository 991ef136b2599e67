import Mathlib.Tactic.SplitIfs
import CleanupFilter.Method.Code

/-!
# Code with one more node

- `Code.insertNode`: the code with a node in front of the one at some position.
- `Code.shift`: where the nodes of the code are then.
- `Code.placement?_eq_some_iff`: the last placement of a label counts.
- `Code.placement?_insertNode`: labels other than that of the node stay where they are.
-/

namespace CleanupFilter

namespace Code

variable {code : Code} {index position : Nat} {node : Node Label}

/-- The code with a node in front of the one at `index`. -/
def insertNode (code : Code) (index : Nat) (node : Node Label) : Code :=
  (code.toList.insertIdx index node).toArray

/-- Where a node is after another one has been inserted in front of the node at `index`. -/
def shift (index position : Nat) : Nat :=
  if position < index then position else position + 1

/-- In front of the insertion a position stays. -/
theorem shift_of_lt (h : position < index) : shift index position = position :=
  if_pos h

/-- From the insertion on a position moves by one. -/
theorem shift_of_le (h : index ≤ position) : shift index position = position + 1 :=
  if_neg (Nat.not_lt.2 h)

/-- Positions keep their order. -/
theorem shift_lt_shift_iff {other : Nat} :
    shift index position < shift index other ↔ position < other := by
  rw [shift, shift]
  split_ifs <;> omega

/-- Only the inserted node is in a place that no node of the code has moved to. -/
theorem eq_or_exists_shift (index position : Nat) :
    position = index ∨ ∃ p, position = shift index p := by
  rcases Nat.lt_trichotomy position index with h | h | h
  · exact .inr ⟨position, (shift_of_lt h).symm⟩
  · exact .inl h
  · refine .inr ⟨position - 1, ?_⟩
    rw [shift_of_le (by omega)]
    omega

/-- Every node is found at its shifted position. -/
theorem getElem?_insertNode_shift (code : Code) (index : Nat) (node : Node Label)
    (position : Nat) : (code.insertNode index node)[shift index position]? = code[position]? := by
  rw [insertNode, List.getElem?_toArray, ← Array.getElem?_toList]
  rcases Nat.lt_or_ge position index with h | h
  · rw [shift_of_lt h, List.getElem?_insertIdx_of_lt h]
  · rw [shift_of_le h, List.getElem?_insertIdx_of_gt (by omega), Nat.add_sub_cancel]

/-- The inserted node is found where it was inserted. -/
theorem getElem?_insertNode_self (h : index ≤ code.size) :
    (code.insertNode index node)[index]? = some node := by
  rw [insertNode, List.getElem?_toArray, List.getElem?_insertIdx_self, if_pos]
  rwa [Array.length_toList]

/-! ### Where labels are placed -/

/-- A label is where it is placed last. -/
theorem placement?_eq_some_iff {label : Label} :
    code.placement? label = some position ↔
      code[position]? = some (.label label) ∧
        ∀ later, position < later → code[later]? ≠ some (.label label) := by
  have hdecreasing : code.positions.reverse.Pairwise (· > ·) :=
    List.pairwise_reverse.2 List.pairwise_lt_range
  rw [placement?, List.find?_eq_some_iff_append, decide_eq_true_iff]
  refine and_congr_right fun hat => ⟨?_, fun hlast => ?_⟩
  · rintro ⟨front, back, hsplit, hfront⟩ later hlt hlater
    have hmem : later ∈ code.positions.reverse := by
      obtain ⟨hsize, -⟩ := Array.getElem?_eq_some_iff.1 hlater
      exact List.mem_reverse.2 (List.mem_range.2 hsize)
    rw [hsplit] at hmem hdecreasing
    -- Every later position is looked at before.
    rcases List.mem_append.1 hmem with hmem | hmem
    · simpa [hlater] using hfront later hmem
    · rcases List.mem_cons.1 hmem with rfl | hmem
      · omega
      · have := (List.pairwise_cons.1 (List.pairwise_append.1 hdecreasing).2.1).1 later hmem
        omega
  · obtain ⟨hsize, -⟩ := Array.getElem?_eq_some_iff.1 hat
    obtain ⟨front, back, hsplit⟩ :=
      List.append_of_mem (List.mem_reverse.2 (List.mem_range.2 hsize))
    refine ⟨front, back, hsplit, fun earlier hmem => ?_⟩
    rw [positions] at hdecreasing
    rw [hsplit] at hdecreasing
    have hlt := (List.pairwise_append.1 hdecreasing).2.2 earlier hmem position List.mem_cons_self
    simpa using hlast earlier hlt

/-- Labels are placed at their shifted positions, unless the inserted node places them. -/
theorem placement?_insertNode {label : Label} (hindex : index ≤ code.size)
    (hnode : node.placed? ≠ some label) :
    (code.insertNode index node).placement? label = (code.placement? label).map (shift index) := by
  have hother : (code.insertNode index node)[index]? ≠ some (.label label) := by
    rw [getElem?_insertNode_self hindex]
    rintro ⟨⟩
    exact hnode rfl
  -- The label is not placed at the insertion, so only positions that have moved count.
  ext position
  rw [placement?_eq_some_iff, Option.map_eq_some_iff]
  constructor
  · rintro ⟨hat, hlast⟩
    rcases eq_or_exists_shift index position with rfl | ⟨p, rfl⟩
    · exact absurd hat hother
    · refine ⟨p, placement?_eq_some_iff.2 ⟨?_, fun later hlt => ?_⟩, rfl⟩
      · rwa [getElem?_insertNode_shift] at hat
      · rw [← getElem?_insertNode_shift code index node]
        exact hlast _ (shift_lt_shift_iff.2 hlt)
  · rintro ⟨p, hp, rfl⟩
    obtain ⟨hat, hlast⟩ := placement?_eq_some_iff.1 hp
    refine ⟨by rwa [getElem?_insertNode_shift], fun later hlt => ?_⟩
    rcases eq_or_exists_shift index later with rfl | ⟨q, rfl⟩
    · exact hother
    · rw [getElem?_insertNode_shift]
      exact hlast q (shift_lt_shift_iff.1 hlt)

end Code

end CleanupFilter
