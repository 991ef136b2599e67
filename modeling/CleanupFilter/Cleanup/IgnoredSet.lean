/-!
# Sets of ignored positions

The positions to be ignored are collected in a set, whatever the order in which they come and
however often, and reported as spans. They are words of 32 bits here.

- `IgnoredSet`: an increasing list of positions.
- `IgnoredSet.insert`, `IgnoredSet.ofList`: the set with more positions.
- `IgnoredSet.contains`, `IgnoredSet.size`: membership and number of positions.
- `IgnoredSet.extend`: one round of the loop that collects spans.
- `IgnoredSet.spans`: the maximal runs of consecutive positions.
-/

namespace CleanupFilter

/-- A run of consecutive positions. -/
structure Span where
  /-- The first position. -/
  first : UInt32
  /-- The last position. -/
  last : UInt32
  deriving DecidableEq, Repr

/-- A set of positions. -/
structure IgnoredSet where
  /-- The positions. -/
  positions : List UInt32
  /-- Each position occurs once, in increasing order. -/
  increasing : positions.Pairwise (· < ·)

namespace IgnoredSet

/-- An increasing list with one more element in its place. -/
def insertInto (position : UInt32) : List UInt32 → List UInt32
  | [] => [position]
  | a :: rest =>
    if position < a then position :: a :: rest
    else if position = a then a :: rest
    else a :: insertInto position rest

/-- Nothing gets lost when an element is put in its place. -/
theorem mem_insertInto {position x : UInt32} {positions : List UInt32} :
    x ∈ insertInto position positions ↔ x = position ∨ x ∈ positions := by
  induction positions with
  | nil => simp [insertInto]
  | cons a rest ih =>
    unfold insertInto
    split
    · simp
    · split
      · simp_all
      · simp only [List.mem_cons, ih]
        exact or_left_comm

/-- The place of an element is behind the smaller ones and in front of the larger ones. -/
theorem pairwise_insertInto {position : UInt32} {positions : List UInt32}
    (h : positions.Pairwise (· < ·)) : (insertInto position positions).Pairwise (· < ·) := by
  induction positions with
  | nil => simp [insertInto]
  | cons a rest ih =>
    obtain ⟨hlt, hrest⟩ := List.pairwise_cons.1 h
    unfold insertInto
    split
    -- The position comes in front of all others.
    · rename_i hpos
      refine List.pairwise_cons.2 ⟨fun b hb => ?_, h⟩
      rcases List.mem_cons.1 hb with rfl | hb
      · exact hpos
      · exact UInt32.lt_trans hpos (hlt b hb)
    · split
      · exact h
      -- The position comes behind the first one, which stays the least.
      · rename_i hnot hne
        refine List.pairwise_cons.2 ⟨fun b hb => ?_, ih hrest⟩
        rcases mem_insertInto.1 hb with rfl | hb
        · exact UInt32.lt_of_le_of_ne (UInt32.not_lt.1 hnot) fun heq => hne heq.symm
        · exact hlt b hb

/-- The set without positions. -/
def empty : IgnoredSet :=
  ⟨[], .nil⟩

/-- The set with one more position. -/
def insert (set : IgnoredSet) (position : UInt32) : IgnoredSet :=
  ⟨insertInto position set.positions, pairwise_insertInto set.increasing⟩

/-- The set of the positions of a list. -/
def ofList (positions : List UInt32) : IgnoredSet :=
  positions.foldl insert empty

/-- Whether a position is in the set. -/
def contains (set : IgnoredSet) (position : UInt32) : Bool :=
  set.positions.contains position

/-- The number of positions. -/
def size (set : IgnoredSet) : Nat :=
  set.positions.length

/-- Whether there is no position. -/
def isEmpty (set : IgnoredSet) : Bool :=
  set.positions.isEmpty

/-- The spans so far, the last one first, with one more position. It becomes the end of the last
span if it is next to it, and a span of its own otherwise. -/
def extend (spans : List Span) (position : UInt32) : List Span :=
  match spans with
  | [] => [⟨position, position⟩]
  | span :: others =>
    if span.last + 1 = position then ⟨span.first, position⟩ :: others
    else ⟨position, position⟩ :: span :: others

/-- The spans of positions that come in increasing order, the last one first. -/
def collect (positions : List UInt32) : List Span :=
  positions.foldl extend []

/-- The maximal runs of consecutive positions, in increasing order. -/
def spans (set : IgnoredSet) : List Span :=
  (collect set.positions).reverse

end IgnoredSet

end CleanupFilter
