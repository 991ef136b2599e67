/-!
# Numbering by first mention

Labels have names in a listing and handles in a body. Either side is numbered from 0 in the order
in which its labels are first mentioned.

- `Numbering.number`, `Numbering.number?`: the number of a value.
- `Numbering.intern`: one more mention of a value.
- `Numbering.ofMentions`: the numbering of a sequence of mentions.
-/

namespace CleanupFilter

/-- Distinct values, each numbered by its index. -/
structure Numbering (α : Type) where
  /-- The values in the order of their numbers. -/
  members : List α
  deriving Repr

namespace Numbering

variable {α : Type} [DecidableEq α]

/-- The numbering without values. -/
def empty : Numbering α :=
  ⟨[]⟩

/-- The number of a value; a value that is not a member is numbered past all members. -/
def number (numbering : Numbering α) (a : α) : Nat :=
  numbering.members.idxOf a

/-- The number of a member. -/
def number? (numbering : Numbering α) (a : α) : Option Nat :=
  numbering.members.idxOf? a

/-- The numbering after one more mention. A value without a number gets the next one. -/
def intern (numbering : Numbering α) (a : α) : Numbering α :=
  match numbering.number? a with
  | some _ => numbering
  | none => ⟨numbering.members ++ [a]⟩

/-- The numbering after more mentions, one by one. -/
def internAll (numbering : Numbering α) (mentions : List α) : Numbering α :=
  mentions.foldl intern numbering

/-- The numbering in which a value that is first mentioned earlier has the smaller number. -/
def ofMentions (mentions : List α) : Numbering α :=
  internAll empty mentions

end Numbering

end CleanupFilter
