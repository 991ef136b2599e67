/-!
# Padding

Text can be cut to a number of characters and then filled with blanks up to a width.

- `Alignment`: the side on which the text stays when blanks are added.
- `Padding`: a width, an alignment and an optional cut.
- `Padding.apply`: the text, cut and then filled.
-/

namespace CleanupFilter.Text

/-- The side on which a text stays when blanks are added. -/
inductive Alignment
  | left
  | right
  /-- In the middle; of an odd number of blanks, the odd one stands on the right. -/
  | center
  deriving DecidableEq, Repr

/-- How a text is brought to a width. -/
structure Padding where
  /-- The least number of characters of the result. -/
  width : Nat
  /-- Where the text stands in the result. -/
  alignment : Alignment := .left
  /-- The greatest number of characters that are kept of the text. -/
  limit? : Option Nat := none
  deriving DecidableEq, Repr

namespace Padding

/-- The number of blanks in front of a text when `missing` characters are to be added. -/
def blanksBefore (padding : Padding) (missing : Nat) : Nat :=
  match padding.alignment with
  | .left => 0
  | .right => missing
  | .center => missing / 2

/-- The text, cut to the limit and then filled with blanks up to the width. -/
def apply (padding : Padding) (text : List Char) : List Char :=
  let kept := match padding.limit? with
    | some limit => text.take limit
    | none => text
  let missing := padding.width - kept.length
  let before := padding.blanksBefore missing
  List.replicate before ' ' ++ kept ++ List.replicate (missing - before) ' '

end Padding

end CleanupFilter.Text
