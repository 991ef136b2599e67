import CleanupFilter.Text.Numeral
import CleanupFilter.Text.Padding
import CleanupFilter.Method.Body
import CleanupFilter.Listing.Keyword
import CleanupFilter.Listing.Numbering

/-!
# Printing listings

A body is printed as a listing of one method. Labels are called `L0`, `L1` and so on in the order
of their first mention, so that printed names do not depend on handles.

- `labelName`: the printed name of a label.
- `Node.text`, `TryCatch.text`: a node or an exception table entry on a line.
- `Body.listing`: the listing of a body.
- `Body.indexedListing`: the same with the position of each node in front.
-/

namespace CleanupFilter

/-- The name of a label: its number, or its handle if it is not numbered, after an `L`. -/
def labelName (labels : Numbering Label) (label : Label) : String :=
  String.ofList ('L' :: Text.Numeral.ofNat ((labels.number? label).getD label.handle))

/-- Words with a blank between any two. -/
def joinWords (words : List (List Char)) : List Char :=
  [' '].intercalate words

namespace Member

/-- Owner and name, separated by a dot. -/
def path (member : Member) : List Char :=
  member.owner.toList ++ '.' :: member.name.toList

end Member

namespace Node

/-- The words of a node on a line, where a constant counts as one word. -/
def lineWords : Node String → List (List Char)
  | plain opcode => [opcode.display.toList]
  | int opcode operand => [opcode.display.toList, Text.Numeral.ofInt operand.toInt]
  | var opcode slot => [opcode.display.toList, Text.Numeral.ofNat slot.toNat]
  | iinc slot increment =>
    [Opcode.iinc.display.toList, Text.Numeral.ofNat slot.toNat, Text.Numeral.ofInt increment.toInt]
  | type opcode desc => [opcode.display.toList, desc.toList]
  | field opcode target => [opcode.display.toList, target.path, [':'], target.desc.toList]
  | method opcode target _ => [opcode.display.toList, target.path, target.desc.toList]
  | jump opcode target => [opcode.display.toList, target.toList]
  | ldc opcode constant => [opcode.display.toList, constant.toList]
  | label name => [name.toList ++ [':']]
  | line number start =>
    [Keyword.lineMarker, Text.Numeral.ofNat number.toNat, start.toList]
  | frame => [Keyword.frame]

/-- The node on a line. -/
def text (node : Node String) : List Char :=
  joinWords node.lineWords

/-- The blanks in front of a node; labels stand two columns to the left of the other nodes. -/
def indent {L : Type} (node : Node L) : List Char :=
  List.replicate (if node.placed?.isSome then 2 else 4) ' '

end Node

namespace TryCatch

/-- The words of an exception table entry on a line. -/
def lineWords (entry : TryCatch String) : List (List Char) :=
  [Keyword.tryCatch, entry.start.toList, entry.stop.toList, entry.handler.toList,
    (entry.caught.map String.toList).getD Keyword.catchAll]

/-- The exception table entry on a line. -/
def text (entry : TryCatch String) : List Char :=
  joinWords entry.lineWords

end TryCatch

/-- The column in front of a node: its position, right-aligned to four places, and a colon. -/
def indexColumn (position : Nat) : List Char :=
  Text.Padding.apply { width := 4, alignment := .right } (Text.Numeral.ofNat position) ++ [':', ' ']

namespace Body

/-- The body with its labels replaced by their printed names. -/
def withLabelNames (body : Body Label) : Body String :=
  body.mapLabel (labelName (.ofMentions body.mentions))

/-- The lines of a body with named labels, `column` giving what stands in front of a node and
`margin` what stands in front of an exception table entry. -/
def lines (column : Nat → List Char) (margin : List Char) (body : Body String) :
    List (List Char) :=
  joinWords [Keyword.openMethod, body.name.toList, body.desc.toList] ::
    body.nodes.toList.zipIdx.map
      (fun (node, position) => column position ++ node.indent ++ node.text) ++
    body.tryCatches.map (fun entry => margin ++ List.replicate 4 ' ' ++ entry.text) ++
    [Keyword.closeMethod]

/-- The listing of a body. -/
def listing (body : Body Label) : String :=
  String.ofList ((body.withLabelNames.lines (fun _ => []) []).flatMap (· ++ ['\n']))

/-- The listing of a body with the position of each node in front of it. -/
def indexedListing (body : Body Label) : String :=
  String.ofList
    ((body.withLabelNames.lines indexColumn (List.replicate 6 ' ')).flatMap (· ++ ['\n']))

end Body

end CleanupFilter
