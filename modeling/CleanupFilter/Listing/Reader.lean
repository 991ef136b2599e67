import CleanupFilter.Listing.Line
import CleanupFilter.Listing.Item
import CleanupFilter.Listing.Numbering

/-!
# Reading listings

A listing holds methods, each between a `method` line and an `end` line, with one node or exception
table entry a line. Labels are numbered within a method in the order of their first mention.

- `OpenMethod`: a method whose `end` line is still to come.
- `OpenMethod.numberItems`: labels for the names on the lines of a method.
- `OpenMethod.finish`: the body of a method, once all its lines are known.
- `readLine`: what one more line makes of the open method.
- `readListing`: the bodies of all methods of a listing, or the first error.
-/

namespace CleanupFilter

/-- A method whose `end` line is still to come. -/
structure OpenMethod where
  /-- The number of its `method` line. -/
  line : Nat
  /-- The name of the method. -/
  name : String
  /-- The descriptor of the method. -/
  desc : String
  /-- What its lines so far stand for. -/
  items : Array (Item String) := #[]
  deriving Repr

namespace OpenMethod

/-- The method with one more item. -/
def add (method : OpenMethod) (item : Item String) : OpenMethod :=
  { method with items := method.items.push item }

/-- The items with labels for the names on their lines, one after the other. The names that a line is
the first to mention get the next labels. -/
def numberItems (labels : Numbering String) : List (Item String) → List (Item Label)
  | [] => []
  | item :: rest =>
    let labels := labels.internAll item.mentions
    item.mapLabel (fun name => ⟨labels.number name⟩) :: numberItems labels rest

/-- The body that the lines so far make, unchecked. -/
def body (method : OpenMethod) : Body Label :=
  let items := numberItems .empty method.items.toList
  { name := method.name
    desc := method.desc
    nodes := (items.filterMap Item.node?).toArray
    tryCatches := items.filterMap Item.tryCatch? }

/-- The checked body of the method. -/
def finish (method : OpenMethod) : Except ListingError (Body Label) :=
  match method.body.check with
  | .error cause => .error (.malformedBody method.name cause)
  | .ok body => .ok body

end OpenMethod

/-- What a line leaves open and the body that it completes. -/
abbrev LineResult := Except ListingError (Option OpenMethod × Option (Body Label))

/-- The line that starts a method, given the words after the first one. -/
def startMethod (number : Nat) (opened : Option OpenMethod) (words : List (List Char)) :
    LineResult :=
  match opened, words with
  | some method, _ => .error (.unterminatedMethod method.line method.name)
  | none, [name, desc] =>
    .ok (some { line := number, name := String.ofList name, desc := String.ofList desc }, none)
  | none, _ => .error (.line number .methodHeader)

/-- The line that ends a method. -/
def endMethod (number : Nat) (opened : Option OpenMethod) (head : List Char) : LineResult :=
  match opened with
  | some method => method.finish.map fun body => (none, some body)
  | none => .error (.line number (.outsideMethod (String.ofList head)))

/-- A line within a method, given its first word and the others. -/
def continueMethod (number : Nat) (opened : Option OpenMethod) (head text : List Char)
    (words : List (List Char)) : LineResult :=
  match opened with
  | some method =>
    match Item.read head text words with
    | .error fault => .error (.line number fault)
    | .ok item => .ok (some (method.add item), none)
  | none => .error (.line number (.outsideMethod (String.ofList head)))

/-- One line of a listing, read while `opened` is open. -/
def readLine (number : Nat) (opened : Option OpenMethod) (line : Line) : LineResult :=
  match line.words with
  | [] => .ok (opened, none)
  | head :: words =>
    if head = Keyword.openMethod then startMethod number opened words
    else if head = Keyword.closeMethod then endMethod number opened head
    else continueMethod number opened head line.text words

/-- The bodies that lines complete, the first of which has the given number and is read while
`opened` is open. -/
def readLines (number : Nat) (opened : Option OpenMethod) :
    List (List Char) → Except ListingError (List (Body Label))
  | [] =>
    match opened with
    | none => .ok []
    | some method => .error (.unterminatedMethod method.line method.name)
  | line :: rest =>
    match readLine number opened (Line.read line) with
    | .error error => .error error
    | .ok (opened, completed) =>
      match readLines (number + 1) opened rest with
      | .error error => .error error
      | .ok bodies => .ok (completed.toList ++ bodies)

/-- The bodies of all methods of a listing, or the first error. -/
def readListing (source : String) : Except ListingError (List (Body Label)) :=
  readLines 1 none (Line.split source.toList)

end CleanupFilter
