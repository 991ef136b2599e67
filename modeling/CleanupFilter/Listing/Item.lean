import CleanupFilter.Text.Blank
import CleanupFilter.Text.Numeral
import CleanupFilter.Listing.Error
import CleanupFilter.Listing.Keyword

/-!
# Items of a listing

Every line of a method stands for a node or for an exception table entry. The first word decides
which: a label if it ends with a colon, else a directive or a mnemonic.

- `Item`: a node or an exception table entry, with labels named as the line names them.
- `Item.read`: the item that a line stands for, or what is wrong with the line.
-/

namespace CleanupFilter

/-- What a line of a method stands for, with labels named as the line names them. -/
inductive Item (L : Type)
  | node (node : Node L)
  | tryCatch (entry : TryCatch L)
  deriving DecidableEq, Repr

namespace Item

variable {L : Type}

/-- The node that the item adds to the code. -/
def node? : Item L → Option (Node L)
  | node n => some n
  | tryCatch _ => none

/-- The entry that the item adds to the exception table. -/
def tryCatch? : Item L → Option (TryCatch L)
  | node _ => none
  | tryCatch entry => some entry

/-- The labels of the item, in the order in which the line mentions them. -/
def mentions : Item L → List L
  | node n => n.mentioned?.toList
  | tryCatch entry => entry.labels

/-- The item with its labels replaced by their images under `f`. -/
def mapLabel {M : Type} (f : L → M) : Item L → Item M
  | node n => node (n.mapLabel f)
  | tryCatch entry => tryCatch (entry.mapLabel f)

/-! ### Reading a line -/

/-- What follows the first occurrence of `word` in a text. -/
def afterFirst? (word : List Char) : List Char → Option (List Char)
  | [] => word.isPrefixOf? []
  | c :: rest =>
    match word.isPrefixOf? (c :: rest) with
    | some after => some after
    | none => afterFirst? word rest

/-- The part before the last occurrence of `c` and the part after it. -/
def splitLast? (c : Char) : List Char → Option (List Char × List Char)
  | [] => none
  | d :: rest =>
    match splitLast? c rest with
    | some (before, after) => some (d :: before, after)
    | none => if d = c then some ([], rest) else none

/-- The member that a word such as `java/io/Closeable.close` names, given its descriptor. The last
dot separates owner and name; the name is not empty. -/
def member? (word desc : List Char) : Option Member :=
  match splitLast? '.' word with
  | some (owner, c :: name) =>
    some ⟨String.ofList owner, String.ofList (c :: name), String.ofList desc⟩
  | _ => none

/-- The constant of a line: all of the text after the mnemonic, blanks at its ends apart. -/
def constant? (mnemonic text : List Char) : Option String :=
  match (afterFirst? mnemonic text).map Text.trim with
  | some (c :: rest) => some (String.ofList (c :: rest))
  | _ => none

/-- The instruction with the given operands. All but constants are read from the words after the
mnemonic, and a constant from the whole text. -/
def instruction? (opcode : Opcode) (operands : Operands) (mnemonic text : List Char)
    (words : List (List Char)) : Option (Node String) :=
  match operands, words with
  | .nothing, [] => some (.plain opcode)
  | .integer, [value] => (Text.Numeral.int32? value).map (.int opcode)
  | .slot, [slot] => (Text.Numeral.uint16? slot).map (.var opcode)
  | .slotAndIncrement, [slot, increment] =>
    (Text.Numeral.uint16? slot).bind fun slot =>
      (Text.Numeral.int16? increment).map (.iinc slot)
  | .type, [desc] => some (.type opcode (String.ofList desc))
  | .field, [target, [':'], desc] => (member? target desc).map (.field opcode)
  | .method, [target, desc] => (member? target desc).map (.call opcode)
  | .label, [target] => some (.jump opcode (String.ofList target))
  | .constant, _ => (constant? mnemonic text).map (.ldc opcode)
  | _, _ => none

/-- The instruction of a line that starts with `mnemonic`. -/
def instruction (mnemonic text : List Char) (words : List (List Char)) :
    Except LineFault (Node String) :=
  match Opcode.ofMnemonic? (String.ofList mnemonic) with
  | none => .error (.unknownMnemonic (String.ofList mnemonic))
  | some opcode =>
    match opcode.form?.bind Operands.ofForm? with
    | none => .error (.unsupportedForm opcode)
    | some operands =>
      match instruction? opcode operands mnemonic text words with
      | none => .error (.badOperand opcode operands)
      | some found => .ok found

/-- The line marker with the given operands. -/
def lineMarker : List (List Char) → Except LineFault (Node String)
  | [number, start] =>
    match Text.Numeral.uint32? number with
    | none => .error .lineNumber
    | some number => .ok (.line number (String.ofList start))
  | _ => .error .lineMarker

/-- The exception table entry with the given operands. -/
def entry : List (List Char) → Except LineFault (TryCatch String)
  | [start, stop, handler, caught] =>
    .ok {
      start := String.ofList start
      stop := String.ofList stop
      handler := String.ofList handler
      caught := if caught = Keyword.catchAll then none else some (String.ofList caught) }
  | _ => .error .tryCatchEntry

/-- The item of a line with the given text, whose first word is `head` and whose other words are
`words`. -/
def read (head text : List Char) (words : List (List Char)) : Except LineFault (Item String) :=
  if head.getLast? = some ':' then
    if words = [] ∧ head.dropLast ≠ [] then .ok (.node (.label (String.ofList head.dropLast)))
    else .error .crowdedLabel
  else if head = Keyword.frame then .ok (.node .frame)
  else if head = Keyword.lineMarker then (lineMarker words).map .node
  else if head = Keyword.tryCatch then (entry words).map .tryCatch
  else (instruction head text words).map .node

end Item

end CleanupFilter
