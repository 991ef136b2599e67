import CleanupFilter.Text.Blank

/-!
# Lines of a listing

What counts of a line is its text up to a comment and the words of that text. A first word such as
`12:` is an index, which says nothing.

- `Line.split`: the lines of a text.
- `Line.stripComment`: a line up to `//` where a word starts outside of quotes.
- `Line.read`: text and words of a line.
-/

namespace CleanupFilter

/-- A line of a listing without its comment. -/
structure Line where
  /-- The text of the line, without blanks at its ends. -/
  text : List Char
  /-- The words of the text, without an index in front. -/
  words : List (List Char)
  deriving DecidableEq, Repr

namespace Line

/-- The lines of a text. A line ends before a line feed, or before a carriage return and a line
feed; nothing after the last line feed is no line. -/
def split : List Char → List (List Char)
  | [] => []
  | '\n' :: rest => [] :: split rest
  | '\r' :: '\n' :: rest => [] :: split rest
  | c :: rest =>
    match split rest with
    | [] => [[c]]
    | line :: others => (c :: line) :: others

/-- The text up to two slashes that follow a blank, or nothing, outside of double quotes. A quote
after a backslash neither opens nor closes. `previous` is the character before the text. -/
def stripCommentAfter (previous : Option Char) (quoted : Bool) : List Char → List Char
  | [] => []
  | c :: rest =>
    if c = '/' ∧ quoted = false ∧ rest.head? = some '/' ∧ previous.all Text.isBlank then []
    else
      let quoted := if c = '"' ∧ previous ≠ some '\\' then !quoted else quoted
      c :: stripCommentAfter (some c) quoted rest

/-- The line up to its comment. -/
def stripComment (line : List Char) : List Char :=
  stripCommentAfter none false line

/-- Whether a word is an index: digits and a colon. -/
def isIndex (word : List Char) : Bool :=
  word.getLast? = some ':' && word.dropLast ≠ [] && word.dropLast.all Char.isDigit

/-- The words after an index in front, if there is one. -/
def dropIndex : List (List Char) → List (List Char)
  | [] => []
  | word :: rest => if isIndex word then rest else word :: rest

/-- Text and words of a line. -/
def read (line : List Char) : Line :=
  let text := Text.trim (stripComment line)
  { text, words := dropIndex (Text.words text) }

end Line

end CleanupFilter
