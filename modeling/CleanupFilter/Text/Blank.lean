/-!
# Blanks and words

Blanks are the characters with the Unicode property `White_Space`. A line of a listing is read as
the words between its blanks.

- `isBlank`: the property, as a list of code point ranges.
- `trim`: a text without the blanks at its ends.
- `words`: the maximal blank-free pieces of a text, in order.
-/

namespace CleanupFilter.Text

/-- The code points with the property `White_Space`, as inclusive ranges. -/
def blankRanges : List (Nat × Nat) :=
  [(0x09, 0x0d), (0x20, 0x20), (0x85, 0x85), (0xa0, 0xa0), (0x1680, 0x1680), (0x2000, 0x200a),
    (0x2028, 0x2029), (0x202f, 0x202f), (0x205f, 0x205f), (0x3000, 0x3000)]

/-- Whether a character has the property `White_Space`. -/
def isBlank (c : Char) : Bool :=
  blankRanges.any fun (first, last) => first ≤ c.toNat && c.toNat ≤ last

/-- The text without leading blanks. -/
def trimStart (text : List Char) : List Char :=
  text.dropWhile isBlank

/-- The text without trailing blanks. -/
def trimEnd (text : List Char) : List Char :=
  (trimStart text.reverse).reverse

/-- The text without the blanks at its ends. -/
def trim (text : List Char) : List Char :=
  trimEnd (trimStart text)

/-- Whether a word that ends here is complete: the text is used up or goes on with a blank. -/
def atBoundary : List Char → Bool
  | [] => true
  | c :: _ => isBlank c

/-- The maximal blank-free pieces of a text, in order. -/
def words : List Char → List (List Char)
  | [] => []
  | c :: rest =>
    if isBlank c then words rest
    else if atBoundary rest then [c] :: words rest
    else
      match words rest with
      | [] => [[c]]
      | word :: others => (c :: word) :: others

/-- Whether `word` can be a word of a text: it is not empty and holds no blank. -/
def IsWord (word : List Char) : Prop :=
  word ≠ [] ∧ ∀ c ∈ word, isBlank c = false

end CleanupFilter.Text
