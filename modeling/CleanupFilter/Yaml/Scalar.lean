import CleanupFilter.Yaml.Number

/-!
# String scalars of YAML

A string is written plain unless it would be read as something else. The strings of reports are
words: they hold no blanks, so the rules about blanks and line breaks have nothing to say here.

- `Yaml.isResolved`: words that are read as null, a boolean or a number.
- `Yaml.hasIndicator`: words that are read as markup.
- `Yaml.isPrintable`: characters that need no escape.
- `Yaml.scalar`: the written form of a word.
-/

namespace CleanupFilter.Yaml

/-- The words for nothing, true and false. -/
def reservedWords : List String :=
  ["null", "Null", "NULL", "~", "true", "True", "TRUE", "false", "False", "FALSE"]

/-- Whether a plain word is not read as a string. -/
def isResolved (word : List Char) : Bool :=
  word.isEmpty || reservedWords.contains (String.ofList word) || isNumber word

/-- The characters that start markup at the beginning of a plain scalar. -/
def indicators : List Char :=
  ['#', ',', '[', ']', '\x7b', '\x7d', '&', '*', '!', '|', '>', '\x27', '"', '%', '@', '\x60']

/-- Whether a plain word is read as markup: it starts with an indicator or like a document mark, is
a lone dash or question mark, or ends with a colon. -/
def hasIndicator (word : List Char) : Bool :=
  word.head?.any indicators.contains || ['-', '-', '-'].isPrefixOf word ||
    ['.', '.', '.'].isPrefixOf word || word = ['-'] || word = ['?'] || word.getLast? = some ':'

/-- Whether a character may stand in a plain or single-quoted scalar. Control characters and the
code points U+FEFF, U+FFFE and U+FFFF may not. -/
def isPrintable (c : Char) : Bool :=
  let n := c.toNat
  (0x20 ≤ n && n ≤ 0x7e) || (0xa0 ≤ n && n != 0xfeff && n != 0xfffe && n != 0xffff)

/-- A number in hexadecimal digits, upper case, filled with zeros to a width. -/
def hexadecimal (width n : Nat) : List Char :=
  let digits := (Nat.toDigits 16 n).map Char.toUpper
  List.replicate (width - digits.length) '0' ++ digits

/-- A character in a double-quoted scalar. -/
def escape (c : Char) : List Char :=
  match c with
  | '\x00' => ['\\', '0']
  | '\x07' => ['\\', 'a']
  | '\x08' => ['\\', 'b']
  | '\x1b' => ['\\', 'e']
  | '"' => ['\\', '"']
  | '\\' => ['\\', '\\']
  | _ =>
    if isPrintable c then [c]
    else if c.toNat ≤ 0xff then '\\' :: 'x' :: hexadecimal 2 c.toNat
    else '\\' :: 'u' :: hexadecimal 4 c.toNat

/-- The written form of a word: plain if it is read back as that word, else in single quotes, or in
double quotes if there is a character to escape. -/
def scalar (word : List Char) : List Char :=
  if word.all isPrintable then
    if isResolved word || hasIndicator word then
      '\x27' :: word.flatMap (fun c => if c = '\x27' then ['\x27', '\x27'] else [c]) ++ ['\x27']
    else word
  else '"' :: word.flatMap escape ++ ['"']

end CleanupFilter.Yaml
