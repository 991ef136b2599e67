import CleanupFilter.Text.Numeral

/-!
# Words that YAML reads as numbers

A plain scalar that looks like a number is read as one, so a string of that form has to be quoted.

- `Yaml.Decimal`: a decimal fraction with an exponent, and whether a double can hold it.
- `Yaml.isRadixInteger`: integers in base 16, 8 or 2.
- `Yaml.isNumber`: all words that are read as numbers, and digit strings with leading zeros, which
  are not but look as if they were.
-/

namespace CleanupFilter.Yaml

/-! ### Decimal numbers -/

/-- The number `digits * 10 ^ exponent`. -/
structure Decimal where
  /-- The digits, read as one number. -/
  digits : Nat
  /-- The power of ten. -/
  exponent : Int
  deriving DecidableEq, Repr

namespace Decimal

/-- The least number that rounds to infinity in double precision. -/
def overflow : Nat :=
  Nat.pow 2 1024 - Nat.pow 2 970

/-- Whether the number rounds to a finite double. Numbers below `10 ^ 308` do and numbers from
`10 ^ 309` on do not; only those in between are compared exactly, which keeps the powers small. -/
def isFinite (decimal : Decimal) : Bool :=
  let magnitude : Int := (Nat.toDigits 10 decimal.digits).length + decimal.exponent
  if decimal.digits = 0 ∨ magnitude ≤ 308 then true
  else if 310 ≤ magnitude then false
  else if 0 ≤ decimal.exponent then decimal.digits * Nat.pow 10 decimal.exponent.toNat < overflow
  else decimal.digits < overflow * Nat.pow 10 (-decimal.exponent).toNat

/-- The exponent of a decimal number: none at all, or a letter E and an integer. -/
def exponent? : List Char → Option Int
  | [] => some 0
  | c :: text => if c = 'e' ∨ c = 'E' then Text.Numeral.integer? text else none

/-- A decimal number without a sign: digits with at most one point among or around them, and an
exponent. -/
def read? (text : List Char) : Option Decimal :=
  let whole := text.takeWhile Char.isDigit
  let (fraction, rest) := match text.dropWhile Char.isDigit with
    | '.' :: after => (after.takeWhile Char.isDigit, after.dropWhile Char.isDigit)
    | rest => ([], rest)
  match Text.Numeral.digits? (whole ++ fraction), exponent? rest with
  | some digits, some exponent => some ⟨digits, exponent - fraction.length⟩
  | _, _ => none

end Decimal

/-- The word without a sign in front. -/
def dropSign : List Char → List Char
  | '+' :: rest => rest
  | '-' :: rest => rest
  | word => word

/-- Whether a word is a decimal number, with or without a sign, that a double can hold. -/
def isFiniteDecimal (word : List Char) : Bool :=
  (Decimal.read? (dropSign word)).any Decimal.isFinite

/-- Whether a word consists of more than one digit and starts with a zero, apart from a sign. -/
def hasLeadingZero (word : List Char) : Bool :=
  match dropSign word with
  | '0' :: c :: rest => (c :: rest).all Char.isDigit
  | _ => false

/-! ### Integers in other bases -/

/-- The value of a digit in bases up to 16. -/
def digitValue? (c : Char) : Option Nat :=
  if c.isDigit then some (c.toNat - '0'.toNat)
  else if 'a' ≤ c ∧ c ≤ 'f' then some (c.toNat - 'a'.toNat + 10)
  else if 'A' ≤ c ∧ c ≤ 'F' then some (c.toNat - 'A'.toNat + 10)
  else none

/-- The number that a non-empty run of digits stands for in a base. -/
def inBase? (base : Nat) : List Char → Option Nat
  | [] => none
  | digits =>
    digits.foldlM
      (fun n c => (digitValue? c).bind fun d => if d < base then some (base * n + d) else none) 0

/-- The number that a word without a sign stands for if it names its base. -/
def radix? : List Char → Option Nat
  | '0' :: 'x' :: digits => inBase? 16 digits
  | '0' :: 'o' :: digits => inBase? 8 digits
  | '0' :: 'b' :: digits => inBase? 2 digits
  | _ => none

/-- Whether a word is an integer in base 16, 8 or 2 that fits 128 bits, with or without a sign. -/
def isRadixInteger : List Char → Bool
  | '-' :: word => (radix? word).any (· ≤ Nat.pow 2 127)
  | '+' :: word => (radix? word).any (· < Nat.pow 2 128)
  | word => (radix? word).any (· < Nat.pow 2 128)

/-! ### Numbers in words -/

/-- Infinities, with or without a sign, and numbers that are none. -/
def namedNumbers : List String :=
  [".inf", ".Inf", ".INF", "+.inf", "+.Inf", "+.INF", "-.inf", "-.Inf", "-.INF", ".nan", ".NaN",
    ".NAN"]

/-- Whether a word is read as a number or has only digits and starts with a zero. -/
def isNumber (word : List Char) : Bool :=
  hasLeadingZero word || isFiniteDecimal word || isRadixInteger word ||
    namedNumbers.contains (String.ofList word)

end CleanupFilter.Yaml
