/-!
# Decimal numerals

Listings write numbers in decimal. Reading accepts leading zeros and a plus sign, and a minus sign
only where the number may be negative; a number out of the range of its operand is refused.

- `Numeral.ofNat`, `Numeral.ofInt`: the shortest numeral of a number.
- `Numeral.natural?`, `Numeral.integer?`: the number that a numeral stands for.
- `Numeral.uint16?`, `Numeral.uint32?`, `Numeral.int16?`, `Numeral.int32?`: the same with the range
  of an operand.
-/

namespace CleanupFilter.Text.Numeral

/-- The decimal digits of a number, without leading zeros. -/
def ofNat (n : Nat) : List Char :=
  Nat.toDigits 10 n

/-- The decimal digits of a number's magnitude, after a minus sign if it is negative. -/
def ofInt : Int → List Char
  | .ofNat n => ofNat n
  | .negSucc n => '-' :: ofNat (n + 1)

/-- The number that a non-empty run of ASCII digits stands for. -/
def digits? (text : List Char) : Option Nat :=
  if text ≠ [] ∧ text.all Char.isDigit then some (Nat.ofDigitChars 10 text 0) else none

/-- Digits, or digits after a plus sign. -/
def natural? : List Char → Option Nat
  | '+' :: digits => digits? digits
  | digits => digits? digits

/-- Digits, or digits after a sign. -/
def integer? : List Char → Option Int
  | '-' :: digits => (digits? digits).map fun (n : Nat) => -(n : Int)
  | text => (natural? text).map fun (n : Nat) => (n : Int)

/-- A numeral of an unsigned number of 16 bits. -/
def uint16? (text : List Char) : Option UInt16 :=
  (natural? text).bind fun n => if n < UInt16.size then some n.toUInt16 else none

/-- A numeral of an unsigned number of 32 bits. -/
def uint32? (text : List Char) : Option UInt32 :=
  (natural? text).bind fun n => if n < UInt32.size then some n.toUInt32 else none

/-- A numeral of a signed number of 16 bits. -/
def int16? (text : List Char) : Option Int16 :=
  (integer? text).bind fun n =>
    if Int16.minValue.toInt ≤ n ∧ n ≤ Int16.maxValue.toInt then some (Int16.ofInt n) else none

/-- A numeral of a signed number of 32 bits. -/
def int32? (text : List Char) : Option Int32 :=
  (integer? text).bind fun n =>
    if Int32.minValue.toInt ≤ n ∧ n ≤ Int32.maxValue.toInt then some (Int32.ofInt n) else none

end CleanupFilter.Text.Numeral
