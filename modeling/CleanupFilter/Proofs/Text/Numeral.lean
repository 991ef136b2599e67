import CleanupFilter.Text.Numeral
import CleanupFilter.Proofs.Text.Words

/-!
# Numerals read back

- `Numeral.natural?_ofNat`, `Numeral.integer?_ofInt`: the numeral of a number stands for it.
- `Numeral.uint16?_ofNat` and its relatives: so it does for operands, whatever their range.
- `Numeral.isToken_ofNat`, `Numeral.isToken_ofInt`: numerals are tokens.
- `Numeral.Denotes`: the numerals of a number, and that nothing else is read as it.
-/

namespace CleanupFilter.Text.Numeral

/-! ### Characters of numerals -/

/-- Numerals are made of digits. -/
theorem isDigit_of_mem_ofNat {n : Nat} {c : Char} (h : c ∈ ofNat n) : c.isDigit = true :=
  Nat.isDigit_of_mem_toDigits (by decide) (by decide) h

theorem ofNat_ne_nil (n : Nat) : ofNat n ≠ [] :=
  Nat.toDigits_ne_nil

/-- Digits are plain characters. -/
theorem isPlain_of_isDigit {c : Char} (h : c.isDigit = true) : isPlain c = true := by
  obtain ⟨hlo, hhi⟩ : 48 ≤ c.toNat ∧ c.toNat ≤ 57 := by
    simpa [Char.isDigit, UInt32.le_iff_toNat_le] using h
  refine isPlain_iff.2 ⟨?_, ?_, ?_⟩
  · -- Every range of blanks lies below the digits or above them.
    simp only [isBlank, blankRanges, List.any_cons, List.any_nil, Bool.or_false,
      Bool.or_eq_false_iff, Bool.and_eq_false_iff, decide_eq_false_iff_not]
    omega
  all_goals
    rintro rfl
    revert hlo hhi
    decide

/-- A numeral makes a token with any plain characters around it. -/
theorem isToken_between (front back : List Char) (h : (front ++ back).all isPlain = true)
    (n : Nat) : IsToken (front ++ ofNat n ++ back) := by
  rw [List.all_eq_true] at h
  apply IsToken.of_isPlain
  · simp [ofNat_ne_nil]
  · intro c hc
    rw [List.mem_append, List.mem_append] at hc
    rcases hc with (hc | hc) | hc
    · exact h c (List.mem_append_left back hc)
    · exact isPlain_of_isDigit (isDigit_of_mem_ofNat hc)
    · exact h c (List.mem_append_right front hc)

/-- Numerals are tokens. -/
theorem isToken_ofNat (n : Nat) : IsToken (ofNat n) := by
  simpa using isToken_between [] [] rfl n

theorem isToken_ofInt (n : Int) : IsToken (ofInt n) := by
  cases n with
  | ofNat n => exact isToken_ofNat n
  | negSucc n => simpa [ofInt] using isToken_between ['-'] [] rfl (n + 1)

/-! ### Reading numerals -/

/-- A numeral is read digit by digit. -/
theorem digits?_ofNat (n : Nat) : digits? (ofNat n) = some n := by
  have hall : (ofNat n).all Char.isDigit := List.all_eq_true.2 fun _ => isDigit_of_mem_ofNat
  rw [digits?, if_pos ⟨ofNat_ne_nil n, hall⟩, ofNat, Nat.ofDigitChars_ten_toDigits]

/-- A numeral does not start with a sign. -/
theorem head_ofNat {n : Nat} {c : Char} {rest : List Char} (h : ofNat n = c :: rest) :
    c.isDigit = true :=
  isDigit_of_mem_ofNat (n := n) (h ▸ List.mem_cons_self)

/-- A numeral is read as its number. -/
theorem natural?_ofNat (n : Nat) : natural? (ofNat n) = some n := by
  unfold natural?
  split
  · rename_i digits h
    exact absurd (head_ofNat h) (by decide)
  · exact digits?_ofNat n

/-- So is one with a sign. -/
theorem integer?_ofInt (n : Int) : integer? (ofInt n) = some n := by
  cases n with
  | ofNat n =>
    unfold integer? ofInt
    -- The first character is a digit, so the branch for negative numbers is not taken.
    split
    · rename_i digits h
      exact absurd (head_ofNat h) (by decide)
    · rw [natural?_ofNat]; rfl
  | negSucc n =>
    rw [ofInt, integer?, digits?_ofNat]
    rfl

/-! ### Reading operands -/

/-- The numeral of a number without a sign stands for it, at 16 bits. -/
theorem uint16?_ofNat (n : UInt16) : uint16? (ofNat n.toNat) = some n := by
  rw [uint16?, natural?_ofNat, Option.bind_some, if_pos n.toNat_lt_size]
  simp

theorem uint32?_ofNat (n : UInt32) : uint32? (ofNat n.toNat) = some n := by
  rw [uint32?, natural?_ofNat, Option.bind_some, if_pos n.toNat_lt_size]
  simp

/-- The numeral of a number with a sign stands for it, at 16 bits. -/
theorem int16?_ofInt (n : Int16) : int16? (ofInt n.toInt) = some n := by
  rw [int16?, integer?_ofInt, Option.bind_some, if_pos ⟨n.minValue_le_toInt, n.toInt_le⟩,
    Int16.ofInt_toInt]

theorem int32?_ofInt (n : Int32) : int32? (ofInt n.toInt) = some n := by
  rw [int32?, integer?_ofInt, Option.bind_some, if_pos ⟨n.minValue_le_toInt, n.toInt_le⟩,
    Int32.ofInt_toInt]

/-! ### What was read -/

/-- The text is a decimal numeral of the number: digits, or digits after a sign. -/
inductive Denotes : List Char → Int → Prop
  | digits {text : List Char} : text ≠ [] → (∀ c ∈ text, c.isDigit = true) →
      Denotes text (Nat.ofDigitChars 10 text 0)
  | plus {text : List Char} : text ≠ [] → (∀ c ∈ text, c.isDigit = true) →
      Denotes ('+' :: text) (Nat.ofDigitChars 10 text 0)
  | minus {text : List Char} : text ≠ [] → (∀ c ∈ text, c.isDigit = true) →
      Denotes ('-' :: text) (-(Nat.ofDigitChars 10 text 0 : Int))

variable {text : List Char}

/-- Only digits are read as digits. -/
theorem digits?_eq_some {n : Nat} (h : digits? text = some n) :
    text ≠ [] ∧ (∀ c ∈ text, c.isDigit = true) ∧ n = Nat.ofDigitChars 10 text 0 := by
  rw [digits?, Option.ite_none_right_eq_some, List.all_eq_true] at h
  exact ⟨h.1.1, h.1.2, (Option.some.inj h.2).symm⟩

/-- A number without a minus sign is read from a numeral of it. -/
theorem denotes_of_natural? {n : Nat} (h : natural? text = some n) : Denotes text n := by
  unfold natural? at h
  split at h
  · obtain ⟨hne, hdigits, rfl⟩ := digits?_eq_some h
    exact .plus hne hdigits
  · obtain ⟨hne, hdigits, rfl⟩ := digits?_eq_some h
    exact .digits hne hdigits

/-- A number is read from a numeral of it. -/
theorem denotes_of_integer? {n : Int} (h : integer? text = some n) : Denotes text n := by
  unfold integer? at h
  split at h
  · obtain ⟨n, hread, rfl⟩ := Option.map_eq_some_iff.1 h
    obtain ⟨hne, hdigits, rfl⟩ := digits?_eq_some hread
    exact .minus hne hdigits
  · obtain ⟨n, hread, rfl⟩ := Option.map_eq_some_iff.1 h
    exact denotes_of_natural? hread

/-- An operand without a sign is read from a numeral of it if it has 16 bits. -/
theorem denotes_of_uint16? {n : UInt16} (h : uint16? text = some n) : Denotes text n.toNat := by
  obtain ⟨number, hread, h⟩ := Option.bind_eq_some_iff.1 h
  rw [Option.ite_none_right_eq_some, Option.some.injEq] at h
  obtain ⟨hlt, rfl⟩ := h
  have hvalue : number.toUInt16.toNat = number := Nat.mod_eq_of_lt hlt
  rw [hvalue]
  exact denotes_of_natural? hread

/-- An operand without a sign is read from a numeral of it if it has 32 bits. -/
theorem denotes_of_uint32? {n : UInt32} (h : uint32? text = some n) : Denotes text n.toNat := by
  obtain ⟨number, hread, h⟩ := Option.bind_eq_some_iff.1 h
  rw [Option.ite_none_right_eq_some, Option.some.injEq] at h
  obtain ⟨hlt, rfl⟩ := h
  have hvalue : number.toUInt32.toNat = number := Nat.mod_eq_of_lt hlt
  rw [hvalue]
  exact denotes_of_natural? hread

/-- An operand with a sign is read from a numeral of it if it has 16 bits. -/
theorem denotes_of_int16? {n : Int16} (h : int16? text = some n) : Denotes text n.toInt := by
  obtain ⟨number, hread, h⟩ := Option.bind_eq_some_iff.1 h
  rw [Option.ite_none_right_eq_some, Option.some.injEq] at h
  obtain ⟨⟨hlow, hhigh⟩, rfl⟩ := h
  rw [Int16.toInt_ofInt_of_le hlow (Int.lt_add_one_of_le hhigh)]
  exact denotes_of_integer? hread

/-- An operand with a sign is read from a numeral of it if it has 32 bits. -/
theorem denotes_of_int32? {n : Int32} (h : int32? text = some n) : Denotes text n.toInt := by
  obtain ⟨number, hread, h⟩ := Option.bind_eq_some_iff.1 h
  rw [Option.ite_none_right_eq_some, Option.some.injEq] at h
  obtain ⟨⟨hlow, hhigh⟩, rfl⟩ := h
  rw [Int32.toInt_ofInt_of_le hlow (Int.lt_add_one_of_le hhigh)]
  exact denotes_of_integer? hread

end CleanupFilter.Text.Numeral
