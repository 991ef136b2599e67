import CleanupFilter.Instruction.Opcode
import CleanupFilter.Proofs.Text.Words

/-!
# Mnemonics read back

The mnemonics of the instruction set are pairwise different words of lower case letters, digits and
underscores, so that the printed form of an opcode names it and nothing else.

- `nodup_mnemonic`: no two instructions share a mnemonic.
- `Opcode.ofMnemonic?_display`: the printed form of a defined opcode stands for that opcode.
- `Opcode.isToken_display`, `Opcode.exists_display_eq`: the printed form is a token that starts
  with a letter.
- `Opcode.isToken_of_ofMnemonic?`, `Opcode.exists_eq_of_ofMnemonic?`: so is every word that stands
  for an opcode.
-/

namespace CleanupFilter

/-! ### The mnemonics of the table -/

/-- Whether a mnemonic may hold the character. -/
def isMnemonicChar (c : Char) : Bool :=
  c.isLower || c.isDigit || c == '_'

/-- The bytes of a text, read as the digits of a number. -/
def byteNumber (text : String) : Nat :=
  text.toByteArray.data.toList.foldl (fun n byte => 256 * n + byte.toNat) 0

/-- No two instructions share a mnemonic. -/
theorem nodup_mnemonic : (instructionTable.toList.map (·.mnemonic)).Nodup := by
  -- Numbers are compared much faster than texts.
  have h : ((instructionTable.toList.map (·.mnemonic)).map byteNumber).Nodup := by decide +kernel
  exact List.Pairwise.imp (fun hne heq => hne (congrArg byteNumber heq)) (List.pairwise_map.1 h)

/-- Every mnemonic starts with a letter, and its characters are those of mnemonics. -/
theorem forall_mnemonic : ∀ instruction ∈ instructionTable.toList,
    instruction.mnemonic.toList.head?.any Char.isLower = true ∧
      instruction.mnemonic.toList.all isMnemonicChar = true := by
  decide +kernel

/-! ### Letter case -/

/-- What holds of all ASCII characters can be checked one by one. -/
theorem forall_of_forall_ascii {p : Char → Prop} (h : ∀ n < 128, p (Char.ofNat n)) {c : Char}
    (hc : c.toNat < 128) : p c := by
  rw [← Char.ofNat_toNat c]
  exact h c.toNat hc

/-- The characters of mnemonics are ASCII characters. -/
theorem lt_of_isMnemonicChar {c : Char} (h : isMnemonicChar c = true) : c.toNat < 128 := by
  unfold isMnemonicChar Char.isLower Char.isDigit at h
  simp only [Bool.or_eq_true, Bool.and_eq_true, decide_eq_true_eq, UInt32.le_iff_toNat_le,
    ge_iff_le, beq_iff_eq] at h
  rcases h with (⟨-, h⟩ | ⟨-, h⟩) | rfl
  · exact Nat.lt_of_le_of_lt h (by decide)
  · exact Nat.lt_of_le_of_lt h (by decide)
  · decide

/-- In upper case a character of a mnemonic is one of a token, and it can be put back. -/
theorem toUpper_of_isMnemonicChar {c : Char} (h : isMnemonicChar c = true) :
    c.toUpper.toLower = c ∧ Text.isPlain c.toUpper = true ∧ c.toUpper ≠ ':' :=
  forall_of_forall_ascii
    (p := fun c => isMnemonicChar c = true →
      c.toUpper.toLower = c ∧ Text.isPlain c.toUpper = true ∧ c.toUpper ≠ ':')
    (by decide +kernel) (lt_of_isMnemonicChar h) h

/-- A letter has an upper case. -/
theorem isUpper_toUpper_of_isLower {c : Char} (h : c.isLower = true) : c.toUpper.isUpper = true :=
  forall_of_forall_ascii (p := fun c => c.isLower = true → c.toUpper.isUpper = true)
    (by decide +kernel) (lt_of_isMnemonicChar (by simp [isMnemonicChar, h])) h

/-- A character is an ASCII character if it is one in lower case. -/
theorem lt_of_toLower {c : Char} (h : c.toLower.toNat < 128) : c.toNat < 128 := by
  unfold Char.toLower at h
  split at h
  · next hupper => exact Nat.lt_of_le_of_lt (UInt32.le_iff_toNat_le.1 hupper.2) (by decide)
  · exact h

/-- In upper or lower case a character of a mnemonic is one of a token. -/
theorem isPlain_of_toLower {c : Char} (h : isMnemonicChar c.toLower = true) :
    Text.isPlain c = true :=
  forall_of_forall_ascii
    (p := fun c => isMnemonicChar c.toLower = true → Text.isPlain c = true)
    (by decide +kernel) (lt_of_toLower (lt_of_isMnemonicChar h)) h

/-- Letters are neither blanks nor what an index is made of. -/
theorem not_index_of_isLower_toLower {c : Char} (h : c.toLower.isLower = true) :
    ¬ (Text.isBlank c = true ∨ c.isDigit = true ∨ c = ':') :=
  forall_of_forall_ascii
    (p := fun c => c.toLower.isLower = true →
      ¬ (Text.isBlank c = true ∨ c.isDigit = true ∨ c = ':'))
    (by decide +kernel) (lt_of_toLower (lt_of_isMnemonicChar (by simp [isMnemonicChar, h]))) h

namespace Opcode

variable {opcode : Opcode}

/-- An opcode with a form is defined. -/
theorem isDefined_of_form?_eq_some {form : OperandForm} (h : opcode.form? = some form) :
    opcode.isDefined = true := by
  obtain ⟨instruction, hi, -⟩ := Option.map_eq_some_iff.1 h
  exact Option.isSome_iff_exists.2 ⟨instruction, hi⟩

/-- One instruction only takes a slot and an increment. -/
theorem eq_iinc_of_form? (h : opcode.form? = some .iinc) : opcode = iinc := by
  have hall : ∀ n < 256, (Opcode.mk n.toUInt8).form? = some .iinc → n.toUInt8 = 0x84 := by
    decide +kernel
  have hbyte := hall opcode.byte.toNat opcode.byte.toNat_lt
  rw [Nat.toUInt8_eq, UInt8.ofNat_toNat] at hbyte
  exact congrArg Opcode.mk (hbyte h)

/-- A defined opcode is the index of its instruction in the table. -/
theorem exists_instruction (h : opcode.isDefined = true) :
    ∃ hlt : opcode.byte.toNat < instructionTable.size,
      opcode.mnemonic = instructionTable[opcode.byte.toNat].mnemonic := by
  obtain ⟨instruction, hi⟩ := Option.isSome_iff_exists.1 h
  obtain ⟨hlt, hget⟩ := Array.getElem?_eq_some_iff.1 hi
  refine ⟨hlt, ?_⟩
  unfold mnemonic
  rw [hi, hget]

/-- A mnemonic starts with a letter. -/
theorem head?_mnemonic (h : opcode.isDefined = true) :
    opcode.mnemonic.toList.head?.any Char.isLower = true := by
  obtain ⟨hlt, hmnemonic⟩ := exists_instruction h
  rw [hmnemonic]
  exact (forall_mnemonic _ (Array.getElem_mem_toList hlt)).1

/-- The mnemonic of a defined opcode has the characters of mnemonics. -/
theorem isMnemonicChar_of_mem (h : opcode.isDefined = true) {c : Char}
    (hc : c ∈ opcode.mnemonic.toList) : isMnemonicChar c = true := by
  obtain ⟨hlt, hmnemonic⟩ := exists_instruction h
  rw [hmnemonic] at hc
  exact List.all_eq_true.1 (forall_mnemonic _ (Array.getElem_mem_toList hlt)).2 c hc

theorem toList_display (opcode : Opcode) :
    opcode.display.toList = opcode.mnemonic.toList.map Char.toUpper :=
  String.toList_map

/-! ### The printed form -/

/-- In lower case the printed form is the mnemonic. -/
theorem toLower_display (h : opcode.isDefined = true) :
    opcode.display.toLower = opcode.mnemonic := by
  apply String.toList_inj.1
  show (opcode.display.map Char.toLower).toList = opcode.mnemonic.toList
  rw [String.toList_map, toList_display, List.map_map]
  calc opcode.mnemonic.toList.map (Char.toLower ∘ Char.toUpper)
    _ = opcode.mnemonic.toList.map id :=
      List.map_congr_left fun c hc => (toUpper_of_isMnemonicChar (isMnemonicChar_of_mem h hc)).1
    _ = opcode.mnemonic.toList := List.map_id _

/-- Every instruction is the only one of the table with its mnemonic. -/
theorem findIdx?_mnemonic {index : Nat} (h : index < instructionTable.size) :
    instructionTable.findIdx? (·.mnemonic == instructionTable[index].mnemonic) = some index := by
  refine Array.findIdx?_eq_some_iff_getElem.2 ⟨h, beq_self_eq_true _, fun j hj heq => ?_⟩
  -- An earlier instruction would share the mnemonic.
  have hne := List.pairwise_iff_getElem.1 nodup_mnemonic j index (by simp; omega) (by simpa) hj
  simp only [List.getElem_map, Array.getElem_toList] at hne
  exact hne (eq_of_beq heq)

/-- The printed form of a defined opcode stands for that opcode. -/
theorem ofMnemonic?_display (h : opcode.isDefined = true) :
    ofMnemonic? opcode.display = some opcode := by
  obtain ⟨hlt, hmnemonic⟩ := exists_instruction h
  unfold ofMnemonic?
  dsimp only
  rw [toLower_display h, hmnemonic, findIdx?_mnemonic hlt, Option.map_some, Nat.toUInt8_eq,
    UInt8.ofNat_toNat]

/-- A word that is no mnemonic in lower case is not the printed form of an opcode either. -/
theorem display_ne {word : List Char}
    (hword : String.ofList (word.map Char.toLower) ∉ instructionTable.toList.map (·.mnemonic))
    (h : opcode.isDefined = true) : opcode.display.toList ≠ word := by
  rintro rfl
  obtain ⟨hlt, hmnemonic⟩ := exists_instruction h
  -- Back in lower case the printed form is a mnemonic of the table.
  have hlower : String.ofList (opcode.display.toList.map Char.toLower) = opcode.mnemonic := by
    rw [← String.toList_map, String.ofList_toList]
    exact toLower_display h
  rw [hlower, hmnemonic] at hword
  exact hword (List.mem_map_of_mem (Array.getElem_mem_toList hlt))

/-- The characters of the printed form are plain, and none is a colon. -/
theorem mem_display (h : opcode.isDefined = true) {c : Char} (hc : c ∈ opcode.display.toList) :
    Text.isPlain c = true ∧ c ≠ ':' := by
  rw [toList_display] at hc
  obtain ⟨d, hd, rfl⟩ := List.mem_map.1 hc
  exact (toUpper_of_isMnemonicChar (isMnemonicChar_of_mem h hd)).2

/-- The printed form starts with a letter. -/
theorem exists_display_eq (h : opcode.isDefined = true) :
    ∃ c rest, opcode.display.toList = c :: rest ∧ c.isUpper = true := by
  have hhead := head?_mnemonic h
  rw [toList_display]
  cases hchars : opcode.mnemonic.toList with
  | nil => simp [hchars] at hhead
  | cons c rest =>
    rw [hchars] at hhead
    exact ⟨c.toUpper, rest.map Char.toUpper, rfl, isUpper_toUpper_of_isLower hhead⟩

/-- The printed form is no label. -/
theorem getLast?_display_ne (h : opcode.isDefined = true) :
    opcode.display.toList.getLast? ≠ some ':' :=
  fun hlast => (mem_display h (List.mem_of_getLast? hlast)).2 rfl

/-- The printed form is a token. -/
theorem isToken_display (h : opcode.isDefined = true) : Text.IsToken opcode.display.toList := by
  obtain ⟨c, rest, heq, -⟩ := exists_display_eq h
  exact .of_isPlain (by simp [heq]) fun d hd => (mem_display h hd).1

/-! ### Words that stand for opcodes -/

/-- A word that stands for an opcode is a mnemonic of the table, letter case apart. -/
theorem exists_instruction_of_ofMnemonic? {word : List Char}
    (h : ofMnemonic? (String.ofList word) = some opcode) :
    ∃ instruction ∈ instructionTable.toList,
      word.map Char.toLower = instruction.mnemonic.toList := by
  obtain ⟨index, hindex, -⟩ := Option.map_eq_some_iff.1 h
  obtain ⟨hlt, heq, -⟩ := Array.findIdx?_eq_some_iff_getElem.1 hindex
  refine ⟨_, Array.getElem_mem_toList hlt, ?_⟩
  rw [eq_of_beq heq]
  show word.map Char.toLower = ((String.ofList word).map Char.toLower).toList
  rw [String.toList_map, String.toList_ofList]

/-- A word that stands for an opcode starts with a letter. -/
theorem exists_eq_of_ofMnemonic? {word : List Char}
    (h : ofMnemonic? (String.ofList word) = some opcode) :
    ∃ c rest, word = c :: rest ∧ c.toLower.isLower = true := by
  obtain ⟨instruction, hmem, hword⟩ := exists_instruction_of_ofMnemonic? h
  have hhead := (forall_mnemonic instruction hmem).1
  rw [← hword] at hhead
  cases word with
  | nil => exact absurd hhead (by decide)
  | cons c rest => exact ⟨c, rest, rfl, hhead⟩

/-- A word that stands for an opcode is a token. -/
theorem isToken_of_ofMnemonic? {word : List Char}
    (h : ofMnemonic? (String.ofList word) = some opcode) : Text.IsToken word := by
  obtain ⟨instruction, hmem, hword⟩ := exists_instruction_of_ofMnemonic? h
  obtain ⟨first, rest, rfl, -⟩ := exists_eq_of_ofMnemonic? h
  refine .of_isPlain (List.cons_ne_nil first rest) fun c hc => isPlain_of_toLower ?_
  refine List.all_eq_true.1 (forall_mnemonic instruction hmem).2 _ ?_
  rw [← hword]
  exact List.mem_map_of_mem hc

end Opcode

end CleanupFilter
