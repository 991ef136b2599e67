import Mathlib.Data.List.Basic
import CleanupFilter.Listing.Item
import CleanupFilter.Proofs.Instruction.Mnemonic
import CleanupFilter.Proofs.Listing.Line

/-!
# Items read back

The text of a node or of an exception table entry reads as that node or entry, whatever index stands
in front of it. This holds if no operand starts a comment where it stands, as tokens never do.

- `Node.Printable`, `TryCatch.Printable`: operands that are tokens, and constants.
- `Node.Writable`, `TryCatch.Writable`: what the operands have to be like at least.
- `Item.Spells`: a text that reads as an item.
- `Node.spells_text`, `TryCatch.spells_text`: nodes and entries are spelled by their texts, unless the
  type of an entry starts a comment.
-/

namespace CleanupFilter

open Text (IsWord IsToken Trimmed)
open Line (Uncommented IndexText)

-- The table is a large closed term, which the unifier would evaluate.
attribute [local irreducible] instructionTable

/-! ### What can be printed -/

/-- The member is one token on a line, split at its last dot, and so is its descriptor. -/
def Member.Printable (member : Member) : Prop :=
  IsToken member.path ∧ member.name.toList ≠ [] ∧ '.' ∉ member.name.toList ∧
    IsToken member.desc.toList

instance (member : Member) : Decidable member.Printable :=
  inferInstanceAs (Decidable (_ ∧ _ ∧ _ ∧ _))

/-- The constant fills the rest of a line. -/
def PrintableConstant (constant : List Char) : Prop :=
  Trimmed constant ∧ '\n' ∉ constant ∧ Line.stripComment constant = constant

instance (constant : List Char) : Decidable (PrintableConstant constant) :=
  inferInstanceAs (Decidable (_ ∧ _ ∧ _))

/-- The operands of the node, labels apart, can stand on a line. -/
def Node.Printable {L : Type} : Node L → Prop
  | .type _ desc => IsToken desc.toList
  | .field _ target | .method _ target _ => target.Printable
  | .ldc _ constant => PrintableConstant constant.toList
  | _ => True

instance {L : Type} (node : Node L) : Decidable node.Printable := by
  cases node <;> unfold Node.Printable <;> infer_instance

/-- The caught type, if there is one, is a token that does not stand for its absence. -/
def TryCatch.Printable {L : Type} (entry : TryCatch L) : Prop :=
  ∀ caught ∈ entry.caught, IsToken caught.toList ∧ caught.toList ≠ Keyword.catchAll

instance {L : Type} (entry : TryCatch L) : Decidable entry.Printable :=
  inferInstanceAs (Decidable (∀ caught ∈ entry.caught, _))

/-- Owner and name of the member can be told apart at the last dot. -/
def Member.Splits (member : Member) : Prop :=
  member.name.toList ≠ [] ∧ '.' ∉ member.name.toList

/-- The operands of the node, labels apart, can stand behind a mnemonic. -/
def Node.Writable {L : Type} : Node L → Prop
  | .type _ desc => Line.Writable [desc.toList]
  | .field _ target => target.Splits ∧ Line.Writable [target.path, [':'], target.desc.toList]
  | .method _ target _ => target.Splits ∧ Line.Writable [target.path, target.desc.toList]
  | .ldc _ constant => PrintableConstant constant.toList
  | _ => True

/-- The caught type, if there is one, is a word that does not stand for its absence. -/
def TryCatch.Writable {L : Type} (entry : TryCatch L) : Prop :=
  ∀ caught ∈ entry.caught, IsWord caught.toList ∧ caught.toList ≠ Keyword.catchAll

/-- The caught type starts a comment where no quotes are open. -/
def TryCatch.Commented {L : Type} (entry : TryCatch L) : Prop :=
  ∃ caught ∈ entry.caught, ['/', '/'] <+: caught.toList

instance {L : Type} (entry : TryCatch L) : Decidable entry.Commented :=
  decidable_of_iff (entry.caught.any fun caught => ['/', '/'].isPrefixOf caught.toList) <| by
    rw [Option.any_eq_true]
    exact exists_congr fun caught => and_congr_right fun _ => List.isPrefixOf_iff_prefix

/-- Operands that can be printed can stand on a line. -/
theorem Node.Printable.writable {L : Type} {node : Node L} (h : node.Printable) :
    node.Writable := by
  cases node with
  | type opcode desc => exact .of_isToken (List.forall_mem_singleton.2 h)
  | field opcode target =>
    refine ⟨⟨h.2.1, h.2.2.1⟩, .of_isToken ?_⟩
    simpa using ⟨h.1, (by decide : IsToken [':']), h.2.2.2⟩
  | method opcode target interface =>
    refine ⟨⟨h.2.1, h.2.2.1⟩, .of_isToken ?_⟩
    simpa using ⟨h.1, h.2.2.2⟩
  | ldc opcode constant => exact h
  | _ => exact trivial

/-- A type that can be printed can stand on a line, and starts no comment. -/
theorem TryCatch.Printable.writable {L : Type} {entry : TryCatch L} (h : entry.Printable) :
    entry.Writable ∧ ¬ entry.Commented :=
  ⟨fun caught hcaught => ⟨(h caught hcaught).1.1, (h caught hcaught).2⟩,
    fun ⟨caught, hcaught, hslashes⟩ => (h caught hcaught).1.2.2 hslashes⟩

/-- A name as labels have it in print. -/
def IsLabelName (name : String) : Prop :=
  ∃ n, name.toList = 'L' :: Text.Numeral.ofNat n

/-- Labels are printed with names of this kind. -/
theorem isLabelName_labelName (labels : Numbering Label) (label : Label) :
    IsLabelName (labelName labels label) :=
  ⟨_, String.toList_ofList⟩

/-- The names of labels are tokens. -/
theorem IsLabelName.isToken {name : String} (h : IsLabelName name) : IsToken name.toList := by
  obtain ⟨n, hn⟩ := h
  rw [hn]
  simpa using Text.Numeral.isToken_between ['L'] [] rfl n

/-! ### Words with blanks between them -/

namespace Line

/-- The text takes up a line and has these words. -/
structure Fills (text : List Char) (words : List (List Char)) : Prop where
  trimmed : Trimmed text
  unbroken : '\n' ∉ text
  words_eq : Text.words text = words

/-- The text can stand on a line and has these words. -/
structure Written (text : List Char) (words : List (List Char)) : Prop
    extends Fills text words where
  uncommented : Uncommented text

/-- Words have no line feeds. -/
theorem notMem_newline_of_isWord {word : List Char} (h : IsWord word) : '\n' ∉ word :=
  fun hmem => absurd (h.2 _ hmem) (by decide)

/-- A word fills a text by itself. -/
theorem Fills.of_isWord {word : List Char} (h : IsWord word) : Fills word [word] where
  trimmed := .of_isWord h
  unbroken := notMem_newline_of_isWord h
  words_eq := Text.words_of_isWord h

/-- So it does in front of others, with a space between them. -/
theorem Fills.word_append {word text : List Char} {words : List (List Char)} (hword : IsWord word)
    (h : Fills text words) : Fills (word ++ ' ' :: text) (word :: words) where
  trimmed := by simpa using (Trimmed.of_isWord hword).append h.trimmed [' ']
  unbroken := by
    have hfeed := notMem_newline_of_isWord hword
    simp [hfeed, h.unbroken]
  words_eq := by rw [Text.words_append_blank hword, h.words_eq]

theorem joinWords_cons_cons (first second : List Char) (rest : List (List Char)) :
    joinWords (first :: second :: rest) = first ++ ' ' :: joinWords (second :: rest) := by
  rw [joinWords, joinWords, List.intercalate_cons_cons, List.append_assoc, List.singleton_append]

/-- Words that are joined fill the text. -/
theorem Fills.joinWords {first : List Char} {rest : List (List Char)}
    (h : ∀ word ∈ first :: rest, IsWord word) :
    Fills (joinWords (first :: rest)) (first :: rest) := by
  obtain ⟨hfirst, hrest⟩ := List.forall_mem_cons.1 h
  induction rest generalizing first with
  | nil =>
    rw [CleanupFilter.joinWords, List.intercalate_singleton]
    exact .of_isWord hfirst
  | cons second rest ih =>
    rw [joinWords_cons_cons]
    obtain ⟨hsecond, hrest'⟩ := List.forall_mem_cons.1 hrest
    exact (ih hrest hsecond hrest').word_append hfirst

/-- A text is free of comments if its words are. -/
theorem Fills.written {text : List Char} {words : List (List Char)} (h : Fills text words)
    (huncut : Line.Uncut false words) : Written text words :=
  { h with uncommented := uncommented_iff_uncut.2 (h.words_eq ▸ huncut) }

/-- Words that can stand on a line are written when they are joined. -/
theorem Written.joinWords {first : List Char} {rest : List (List Char)}
    (h : Writable (first :: rest)) : Written (joinWords (first :: rest)) (first :: rest) :=
  (Fills.joinWords h.1).written h.2

/-- A token can be written in front of others. -/
theorem Written.token_append {word text : List Char} {words : List (List Char)}
    (hword : IsToken word) (h : Written text words) :
    Written (word ++ ' ' :: text) (word :: words) :=
  { h.word_append hword.1 with uncommented := h.uncommented.token_append hword }

end Line

/-! ### Reading texts -/

namespace Item

/-- The text reads as the item on a line of its own, behind any index. -/
def Spells (text : List Char) (item : Item String) : Prop :=
  ∃ head words, Line.Written text (head :: words) ∧ Line.isIndex head = false ∧
    head ≠ Keyword.openMethod ∧ head ≠ Keyword.closeMethod ∧
    ∀ index, IndexText index → read head (index ++ text) words = .ok item

/-- No keyword is a mnemonic. -/
theorem keyword_notMem_mnemonic : ∀ keyword ∈ [Keyword.openMethod, Keyword.closeMethod,
    Keyword.frame, Keyword.lineMarker, Keyword.tryCatch],
    String.ofList (keyword.map Char.toLower) ∉ instructionTable.toList.map (·.mnemonic) := by
  decide +kernel

/-- A line that starts with the printed form of an opcode is read as an instruction. -/
theorem read_display {opcode : Opcode} (h : opcode.isDefined = true) (text : List Char)
    (words : List (List Char)) :
    read opcode.display.toList text words =
      (instruction opcode.display.toList text words).map .node := by
  -- No keyword is a mnemonic in lower case.
  rw [read, if_neg (Opcode.getLast?_display_ne h)]
  rw [if_neg (Opcode.display_ne (keyword_notMem_mnemonic Keyword.frame (by simp)) h)]
  rw [if_neg (Opcode.display_ne (keyword_notMem_mnemonic Keyword.lineMarker (by simp)) h)]
  rw [if_neg (Opcode.display_ne (keyword_notMem_mnemonic Keyword.tryCatch (by simp)) h)]

/-- An instruction is spelled by the printed form of its opcode and operands that read as it. -/
theorem spells_instruction {opcode : Opcode} {form : OperandForm} {operands : Operands}
    {text : List Char} {words : List (List Char)} {node : Node String}
    (hform : opcode.form? = some form) (hoperands : Operands.ofForm? form = some operands)
    (hwritten : Line.Written text (opcode.display.toList :: words))
    (hread : ∀ index, IndexText index →
      instruction? opcode operands opcode.display.toList (index ++ text) words = some node) :
    Spells text (.node node) := by
  have hdefined := Opcode.isDefined_of_form?_eq_some hform
  refine ⟨_, _, hwritten, ?_, ?_, ?_, fun index hindex => ?_⟩
  · simp [Line.isIndex, Opcode.getLast?_display_ne hdefined]
  · exact Opcode.display_ne (keyword_notMem_mnemonic Keyword.openMethod (by simp)) hdefined
  · exact Opcode.display_ne (keyword_notMem_mnemonic Keyword.closeMethod (by simp)) hdefined
  · rw [read_display hdefined, instruction, String.ofList_toList,
      Opcode.ofMnemonic?_display hdefined]
    simp only [hform, Option.bind_some, hoperands, hread index hindex]
    rfl

/-! ### Operands -/

/-- A text is not split if the character does not occur. -/
theorem splitLast?_eq_none_iff {c : Char} {text : List Char} :
    splitLast? c text = none ↔ c ∉ text := by
  induction text with
  | nil => simp [splitLast?]
  | cons d rest ih =>
    rw [splitLast?, List.mem_cons, not_or, ← ih]
    cases splitLast? c rest with
    | none => simp [eq_comm]
    | some split => simp

/-- A text is split where the character occurs last. -/
theorem splitLast?_append {c : Char} {last : List Char} (h : c ∉ last) (front : List Char) :
    splitLast? c (front ++ c :: last) = some (front, last) := by
  induction front with
  | nil =>
    -- There is nothing to split behind the last occurrence.
    rw [List.nil_append, splitLast?, splitLast?_eq_none_iff.2 h]
    exact if_pos rfl
  | cons d front ih => rw [List.cons_append, splitLast?, ih]

/-- Behind the split the character does not occur. -/
theorem splitLast?_eq_some {c : Char} {text before after : List Char}
    (h : splitLast? c text = some (before, after)) : text = before ++ c :: after ∧ c ∉ after := by
  induction text generalizing before with
  | nil => exact absurd h (by simp [splitLast?])
  | cons d rest ih =>
    -- An occurrence in the rest is a later one.
    rw [splitLast?] at h
    cases hrest : splitLast? c rest with
    | none =>
      rw [hrest] at h
      simp only [Option.ite_none_right_eq_some, Option.some.injEq, Prod.mk.injEq] at h
      obtain ⟨rfl, rfl, rfl⟩ := h
      exact ⟨rfl, splitLast?_eq_none_iff.1 hrest⟩
    | some split =>
      obtain ⟨front, last⟩ := split
      rw [hrest] at h
      obtain ⟨rfl, rfl⟩ := Prod.mk.inj (Option.some.inj h)
      obtain ⟨rfl, hlast⟩ := ih hrest
      exact ⟨rfl, hlast⟩

/-- A member is read back from its path and its descriptor. -/
theorem member?_path {member : Member} (h : member.Splits) :
    member? member.path member.desc.toList = some member := by
  obtain ⟨hne, hdot⟩ := h
  rw [member?, Member.path, splitLast?_append hdot]
  obtain ⟨c, rest, hname⟩ := List.exists_cons_of_ne_nil hne
  simp only [hname, Option.some.injEq]
  rw [← hname, String.ofList_toList, String.ofList_toList, String.ofList_toList]

/-- A word is not found where its first character does not occur. -/
theorem afterFirst?_front {c : Char} {front : List Char} (h : c ∉ front) (word text : List Char) :
    afterFirst? (c :: word) (front ++ text) = afterFirst? (c :: word) text := by
  induction front with
  | nil => rfl
  | cons d front ih =>
    obtain ⟨hd, hfront⟩ := not_or.1 fun h' => h (List.mem_cons.2 h')
    rw [List.cons_append, afterFirst?, ih hfront, List.isPrefixOf?]
    simp [hd]

/-- A text goes on after the first occurrence of a word. -/
theorem afterFirst?_append {c : Char} {front : List Char} (h : c ∉ front) (word rest : List Char) :
    afterFirst? (c :: word) (front ++ (c :: word ++ rest)) = some rest := by
  have hprefix : (c :: word).isPrefixOf? (c :: word ++ rest) = some rest :=
    List.isPrefixOf?_eq_some_iff_append_eq.2 rfl
  rw [afterFirst?_front h, List.cons_append, afterFirst?, ← List.cons_append, hprefix]

/-- An index has no letters. -/
theorem notMem_index {index : List Char} (hindex : IndexText index) {c : Char}
    (hc : c.isUpper = true) : c ∉ index := by
  intro hmem
  -- An index is made of digits, a colon and spaces.
  have hother : ∀ d ∈ index, d.isDigit = true ∨ d = ':' ∨ d = ' ' := by
    cases hindex with
    | absent => simp
    | present position n =>
      intro d hd
      simp only [List.mem_append, List.mem_cons, List.not_mem_nil, or_false,
        List.mem_replicate] at hd
      rcases hd with (hd | hd) | hd | ⟨-, hd⟩
      · exact .inl (Text.Numeral.isDigit_of_mem_ofNat hd)
      · exact .inr (.inl hd)
      · exact .inr (.inr hd)
      · exact .inr (.inr hd)
  rcases hother c hmem with hdigit | rfl | rfl
  · -- Letters come behind all digits.
    unfold Char.isUpper at hc
    unfold Char.isDigit at hdigit
    simp only [Bool.and_eq_true, decide_eq_true_eq, UInt32.le_iff_toNat_le, ge_iff_le] at hc hdigit
    have := Nat.le_trans hc.1 hdigit.2
    revert this
    decide
  · exact absurd hc (by decide)
  · exact absurd hc (by decide)

/-- The constant of a line is what stands after the printed form of the opcode. -/
theorem constant?_display {opcode : Opcode} (h : opcode.isDefined = true) {index : List Char}
    (hindex : IndexText index) {constant : List Char} (hconstant : Trimmed constant) :
    constant? opcode.display.toList (index ++ (opcode.display.toList ++ ' ' :: constant)) =
      some (String.ofList constant) := by
  -- The printed form starts with a letter, and an index holds none.
  obtain ⟨c, rest, hdisplay, hupper⟩ := Opcode.exists_display_eq h
  rw [hdisplay, constant?, afterFirst?_append (notMem_index hindex hupper), Option.map_some]
  have htrim : Text.trim (' ' :: constant) = constant := Text.trim_replicate_append 1 hconstant
  obtain ⟨d, tail, rfl⟩ := List.exists_cons_of_ne_nil hconstant.1
  rw [htrim]

end Item

/-! ### Nodes and entries -/

namespace Node

variable {node : Node String}

/-- The opcode of a node that fits has the form of the node. -/
theorem form?_eq_some_of_fits {opcode : Opcode} {form : OperandForm} (h : node.Fits)
    (hopcode : node.opcode? = some opcode) (hform : node.form? = some form) :
    opcode.form? = some form := by
  rwa [Fits, hopcode, hform, Option.bind_some] at h

/-- An instruction whose operands can be written is spelled by its words. -/
theorem spells_joinWords {opcode : Opcode} {form : OperandForm} {operands : Operands}
    {words : List (List Char)} (hfits : node.Fits) (hopcode : node.opcode? = some opcode)
    (hform : node.form? = some form) (hoperands : Operands.ofForm? form = some operands)
    (hwritable : Line.Writable words)
    (hread : ∀ text, Item.instruction? opcode operands opcode.display.toList text words =
      some node) :
    Item.Spells (joinWords (opcode.display.toList :: words)) (.node node) := by
  have hform := form?_eq_some_of_fits hfits hopcode hform
  have htoken := Opcode.isToken_display (Opcode.isDefined_of_form?_eq_some hform)
  exact Item.spells_instruction hform hoperands
    (.joinWords ((Line.writable_cons_of_isToken htoken).2 hwritable)) fun _ _ => hread _

/-- A node whose operands can be written is spelled by its text. -/
theorem spells_text (hfits : node.Fits) (hflag : node.withInterfaceFlag = node)
    (hwritable : node.Writable) (hlabels : ∀ name ∈ node.mentioned?, IsLabelName name) :
    Item.Spells node.text (.node node) := by
  cases node with
  | plain opcode =>
    exact spells_joinWords hfits rfl rfl rfl (.of_isToken (by simp)) fun _ => rfl
  | int opcode operand =>
    refine spells_joinWords hfits rfl rfl rfl (.of_isToken ?_) fun _ => ?_
    · simpa using Text.Numeral.isToken_ofInt _
    · rw [Item.instruction?, Text.Numeral.int32?_ofInt, Option.map_some]
  | var opcode slot =>
    refine spells_joinWords hfits rfl rfl rfl (.of_isToken ?_) fun _ => ?_
    · simpa using Text.Numeral.isToken_ofNat _
    · rw [Item.instruction?, Text.Numeral.uint16?_ofNat, Option.map_some]
  | iinc slot increment =>
    refine spells_joinWords hfits rfl rfl rfl (.of_isToken ?_) fun _ => ?_
    · simpa using ⟨Text.Numeral.isToken_ofNat _, Text.Numeral.isToken_ofInt _⟩
    · rw [Item.instruction?, Text.Numeral.uint16?_ofNat, Option.bind_some,
        Text.Numeral.int16?_ofInt, Option.map_some]
  | type opcode desc =>
    refine spells_joinWords hfits rfl rfl rfl hwritable fun _ => ?_
    rw [Item.instruction?, String.ofList_toList]
  | field opcode target =>
    refine spells_joinWords hfits rfl rfl rfl hwritable.2 fun _ => ?_
    rw [Item.instruction?, Item.member?_path hwritable.1, Option.map_some]
  | method opcode target interface =>
    refine spells_joinWords hfits rfl rfl rfl hwritable.2 fun _ => ?_
    rw [Item.instruction?, Item.member?_path hwritable.1, Option.map_some]
    exact congrArg some hflag
  | jump opcode target =>
    have hname := (hlabels target rfl).isToken
    refine spells_joinWords hfits rfl rfl rfl (.of_isToken ?_) fun _ => ?_
    · simpa using hname
    · rw [Item.instruction?, String.ofList_toList]
  | ldc opcode constant =>
    -- The constant is not made of tokens, but it fills the rest of the line.
    have hform := form?_eq_some_of_fits hfits rfl rfl
    have hdefined := Opcode.isDefined_of_form?_eq_some hform
    obtain ⟨htrimmed, hfeed, hstrip⟩ := hwritable
    have hconstant : Line.Written constant.toList (Text.words constant.toList) :=
      ⟨⟨htrimmed, hfeed, rfl⟩, Line.uncommented_iff.2 hstrip⟩
    have hwritten := hconstant.token_append (Opcode.isToken_display hdefined)
    have htext : (ldc opcode constant : Node String).text =
        opcode.display.toList ++ ' ' :: constant.toList := by
      rw [text, lineWords, Line.joinWords_cons_cons, joinWords, List.intercalate_singleton]
    rw [htext]
    refine Item.spells_instruction hform rfl hwritten fun index hindex => ?_
    rw [Item.instruction?, Item.constant?_display hdefined hindex htrimmed, Option.map_some,
      String.ofList_toList]
  | label name =>
    obtain ⟨n, hn⟩ := hlabels name rfl
    have htoken : IsToken (name.toList ++ [':']) := by
      rw [hn]
      exact Text.Numeral.isToken_between ['L'] [':'] rfl n
    -- No keyword ends with a colon.
    have hlast : ∀ keyword : List Char, keyword.getLast? ≠ some ':' →
        name.toList ++ [':'] ≠ keyword := by
      rintro keyword hkeyword rfl
      exact hkeyword List.getLast?_concat
    have hwords : Line.Writable [name.toList ++ [':']] := .of_isToken (by simpa using htoken)
    refine ⟨_, _, .joinWords hwords, ?_, hlast _ (by decide), hlast _ (by decide), fun _ _ => ?_⟩
    · -- The letter in front of the numeral tells the label from an index.
      have hall : name.toList.all Char.isDigit = false := by rw [hn]; rfl
      rw [Line.isIndex, List.dropLast_concat, hall, Bool.and_false]
    · rw [Item.read, if_pos List.getLast?_concat, List.dropLast_concat, String.ofList_toList,
        if_pos ⟨rfl, by simp [hn]⟩]
  | line number start =>
    have hname := (hlabels start rfl).isToken
    have hnumber := Text.Numeral.isToken_ofNat number.toNat
    have hkeyword : IsToken Keyword.lineMarker := by decide
    refine ⟨_, _, .joinWords (.of_isToken ?_), by decide, by decide, by decide, fun _ _ => ?_⟩
    · simpa using ⟨hkeyword, hnumber, hname⟩
    · rw [Item.read, if_neg (by decide), if_neg (by decide), if_pos rfl, Item.lineMarker,
        Text.Numeral.uint32?_ofNat, String.ofList_toList]
      rfl
  | frame =>
    exact ⟨_, _, .joinWords (by decide), by decide, by decide, by decide, fun _ _ => rfl⟩

end Node

namespace TryCatch

variable {entry : TryCatch String}

/-- The words of an entry in front of its type. -/
def labelWords (entry : TryCatch String) : List (List Char) :=
  [Keyword.tryCatch, entry.start.toList, entry.stop.toList, entry.handler.toList]

/-- The labels of an entry are printed as tokens. -/
theorem isToken_of_mem_labelWords (hlabels : ∀ name ∈ entry.labels, IsLabelName name) :
    ∀ word ∈ entry.labelWords, IsToken word := by
  obtain ⟨start, stop, handler, caught⟩ := entry
  simp only [labels, List.mem_cons, List.not_mem_nil, or_false, forall_eq_or_imp,
    forall_eq] at hlabels
  obtain ⟨hstart, hstop, hhandler⟩ := hlabels
  have hkeyword : IsToken Keyword.tryCatch := by decide
  simpa [labelWords] using ⟨hkeyword, hstart.isToken, hstop.isToken, hhandler.isToken⟩

/-- An entry is printed as words. -/
theorem isWord_of_mem_lineWords (hwritable : entry.Writable)
    (hlabels : ∀ name ∈ entry.labels, IsLabelName name) :
    ∀ word ∈ entry.lineWords, IsWord word := by
  have htype : IsWord ((entry.caught.map String.toList).getD Keyword.catchAll) := by
    cases hcaught : entry.caught with
    | none => decide
    | some name => exact (hwritable name hcaught).1
  have hsplit : entry.lineWords =
      entry.labelWords ++ [(entry.caught.map String.toList).getD Keyword.catchAll] := rfl
  rw [hsplit]
  intro word hword
  rcases List.mem_append.1 hword with hword | hword
  · exact (isToken_of_mem_labelWords hlabels word hword).1
  · exact List.mem_singleton.1 hword ▸ htype

/-- The text of an entry takes up a line, whether or not its type starts a comment. -/
theorem fills_text (hwritable : entry.Writable)
    (hlabels : ∀ name ∈ entry.labels, IsLabelName name) :
    Line.Fills entry.text entry.lineWords :=
  .joinWords (isWord_of_mem_lineWords hwritable hlabels)

/-- An exception table entry whose type does not start a comment is spelled by its text. -/
theorem spells_text (hwritable : entry.Writable) (hcommented : ¬ entry.Commented)
    (hlabels : ∀ name ∈ entry.labels, IsLabelName name) :
    Item.Spells entry.text (.tryCatch entry) := by
  have hfills := fills_text hwritable hlabels
  have htokens := isToken_of_mem_labelWords hlabels
  obtain ⟨start, stop, handler, caught⟩ := entry
  -- Only the type can start a comment, as tokens do not open quotes in front of it.
  have huncut : Line.Uncut false (lineWords ⟨start, stop, handler, caught⟩) := by
    simp only [labelWords, List.forall_mem_cons] at htokens
    obtain ⟨hkeyword, hstart, hstop, hhandler, -⟩ := htokens
    rw [lineWords, Line.uncut_cons_of_isToken hkeyword, Line.uncut_cons_of_isToken hstart,
      Line.uncut_cons_of_isToken hstop, Line.uncut_cons_of_isToken hhandler]
    cases caught with
    | none => exact (by decide : Line.Uncut false [Keyword.catchAll])
    | some name => exact ⟨fun hcut => hcommented ⟨name, rfl, hcut.2⟩, trivial⟩
  refine ⟨_, _, hfills.written huncut, by decide, by decide, by decide, fun _ _ => ?_⟩
  rw [Item.read, if_neg (by decide), if_neg (by decide), if_neg (by decide), if_pos rfl,
    Item.entry, String.ofList_toList, String.ofList_toList, String.ofList_toList]
  -- Only the keyword stands for the absence of a type.
  cases caught with
  | none => rfl
  | some name =>
    have hname : name.toList ≠ Keyword.catchAll := (hwritable name rfl).2
    simp [hname, Except.map]

end TryCatch

end CleanupFilter
