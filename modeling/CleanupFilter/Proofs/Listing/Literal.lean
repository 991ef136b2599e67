import CleanupFilter.Proofs.Listing.Layout

/-!
# Constants in quotes

The constant of a line in double quotes is read as it stands, with whatever slashes it holds. Quotes
within it are escaped by a backslash, and they stay open until the closing quote. But a closing
quote behind an escaped backslash is not told from an escaped quote: quotes stay open behind it, and
a comment on the line becomes part of the constant.

- `LiteralBody`, `literal`: constants in quotes.
- `LiteralBody.stripComment_literal`: nothing within a literal starts a comment.
- `LiteralBody.quotedAfter_literal`: whether quotes are open behind a literal.
- `readLine_literal`: the constant of a line with and without a comment.
-/

namespace CleanupFilter

open Text (isBlank Trimmed)

-- The table is a large closed term, which the unifier would evaluate.
attribute [local irreducible] instructionTable

/-- The instruction that loads a constant. -/
def Opcode.ldc : Opcode := ⟨0x12⟩

/-! ### Lines with a constant -/

/-- Behind a constant blanks are left out, and nothing else. -/
theorem trimmed_append_trimEnd {constant : List Char} (h : Trimmed constant) (rest : List Char) :
    Trimmed (constant ++ Text.trimEnd rest) := by
  rw [← Text.trim_append h]
  refine .of_trim ?_
  rw [Text.trim_append h]
  exact List.append_ne_nil_of_left_ne_nil h.1 _

/-- Text and words of a line with a constant. -/
theorem Line.read_constant {line constant rest : List Char}
    (hstrip : stripComment line = "LDC ".toList ++ (constant ++ rest))
    (hconstant : Trimmed constant) :
    read line =
      { text := "LDC".toList ++ ' ' :: (constant ++ Text.trimEnd rest)
        words := "LDC".toList :: Text.words (constant ++ Text.trimEnd rest) } := by
  have hmnemonic : Text.IsWord "LDC".toList := by decide
  have htrim : Text.trim (stripComment line) =
      "LDC".toList ++ ' ' :: (constant ++ Text.trimEnd rest) := by
    have hfront := (Trimmed.of_isWord hmnemonic).append hconstant [' ']
    have happend := Text.trim_append hfront rest
    rw [hstrip]
    simpa using happend
  rw [read, htrim, Text.words_append_blank hmnemonic, dropIndex, if_neg (by decide)]

/-- A line with a constant adds it to the open method. -/
theorem readLine_constant {line constant rest : List Char}
    (hstrip : Line.stripComment line = "LDC ".toList ++ (constant ++ rest))
    (hconstant : Trimmed constant) (number : Nat) (method : OpenMethod) :
    readLine number (some method) (Line.read line) =
      .ok (some (method.add
        (.node (.ldc .ldc (String.ofList (constant ++ Text.trimEnd rest))))), none) := by
  -- The mnemonic is that of a printed instruction, of which the constant is known to be read.
  have hdefined : Opcode.ldc.isDefined = true := by decide +kernel
  have hform : Opcode.ldc.form? = some .ldc := by decide +kernel
  have hdisplay : Opcode.ldc.display.toList = "LDC".toList := by decide +kernel
  rw [Line.read_constant hstrip hconstant]
  have htrimmed := trimmed_append_trimEnd hconstant rest
  generalize constant ++ Text.trimEnd rest = constant at htrimmed
  have hitem := Item.read_display hdefined ("LDC".toList ++ ' ' :: constant) (Text.words constant)
  have hfound := Item.constant?_display hdefined .absent htrimmed
  rw [Item.instruction, String.ofList_toList, Opcode.ofMnemonic?_display hdefined] at hitem
  rw [hdisplay] at hitem hfound
  rw [List.nil_append] at hfound
  simp only [hform, Option.bind_some, Operands.ofForm?, Item.instruction?, hfound,
    Option.map_some] at hitem
  rw [readLine]
  dsimp only
  rw [if_neg (by decide), if_neg (by decide), continueMethod, hitem]
  rfl

/-! ### Literals -/

/-- What can stand between the quotes of a literal. A backslash escapes the character behind it. -/
inductive LiteralBody : List Char → Prop
  | nil : LiteralBody []
  | plain {c : Char} {rest : List Char} :
      c ≠ '"' → c ≠ '\\' → c ≠ '\n' → LiteralBody rest → LiteralBody (c :: rest)
  | escaped {c : Char} {rest : List Char} :
      c ≠ '\n' → LiteralBody rest → LiteralBody ('\\' :: c :: rest)

/-- The text between quotes. -/
def literal (body : List Char) : List Char :=
  '"' :: (body ++ ['"'])

/-- A literal starts and ends with quotes. -/
theorem trimmed_literal (body : List Char) : Trimmed (literal body) := by
  refine ⟨List.cons_ne_nil _ _, ?_, ?_⟩
  · rintro c ⟨⟩
    decide
  · intro c hc
    rw [literal, ← List.cons_append, List.getLast?_concat] at hc
    obtain rfl := Option.some.inj hc
    decide

namespace LiteralBody

open Line (stripCommentAfter quotedAfter stripComment)

variable {body : List Char}

/-- The last character of a text is the first one if nothing follows. -/
theorem getLast?_cons_or (c : Char) (tail : List Char) (previous : Option Char) :
    (c :: tail).getLast?.or previous = tail.getLast?.or (some c) := by
  rw [List.getLast?_cons]
  cases tail.getLast? <;> rfl

/-- Quotes stay open to the end of the body, and no comment starts in it. -/
theorem stripCommentAfter_append (h : LiteralBody body) (previous : Option Char)
    (rest : List Char) :
    stripCommentAfter previous true (body ++ rest) =
      body ++ stripCommentAfter (body.getLast?.or previous) true rest := by
  induction h generalizing previous with
  | nil => rfl
  | @plain c tail hquote _ _ _ ih =>
    rw [getLast?_cons_or, List.cons_append, List.cons_append, ← ih]
    simp [stripCommentAfter, hquote]
  | @escaped c tail _ _ ih =>
    -- A quote behind the backslash does not close.
    rw [getLast?_cons_or, getLast?_cons_or]
    simp only [List.cons_append]
    rw [← ih]
    simp [stripCommentAfter]

/-- Quotes stay open within a literal. -/
theorem quotedAfter_append (h : LiteralBody body) (previous : Option Char) (rest : List Char) :
    quotedAfter previous true (body ++ rest) =
      quotedAfter (body.getLast?.or previous) true rest := by
  induction h generalizing previous with
  | nil => rfl
  | @plain c tail hquote _ _ _ ih =>
    rw [getLast?_cons_or, List.cons_append, ← ih]
    simp [quotedAfter, hquote]
  | @escaped c tail _ _ ih =>
    rw [getLast?_cons_or, getLast?_cons_or, List.cons_append, List.cons_append, ← ih]
    simp [quotedAfter]

/-- Nothing in a literal starts a comment. -/
theorem stripComment_literal (h : LiteralBody body) :
    stripComment ("LDC ".toList ++ literal body) = "LDC ".toList ++ literal body := by
  have hopen : stripComment ("LDC ".toList ++ literal body) =
      "LDC ".toList ++ '"' :: stripCommentAfter (some '"') true (body ++ ['"']) := by
    simp [stripComment, literal, stripCommentAfter]
  have hclose : ∀ previous, stripCommentAfter previous true ['"'] = ['"'] := fun previous => by
    simp [stripCommentAfter]
  rw [hopen, h.stripCommentAfter_append, hclose, literal]

/-- Behind a literal quotes are open if a backslash stands in front of the closing quote. -/
theorem quotedAfter_literal (h : LiteralBody body) :
    quotedAfter none false ("LDC ".toList ++ literal body) =
      decide (body.getLast? = some '\\') := by
  have hopen : quotedAfter none false ("LDC ".toList ++ literal body) =
      quotedAfter (some '"') true (body ++ ['"']) := by
    simp [literal, quotedAfter]
  rw [hopen, h.quotedAfter_append]
  cases body.getLast? with
  | none => rfl
  | some last => simp [quotedAfter]

end LiteralBody

/-- A constant in quotes is read as it stands, and without a comment behind it unless its last
character is a backslash. If it is one, the comment is read as part of the constant. -/
theorem readLine_literal {body : List Char} (h : LiteralBody body) (number : Nat)
    (method : OpenMethod) :
    readLine number (some method) (Line.read ("LDC ".toList ++ literal body)) =
        .ok (some (method.add (.node (.ldc .ldc (String.ofList (literal body))))), none) ∧
      ∀ comment : List Char,
        (body.getLast? ≠ some '\\' →
          readLine number (some method)
              (Line.read ("LDC ".toList ++ literal body ++ " // ".toList ++ comment)) =
            .ok (some (method.add (.node (.ldc .ldc (String.ofList (literal body))))), none)) ∧
        (body.getLast? = some '\\' → ∃ rest,
          readLine number (some method)
              (Line.read ("LDC ".toList ++ literal body ++ " // ".toList ++ comment)) =
            .ok (some (method.add (.node (.ldc .ldc
              (String.ofList (literal body ++ " //".toList ++ rest))))), none)) := by
  have hstrip := h.stripComment_literal
  have hquoted := h.quotedAfter_literal
  -- Without a comment the literal is all there is.
  have halone : readLine number (some method) (Line.read ("LDC ".toList ++ literal body)) =
      .ok (some (method.add (.node (.ldc .ldc (String.ofList (literal body))))), none) := by
    have hconstant := @readLine_constant ("LDC ".toList ++ literal body) (literal body) []
      (by rw [List.append_nil, hstrip]) (trimmed_literal body) number method
    rwa [show literal body ++ Text.trimEnd [] = literal body from List.append_nil _] at hconstant
  refine ⟨halone, fun comment => ?_⟩
  have hline : "LDC ".toList ++ literal body ++ " // ".toList ++ comment =
      "LDC ".toList ++ literal body ++ ' ' :: '/' :: '/' :: ' ' :: comment := by simp
  rw [hline]
  refine ⟨fun hlast => ?_, fun hlast => ?_⟩
  · -- Quotes are closed, so the comment says nothing.
    rw [decide_eq_false hlast, Line.quotedAfter_eq_self_iff] at hquoted
    rw [Line.read_append_comment Text.isBlank_space (.inr hquoted), halone]
  · -- Quotes are open, so the slashes start no comment.
    rw [decide_eq_true hlast] at hquoted
    have hslashes := (trimmed_literal body).append (by decide : Trimmed ['/', '/']) [' ']
    have hcut : Line.stripComment
          ("LDC ".toList ++ literal body ++ ' ' :: '/' :: '/' :: ' ' :: comment) =
        "LDC ".toList ++ (literal body ++ [' '] ++ ['/', '/'] ++
          Line.stripCommentAfter (some '/') true (' ' :: comment)) := by
      rw [Line.stripComment_append Text.isBlank_space, if_pos hstrip, hquoted]
      simp [Line.stripCommentAfter]
    have hconstant := readLine_constant hcut hslashes number method
    exact ⟨Text.trimEnd (Line.stripCommentAfter (some '/') true (' ' :: comment)),
      by simpa using hconstant⟩

/-- An escaped quote and slashes within the literal. -/
theorem readLine_literal_escaped :
    LiteralBody "a \\\" // b".toList ∧ "a \\\" // b".toList.getLast? ≠ some '\\' ∧
      readLine 2 (some ⟨1, "m", "()V", #[]⟩)
          (Line.read
            ("LDC ".toList ++ literal "a \\\" // b".toList ++ " // ".toList ++ "c".toList)) =
        .ok (some ⟨1, "m", "()V",
          #[.node (.ldc .ldc (String.ofList (literal "a \\\" // b".toList)))]⟩, none) := by
  have hbody : LiteralBody "a \\\" // b".toList := by
    refine .plain ?_ ?_ ?_ (.plain ?_ ?_ ?_ (.escaped ?_ (.plain ?_ ?_ ?_ (.plain ?_ ?_ ?_
      (.plain ?_ ?_ ?_ (.plain ?_ ?_ ?_ (.plain ?_ ?_ ?_ .nil))))))) <;> decide
  have hlast : "a \\\" // b".toList.getLast? ≠ some '\\' := by decide
  exact ⟨hbody, hlast, ((readLine_literal hbody 2 _).2 "c".toList).1 hlast⟩

/-- A literal that ends with an escaped backslash swallows the comment behind it. -/
theorem readListing_literal_swallowed :
    LiteralBody "a\\\\".toList ∧
      readListing "method m ()V\nLDC \"a\\\\\" // c\nend\n" =
        .ok [⟨"m", "()V", #[.ldc .ldc "\"a\\\\\" // c"], []⟩] ∧
      "\"a\\\\\" // c" ≠ String.ofList (literal "a\\\\".toList) := by
  refine ⟨.plain ?_ ?_ ?_ (.escaped ?_ .nil), ?_, ?_⟩ <;> decide +kernel

end CleanupFilter
