import CleanupFilter.Proofs.Listing.RoundTrip

/-!
# Bodies that were read

Whatever is read from a listing could be built and can be written down again, as everything in it
stood on some line.

- `Line.item?`: the item that a line stands for.
- `LineStep`: all that a line can make of the open method.
- `OpenMethod.StandsIn`: header and items of a method stand on given lines.
- `exists_standsIn`: every completed body is made of such a method.
- `Item.StandsFor`, `Line.Says`: what a line says, operand by operand.
- `Item.writable_of_item?`: the item of a line can stand on a line again.
- `isBuilt_and_writable_of_mem`: what follows for the bodies of a listing.
- `not_commented_of_mem`: what follows if no label name of the listing holds a quote.
-/

namespace CleanupFilter

open Text.Numeral (Denotes)

-- The table is a large closed term, which the unifier would evaluate.
attribute [local irreducible] instructionTable

theorem exists_of_map_eq_ok {ε α β : Type} {f : α → β} {result : Except ε α} {b : β}
    (h : result.map f = .ok b) : ∃ a, result = .ok a ∧ f a = b := by
  cases result with
  | error error => cases h
  | ok a => exact ⟨a, rfl, Except.ok.inj h⟩

/-! ### Lines of a method -/

/-- The item that the line adds to the method that is open. -/
def Line.item? (line : Line) : Option (Item String) :=
  match line.words with
  | [] => none
  | head :: words =>
    if head = Keyword.openMethod ∨ head = Keyword.closeMethod then none
    else (Item.read head line.text words).toOption

/-- The item of a line is read from its first word, its text and its other words. -/
theorem Line.exists_read_of_item? {line : Line} {item : Item String} (h : line.item? = some item) :
    ∃ head words, line.words = head :: words ∧ Item.read head line.text words = .ok item := by
  rw [item?] at h
  cases hwords : line.words with
  | nil => simp [hwords] at h
  | cons head words =>
    simp only [hwords, Option.ite_none_left_eq_some] at h
    refine ⟨head, words, rfl, ?_⟩
    cases hread : Item.read head line.text words with
    | error fault => simp [hread, Except.toOption] at h
    | ok found => simpa [hread, Except.toOption] using h.2

/-- What a line makes of the open method, and the body that it completes. -/
inductive LineStep (line : Line) :
    Option OpenMethod → Option OpenMethod → Option (Body Label) → Prop
  /-- A line without words. -/
  | skip (opened : Option OpenMethod) : line.words = [] → LineStep line opened opened none
  | start {method : OpenMethod} :
      line.words = [Keyword.openMethod, method.name.toList, method.desc.toList] →
      method.items = #[] → LineStep line none (some method) none
  | finish {method : OpenMethod} {body : Body Label} :
      line.words.head? = some Keyword.closeMethod → method.finish = .ok body →
      LineStep line (some method) none (some body)
  | add {method : OpenMethod} {item : Item String} :
      line.item? = some item → LineStep line (some method) (some (method.add item)) none

/-- What is made of a line is one of the steps. -/
theorem LineStep.of_readLine {number : Nat} {opened next : Option OpenMethod} {line : Line}
    {completed : Option (Body Label)} (h : readLine number opened line = .ok (next, completed)) :
    LineStep line opened next completed := by
  rw [readLine] at h
  cases hwords : line.words with
  | nil =>
    simp only [hwords, Except.ok.injEq, Prod.mk.injEq] at h
    obtain ⟨rfl, rfl⟩ := h
    exact .skip opened hwords
  | cons head words =>
    simp only [hwords] at h
    split at h
    · next hopen =>
      -- Only a name and a descriptor open a method, and only if none is open.
      unfold startMethod at h
      split at h
      · cases h
      · next name desc =>
        cases h
        exact .start (by rw [hwords, hopen, String.toList_ofList, String.toList_ofList]) rfl
      · cases h
    split at h
    · next hclose =>
      unfold endMethod at h
      split at h
      · next method =>
        obtain ⟨body, hfinish, heq⟩ := exists_of_map_eq_ok h
        cases heq
        exact .finish (by rw [hwords, hclose, List.head?_cons]) hfinish
      · cases h
    · next hopen hclose =>
      -- Any other line is that of an item.
      unfold continueMethod at h
      split at h
      · next method =>
        split at h
        · cases h
        · next item hread =>
          cases h
          refine .add ?_
          simp only [Line.item?, hwords, hopen, hclose, or_self, ↓reduceIte, hread]
          rfl
      · cases h

/-! ### Methods and their lines -/

/-- The header and the items of the method stand on the lines. -/
structure OpenMethod.StandsIn (lines : List (List Char)) (method : OpenMethod) : Prop where
  header : ∃ line ∈ lines, (Line.read line).words =
    [Keyword.openMethod, method.name.toList, method.desc.toList]
  items : ∀ item ∈ method.items, ∃ line ∈ lines, (Line.read line).item? = some item

/-- One more line of those that an open method stands on. -/
theorem LineStep.standsIn {lines : List (List Char)} {line : List Char} (hline : line ∈ lines)
    {opened next : Option OpenMethod} {completed : Option (Body Label)}
    (h : LineStep (Line.read line) opened next completed)
    (hopened : ∀ method ∈ opened, method.StandsIn lines) :
    (∀ method ∈ next, method.StandsIn lines) ∧
      ∀ body ∈ completed, ∃ method : OpenMethod,
        method.StandsIn lines ∧ method.finish = .ok body := by
  cases h with
  | skip => exact ⟨hopened, by simp⟩
  | @start method hwords hitems =>
    refine ⟨?_, by simp⟩
    rintro _ ⟨⟩
    exact ⟨⟨line, hline, hwords⟩, by simp [hitems]⟩
  | finish _ hfinish =>
    refine ⟨by simp, ?_⟩
    rintro _ ⟨⟩
    exact ⟨_, hopened _ rfl, hfinish⟩
  | @add method item hitem =>
    -- The items so far stand on the lines as before, and the new one on this line.
    obtain ⟨hheader, hitems⟩ := hopened method rfl
    refine ⟨?_, by simp⟩
    rintro _ ⟨⟩
    refine ⟨hheader, fun other hother => ?_⟩
    rcases Array.mem_push.1 hother with hother | rfl
    · exact hitems other hother
    · exact ⟨line, hline, hitem⟩

/-- Every body that lines complete is made of a method that stands on them. -/
theorem exists_standsIn {all lines : List (List Char)} (hlines : ∀ line ∈ lines, line ∈ all)
    {number : Nat} {opened : Option OpenMethod} (hopened : ∀ method ∈ opened, method.StandsIn all)
    {bodies : List (Body Label)} (h : readLines number opened lines = .ok bodies) :
    ∀ body ∈ bodies, ∃ method : OpenMethod, method.StandsIn all ∧ method.finish = .ok body := by
  -- The open method stands on all of the lines, those that have been read included.
  induction lines generalizing number opened bodies with
  | nil =>
    cases opened with
    | none =>
      cases h
      exact fun body hbody => absurd hbody List.not_mem_nil
    | some method => cases h
  | cons line rest ih =>
    obtain ⟨hline, hrest⟩ := List.forall_mem_cons.1 hlines
    rw [readLines] at h
    split at h
    · cases h
    · next next completed hread =>
      obtain ⟨hnext, hcompleted⟩ := (LineStep.of_readLine hread).standsIn hline hopened
      split at h
      · cases h
      · next others hothers =>
        cases h
        intro body hbody
        rcases List.mem_append.1 hbody with hbody | hbody
        · exact hcompleted body (Option.mem_toList.1 hbody)
        · exact ih hrest hnext hothers body hbody

/-! ### Items that were read -/

namespace Operands

/-- The form of the instructions that have these operands. -/
def form : Operands → OperandForm
  | nothing => .plain
  | integer => .int
  | slot => .var
  | slotAndIncrement => .iinc
  | type => .type
  | field => .field
  | method => .method
  | label => .jump
  | constant => .ldc

/-- Operands are read for instructions of their own form only. -/
theorem ofForm?_eq_some {form : OperandForm} {operands : Operands}
    (h : ofForm? form = some operands) : form = operands.form := by
  cases form <;> cases h <;> rfl

end Operands

namespace Item

/-- The operands of an instruction are the words behind its mnemonic, one for one. A constant is all
that the text says behind the first occurrence of the mnemonic. -/
inductive OperandsOn (mnemonic text : List Char) : List (List Char) → Node String → Prop
  | plain (opcode : Opcode) : OperandsOn mnemonic text [] (.plain opcode)
  | int {opcode : Opcode} {word : List Char} {operand : Int32} :
      Denotes word operand.toInt → OperandsOn mnemonic text [word] (.int opcode operand)
  | var {opcode : Opcode} {word : List Char} {slot : UInt16} :
      Denotes word slot.toNat → OperandsOn mnemonic text [word] (.var opcode slot)
  | iinc {word other : List Char} {slot : UInt16} {increment : Int16} :
      Denotes word slot.toNat → Denotes other increment.toInt →
      OperandsOn mnemonic text [word, other] (.iinc slot increment)
  | type (opcode : Opcode) (desc : String) :
      OperandsOn mnemonic text [desc.toList] (.type opcode desc)
  | field {opcode : Opcode} {target : Member} : target.Splits →
      OperandsOn mnemonic text [target.path, [':'], target.desc.toList] (.field opcode target)
  | method {opcode : Opcode} {target : Member} : target.Splits →
      OperandsOn mnemonic text [target.path, target.desc.toList] (.call opcode target)
  | jump (opcode : Opcode) (target : String) :
      OperandsOn mnemonic text [target.toList] (.jump opcode target)
  | ldc {opcode : Opcode} {words : List (List Char)} {front after : List Char}
      {constant : String} :
      text = front ++ (mnemonic ++ after) →
      (∀ earlier rest, text = earlier ++ (mnemonic ++ rest) → front.length ≤ earlier.length) →
      constant.toList = Text.trim after → constant.toList ≠ [] →
      OperandsOn mnemonic text words (.ldc opcode constant)

/-- The item that a line with this text, first word and other words says. -/
inductive StandsFor (head text : List Char) (words : List (List Char)) : Item String → Prop
  /-- A label stands alone, a colon behind its name. -/
  | label {name : String} :
      head = name.toList ++ [':'] → name.toList ≠ [] → words = [] →
      StandsFor head text words (.node (.label name))
  | frame : head = Keyword.frame → StandsFor head text words (.node .frame)
  | lineMarker {word : List Char} {number : UInt32} {start : String} :
      head = Keyword.lineMarker → words = [word, start.toList] → Denotes word number.toNat →
      StandsFor head text words (.node (.line number start))
  | tryCatch {found : TryCatch String} :
      head = Keyword.tryCatch →
      words = [found.start.toList, found.stop.toList, found.handler.toList,
        (found.caught.map String.toList).getD Keyword.catchAll] →
      (∀ name ∈ found.caught, name.toList ≠ Keyword.catchAll) →
      StandsFor head text words (.tryCatch found)
  | instruction {opcode : Opcode} {found : Node String} :
      Opcode.ofMnemonic? (String.ofList head) = some opcode → found.opcode? = some opcode →
      found.Fits → OperandsOn head text words found → StandsFor head text words (.node found)

/-- A member that was read is the one that its word and its descriptor name. -/
theorem splits_of_member?_eq_some {word desc : List Char} {member : Member}
    (h : member? word desc = some member) :
    member.Splits ∧ member.path = word ∧ member.desc.toList = desc := by
  rw [member?] at h
  split at h
  · next owner c name hsplit =>
    cases h
    -- The split is at the last dot, so the name has none.
    obtain ⟨rfl, hdot⟩ := splitLast?_eq_some hsplit
    refine ⟨⟨?_, ?_⟩, ?_, String.toList_ofList⟩
    · rw [String.toList_ofList]
      exact List.cons_ne_nil c name
    · rwa [String.toList_ofList]
    · rw [Member.path, String.toList_ofList, String.toList_ofList]
  · cases h

/-- What follows a word follows its first occurrence. -/
theorem afterFirst?_eq_some {word text after : List Char} (h : afterFirst? word text = some after) :
    ∃ front, text = front ++ (word ++ after) ∧
      ∀ earlier rest, text = earlier ++ (word ++ rest) → front.length ≤ earlier.length := by
  induction text with
  | nil => exact ⟨[], (List.isPrefixOf?_eq_some_iff_append_eq.1 h).symm, fun _ _ _ => Nat.zero_le _⟩
  | cons c text ih =>
    rw [afterFirst?] at h
    split at h
    · next found hfound =>
      cases h
      exact ⟨[], (List.isPrefixOf?_eq_some_iff_append_eq.1 hfound).symm,
        fun _ _ _ => Nat.zero_le _⟩
    · next hnone =>
      obtain ⟨front, rfl, hfirst⟩ := ih h
      refine ⟨c :: front, rfl, fun earlier rest heq => ?_⟩
      -- The word is not at the front, so every occurrence leaves the first character out.
      cases earlier with
      | nil =>
        rw [heq, List.nil_append, List.isPrefixOf?_eq_some_iff_append_eq.2 rfl] at hnone
        cases hnone
      | cons d earlier =>
        exact Nat.succ_le_succ (hfirst earlier rest (List.cons.inj heq).2)

/-- A constant is not empty, and is what follows the first occurrence of the mnemonic. -/
theorem constant?_eq_some {mnemonic text : List Char} {constant : String}
    (h : constant? mnemonic text = some constant) :
    ∃ after, afterFirst? mnemonic text = some after ∧ constant.toList = Text.trim after ∧
      constant.toList ≠ [] := by
  rw [constant?] at h
  split at h
  · next c rest hafter =>
    cases h
    obtain ⟨after, hfirst, htrim⟩ := Option.map_eq_some_iff.1 hafter
    exact ⟨after, hfirst, by rw [String.toList_ofList, htrim], by simp⟩
  · cases h

/-- An instruction that was read has the opcode of its mnemonic, whose form is that of the operands,
and these stand behind the mnemonic. -/
theorem operandsOn_of_instruction? {opcode : Opcode} {operands : Operands}
    (hform : opcode.form? = some operands.form) {mnemonic text : List Char}
    {words : List (List Char)} {found : Node String}
    (h : instruction? opcode operands mnemonic text words = some found) :
    found.opcode? = some opcode ∧ found.form? = some operands.form ∧
      OperandsOn mnemonic text words found := by
  -- The cases are the operands in the order of `instruction?`, one kind of node for each.
  unfold instruction? at h
  split at h
  · cases h
    exact ⟨rfl, rfl, .plain opcode⟩
  · obtain ⟨operand, hoperand, rfl⟩ := Option.map_eq_some_iff.1 h
    exact ⟨rfl, rfl, .int (Text.Numeral.denotes_of_int32? hoperand)⟩
  · obtain ⟨slot, hslot, rfl⟩ := Option.map_eq_some_iff.1 h
    exact ⟨rfl, rfl, .var (Text.Numeral.denotes_of_uint16? hslot)⟩
  · obtain ⟨slot, hslot, h⟩ := Option.bind_eq_some_iff.1 h
    obtain ⟨increment, hincrement, rfl⟩ := Option.map_eq_some_iff.1 h
    -- This node always has the same opcode, which is the only one of its form.
    rw [Opcode.eq_iinc_of_form? hform]
    exact ⟨rfl, rfl, .iinc (Text.Numeral.denotes_of_uint16? hslot)
      (Text.Numeral.denotes_of_int16? hincrement)⟩
  · next desc =>
    cases h
    refine ⟨rfl, rfl, ?_⟩
    simpa using OperandsOn.type opcode (String.ofList desc)
  · obtain ⟨target, htarget, rfl⟩ := Option.map_eq_some_iff.1 h
    obtain ⟨hsplits, rfl, rfl⟩ := splits_of_member?_eq_some htarget
    exact ⟨rfl, rfl, .field hsplits⟩
  · obtain ⟨target, htarget, rfl⟩ := Option.map_eq_some_iff.1 h
    obtain ⟨hsplits, rfl, rfl⟩ := splits_of_member?_eq_some htarget
    exact ⟨rfl, rfl, .method hsplits⟩
  · next target =>
    cases h
    refine ⟨rfl, rfl, ?_⟩
    simpa using OperandsOn.jump opcode (String.ofList target)
  · obtain ⟨constant, hconstant, rfl⟩ := Option.map_eq_some_iff.1 h
    obtain ⟨after, hafter, htrim, hne⟩ := constant?_eq_some hconstant
    obtain ⟨front, htext, hfirst⟩ := afterFirst?_eq_some hafter
    exact ⟨rfl, rfl, .ldc htext hfirst htrim hne⟩
  · cases h

/-- A line with a mnemonic says the instruction that is read from it. -/
theorem StandsFor.of_instruction {head text : List Char} {words : List (List Char)}
    {found : Node String} (h : Item.instruction head text words = .ok found) :
    StandsFor head text words (.node found) := by
  rw [Item.instruction] at h
  split at h
  · cases h
  next opcode hopcode =>
  split at h
  · cases h
  next operands hoperands =>
  split at h
  · cases h
  next node hnode =>
  cases h
  -- The operands were those of the form of the opcode.
  obtain ⟨form, hform, hoperands⟩ := Option.bind_eq_some_iff.1 hoperands
  rw [Operands.ofForm?_eq_some hoperands] at hform
  obtain ⟨hfound, hkind, hon⟩ := operandsOn_of_instruction? hform hnode
  refine .instruction hopcode hfound ?_ hon
  rw [Node.Fits, hfound, hkind, Option.bind_some, hform]

theorem StandsFor.of_lineMarker {head text : List Char} (hhead : head = Keyword.lineMarker)
    {words : List (List Char)} {found : Node String} (h : Item.lineMarker words = .ok found) :
    StandsFor head text words (.node found) := by
  unfold Item.lineMarker at h
  split at h
  · split at h
    · cases h
    · next hnumber =>
      cases h
      exact .lineMarker hhead (by rw [String.toList_ofList])
        (Text.Numeral.denotes_of_uint32? hnumber)
  · cases h

theorem StandsFor.of_entry {head text : List Char} (hhead : head = Keyword.tryCatch)
    {words : List (List Char)} {found : TryCatch String} (h : entry words = .ok found) :
    StandsFor head text words (.tryCatch found) := by
  unfold entry at h
  split at h
  · next start stop handler caught =>
    cases h
    -- The last word is the caught type, or says that there is none.
    by_cases hcaught : caught = Keyword.catchAll
    · exact .tryCatch hhead (by simp [hcaught]) (by simp [hcaught])
    · exact .tryCatch hhead (by simp [hcaught]) (by simp [hcaught])
  · cases h

/-- Whatever is read from a line, the line says it. -/
theorem StandsFor.of_read {head text : List Char} {words : List (List Char)} {item : Item String}
    (h : read head text words = .ok item) : StandsFor head text words item := by
  -- The cases are those of `read`, the first word deciding between them.
  rw [read] at h
  split at h
  · next hcolon =>
    split at h
    · next halone =>
      cases h
      refine .label ?_ (by rw [String.toList_ofList]; exact halone.2) halone.1
      rw [String.toList_ofList, List.dropLast_append_getLast? _ hcolon]
    · cases h
  split at h
  · next hhead =>
    cases h
    exact .frame hhead
  split at h
  · next hhead =>
    obtain ⟨found, hmarker, rfl⟩ := exists_of_map_eq_ok h
    exact .of_lineMarker hhead hmarker
  split at h
  · next hhead =>
    obtain ⟨found, hentry, rfl⟩ := exists_of_map_eq_ok h
    exact .of_entry hhead hentry
  · obtain ⟨found, hfound, rfl⟩ := exists_of_map_eq_ok h
    exact .of_instruction hfound

end Item

/-- The line says the item, whichever way it is written. -/
def Line.Says (line : Line) (item : Item String) : Prop :=
  ∃ head words, line.words = head :: words ∧ Item.StandsFor head line.text words item

/-- The item of a line is one that the line says. -/
theorem Line.says_of_item? {line : Line} {item : Item String} (h : line.item? = some item) :
    line.Says item := by
  obtain ⟨head, words, hwords, hread⟩ := exists_read_of_item? h
  exact ⟨head, words, hwords, .of_read hread⟩

/-- The item can stand on a line, its labels apart, and the flag of a call follows from its
opcode. -/
def Item.Writable : Item String → Prop
  | .node n => n.Writable ∧ n.withInterfaceFlag = n
  | .tryCatch entry => entry.Writable

namespace Item

/-- A word whose first character does not occur in front of it occurs nowhere before. -/
theorem eq_of_first_occurrence {c : Char} {word front after before rest : List Char}
    (h : c ∉ front) (heq : front ++ (c :: word ++ after) = before ++ (c :: word ++ rest))
    (hle : before.length ≤ front.length) : rest = after := by
  obtain ⟨between, rfl, hrest⟩ | ⟨between, rfl, hrest⟩ := List.append_eq_append_iff.1 heq
  · -- The other occurrence would be longer by what stands between the two.
    rw [List.length_append] at hle
    obtain rfl : between = [] := List.length_eq_zero_iff.1 (by omega)
    exact (List.append_cancel_left hrest).symm
  · cases between with
    | nil => exact List.append_cancel_left hrest
    | cons d between =>
      obtain ⟨rfl, -⟩ := List.cons.inj hrest
      exact absurd (List.mem_append_right before List.mem_cons_self) h

/-- A call that was read has the flag that follows from its opcode. -/
theorem OperandsOn.withInterfaceFlag_eq {mnemonic text : List Char} {words : List (List Char)}
    {found : Node String} (h : OperandsOn mnemonic text words found) :
    found.withInterfaceFlag = found := by
  cases h <;> rfl

/-- An instruction can stand on a line if its operands did, the mnemonic being found where it
stands. -/
theorem OperandsOn.writable {c : Char} {mnemonic front after : List Char}
    {words : List (List Char)} {found : Node String} (hfront : c ∉ front) (hfeed : '\n' ∉ after)
    (huncut : Line.Uncut false (Text.words after)) (hwords : Line.Writable words)
    (h : OperandsOn (c :: mnemonic) (front ++ (c :: mnemonic ++ after)) words found) :
    found.Writable := by
  -- Numbers and labels are not printed as they stood, so only types, members and constants count.
  cases h with
  | plain | int | var | iinc | jump => exact trivial
  | type => exact hwords
  | field hsplits => exact ⟨hsplits, hwords⟩
  | method hsplits => exact ⟨hsplits, hwords⟩
  | ldc htext hfirst htrim hne =>
    obtain rfl := eq_of_first_occurrence hfront htext (hfirst front after rfl)
    rw [Node.Writable, htrim]
    rw [htrim] at hne
    refine ⟨.of_trim hne, fun hmem => hfeed (Text.mem_of_mem_trim hmem), ?_⟩
    rwa [← Line.uncommented_iff, Line.uncommented_iff_uncut, Text.words_trim]

/-- The item of a line can stand on a line again. -/
theorem writable_of_item? {line : List Char} (hfeed : '\n' ∉ line) {item : Item String}
    (h : (Line.read line).item? = some item) : item.Writable := by
  obtain ⟨head, words, hwords, hsays⟩ := Line.says_of_item? h
  have hwritable := Line.writable_read line
  rw [hwords] at hwritable
  cases hsays with
  -- No operands but labels, which are not printed as they stood.
  | label | frame | lineMarker => exact ⟨trivial, rfl⟩
  | tryCatch hhead hentry hcaught =>
    intro name hname
    refine ⟨hwritable.1 name.toList (List.mem_cons_of_mem head ?_), hcaught name hname⟩
    obtain rfl := hentry
    simp [Option.mem_def.1 hname]
  | instruction hopcode _ _ hon =>
    -- The mnemonic is a token, so that no quotes are open behind it.
    rw [Line.writable_cons_of_isToken (Opcode.isToken_of_ofMnemonic? hopcode)] at hwritable
    obtain ⟨front, after, htext, hafter, hfront⟩ := Line.exists_eq_of_dropIndex_words hwords
    have hunbroken : '\n' ∉ after := by
      intro hmem
      have htrim : '\n' ∈ Text.trim (Line.stripComment line) := by
        rw [htext]
        exact List.mem_append_right _ (List.mem_append_right _ hmem)
      exact hfeed (Line.mem_of_mem_stripCommentAfter (Text.mem_of_mem_trim htrim))
    -- It starts with a letter, as no index does.
    obtain ⟨c, mnemonic, rfl, hletter⟩ := Opcode.exists_eq_of_ofMnemonic? hopcode
    have hnot : c ∉ front := fun hmem =>
      not_index_of_isLower_toLower hletter (hfront c hmem)
    refine ⟨?_, hon.withInterfaceFlag_eq⟩
    rw [Line.read, htext] at hon
    exact hon.writable hnot hunbroken (hafter ▸ hwritable.2) hwritable

end Item

/-! ### Bodies that were read -/

/-- A completed body has the numbers of its label names, and passes its own check. -/
theorem OpenMethod.eq_of_finish {method : OpenMethod} {body : Body Label}
    (h : method.finish = .ok body) :
    body = method.namedBody.mapLabel (fun name => ⟨method.labels.number name⟩) ∧
      body.check = .ok body := by
  rw [finish_eq] at h
  split at h
  · cases h
  · next found hcheck =>
    cases h
    obtain ⟨rfl, -⟩ := Body.check_eq_ok_iff.1 hcheck
    exact ⟨rfl, hcheck⟩

/-- Every node of the named body is an item of the method. -/
theorem OpenMethod.mem_items_of_mem_nodes {method : OpenMethod} {node : Node String}
    (h : node ∈ method.namedBody.nodes) : .node node ∈ method.items := by
  obtain ⟨item, hitem, hsome⟩ := List.mem_filterMap.1 (List.mem_toArray.1 h)
  cases item with
  | node n =>
    cases hsome
    exact Array.mem_toList_iff.1 hitem
  | tryCatch entry => cases hsome

/-- Every entry of the named body is an item of the method. -/
theorem OpenMethod.mem_items_of_mem_tryCatches {method : OpenMethod} {entry : TryCatch String}
    (h : entry ∈ method.namedBody.tryCatches) : .tryCatch entry ∈ method.items := by
  obtain ⟨item, hitem, hsome⟩ := List.mem_filterMap.1 h
  cases item with
  | node n => cases hsome
  | tryCatch found =>
    cases hsome
    exact Array.mem_toList_iff.1 hitem

/-- A body that was completed could be built, and everything in it can stand on a line again. -/
theorem OpenMethod.StandsIn.isBuilt_and_writable {lines : List (List Char)} {method : OpenMethod}
    (h : method.StandsIn lines) (hlines : ∀ line ∈ lines, '\n' ∉ line) {body : Body Label}
    (hfinish : method.finish = .ok body) : body.IsBuilt ∧ body.Writable := by
  have hitems : ∀ item ∈ method.items, item.Writable := by
    intro item hitem
    obtain ⟨line, hline, hread⟩ := h.items item hitem
    exact Item.writable_of_item? (hlines line hline) hread
  -- Numbering the labels leaves everything else as it was read.
  obtain ⟨heq, hcheck⟩ := OpenMethod.eq_of_finish hfinish
  refine ⟨Body.isBuilt_iff.2 ⟨hcheck, fun node hnode => ?_⟩, ?_, fun node hnode => ?_,
    fun entry hentry => ?_⟩
  · rw [heq] at hnode
    obtain ⟨original, horiginal, rfl⟩ := Array.mem_map.1 hnode
    obtain ⟨-, hflag⟩ := hitems _ (OpenMethod.mem_items_of_mem_nodes horiginal)
    rw [Node.withInterfaceFlag_mapLabel, hflag]
  · -- Name and descriptor stood behind the keyword.
    obtain ⟨line, -, hwords⟩ := h.header
    have hwritable := Line.writable_read line
    rw [hwords, Line.writable_cons_of_isToken (by decide)] at hwritable
    rw [heq]
    exact hwritable
  · rw [heq] at hnode
    obtain ⟨original, horiginal, rfl⟩ := Array.mem_map.1 hnode
    obtain ⟨hwritable, -⟩ := hitems _ (OpenMethod.mem_items_of_mem_nodes horiginal)
    exact (Node.writable_mapLabel _ original).2 hwritable
  · rw [heq] at hentry
    obtain ⟨original, horiginal, rfl⟩ := List.mem_map.1 hentry
    exact hitems _ (OpenMethod.mem_items_of_mem_tryCatches horiginal)

/-- Every body of a listing is made of a method on its lines. -/
theorem exists_standsIn_of_mem {source : String} {bodies : List (Body Label)}
    (h : readListing source = .ok bodies) {body : Body Label} (hbody : body ∈ bodies) :
    ∃ method : OpenMethod, method.StandsIn (Line.split source.toList) ∧
      method.finish = .ok body :=
  exists_standsIn (fun _ => id) (by simp) h body hbody

/-- Every body of a listing could be built, and everything in it can stand on a line again. -/
theorem isBuilt_and_writable_of_mem {source : String} {bodies : List (Body Label)}
    (h : readListing source = .ok bodies) {body : Body Label} (hbody : body ∈ bodies) :
    body.IsBuilt ∧ body.Writable := by
  obtain ⟨method, hstands, hfinish⟩ := exists_standsIn_of_mem h hbody
  exact hstands.isBuilt_and_writable (fun _ => Line.notMem_newline_of_mem_split) hfinish

/-! ### Label names without quotes -/

/-- The names of labels on the lines of a listing, in the order of their mention. -/
def labelNames (source : String) : List String :=
  (Line.split source.toList).flatMap fun line =>
    ((Line.read line).item?.map Item.mentions).getD []

/-- A type stands behind the labels of its line, so it starts no comment if they hold no quotes. -/
theorem Item.not_commented_of_uncut {found : TryCatch String}
    (huncut : Line.Uncut false [Keyword.tryCatch, found.start.toList, found.stop.toList,
      found.handler.toList, (found.caught.map String.toList).getD Keyword.catchAll])
    (hquotes : ∀ name ∈ found.labels, '"' ∉ name.toList) : ¬ found.Commented := by
  rintro ⟨name, hname, hslashes⟩
  simp only [TryCatch.labels, List.forall_mem_cons] at hquotes
  obtain ⟨hstart, hstop, hhandler, -⟩ := hquotes
  -- Quotes are as closed behind the labels as they are in front of them.
  have hkeyword : '"' ∉ Keyword.tryCatch := by decide
  have hcaught := huncut.2.2.2.2.1
  rw [Line.quotedAfter_of_notMem hkeyword, Line.quotedAfter_of_notMem hstart,
    Line.quotedAfter_of_notMem hstop, Line.quotedAfter_of_notMem hhandler,
    Option.mem_def.1 hname] at hcaught
  exact hcaught ⟨rfl, hslashes⟩

/-- Without quotes in label names no type of a listing starts a comment where it is printed. -/
theorem not_commented_of_mem {source : String} {bodies : List (Body Label)}
    (h : readListing source = .ok bodies) (hquotes : ∀ name ∈ labelNames source, '"' ∉ name.toList)
    {body : Body Label} (hbody : body ∈ bodies) :
    ∀ entry ∈ body.tryCatches, ¬ entry.Commented := by
  obtain ⟨method, hstands, hfinish⟩ := exists_standsIn_of_mem h hbody
  obtain ⟨rfl, -⟩ := OpenMethod.eq_of_finish hfinish
  intro entry hentry
  -- The entry is that of a line of the listing, with its labels numbered.
  obtain ⟨named, hnamed, rfl⟩ := List.mem_map.1 hentry
  obtain ⟨line, hline, hitem⟩ := hstands.items _ (OpenMethod.mem_items_of_mem_tryCatches hnamed)
  obtain ⟨head, words, hwords, hsays⟩ := Line.says_of_item? hitem
  cases hsays with
  | tryCatch hhead hentry _ =>
    have huncut := (Line.writable_read line).2
    rw [hwords, hhead, hentry] at huncut
    refine Item.not_commented_of_uncut huncut fun name hname => hquotes name ?_
    refine List.mem_flatMap.2 ⟨line, hline, ?_⟩
    rw [hitem]
    exact hname

end CleanupFilter
