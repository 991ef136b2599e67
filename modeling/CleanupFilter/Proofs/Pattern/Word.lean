import Mathlib.Tactic.SplitIfs
import CleanupFilter.Proofs.Pattern.Recognition

/-!
# Words of patterns

Where patterns overlap is decided by opcodes alone. The instructions of a stretch of code are
spelled as a word, in which opcodes that no pattern tells apart are the same letter.

- `Letter`, `Opcode.letter`: what an instruction counts as.
- `word`: the word of a sequence of nodes.
- `Step.words`, `Segment.words`: the words of what may be read.
- `Language.spelledBy_ofSegments`: nothing else is read.
-/

namespace CleanupFilter

-- The table is a large closed term, which the unifier would evaluate.
attribute [local irreducible] instructionTable

/-- What an instruction counts as in a word. -/
inductive Letter
  | aload
  /-- A typed load other than `ALOAD`. -/
  | load
  | astore
  | ifNull
  | ifNonNull
  | ifAcmpEq
  | goto
  /-- A call of an instance method. -/
  | call
  | callStatic
  | athrow
  | monitorExit
  | valueReturn
  | other
  deriving DecidableEq, Repr

namespace Opcode

/-- The letter of an opcode. -/
def letter (opcode : Opcode) : Letter :=
  if opcode = aload then .aload
  else if opcode = astore then .astore
  else if opcode = ifNull then .ifNull
  else if opcode = ifNonNull then .ifNonNull
  else if opcode = ifAcmpEq then .ifAcmpEq
  else if opcode = goto then .goto
  else if opcode = invokeVirtual ∨ opcode = invokeInterface then .call
  else if opcode = invokeStatic then .callStatic
  else if opcode = athrow then .athrow
  else if opcode = monitorExit then .monitorExit
  else if opcode.isVarLoad then .load
  else if opcode.isValueReturn then .valueReturn
  else .other

/-- The opcodes with a letter of their own, `ALOAD` apart. -/
def named : List Opcode :=
  [astore, ifNull, ifNonNull, ifAcmpEq, goto, invokeVirtual, invokeInterface, invokeStatic, athrow,
    monitorExit]

/-- Opcodes with a letter of their own are neither loads nor returns. -/
theorem named_isPlain :
    ∀ opcode ∈ named, opcode.isVarLoad = false ∧ opcode.isValueReturn = false := by
  decide +kernel

/-- Other opcodes have the letter of their class. -/
theorem letter_of_notMem_named {opcode : Opcode} (h : opcode ∉ named) (hload : opcode ≠ aload) :
    opcode.letter = if opcode.isVarLoad then .load
      else if opcode.isValueReturn then .valueReturn else .other := by
  simp only [named, List.mem_cons, List.not_mem_nil, or_false, not_or] at h
  simp [letter, h, hload]

/-- Loads have one of two letters. -/
theorem letter_of_isVarLoad {opcode : Opcode} (h : opcode.isVarLoad = true) :
    opcode.letter = .aload ∨ opcode.letter = .load := by
  by_cases hload : opcode = aload
  · exact .inl (by rw [letter, if_pos hload])
  · -- No opcode with a letter of its own is a load.
    have hnamed : opcode ∉ named := fun hmem => by
      rw [(named_isPlain opcode hmem).1] at h
      exact absurd h (by simp)
    exact .inr (by rw [letter_of_notMem_named hnamed hload, if_pos h])

/-- No instruction is a load and a return. -/
theorem not_returning_of_load : ∀ instruction ∈ instructionTable.toList,
    instruction.traits.contains .load = true → instruction.traits.contains .returning = false := by
  decide +kernel

/-- No load is a return. -/
theorem isValueReturn_of_isVarLoad {opcode : Opcode} (h : opcode.isVarLoad = true) :
    opcode.isValueReturn = false := by
  -- An undefined opcode has no traits, and those of the others are in the table.
  cases hinstruction : opcode.instruction? with
  | none =>
    have htraits : opcode.traits = [] := by
      unfold traits
      rw [hinstruction]
    rw [isValueReturn, htraits, List.contains_nil, Bool.false_and]
  | some instruction =>
    have htraits : opcode.traits = instruction.traits := by
      unfold traits
      rw [hinstruction]
    have hmem := Array.mem_toList_iff.2 (Array.mem_of_getElem? hinstruction)
    rw [isVarLoad, htraits] at h
    rw [isValueReturn, htraits, not_returning_of_load instruction hmem h, Bool.false_and]

/-- Returns have one letter. -/
theorem letter_of_isValueReturn {opcode : Opcode} (h : opcode.isValueReturn = true) :
    opcode.letter = .valueReturn := by
  have hload : opcode.isVarLoad ≠ true := fun hload => by
    rw [isValueReturn_of_isVarLoad hload] at h
    exact absurd h (by simp)
  have hnamed : opcode ∉ named := fun hmem => by
    rw [(named_isPlain opcode hmem).2] at h
    exact absurd h (by simp)
  have haload : opcode ≠ aload := by
    rintro rfl
    exact hload (by decide +kernel)
  rw [letter_of_notMem_named hnamed haload, if_neg hload, if_pos h]

theorem eq_goto_of_mem_named :
    ∀ opcode ∈ aload :: named, opcode.letter = .goto → opcode = goto := by
  decide

/-- The letter of `goto` stands for this opcode only. -/
theorem letter_eq_goto {opcode : Opcode} : opcode.letter = .goto ↔ opcode = goto := by
  constructor
  · intro h
    by_cases hmem : opcode ∈ aload :: named
    · exact eq_goto_of_mem_named opcode hmem h
    · obtain ⟨haload, hnamed⟩ := not_or.1 fun h => hmem (List.mem_cons.2 h)
      rw [letter_of_notMem_named hnamed haload] at h
      cases hload : opcode.isVarLoad <;> cases hreturn : opcode.isValueReturn <;>
        simp [hload, hreturn] at h
  · rintro rfl
    decide

end Opcode

/-! ### Words -/

/-- The letters of the instructions among the nodes, in order. -/
def word (nodes : List (Node Label)) : List Letter :=
  nodes.filterMap fun node => node.opcode?.map Opcode.letter

/-- The letters of code are those of its parts. -/
theorem word_append (front back : List (Node Label)) :
    word (front ++ back) = word front ++ word back :=
  List.filterMap_append

/-- Pseudo-nodes are those without an opcode. -/
theorem Node.opcode?_eq_none_iff {L : Type} {node : Node L} :
    node.opcode? = none ↔ node.isPseudo = true := by
  cases node <;> simp [opcode?, isPseudo]

/-- Code without letters is made of pseudo-nodes. -/
theorem word_eq_nil_iff {nodes : List (Node Label)} :
    word nodes = [] ↔ ∀ node ∈ nodes, node.isPseudo = true := by
  rw [word, List.filterMap_eq_nil_iff]
  refine forall₂_congr fun node _ => ?_
  rw [Option.map_eq_none_iff, Node.opcode?_eq_none_iff]

/-- The first letter is that of the first instruction. -/
theorem exists_of_head?_word {nodes : List (Node Label)} {letter : Letter}
    (h : (word nodes).head? = some letter) :
    ∃ skipped node tail opcode, nodes = skipped ++ node :: tail ∧
      (∀ n ∈ skipped, n.isPseudo = true) ∧ node.isPseudo = false ∧
      node.opcode? = some opcode ∧ opcode.letter = letter := by
  obtain ⟨rest, hword⟩ := List.head?_eq_some_iff.1 h
  -- What has no letter is skipped, and that is what has no opcode.
  obtain ⟨skipped, node, tail, rfl, hskipped, hnode, -⟩ := List.filterMap_eq_cons_iff.1 hword
  obtain ⟨opcode, hopcode, hletter⟩ := Option.map_eq_some_iff.1 hnode
  refine ⟨skipped, node, tail, opcode, rfl, fun n hn => ?_, ?_, hopcode, hletter⟩
  · exact Node.opcode?_eq_none_iff.1 (Option.map_eq_none_iff.1 (hskipped n hn))
  · -- A node with an opcode is no pseudo-node.
    rw [Bool.eq_false_iff, Ne, ← Node.opcode?_eq_none_iff, hopcode]
    exact Option.some_ne_none opcode

/-- The opcode that is looked ahead at has the first letter. -/
theorem Cursor.peek?_of_word {code : Code} {position : Nat} {nodes : List (Node Label)}
    {letter : Letter} (hword : (word nodes).head? = some letter)
    (hholds : code.Holds (position + 1) nodes) (before : Bindings) :
    ∃ opcode, peek? code ⟨some position, before⟩ = some opcode ∧ opcode.letter = letter := by
  obtain ⟨skipped, node, tail, opcode, rfl, hskipped, hnode, hopcode, hletter⟩ :=
    exists_of_head?_word hword
  rw [List.append_cons] at hholds
  refine ⟨opcode, ?_, hletter⟩
  rw [peek?_eq hskipped hnode (Code.holds_append.1 hholds).1 before, hopcode]

/-- What stands behind a cursor starts with one letter only. -/
theorem head?_word_eq {code : Code} {position : Nat} {nodes others : List (Node Label)}
    {a b : Letter} (ha : (word nodes).head? = some a) (hb : (word others).head? = some b)
    (hnodes : code.Holds (position + 1) nodes) (hothers : code.Holds (position + 1) others) :
    a = b := by
  -- Both letters are that of the opcode that is looked ahead at.
  obtain ⟨opcode, hpeek, rfl⟩ := Cursor.peek?_of_word ha hnodes .empty
  obtain ⟨other, hpeek', rfl⟩ := Cursor.peek?_of_word hb hothers .empty
  rw [hpeek, Option.some.injEq] at hpeek'
  rw [hpeek']

/-- The words of what is read first and of what is read then, put together in all ways. -/
def joinedWords {α : Type} (front back : List (List α)) : List (List α) :=
  front.flatMap fun u => back.map fun v => u ++ v

/-- The words of what a step may read. -/
def Step.words : Step → List (List Letter)
  | .op opcode | .var opcode _ | .jump opcode _ | .invoke opcode _ _ => [[opcode.letter]]
  | .label _ | .joinLabel _ => [[]]
  | .close _ => [[.aload, .call]]
  | .addSuppressed _ => [[.aload, .aload, .call]]
  | .exit _ => [[.aload, .valueReturn], [.load, .valueReturn], [.goto]]

/-- The words of what steps may read. -/
def Step.wordsOf : List Step → List (List Letter)
  | [] => [[]]
  | first :: rest => joinedWords first.words (wordsOf rest)

/-- The words of what segments may read. -/
def Segment.words : List Segment → List (List Letter)
  | [] => [[]]
  | first :: rest => joinedWords (Step.wordsOf first.steps) (words rest)

/-- The language is spelled by words of the list only. -/
def Language.SpelledBy (language : Language) (words : List (List Letter)) : Prop :=
  ∀ before nodes after, language before nodes after → word nodes ∈ words

namespace Language

variable {front back : Language} {us vs : List (List Letter)}

/-- Languages one after the other are spelled by joined words. -/
theorem SpelledBy.seq (hfront : front.SpelledBy us) (hback : back.SpelledBy vs) :
    (front.seq back).SpelledBy (joinedWords us vs) := by
  rintro before nodes after ⟨u, v, between, rfl, hu, hv⟩
  rw [word_append]
  exact List.mem_flatMap.2 ⟨_, hfront _ _ _ hu, List.mem_map.2 ⟨_, hback _ _ _ hv, rfl⟩⟩

theorem spelledBy_nothing : nothing.SpelledBy [[]] := by
  rintro before nodes after ⟨rfl, -⟩
  exact List.mem_singleton.2 rfl

theorem spelledBy_placement (key : Key) : (placement key).SpelledBy [[]] := by
  rintro before nodes after ⟨label, rfl, -⟩
  exact List.mem_singleton.2 rfl

/-- An instruction is spelled by the letters that its opcode can have. -/
theorem spelledBy_instruction {inspection : Inspection} {words : List (List Letter)}
    (h : ∀ before node after, inspection before node after →
      ∃ opcode, node.opcode? = some opcode ∧ [opcode.letter] ∈ words) :
    (instruction inspection).SpelledBy words := by
  rintro before nodes after ⟨skipped, node, rfl, hskipped, -, hinspection⟩
  obtain ⟨opcode, hopcode, hletter⟩ := h _ _ _ hinspection
  -- The pseudo-nodes in front of the instruction have no letters.
  have hword : word [node] = [opcode.letter] := by simp [word, hopcode]
  rwa [word_append, word_eq_nil_iff.2 hskipped, List.nil_append, hword]

/-- An opcode is spelled by its letter. -/
theorem spelledBy_opcode (opcode : Opcode) :
    (instruction (.opcode (· = opcode))).SpelledBy [[opcode.letter]] := by
  apply spelledBy_instruction
  rintro before node after ⟨⟨_, hopcode, rfl⟩, -⟩
  exact ⟨_, hopcode, List.mem_singleton.2 rfl⟩

theorem spelledBy_opcode_andThen (opcode : Opcode) (inspection : Inspection) :
    (instruction ((Inspection.opcode (· = opcode)).andThen inspection)).SpelledBy
      [[opcode.letter]] := by
  apply spelledBy_instruction
  rintro before node after ⟨_, ⟨⟨_, hopcode, rfl⟩, -⟩, -⟩
  exact ⟨_, hopcode, List.mem_singleton.2 rfl⟩

/-- A close has the letter of a call. -/
theorem closedOwner?_letter {node : Node Label} {owner : String}
    (h : Cursor.closedOwner? node = some owner) :
    ∃ opcode, node.opcode? = some opcode ∧ opcode.letter = .call := by
  cases node with
  | method opcode target interface =>
    rw [Cursor.closedOwner?] at h
    split_ifs at h with hcall
    refine ⟨opcode, rfl, ?_⟩
    rcases hcall.1 with rfl | rfl <;> decide
  | _ => exact absurd h (by simp [Cursor.closedOwner?])

/-- A close is spelled by a load and a call. -/
theorem spelledBy_close (key : Key) : (close key).SpelledBy [[.aload, .call]] := by
  have hcall : (instruction (.operand Cursor.closedOwner? (·.unifyOwner key))).SpelledBy
      [[.call]] := by
    apply spelledBy_instruction
    rintro before node after ⟨owner, howner, -⟩
    obtain ⟨opcode, hopcode, hletter⟩ := closedOwner?_letter howner
    exact ⟨opcode, hopcode, by rw [hletter]; exact List.mem_singleton.2 rfl⟩
  exact (spelledBy_opcode_andThen .aload _).seq hcall

/-- To suppress an exception is spelled by two loads and a call. -/
theorem spelledBy_addSuppressed (key : Key) :
    (addSuppressed key).SpelledBy [[.aload, .aload, .call]] :=
  (spelledBy_opcode_andThen .aload _).seq <|
    (spelledBy_opcode_andThen .aload _).seq (spelledBy_opcode_andThen .invokeVirtual _)

theorem spelledBy_valueReturn : valueReturn.SpelledBy [[.valueReturn]] := by
  apply spelledBy_instruction
  rintro before node after ⟨⟨opcode, hopcode, hreturn⟩, -⟩
  refine ⟨opcode, hopcode, ?_⟩
  rw [Opcode.letter_of_isValueReturn hreturn]
  exact List.mem_singleton.2 rfl

/-- A block is left by one of three words. -/
theorem spelledBy_exit (key : Key) :
    (exit key).SpelledBy [[.aload, .valueReturn], [.load, .valueReturn], [.goto]] := by
  have hload : (instruction (.opcode (·.isVarLoad = true))).SpelledBy [[.aload], [.load]] := by
    apply spelledBy_instruction
    rintro before node after ⟨⟨opcode, hopcode, hload⟩, -⟩
    refine ⟨opcode, hopcode, ?_⟩
    rcases Opcode.letter_of_isVarLoad hload with hletter | hletter <;> simp [hletter]
  -- Which labels are known makes no difference to the return.
  have hreturn : (valueReturn.forgetting key).SpelledBy [[.valueReturn]] :=
    fun _ => spelledBy_valueReturn _
  rintro before nodes after (hnodes | hnodes)
  · have hmem := (hload.seq hreturn) before nodes after hnodes
    exact List.mem_append_left [[.goto]] hmem
  · have hmem := spelledBy_opcode_andThen .goto _ before nodes after hnodes
    exact List.mem_append_right [[.aload, .valueReturn], [.load, .valueReturn]] hmem

theorem spelledBy_joinLabel (key : Key) : (joinLabel key).SpelledBy [[]] := by
  intro before nodes after hnodes
  rw [joinLabel] at hnodes
  split_ifs at hnodes with hbound
  · exact spelledBy_placement key before nodes after hnodes
  · exact spelledBy_nothing before nodes after hnodes

/-- A step is spelled by its words. -/
theorem spelledBy_step (scope : Scope) (s : Step) : (s.language scope).SpelledBy s.words := by
  cases s with
  | op opcode => exact spelledBy_opcode opcode
  | var opcode slot => exact spelledBy_opcode_andThen opcode _
  | jump opcode target => exact spelledBy_opcode_andThen opcode _
  | label name => exact spelledBy_placement _
  | close resource => exact spelledBy_close _
  | addSuppressed exception => exact spelledBy_addSuppressed _
  | invoke opcode name desc => exact spelledBy_opcode_andThen opcode _
  | exit target => exact spelledBy_exit _
  | joinLabel name => exact spelledBy_joinLabel _

/-- Steps are spelled by their joined words. -/
theorem spelledBy_ofSteps (scope : Scope) (steps : List Step) :
    (ofSteps scope steps).SpelledBy (Step.wordsOf steps) := by
  induction steps with
  | nil => exact spelledBy_nothing
  | cons first rest ih => exact (spelledBy_step scope first).seq ih

/-- Segments read nothing but what their words spell. -/
theorem spelledBy_ofSegments (segments : List Segment) :
    (ofSegments segments).SpelledBy (Segment.words segments) := by
  induction segments with
  | nil => exact spelledBy_nothing
  | cons first rest ih => exact (spelledBy_ofSteps first.scope first.steps).seq ih

end Language

end CleanupFilter
