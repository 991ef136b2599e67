import CleanupFilter.Proofs.Pattern.Language

/-!
# What patterns recognise

Running a pattern succeeds exactly where the code holds what the pattern may read, whatever stands
before and behind it, and leaves the cursor on the last node that was read.

- `Recognises`: a matcher and what it may read.
- `Inspects`: a primitive that looks at the node that the cursor stands on.
- `Cursor.recognises_step`: one step recognises what it may read.
- `Cursor.recognises_runSegments`: so do segments.
-/

namespace CleanupFilter

/-! ### Recognising languages -/

namespace Primitive

/-- A primitive is followed where it succeeds. -/
theorem follow?_eq_some_iff {primitive : Primitive} {cursor next : Cursor} :
    primitive.follow? cursor = some next ↔ primitive cursor = (true, next) := by
  rw [follow?]
  rcases primitive cursor with ⟨_ | _, _⟩ <;> simp

/-- Two primitives are followed one after the other. -/
theorem follow?_andThen (first second : Primitive) (cursor : Cursor) :
    (first.andThen second).follow? cursor = (first.follow? cursor).bind second.follow? := by
  rw [follow?, follow?, andThen]
  rcases first cursor with ⟨_ | _, _⟩ <;> rfl

/-- Primitives one after the other may be taken together in any way. -/
theorem andThen_assoc (first second third : Primitive) :
    (first.andThen second).andThen third = first.andThen (second.andThen third) := by
  funext cursor
  rw [andThen, andThen, andThen]
  rcases first cursor with ⟨_ | _, _⟩ <;> rfl

end Primitive

/-- The matcher succeeds exactly where the code holds what may be read, and then stands on the last
node of it. -/
def Recognises (code : Code) (follow? : Cursor → Option Cursor) (language : Language) : Prop :=
  ∀ position before final, follow? ⟨some position, before⟩ = some final ↔
    ∃ nodes after, language before nodes after ∧ code.Holds (position + 1) nodes ∧
      final = ⟨some (position + nodes.length), after⟩

/-- The primitive inspects the node that the cursor stands on, and leaves the cursor there. -/
structure Inspects (code : Code) (primitive : Primitive) (inspection : Inspection) : Prop where
  here : ∀ position node, code[position]? = some node → ∀ before final,
    primitive.follow? ⟨some position, before⟩ = some final ↔
      ∃ after, inspection before node after ∧ final = ⟨some position, after⟩
  nowhere : ∀ before, primitive.follow? ⟨none, before⟩ = none

variable {code : Code}

/-- From a fresh cursor, the matcher finds the last node of what may be read. -/
theorem Recognises.bind_position_eq_some_iff {follow? : Cursor → Option Cursor}
    {language : Language} (h : Recognises code follow? language) {position last : Nat} :
    (follow? (.after position)).bind Cursor.position = some last ↔
      ∃ nodes after, language .empty nodes after ∧ code.Holds (position + 1) nodes ∧
        last + 1 = position + 1 + nodes.length := by
  rw [Option.bind_eq_some_iff]
  constructor
  · rintro ⟨final, hfinal, hlast⟩
    obtain ⟨nodes, after, hnodes, hholds, rfl⟩ := (h position .empty final).1 hfinal
    refine ⟨nodes, after, hnodes, hholds, ?_⟩
    rw [← Option.some.inj hlast, Nat.add_right_comm]
  · rintro ⟨nodes, after, hnodes, hholds, hlast⟩
    refine ⟨_, (h position .empty _).2 ⟨nodes, after, hnodes, hholds, rfl⟩, ?_⟩
    rw [Option.some.injEq]
    omega

/-- What always succeeds recognises nothing and no more. -/
theorem recognises_accept (code : Code) : Recognises code Primitive.accept.follow? .nothing := by
  intro position before final
  rw [Primitive.follow?_eq_some_iff, Primitive.accept]
  constructor
  · rintro ⟨⟩
    exact ⟨[], before, ⟨rfl, rfl⟩, code.holds_nil _, rfl⟩
  · rintro ⟨nodes, after, ⟨rfl, rfl⟩, -, rfl⟩
    rfl

/-- Readers one after the other recognise languages one after the other. -/
theorem recognises_bind {first second : Cursor → Option Cursor} {front back : Language}
    (hfirst : Recognises code first front) (hsecond : Recognises code second back) :
    Recognises code (fun cursor => (first cursor).bind second) (front.seq back) := by
  intro position before final
  rw [Option.bind_eq_some_iff]
  constructor
  · rintro ⟨middle, hmiddle, hfinal⟩
    -- The second run starts behind the nodes of the first one.
    obtain ⟨u, between, hu, hholds, rfl⟩ := (hfirst _ _ _).1 hmiddle
    obtain ⟨v, after, hv, hholds', rfl⟩ := (hsecond _ _ _).1 hfinal
    refine ⟨u ++ v, after, ⟨u, v, between, rfl, hu, hv⟩,
      Code.holds_succ_append.2 ⟨hholds, hholds'⟩, ?_⟩
    rw [List.length_append, Nat.add_assoc]
  · rintro ⟨nodes, after, ⟨u, v, between, rfl, hu, hv⟩, hholds, rfl⟩
    obtain ⟨hholds, hholds'⟩ := Code.holds_succ_append.1 hholds
    refine ⟨_, (hfirst _ _ _).2 ⟨u, between, hu, hholds, rfl⟩,
      (hsecond _ _ _).2 ⟨v, after, hv, hholds', ?_⟩⟩
    rw [List.length_append, Nat.add_assoc]

theorem recognises_andThen {first second : Primitive} {front back : Language}
    (hfirst : Recognises code first.follow? front) (hsecond : Recognises code second.follow? back) :
    Recognises code (first.andThen second).follow? (front.seq back) := by
  rw [funext (Primitive.follow?_andThen first second)]
  exact recognises_bind hfirst hsecond

/-- A test that what may be read decides picks one of two matchers. -/
theorem recognises_ite {p : Cursor → Prop} [DecidablePred p]
    {first second : Cursor → Option Cursor} {front back : Language}
    (hfirst : Recognises code first front) (hsecond : Recognises code second back)
    (hfront : ∀ {position before nodes after}, front before nodes after →
      code.Holds (position + 1) nodes → p ⟨some position, before⟩)
    (hback : ∀ {position before nodes after}, back before nodes after →
      code.Holds (position + 1) nodes → ¬ p ⟨some position, before⟩) :
    Recognises code (fun cursor => if p cursor then first cursor else second cursor)
      (front.either back) := by
  intro position before final
  dsimp only
  -- The language of the branch that is not taken is empty here.
  by_cases hp : p ⟨some position, before⟩
  · rw [if_pos hp, hfirst]
    refine exists_congr fun nodes => exists_congr fun after => ?_
    refine and_congr_left fun ⟨hholds, _⟩ => (or_iff_left fun hnodes => ?_).symm
    exact hback hnodes hholds hp
  · rw [if_neg hp, hsecond]
    refine exists_congr fun nodes => exists_congr fun after => ?_
    refine and_congr_left fun ⟨hholds, _⟩ => (or_iff_right fun hnodes => ?_).symm
    exact hp (hfront hnodes hholds)

/-- Two looks at a node are one. -/
theorem inspects_andThen {first second : Primitive} {front back : Inspection}
    (hfirst : Inspects code first front) (hsecond : Inspects code second back) :
    Inspects code (first.andThen second) (front.andThen back) := by
  refine ⟨fun position node hnode before final => ?_, fun before => ?_⟩
  -- Both look at the node where the cursor is.
  · rw [Primitive.follow?_andThen, Option.bind_eq_some_iff]
    constructor
    · rintro ⟨middle, hmiddle, hfinal⟩
      obtain ⟨between, hfront, rfl⟩ := (hfirst.here _ _ hnode _ _).1 hmiddle
      obtain ⟨after, hback, rfl⟩ := (hsecond.here _ _ hnode _ _).1 hfinal
      exact ⟨after, ⟨between, hfront, hback⟩, rfl⟩
    · rintro ⟨after, ⟨between, hfront, hback⟩, rfl⟩
      exact ⟨_, (hfirst.here _ _ hnode _ _).2 ⟨between, hfront, rfl⟩,
        (hsecond.here _ _ hnode _ _).2 ⟨after, hback, rfl⟩⟩
  · rw [Primitive.follow?_andThen, hfirst.nowhere, Option.bind_none]

/-! ### What primitives recognise -/

namespace Cursor

/-- Looking at the opcode inspects the opcode. -/
theorem inspects_opcode (code : Code) (accepted : Opcode → Bool) :
    Inspects code (fun cursor => ((cursor.opcode? code).any accepted, cursor))
      (.opcode (accepted · = true)) := by
  refine ⟨fun position node hnode before final => ?_, fun before => rfl⟩
  rw [Primitive.follow?_eq_some_iff, opcode?, current?, Option.bind_some, hnode, Option.bind_some]
  -- Pseudo-nodes have no opcode to be accepted.
  cases hopcode : node.opcode? with
  | none => simp [Inspection.opcode, hopcode]
  | some opcode =>
    simp only [Inspection.opcode, hopcode, Option.any_some, Option.some.injEq, Prod.mk.injEq]
    constructor
    · rintro ⟨haccepts, rfl⟩
      exact ⟨before, ⟨⟨opcode, rfl, haccepts⟩, rfl⟩, rfl⟩
    · rintro ⟨after, ⟨⟨_, rfl, haccepts⟩, rfl⟩, rfl⟩
      exact ⟨haccepts, rfl⟩

/-- A primitive that unifies an operand of the current node inspects it. -/
theorem inspects_operand {α : Type} {primitive : Primitive} {operand? : Node Label → Option α}
    {unify : Bindings → α → Bool × Bindings}
    (hnone : ∀ cursor, (cursor.current? code).bind operand? = none →
      primitive cursor = (false, cursor))
    (hsome : ∀ cursor a, (cursor.current? code).bind operand? = some a →
      primitive cursor =
        ((unify cursor.bindings a).1, { cursor with bindings := (unify cursor.bindings a).2 })) :
    Inspects code primitive (.operand operand? unify) := by
  refine ⟨fun position node hnode before final => ?_, fun before => ?_⟩
  · -- At a position the operand is that of its node, and past the end there is none.
    have hcurrent : ((⟨some position, before⟩ : Cursor).current? code).bind operand? =
        operand? node := by
      rw [current?, Option.bind_some, hnode, Option.bind_some]
    rw [Primitive.follow?_eq_some_iff]
    cases hoperand : operand? node with
    | none => simp [hnone _ (hcurrent.trans hoperand), Inspection.operand, hoperand]
    | some a =>
      rw [hsome _ a (hcurrent.trans hoperand)]
      simp only [Inspection.operand, hoperand, Option.some.injEq, Prod.mk.injEq]
      constructor
      · rintro ⟨hsame, rfl⟩
        exact ⟨_, ⟨a, rfl, Prod.ext hsame rfl⟩, rfl⟩
      · rintro ⟨after, ⟨_, rfl, hunify⟩, rfl⟩
        rw [hunify]
        exact ⟨rfl, rfl⟩
  · rw [Primitive.follow?, hnone _ rfl]

/-- Looking at the called method inspects the method. -/
theorem inspects_callee (accepted : Member → Bool) :
    Inspects code (checkCallee code accepted) (.callee accepted) := by
  refine ⟨fun position node hnode before final => ?_, fun before => ?_⟩
  · rw [Primitive.follow?_eq_some_iff, checkCallee, current?, Option.bind_some, hnode,
      Option.bind_some]
    cases hcallee : node.callee? with
    | none => simp [Inspection.callee, hcallee]
    | some callee =>
      simp only [Inspection.callee, hcallee, Option.any_some, Option.some.injEq, Prod.mk.injEq]
      constructor
      · rintro ⟨haccepts, rfl⟩
        exact ⟨before, ⟨⟨callee, rfl, haccepts⟩, rfl⟩, rfl⟩
      · rintro ⟨after, ⟨⟨_, rfl, haccepts⟩, rfl⟩, rfl⟩
        exact ⟨haccepts, rfl⟩
  · rfl

/-- Binding a slot inspects the slot. -/
theorem inspects_bindSlot (key : Key) :
    Inspects code (bindSlot code key) (.operand Node.slot? (·.unifySlot key)) :=
  inspects_operand (fun _ h => by rw [bindSlot, h]) (fun _ _ h => by rw [bindSlot, h])

theorem inspects_bindTarget (key : Key) :
    Inspects code (bindTarget code key) (.operand Node.target? (·.unifyLabel key)) :=
  inspects_operand (fun _ h => by rw [bindTarget, h]) (fun _ _ h => by rw [bindTarget, h])

theorem inspects_bindPlaced (key : Key) :
    Inspects code (bindPlaced code key) (.operand Node.placed? (·.unifyLabel key)) :=
  inspects_operand (fun _ h => by rw [bindPlaced, h]) (fun _ _ h => by rw [bindPlaced, h])

theorem inspects_bindOwner (key : Key) :
    Inspects code (bindOwner code key) (.operand closedOwner? (·.unifyOwner key)) :=
  inspects_operand (fun _ h => by rw [bindOwner, h]) (fun _ _ h => by rw [bindOwner, h])

/-! ### Moving to the next node -/

/-- The cursor moves to the first instruction of the nodes that stand behind it. -/
theorem advance_eq {position : Nat} {skipped : List (Node Label)} {node : Node Label}
    (hskipped : ∀ n ∈ skipped, n.isPseudo = true) (hnode : node.isPseudo = false)
    (hholds : code.Holds (position + 1) (skipped ++ [node])) (before : Bindings) :
    advance code ⟨some position, before⟩ =
      ⟨some (position + (skipped ++ [node]).length), before⟩ := by
  have hreal := Code.realFrom?_eq_some_iff.2 ⟨skipped, node, hskipped, hnode, hholds, rfl⟩
  rw [advance, Option.bind_some, Code.nextReal?, hreal, List.length_append,
    List.length_singleton, Nat.add_right_comm, Nat.add_assoc]

/-- Whatever inspects the next instruction recognises an instruction. -/
theorem recognises_advancing {test : Primitive} {inspection : Inspection}
    (h : Inspects code test inspection) :
    Recognises code ((advancing code).andThen test).follow? (.instruction inspection) := by
  intro position before final
  have hlast : ∀ {skipped : List (Node Label)} {node : Node Label},
      code.Holds (position + 1) (skipped ++ [node]) →
        code[position + (skipped ++ [node]).length]? = some node := by
    intro skipped node hholds
    obtain ⟨hnode, -⟩ := Code.holds_cons.1 (Code.holds_append.1 hholds).2
    rwa [List.length_append, List.length_singleton, ← Nat.add_assoc, Nat.add_right_comm]
  rw [Primitive.follow?_andThen, Primitive.follow?, advancing, Option.bind_some]
  constructor
  · intro hfinal
    -- Without a next instruction the cursor stands nowhere, where the test fails.
    cases hnext : code.realFrom? (position + 1) with
    | none =>
      rw [advance, Option.bind_some, Code.nextReal?, hnext, h.nowhere] at hfinal
      exact absurd hfinal (by simp)
    | some found =>
      obtain ⟨skipped, node, hskipped, hnode, hholds, -⟩ := Code.realFrom?_eq_some_iff.1 hnext
      rw [advance_eq hskipped hnode hholds] at hfinal
      obtain ⟨after, hinspection, rfl⟩ := (h.here _ _ (hlast hholds) _ _).1 hfinal
      exact ⟨_, after, ⟨skipped, node, rfl, hskipped, hnode, hinspection⟩, hholds, rfl⟩
  · rintro ⟨nodes, after, ⟨skipped, node, rfl, hskipped, hnode, hinspection⟩, hholds, rfl⟩
    rw [advance_eq hskipped hnode hholds]
    exact (h.here _ _ (hlast hholds) _ _).2 ⟨after, hinspection, rfl⟩

/-- To expect an opcode is to look for an instruction and then at its opcode. -/
theorem expect_eq (code : Code) (opcode : Opcode) : expect code opcode =
    (advancing code).andThen fun cursor => (cursor.opcode? code = some opcode, cursor) :=
  rfl

theorem expectValueReturn_eq (code : Code) : expectValueReturn code =
    (advancing code).andThen fun cursor =>
      ((cursor.opcode? code).any Opcode.isValueReturn, cursor) :=
  rfl

/-- Comparing the opcode inspects the opcode. -/
theorem inspects_isOpcode (opcode : Opcode) :
    Inspects code (fun cursor => (cursor.opcode? code = some opcode, cursor))
      (.opcode (· = opcode)) := by
  have hany : ∀ opcode? : Option Opcode,
      opcode?.any (fun other => decide (other = opcode)) = decide (opcode? = some opcode) := by
    rintro (_ | _) <;> simp
  simpa only [hany, decide_eq_true_eq] using
    inspects_opcode code fun other => decide (other = opcode)

/-- An opcode that is expected is recognised. -/
theorem recognises_expect (opcode : Opcode) :
    Recognises code (expect code opcode).follow? (.instruction (.opcode (· = opcode))) :=
  recognises_advancing (inspects_isOpcode opcode)

/-- An opcode and something else about the next instruction. -/
theorem recognises_expect_andThen (opcode : Opcode) {test : Primitive} {inspection : Inspection}
    (h : Inspects code test inspection) :
    Recognises code ((expect code opcode).andThen test).follow?
      (.instruction ((Inspection.opcode (· = opcode)).andThen inspection)) := by
  rw [expect_eq, Primitive.andThen_assoc]
  exact recognises_advancing (inspects_andThen (inspects_isOpcode opcode) h)

theorem recognises_expectVar (opcode : Opcode) (key : Key) :
    Recognises code (expectVar code opcode key).follow? (.var opcode key) :=
  recognises_expect_andThen opcode (inspects_bindSlot key)

theorem recognises_expectJump (opcode : Opcode) (key : Key) :
    Recognises code (expectJump code opcode key).follow? (.jump opcode key) :=
  recognises_expect_andThen opcode (inspects_bindTarget key)

theorem recognises_expectCall (opcode : Opcode) (accepted : Member → Bool) :
    Recognises code ((expect code opcode).andThen (checkCallee code accepted)).follow?
      (.call opcode accepted) :=
  recognises_expect_andThen opcode (inspects_callee accepted)

theorem recognises_expectClose (key : Key) :
    Recognises code (expectClose code key).follow? (.close key) :=
  recognises_andThen (recognises_expectVar .aload key)
    (recognises_advancing (inspects_bindOwner key))

theorem recognises_expectAddSuppressed (key : Key) :
    Recognises code (expectAddSuppressed code key).follow? (.addSuppressed key) :=
  recognises_andThen (recognises_expectVar .aload _) <|
    recognises_andThen (recognises_expectVar .aload key) (recognises_expectCall .invokeVirtual _)

theorem recognises_expectValueReturn :
    Recognises code (expectValueReturn code).follow? .valueReturn := by
  rw [expectValueReturn_eq]
  exact recognises_advancing (inspects_opcode _ Opcode.isValueReturn)

/-- The next node of all, whatever it is, is the placement of the key's label. -/
theorem recognises_expectLabel (key : Key) :
    Recognises code (expectLabel code key).follow? (.placement key) := by
  intro position before final
  have hplaced : ∀ {node : Node Label} {label : Label},
      node.placed? = some label ↔ node = .label label := by
    intro node label
    cases node <;> simp [Node.placed?]
  show (bindPlaced code key).follow? (advanceLiteral code ⟨some position, before⟩) = some final ↔ _
  rw [advanceLiteral, Option.bind_some, Code.next?]
  -- Behind the last node nothing is placed and no nodes stand.
  by_cases hlt : position + 1 < code.size
  · rw [if_pos hlt, (inspects_bindPlaced key).here _ _ (Array.getElem?_eq_getElem hlt)]
    constructor
    · rintro ⟨after, ⟨label, hlabel, hunify⟩, rfl⟩
      refine ⟨[.label label], after, ⟨label, rfl, hunify⟩, Code.holds_cons.2 ⟨?_, ?_⟩, rfl⟩
      · rw [Array.getElem?_eq_getElem hlt, hplaced.1 hlabel]
      · exact code.holds_nil _
    · rintro ⟨nodes, after, ⟨label, rfl, hunify⟩, hholds, rfl⟩
      obtain ⟨hlabel, -⟩ := Code.holds_cons.1 hholds
      rw [Array.getElem?_eq_getElem hlt] at hlabel
      exact ⟨after, ⟨label, hplaced.2 (Option.some.inj hlabel), hunify⟩, rfl⟩
  · rw [if_neg hlt, (inspects_bindPlaced key).nowhere]
    constructor
    · exact fun h => absurd h (by simp)
    · rintro ⟨nodes, after, ⟨label, rfl, -⟩, hholds, -⟩
      have hle := hholds.le_size (List.cons_ne_nil _ _)
      rw [List.length_singleton] at hle
      omega

/-- The label where two paths join is recognised, if it is one. -/
theorem recognises_joinLabel (key : Key) :
    Recognises code (joinLabel code key).follow? (.joinLabel key) := by
  intro position before final
  have hfollow : (joinLabel code key).follow? ⟨some position, before⟩ =
      if (before.labels key).isSome then (expectLabel code key).follow? ⟨some position, before⟩
      else Primitive.accept.follow? ⟨some position, before⟩ := by
    rw [Primitive.follow?, joinLabel]
    cases (before.labels key).isSome <;> rfl
  rw [hfollow]
  by_cases hbound : (before.labels key).isSome
  · simpa only [Language.joinLabel, if_pos hbound] using
      recognises_expectLabel key position before final
  · simpa only [Language.joinLabel, if_neg hbound] using
      recognises_accept code position before final

/-- The opcode that is looked ahead at is that of the first instruction behind the cursor. -/
theorem peek?_eq {position : Nat} {skipped : List (Node Label)} {node : Node Label}
    (hskipped : ∀ n ∈ skipped, n.isPseudo = true) (hnode : node.isPseudo = false)
    (hholds : code.Holds (position + 1) (skipped ++ [node])) (before : Bindings) :
    peek? code ⟨some position, before⟩ = node.opcode? := by
  obtain ⟨hlast, -⟩ := Code.holds_cons.1 (Code.holds_append.1 hholds).2
  rw [peek?, advance_eq hskipped hnode hholds, opcode?, current?, Option.bind_some,
    List.length_append, List.length_singleton, ← Nat.add_assoc, Nat.add_right_comm, hlast,
    Option.bind_some]

/-- The first instruction of what may be read is the one that is looked ahead at. -/
theorem peek?_of_instruction {position : Nat} {nodes : List (Node Label)} {before after : Bindings}
    {inspection : Inspection} (h : Language.instruction inspection before nodes after)
    (hholds : code.Holds (position + 1) nodes) (bindings : Bindings) :
    ∃ node, inspection before node after ∧
      peek? code ⟨some position, bindings⟩ = node.opcode? := by
  obtain ⟨skipped, node, rfl, hskipped, hnode, hinspection⟩ := h
  exact ⟨node, hinspection, peek?_eq hskipped hnode hholds bindings⟩

/-- Leaves a block by a return, with the look at the load among what is matched. -/
def returnLoaded? (code : Code) (key : Key) (cursor : Cursor) : Option Cursor :=
  (((advancing code).andThen fun next =>
      ((next.opcode? code).any Opcode.isVarLoad, next)).follow? cursor).bind fun next =>
    (expectValueReturn code).follow? { next with bindings := next.bindings.forgetLabel key }

/-- A block is left by a load and a return if a load is next, and else by a jump. -/
theorem follow?_exit (code : Code) (key : Key) : (exit code key).follow? = fun cursor =>
    if (cursor.peek? code).any Opcode.isVarLoad = true then returnLoaded? code key cursor
    else (expectJump code .goto key).follow? cursor := by
  funext cursor
  rw [Primitive.follow?, exit]
  -- A load that was seen ahead is there when the cursor has moved.
  by_cases hpeek : (cursor.peek? code).any Opcode.isVarLoad = true
  · rw [if_pos hpeek, if_pos hpeek, returnLoaded?, Primitive.follow?_andThen, Primitive.follow?,
      advancing, Option.bind_some, Primitive.follow?, ← peek?, hpeek, Option.bind_some]
    rfl
  · rw [if_neg hpeek, if_neg hpeek]
    rfl

/-- A load and a return are recognised, the label being forgotten. -/
theorem recognises_returnLoaded? (key : Key) :
    Recognises code (returnLoaded? code key)
      ((Language.instruction (.opcode (·.isVarLoad = true))).seq
        (Language.valueReturn.forgetting key)) :=
  recognises_bind (recognises_advancing (inspects_opcode _ Opcode.isVarLoad))
    fun position _ final => recognises_expectValueReturn position _ final

/-- A block is left by a return or by a jump. The next instruction decides which, as no load is a
jump. -/
theorem recognises_exit (key : Key) : Recognises code (exit code key).follow? (.exit key) := by
  rw [follow?_exit]
  refine recognises_ite (recognises_returnLoaded? key) (recognises_expectJump .goto key) ?_ ?_
  · intro position before nodes after hreturn hholds
    obtain ⟨front, back, between, rfl, hload, -⟩ := hreturn
    obtain ⟨node, ⟨⟨opcode, hopcode, haccepted⟩, -⟩, hpeek⟩ :=
      peek?_of_instruction hload (Code.holds_append.1 hholds).1 before
    rw [hpeek, hopcode, Option.any_some, haccepted]
  · intro position before nodes after hjump hholds
    obtain ⟨node, ⟨_, ⟨⟨opcode, hopcode, rfl⟩, -⟩, -⟩, hpeek⟩ :=
      peek?_of_instruction hjump hholds before
    have hgoto : Opcode.goto.isVarLoad = false := by decide +kernel
    rw [hpeek, hopcode, Option.any_some, hgoto]
    exact Bool.false_ne_true

/-! ### What steps recognise -/

/-- Every step is recognised by its language. -/
theorem recognises_step (scope : Scope) (s : Step) :
    Recognises code (step code scope s).follow? (s.language scope) := by
  cases s with
  | op opcode => exact recognises_expect opcode
  | var opcode slot => exact recognises_expectVar opcode _
  | jump opcode target => exact recognises_expectJump opcode _
  | label name => exact recognises_expectLabel _
  | close resource => exact recognises_expectClose _
  | addSuppressed exception => exact recognises_expectAddSuppressed _
  | invoke opcode name desc => exact recognises_expectCall opcode _
  | exit target => exact recognises_exit _
  | joinLabel name => exact recognises_joinLabel _

/-- A run of steps is recognised step by step. -/
theorem recognises_run (scope : Scope) (steps : List Step) :
    Recognises code (run code scope steps).follow? (.ofSteps scope steps) := by
  induction steps with
  | nil => exact recognises_accept code
  | cons first rest ih => exact recognises_andThen (recognises_step scope first) ih

/-- Running segments succeeds exactly where the code holds what the segments may read. -/
theorem recognises_runSegments (segments : List Segment) :
    Recognises code (runSegments code segments).follow? (.ofSegments segments) := by
  induction segments with
  | nil => exact recognises_accept code
  | cons first rest ih => exact recognises_andThen (recognises_run first.scope first.steps) ih

end Cursor

end CleanupFilter
