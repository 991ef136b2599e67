import CleanupFilter.Proofs.Pattern.Recognition
import CleanupFilter.Proofs.Pattern.Template

/-!
# Operands bound on the way and operands given beforehand

The first operand that a key meets is bound to the key, and later ones are compared with it. This
reads the same nodes as choosing operands for all keys beforehand and comparing every operand with
the chosen one: whatever a run binds can be completed to such a choice, and a choice that fits never
makes a comparison fail.

- `Valuation.Extends`: a valuation agrees with everything that is bound.
- `AmountsTo`: a relation between bindings, and what it asks of valuations.
- `Language.amountsTo_ofSegments`: segments ask for their templates.
- `Cursor.runSegments_after_iff`: running segments succeeds if some valuation fits.
-/

namespace CleanupFilter

/-! ### Valuations and bindings -/

/-- Every key that is bound has the value that it is bound to. -/
def Completes {α : Type} (value : Key → α) (bound : Key → Option α) : Prop :=
  ∀ key a, bound key = some a → value key = a

/-- Unification keeps to the values if it meets the right one, and only then. -/
theorem exists_unify_iff {α : Type} [DecidableEq α] {value : Key → α} {bound : Key → Option α}
    {key : Key} {a : α} :
    (∃ next, unify bound key a = (true, next) ∧ Completes value next) ↔
      Completes value bound ∧ value key = a := by
  constructor
  · rintro ⟨next, hunify, hnext⟩
    -- The key had the value, or none and has it now.
    rcases unify_eq_true_iff.1 hunify with ⟨hkey, rfl⟩ | ⟨hkey, rfl⟩
    · exact ⟨hnext, hnext key a hkey⟩
    · refine ⟨fun k b hk => hnext k b ((if_neg ?_).trans hk), hnext key a (if_pos rfl)⟩
      rintro rfl
      rw [hkey] at hk
      cases hk
  · rintro ⟨hbound, hvalue⟩
    -- A value that is known is that of the valuation.
    cases hkey : bound key with
    | some known =>
      obtain rfl : known = a := (hbound key known hkey).symm.trans hvalue
      exact ⟨bound, unify_eq_true_iff.2 (.inl ⟨hkey, rfl⟩), hbound⟩
    | none =>
      refine ⟨_, unify_eq_true_iff.2 (.inr ⟨hkey, rfl⟩), fun k b hk => ?_⟩
      by_cases heq : k = key
      · rw [if_pos heq, Option.some.injEq] at hk
        rw [heq, hvalue, hk]
      · rw [if_neg heq] at hk
        exact hbound k b hk

/-- Every operand that is bound is the one of the valuation. -/
structure Valuation.Extends (values : Valuation) (bindings : Bindings) : Prop where
  slots : Completes values.slots bindings.slots
  labels : Completes values.labels bindings.labels
  owners : Completes values.owners bindings.owners

/-- Every valuation extends empty bindings. -/
theorem Valuation.extends_empty (values : Valuation) : values.Extends .empty :=
  ⟨by simp [Completes, Bindings.empty], by simp [Completes, Bindings.empty],
    by simp [Completes, Bindings.empty]⟩

/-- The operands that are bound, and arbitrary ones for all other keys. -/
def Bindings.valuation (bindings : Bindings) : Valuation where
  slots key := (bindings.slots key).getD 0
  labels key := (bindings.labels key).getD ⟨0⟩
  owners key := (bindings.owners key).getD ""

/-- Bindings are extended by their own valuation. -/
theorem Bindings.extends_valuation (bindings : Bindings) :
    bindings.valuation.Extends bindings where
  slots key slot h := by simp [valuation, h]
  labels key label h := by simp [valuation, h]
  owners key owner h := by simp [valuation, h]

/-- Exactly these keys have labels. -/
def Bindings.Labelled (keys : List Key) (bindings : Bindings) : Prop :=
  ∀ key, (bindings.labels key).isSome = true ↔ key ∈ keys

theorem Bindings.labelled_empty : Bindings.empty.Labelled [] := by
  intro key
  simp [empty]

section Unification

variable {values : Valuation} {before after : Bindings} {key : Key}

/-- A slot is unified with the bindings that a valuation extends if it is the one of the valuation.
-/
theorem exists_unifySlot_iff {slot : UInt16} :
    (∃ after, before.unifySlot key slot = (true, after) ∧ values.Extends after) ↔
      values.Extends before ∧ values.slots key = slot := by
  constructor
  · rintro ⟨after, hunify, hafter⟩
    obtain ⟨hsame, rfl⟩ := Prod.mk.inj hunify
    obtain ⟨hslots, hvalue⟩ := exists_unify_iff.1 ⟨_, Prod.ext hsame rfl, hafter.slots⟩
    exact ⟨⟨hslots, hafter.labels, hafter.owners⟩, hvalue⟩
  · rintro ⟨hbefore, hvalue⟩
    obtain ⟨next, hunify, hnext⟩ := exists_unify_iff.2 ⟨hbefore.slots, hvalue⟩
    refine ⟨{ before with slots := next }, ?_, hnext, hbefore.labels, hbefore.owners⟩
    rw [Bindings.unifySlot, hunify]

theorem exists_unifyLabel_iff {label : Label} :
    (∃ after, before.unifyLabel key label = (true, after) ∧ values.Extends after) ↔
      values.Extends before ∧ values.labels key = label := by
  constructor
  · rintro ⟨after, hunify, hafter⟩
    obtain ⟨hsame, rfl⟩ := Prod.mk.inj hunify
    obtain ⟨hlabels, hvalue⟩ := exists_unify_iff.1 ⟨_, Prod.ext hsame rfl, hafter.labels⟩
    exact ⟨⟨hafter.slots, hlabels, hafter.owners⟩, hvalue⟩
  · rintro ⟨hbefore, hvalue⟩
    obtain ⟨next, hunify, hnext⟩ := exists_unify_iff.2 ⟨hbefore.labels, hvalue⟩
    refine ⟨{ before with labels := next }, ?_, hbefore.slots, hnext, hbefore.owners⟩
    rw [Bindings.unifyLabel, hunify]

theorem exists_unifyOwner_iff {owner : String} :
    (∃ after, before.unifyOwner key owner = (true, after) ∧ values.Extends after) ↔
      values.Extends before ∧ values.owners key = owner := by
  constructor
  · rintro ⟨after, hunify, hafter⟩
    obtain ⟨hsame, rfl⟩ := Prod.mk.inj hunify
    obtain ⟨howners, hvalue⟩ := exists_unify_iff.1 ⟨_, Prod.ext hsame rfl, hafter.owners⟩
    exact ⟨⟨hafter.slots, hafter.labels, howners⟩, hvalue⟩
  · rintro ⟨hbefore, hvalue⟩
    obtain ⟨next, hunify, hnext⟩ := exists_unify_iff.2 ⟨hbefore.owners, hvalue⟩
    refine ⟨{ before with owners := next }, ?_, hbefore.slots, hbefore.labels, hnext⟩
    rw [Bindings.unifyOwner, hunify]

/-- A key that meets a label has one from then on, and no other key gets one. -/
theorem Bindings.Labelled.unifyLabel {label : Label} {keys : List Key}
    (hbefore : before.Labelled keys) (h : before.unifyLabel key label = (true, after)) :
    after.Labelled (keys ++ [key]) := by
  intro k
  rw [List.mem_append, List.mem_singleton, ← hbefore k]
  rcases labels_of_unifyLabel h with ⟨hkey, rfl⟩ | ⟨-, hlabels⟩
  · refine ⟨.inl, ?_⟩
    rintro (hk | rfl)
    · exact hk
    · rw [hkey]
      rfl
  · rw [hlabels]
    by_cases heq : k = key <;> simp [heq]

end Unification

/-! ### What relations between bindings ask of valuations -/

/-- Where exactly the keys in `earlier` have labels, the relation holds up to some bindings that the
valuation agrees with if the valuation agrees with the bindings before and meets the condition.
Afterwards exactly the keys in `later` have labels. -/
structure AmountsTo {α : Type} (earlier later : List Key) (relation : Bindings → α → Bindings → Prop)
    (condition : Valuation → α → Prop) : Prop where
  labelled : ∀ {before a after}, before.Labelled earlier → relation before a after →
    after.Labelled later
  exists_iff : ∀ {values before a}, before.Labelled earlier →
    ((∃ after, relation before a after ∧ values.Extends after) ↔
      values.Extends before ∧ condition values a)

namespace AmountsTo

variable {earlier between later : List Key}

/-- A condition may be put in other words. -/
theorem congr {α : Type} {relation : Bindings → α → Bindings → Prop}
    {condition other : Valuation → α → Prop} (h : AmountsTo earlier later relation condition)
    (hcondition : ∀ values a, condition values a ↔ other values a) :
    AmountsTo earlier later relation other where
  labelled := h.labelled
  exists_iff hbefore := (h.exists_iff hbefore).trans (and_congr_right fun _ => hcondition _ _)

/-- From the start, the relation holds if some valuation meets the condition. -/
theorem exists_empty_iff {α : Type} {relation : Bindings → α → Bindings → Prop}
    {condition : Valuation → α → Prop} (h : AmountsTo [] later relation condition) {a : α} :
    (∃ after, relation .empty a after) ↔ ∃ values, condition values a := by
  constructor
  · rintro ⟨after, ha⟩
    have hextends := (h.exists_iff Bindings.labelled_empty).1 ⟨after, ha, after.extends_valuation⟩
    exact ⟨after.valuation, hextends.2⟩
  · rintro ⟨values, ha⟩
    obtain ⟨after, hafter, -⟩ :=
      (h.exists_iff Bindings.labelled_empty).2 ⟨values.extends_empty, ha⟩
    exact ⟨after, hafter⟩

/-- A test binds nothing. -/
theorem of_test {α : Type} (earlier : List Key) (accepted : α → Prop) :
    AmountsTo earlier earlier (fun before a after => accepted a ∧ after = before)
      (fun _ => accepted) where
  labelled := by
    rintro before a _ hbefore ⟨-, rfl⟩
    exact hbefore
  exists_iff := by
    intro values before a _
    constructor
    · rintro ⟨_, ⟨ha, rfl⟩, hextends⟩
      exact ⟨hextends, ha⟩
    · rintro ⟨hextends, ha⟩
      exact ⟨before, ⟨ha, rfl⟩, hextends⟩

/-- One relation and then another one, possibly of something else. -/
theorem exists_then_iff {α β : Type} {first : Bindings → α → Bindings → Prop}
    {second : Bindings → β → Bindings → Prop} {condition : Valuation → α → Prop}
    {other : Valuation → β → Prop} (hfirst : AmountsTo earlier between first condition)
    (hsecond : AmountsTo between later second other) {values : Valuation} {before : Bindings}
    (hbefore : before.Labelled earlier) {a : α} {b : β} :
    (∃ after, (∃ middle, first before a middle ∧ second middle b after) ∧ values.Extends after) ↔
      values.Extends before ∧ condition values a ∧ other values b := by
  constructor
  · rintro ⟨after, ⟨middle, ha, hb⟩, hextends⟩
    -- Backwards, from what the second one leaves.
    obtain ⟨hmiddle, hother⟩ :=
      (hsecond.exists_iff (hfirst.labelled hbefore ha)).1 ⟨after, hb, hextends⟩
    obtain ⟨hextends', hcondition⟩ := (hfirst.exists_iff hbefore).1 ⟨middle, ha, hmiddle⟩
    exact ⟨hextends', hcondition, hother⟩
  · rintro ⟨hextends, hcondition, hother⟩
    -- Forwards, from what the first one finds.
    obtain ⟨middle, ha, hmiddle⟩ := (hfirst.exists_iff hbefore).2 ⟨hextends, hcondition⟩
    obtain ⟨after, hb, hafter⟩ :=
      (hsecond.exists_iff (hfirst.labelled hbefore ha)).2 ⟨hmiddle, hother⟩
    exact ⟨after, ⟨middle, ha, hb⟩, hafter⟩

/-- Two looks at a node amount to both conditions. -/
theorem andThen {first second : Inspection} {condition other : Valuation → Node Label → Prop}
    (hfirst : AmountsTo earlier between first condition)
    (hsecond : AmountsTo between later second other) :
    AmountsTo earlier later (first.andThen second)
      (fun values node => condition values node ∧ other values node) where
  labelled := by
    rintro before node after hbefore ⟨middle, h, h'⟩
    exact hsecond.labelled (hfirst.labelled hbefore h) h'
  exists_iff hbefore := exists_then_iff hfirst hsecond hbefore

/-- An instruction amounts to a template with the condition of its node. -/
theorem instruction {inspection : Inspection} {condition : Valuation → Node Label → Prop}
    (h : AmountsTo earlier later inspection condition) :
    AmountsTo earlier later (Language.instruction inspection)
      (fun values => Template.sequence [.instruction (condition values)]) where
  labelled := by
    rintro before nodes after hbefore ⟨skipped, node, -, -, -, hnode⟩
    exact h.labelled hbefore hnode
  exists_iff := by
    intro values before nodes hbefore
    rw [Template.sequence_singleton]
    constructor
    · rintro ⟨after, ⟨skipped, node, hnodes, hskipped, hreal, hnode⟩, hextends⟩
      obtain ⟨hextends', hcondition⟩ := (h.exists_iff hbefore).1 ⟨after, hnode, hextends⟩
      exact ⟨hextends', skipped, node, hnodes, hskipped, hreal, hcondition⟩
    · rintro ⟨hextends, skipped, node, hnodes, hskipped, hreal, hcondition⟩
      obtain ⟨after, hnode, hafter⟩ := (h.exists_iff hbefore).2 ⟨hextends, hcondition⟩
      exact ⟨after, ⟨skipped, node, hnodes, hskipped, hreal, hnode⟩, hafter⟩

/-- Languages one after the other amount to templates one after the other. -/
theorem seq {first second : Language} {templates others : Valuation → List Template}
    (hfirst : AmountsTo earlier between first fun values => Template.sequence (templates values))
    (hsecond : AmountsTo between later second fun values => Template.sequence (others values)) :
    AmountsTo earlier later (first.seq second)
      (fun values => Template.sequence (templates values ++ others values)) where
  labelled := by
    rintro before nodes after hbefore ⟨front, back, middle, -, h, h'⟩
    exact hsecond.labelled (hfirst.labelled hbefore h) h'
  exists_iff := by
    intro values before nodes hbefore
    rw [Template.sequence_append]
    constructor
    · rintro ⟨after, ⟨front, back, middle, hnodes, h, h'⟩, hextends⟩
      obtain ⟨hextends', hfront, hback⟩ :=
        (exists_then_iff hfirst hsecond hbefore).1 ⟨after, ⟨middle, h, h'⟩, hextends⟩
      exact ⟨hextends', front, back, hnodes, hfront, hback⟩
    · rintro ⟨hextends, front, back, hnodes, hfront, hback⟩
      obtain ⟨after, ⟨middle, h, h'⟩, hafter⟩ :=
        (exists_then_iff hfirst hsecond hbefore).2 ⟨hextends, hfront, hback⟩
      exact ⟨after, ⟨front, back, middle, hnodes, h, h'⟩, hafter⟩

end AmountsTo

/-! ### Inspections of a node -/

namespace Inspection

variable {earlier later : List Key}

/-- Looking at the opcode amounts to comparing it. -/
theorem amountsTo_opcode (earlier : List Key) (opcode : Opcode) :
    AmountsTo earlier earlier (Inspection.opcode (· = opcode))
      (fun _ node => node.opcode? = some opcode) :=
  (AmountsTo.of_test earlier _).congr fun _ _ => exists_eq_right

/-- An operand that is unified is the one of the valuation. -/
theorem amountsTo_operand {β : Type} {operand? : Node Label → Option β}
    {unify : Bindings → β → Bool × Bindings} {value : Valuation → β}
    (hlabelled : ∀ {before b after}, before.Labelled earlier → unify before b = (true, after) →
      after.Labelled later)
    (hunify : ∀ {values before b},
      (∃ after, unify before b = (true, after) ∧ Valuation.Extends values after) ↔
        values.Extends before ∧ value values = b) :
    AmountsTo earlier later (operand operand? unify)
      (fun values node => operand? node = some (value values)) where
  labelled := by
    rintro before node after hbefore ⟨b, -, h⟩
    exact hlabelled hbefore h
  exists_iff := by
    intro values before node _
    constructor
    · rintro ⟨after, ⟨b, hb, h⟩, hextends⟩
      obtain ⟨hbefore, rfl⟩ := hunify.1 ⟨after, h, hextends⟩
      exact ⟨hbefore, hb⟩
    · rintro ⟨hbefore, hb⟩
      obtain ⟨after, h, hextends⟩ := hunify.2 ⟨hbefore, rfl⟩
      exact ⟨after, ⟨_, hb, h⟩, hextends⟩

/-- Binding a slot amounts to comparing it with that of the valuation. -/
theorem amountsTo_slot (earlier : List Key) (key : Key) :
    AmountsTo earlier earlier (operand Node.slot? (·.unifySlot key))
      (fun values node => node.slot? = some (values.slots key)) := by
  refine amountsTo_operand (fun {before slot after} hbefore h => ?_) exists_unifySlot_iff
  obtain ⟨-, rfl⟩ := Prod.mk.inj h
  exact hbefore

theorem amountsTo_owner (earlier : List Key) (key : Key) :
    AmountsTo earlier earlier (operand Cursor.closedOwner? (·.unifyOwner key))
      (fun values node => Cursor.closedOwner? node = some (values.owners key)) := by
  refine amountsTo_operand (fun {before owner after} hbefore h => ?_) exists_unifyOwner_iff
  obtain ⟨-, rfl⟩ := Prod.mk.inj h
  exact hbefore

/-- Binding a target amounts to comparing it with that of the valuation, and gives the key a label.
-/
theorem amountsTo_target (earlier : List Key) (key : Key) :
    AmountsTo earlier (earlier ++ [key]) (operand Node.target? (·.unifyLabel key))
      (fun values node => node.target? = some (values.labels key)) :=
  amountsTo_operand (fun hbefore h => hbefore.unifyLabel h) exists_unifyLabel_iff

end Inspection

/-! ### Steps -/

/-- A resource is closed by a call of `close` without arguments and result. -/
theorem closedOwner?_eq_some_iff {node : Node Label} {owner : String} :
    Cursor.closedOwner? node = some owner ↔ ∃ opcode interface,
      (opcode = .invokeInterface ∨ opcode = .invokeVirtual) ∧
        node = .method opcode ⟨owner, "close", "()V"⟩ interface := by
  constructor
  · intro h
    cases node with
    -- Only a call closes anything.
    | method opcode callee interface =>
      obtain ⟨found, name, desc⟩ := callee
      simp only [Cursor.closedOwner?, Option.ite_none_right_eq_some, Option.some.injEq] at h
      obtain ⟨⟨hopcode, rfl, rfl⟩, rfl⟩ := h
      exact ⟨opcode, interface, hopcode, rfl⟩
    | _ => simp [Cursor.closedOwner?] at h
  · rintro ⟨opcode, interface, hopcode, rfl⟩
    simp [Cursor.closedOwner?, hopcode]

namespace Language

variable {earlier : List Key} {scope : Scope}

theorem amountsTo_nothing (earlier : List Key) :
    AmountsTo earlier earlier nothing (fun _ => Template.sequence []) :=
  .of_test earlier _

/-- A label amounts to the placement of that of the valuation. -/
theorem amountsTo_placement (earlier : List Key) (key : Key) :
    AmountsTo earlier (earlier ++ [key]) (placement key)
      (fun values => Template.sequence [.placement (values.labels key)]) where
  labelled := by
    rintro before nodes after hbefore ⟨label, -, h⟩
    exact hbefore.unifyLabel h
  exists_iff := by
    intro values before nodes _
    rw [Template.sequence_singleton]
    constructor
    · rintro ⟨after, ⟨label, hnodes, h⟩, hextends⟩
      obtain ⟨hbefore, rfl⟩ := exists_unifyLabel_iff.1 ⟨after, h, hextends⟩
      exact ⟨hbefore, hnodes⟩
    · rintro ⟨hbefore, hnodes⟩
      obtain ⟨after, h, hextends⟩ := exists_unifyLabel_iff.2 ⟨hbefore, rfl⟩
      exact ⟨after, ⟨_, hnodes, h⟩, hextends⟩

theorem amountsTo_var (earlier : List Key) (opcode : Opcode) (key : Key) :
    AmountsTo earlier earlier (var opcode key)
      (fun values => Template.sequence [.var opcode (values.slots key)]) :=
  ((Inspection.amountsTo_opcode earlier opcode).andThen
    (Inspection.amountsTo_slot earlier key)).instruction

theorem amountsTo_jump (earlier : List Key) (opcode : Opcode) (key : Key) :
    AmountsTo earlier (earlier ++ [key]) (jump opcode key)
      (fun values => Template.sequence [.jump opcode (values.labels key)]) :=
  ((Inspection.amountsTo_opcode earlier opcode).andThen
    (Inspection.amountsTo_target earlier key)).instruction

theorem amountsTo_call (earlier : List Key) (opcode : Opcode) (accepted : Member → Bool) :
    AmountsTo earlier earlier (call opcode accepted)
      (fun _ => Template.sequence [.call opcode accepted]) :=
  ((Inspection.amountsTo_opcode earlier opcode).andThen (.of_test earlier _)).instruction

theorem amountsTo_load (earlier : List Key) :
    AmountsTo earlier earlier (instruction (.opcode (·.isVarLoad = true)))
      (fun _ => Template.sequence [.load]) :=
  (AmountsTo.of_test earlier _).instruction

theorem amountsTo_valueReturn (earlier : List Key) :
    AmountsTo earlier earlier valueReturn (fun _ => Template.sequence [.valueReturn]) :=
  (AmountsTo.of_test earlier _).instruction

/-- A close amounts to a load of the resource and a call of `close`. -/
theorem amountsTo_close (earlier : List Key) (key : Key) :
    AmountsTo earlier earlier (close key) (fun values => Template.sequence
      [.var .aload (values.slots key), .callClose (values.owners key)]) :=
  (amountsTo_var earlier .aload key).seq
    ((Inspection.amountsTo_owner earlier key).congr fun _ _ => closedOwner?_eq_some_iff).instruction

/-- To suppress an exception amounts to two loads and a call. -/
theorem amountsTo_addSuppressed (earlier : List Key) (key : Key) :
    AmountsTo earlier earlier (addSuppressed key) (fun values => Template.sequence
      [.var .aload (values.slots (Symbol.primaryException.resolve .method)),
        .var .aload (values.slots key), .callAddSuppressed]) :=
  (amountsTo_var earlier .aload _).seq <|
    (amountsTo_var earlier .aload key).seq (amountsTo_call earlier .invokeVirtual _)

/-- A label is read where its key has one, and then the key is among those that have. -/
theorem amountsTo_joinLabel (earlier : List Key) (key : Key) :
    AmountsTo earlier earlier (joinLabel key) (fun values => Template.sequence
      (if key ∈ earlier then [.placement (values.labels key)] else [])) := by
  by_cases hkey : key ∈ earlier
  -- A key that was named has a label, which is looked for.
  · have hbound : ∀ {before : Bindings}, before.Labelled earlier →
        joinLabel key before = placement key before := by
      intro before hbefore
      funext nodes after
      rw [joinLabel, if_pos ((hbefore key).2 hkey)]
    refine ⟨fun {before nodes after} hbefore h => ?_, fun {values before nodes} hbefore => ?_⟩
    · -- The key is not a new one.
      rw [hbound hbefore] at h
      intro k
      rw [(amountsTo_placement earlier key).labelled hbefore h k, List.mem_append,
        List.mem_singleton]
      exact or_iff_left_of_imp fun hk => hk ▸ hkey
    · rw [hbound hbefore, if_pos hkey]
      exact (amountsTo_placement earlier key).exists_iff hbefore
  -- A key that was not named has none, and nothing is read.
  · have hfree : ∀ {before : Bindings}, before.Labelled earlier →
        joinLabel key before = nothing before := by
      intro before hbefore
      funext nodes after
      rw [joinLabel, if_neg (mt (hbefore key).1 hkey)]
    refine ⟨fun {before nodes after} hbefore h => ?_, fun {values before nodes} hbefore => ?_⟩
    · rw [hfree hbefore] at h
      exact (amountsTo_nothing earlier).labelled hbefore h
    · rw [hfree hbefore, if_neg hkey]
      exact (amountsTo_nothing earlier).exists_iff hbefore

/-- A step amounts to its templates, unless it leaves a block. -/
theorem amountsTo_step {s : Step} (hexit : ∀ target, s ≠ .exit target) :
    AmountsTo earlier (earlier ++ s.labelKeys scope) (s.language scope)
      (fun values => Template.sequence (s.templates values scope earlier)) := by
  cases s with
  | jump opcode target => exact amountsTo_jump earlier opcode _
  | label name => exact amountsTo_placement earlier _
  | exit target => exact absurd rfl (hexit target)
  -- The other steps name no label.
  | op opcode =>
    rw [Step.labelKeys, List.append_nil]
    exact (Inspection.amountsTo_opcode earlier opcode).instruction
  | var opcode slot =>
    rw [Step.labelKeys, List.append_nil]
    exact amountsTo_var earlier opcode _
  | close resource =>
    rw [Step.labelKeys, List.append_nil]
    exact amountsTo_close earlier _
  | addSuppressed exception =>
    rw [Step.labelKeys, List.append_nil]
    exact amountsTo_addSuppressed earlier _
  | invoke opcode name desc =>
    rw [Step.labelKeys, List.append_nil]
    exact amountsTo_call earlier opcode _
  | joinLabel name =>
    rw [Step.labelKeys, List.append_nil]
    exact amountsTo_joinLabel earlier _

/-- Steps amount to their templates, unless one of them leaves a block. -/
theorem amountsTo_ofSteps {steps : List Step} (hexit : ∀ target, .exit target ∉ steps) :
    AmountsTo earlier (earlier ++ steps.flatMap (Step.labelKeys scope)) (ofSteps scope steps)
      (fun values => Template.sequence (Step.templatesOf values scope earlier steps)) := by
  induction steps generalizing earlier with
  | nil =>
    rw [List.flatMap_nil, List.append_nil]
    exact amountsTo_nothing earlier
  | cons first rest ih =>
    -- None of the steps leaves a block.
    have hfirst : ∀ target, first ≠ .exit target := fun target h =>
      hexit target (h ▸ List.mem_cons_self)
    have hrest : ∀ target, .exit target ∉ rest := fun target h =>
      hexit target (List.mem_cons_of_mem first h)
    rw [List.flatMap_cons, ← List.append_assoc]
    exact (amountsTo_step hfirst).seq (ih hrest)

/-- Segments ask for their templates, step by step. -/
theorem amountsTo_ofSegments (earlier : List Key) {segments : List Segment}
    (hexit : ∀ segment ∈ segments, ∀ target, .exit target ∉ segment.steps) :
    AmountsTo earlier (earlier ++ segments.flatMap Segment.labelKeys) (ofSegments segments)
      (fun values => Template.sequence (Segment.templates values earlier segments)) := by
  induction segments generalizing earlier with
  | nil =>
    rw [List.flatMap_nil, List.append_nil]
    exact amountsTo_nothing earlier
  | cons first rest ih =>
    obtain ⟨hfirst, hrest⟩ := List.forall_mem_cons.1 hexit
    rw [List.flatMap_cons, ← List.append_assoc]
    exact (amountsTo_ofSteps hfirst).seq (ih _ hrest)

end Language

/-! ### Running segments -/

/-- A run from the start succeeds if operands for all keys can be chosen such that the nodes read as
the steps ask for, one after the other. It then stands on the last node that was read, for whichever
choice. -/
theorem Cursor.runSegments_after_iff (code : Code) (position : Nat) {segments : List Segment}
    (hexit : ∀ segment ∈ segments, ∀ target, .exit target ∉ segment.steps) :
    ((runSegments code segments (after position)).1 = true ↔ ∃ values last,
        (Template.sequence (Segment.templates values [] segments)).Spans code (position + 1) last) ∧
      ∀ values last,
        (Template.sequence (Segment.templates values [] segments)).Spans code (position + 1) last →
          (runSegments code segments (after position)).2.position = some last := by
  have hrun : ∀ final, runSegments code segments (after position) = (true, final) ↔
      ∃ nodes after, Language.ofSegments segments .empty nodes after ∧
        code.Holds (position + 1) nodes ∧ final = ⟨some (position + nodes.length), after⟩ := by
    intro final
    rw [← Primitive.follow?_eq_some_iff]
    exact recognises_runSegments segments position .empty final
  have htemplates := Language.amountsTo_ofSegments [] hexit
  -- Nodes that fit some valuation are read, by a run that stands on the last of them.
  have hspans : ∀ values last,
      (Template.sequence (Segment.templates values [] segments)).Spans code (position + 1) last →
        ∃ bindings, runSegments code segments (after position) = (true, ⟨some last, bindings⟩) := by
    rintro values last ⟨nodes, hnodes, hholds, hlast⟩
    obtain ⟨bindings, hread⟩ := htemplates.exists_empty_iff.2 ⟨values, hnodes⟩
    refine ⟨bindings, (hrun _).2 ⟨nodes, bindings, hread, hholds, ?_⟩⟩
    rw [show last = position + nodes.length by omega]
  refine ⟨⟨fun h => ?_, ?_⟩, fun values last h => ?_⟩
  · obtain ⟨nodes, bindings, hread, hholds, -⟩ := (hrun _).1 (Prod.ext h rfl)
    obtain ⟨values, hnodes⟩ := htemplates.exists_empty_iff.1 ⟨bindings, hread⟩
    exact ⟨values, position + nodes.length, nodes, hnodes, hholds, Nat.add_right_comm _ _ _⟩
  · rintro ⟨values, last, h⟩
    obtain ⟨bindings, hfinal⟩ := hspans values last h
    rw [hfinal]
  · obtain ⟨bindings, hfinal⟩ := hspans values last h
    rw [hfinal]

/-- A close unless the resource is null, and the label where a null resource leads to. -/
def checkedClose : List Segment :=
  [⟨.resource 0,
      [.var .aload (.relative "r"), .jump .ifNull (.relative "end"), .close (.relative "r")]⟩,
    ⟨.resource 0, [.joinLabel (.relative "end")]⟩]

/-- The code of a close, with a frame in front of it. -/
def closedUnlessNull : Code :=
  #[.label ⟨1⟩, .frame, .var .aload 3, .jump .ifNull ⟨0⟩, .var .aload 3,
    .call .invokeVirtual ⟨"Reader", "close", "()V"⟩, .label ⟨0⟩, .plain .voidReturn]

/-- A close behind a null check is recognised, with the operands that it has. -/
theorem Cursor.runSegments_after_checkedClose :
    (∀ segment ∈ checkedClose, ∀ target, .exit target ∉ segment.steps) ∧
      (runSegments closedUnlessNull checkedClose (after 0)).1 = true ∧
      ∃ values, (Template.sequence (Segment.templates values [] checkedClose)).Spans
        closedUnlessNull 1 6 := by
  have hexit : ∀ segment ∈ checkedClose, ∀ target, .exit target ∉ segment.steps := by
    simp [checkedClose]
  have hrun : (runSegments closedUnlessNull checkedClose (after 0)).1 = true := by
    decide +kernel
  obtain ⟨hiff, hposition⟩ := runSegments_after_iff closedUnlessNull 0 hexit
  obtain ⟨values, last, hspans⟩ := hiff.1 hrun
  have hlast : (runSegments closedUnlessNull checkedClose (after 0)).2.position = some 6 := by
    decide +kernel
  obtain rfl := Option.some.inj ((hposition values last hspans).symm.trans hlast)
  exact ⟨hexit, hrun, values, hspans⟩

end CleanupFilter
