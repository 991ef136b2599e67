import Mathlib.Data.List.Forall2
import CleanupFilter.Proofs.Pattern.Word

/-!
# Slots that patterns compare

A pattern says of the slots in code which of them are equal, and nothing else. Loads and stores are
compared with keys one by one, and those whose slot does not count with none.

- `Node.eraseSlot`: the node, whatever its slot is.
- `accesses`: the slots of the loads and stores among nodes, in order.
- `Agrees`: slots stand where their keys do.
- `Unifies`, `exists_unifies_iff`: slots agree with a pattern if they can be unified with its keys.
- `Language.Compares`: what is read has slots as a pattern says, and could have any such slots.
- `Step.keys`, `Segment.keys`: the patterns of what may be read.
- `Language.exists_compares_ofSegments`: segments compare slots by their patterns.
-/

namespace CleanupFilter

/-! ### Loads and stores -/

/-- The instruction is a load, or the store of a reference. -/
def Letter.isAccess : Letter → Bool
  | aload | load | astore => true
  | _ => false

namespace Node

/-- The node with its slot forgotten. -/
def eraseSlot : Node Label → Node Label
  | var opcode _ => var opcode 0
  | node => node

/-- Whether the node is a load, or the store of a reference. -/
def isAccess (node : Node Label) : Bool :=
  node.opcode?.any fun opcode => opcode.letter.isAccess

variable {node other : Node Label}

/-- A node keeps its opcode without its slot. -/
theorem opcode?_eraseSlot (node : Node Label) : node.eraseSlot.opcode? = node.opcode? := by
  cases node <;> rfl

theorem isPseudo_eraseSlot (node : Node Label) : node.eraseSlot.isPseudo = node.isPseudo := by
  cases node <;> rfl

theorem target?_eraseSlot (node : Node Label) : node.eraseSlot.target? = node.target? := by
  cases node <;> rfl

theorem callee?_eraseSlot (node : Node Label) : node.eraseSlot.callee? = node.callee? := by
  cases node <;> rfl

theorem closedOwner?_eraseSlot (node : Node Label) :
    Cursor.closedOwner? node.eraseSlot = Cursor.closedOwner? node := by
  cases node <;> rfl

theorem isAccess_eraseSlot (node : Node Label) : node.eraseSlot.isAccess = node.isAccess := by
  rw [isAccess, isAccess, opcode?_eraseSlot]

theorem eraseSlot_eq_label_iff {label : Label} :
    node.eraseSlot = .label label ↔ node = .label label := by
  cases node <;> simp [eraseSlot]

/-- What does not look at slots is the same of nodes that differ in their slots only. -/
theorem eq_of_eraseSlot_eq {β : Type} {f : Node Label → β} (hf : ∀ node, f node.eraseSlot = f node)
    (h : other.eraseSlot = node.eraseSlot) : f other = f node := by
  rw [← hf, h, hf]

end Node

/-- The slots of the loads and stores among the nodes, in order. -/
def accesses (nodes : List (Node Label)) : List (Option UInt16) :=
  (nodes.filter Node.isAccess).map Node.slot?

/-- The accesses of code are those of its parts. -/
theorem accesses_append (front back : List (Node Label)) :
    accesses (front ++ back) = accesses front ++ accesses back := by
  rw [accesses, List.filter_append, List.map_append]
  rfl

/-- Pseudo-nodes access no slots. -/
theorem accesses_of_isPseudo {nodes : List (Node Label)}
    (h : ∀ node ∈ nodes, node.isPseudo = true) : accesses nodes = [] := by
  rw [accesses, List.map_eq_nil_iff, List.filter_eq_nil_iff]
  intro node hnode
  rw [Node.isAccess, Node.opcode?_eq_none_iff.2 (h node hnode)]
  exact Bool.false_ne_true

theorem accesses_singleton (node : Node Label) :
    accesses [node] = if node.isAccess then [node.slot?] else [] := by
  rw [accesses, List.filter_cons, List.filter_nil]
  cases node.isAccess <;> rfl

/-- Nodes that differ in their slots only have as many loads and stores. -/
theorem length_accesses_eq {nodes others : List (Node Label)}
    (h : others.map Node.eraseSlot = nodes.map Node.eraseSlot) :
    (accesses others).length = (accesses nodes).length := by
  have hlength : ∀ nodes : List (Node Label),
      (accesses nodes).length = (nodes.map Node.eraseSlot).countP Node.isAccess := by
    intro nodes
    rw [accesses, List.length_map, ← List.countP_eq_length_filter, List.countP_map]
    exact List.countP_congr fun node _ => by rw [Function.comp_apply, Node.isAccess_eraseSlot]
  rw [hlength, hlength, h]

/-! ### Keys of loads and stores -/

/-- The keys that loads and stores are compared with, in order; none if the slot does not count. -/
abbrev AccessPattern := List (Option Key)

/-- Some slots of the keys stand where the pattern has these keys. -/
def Agrees (pattern : AccessPattern) (slots : List (Option UInt16)) : Prop :=
  ∃ slotOf : Key → UInt16,
    List.Forall₂ (fun key? slot => ∀ key ∈ key?, slot = some (slotOf key)) pattern slots

/-- Unifying slots with the keys of a pattern, one by one, succeeds. -/
inductive Unifies :
    (Key → Option UInt16) → AccessPattern → List (Option UInt16) → (Key → Option UInt16) → Prop
  | nil (bound : Key → Option UInt16) : Unifies bound [] [] bound
  | free {bound final : Key → Option UInt16} {pattern : AccessPattern} {slot : Option UInt16}
      {slots : List (Option UInt16)} :
      Unifies bound pattern slots final → Unifies bound (none :: pattern) (slot :: slots) final
  | key {bound next final : Key → Option UInt16} {pattern : AccessPattern} {key : Key}
      {slot : UInt16} {slots : List (Option UInt16)} :
      unify bound key slot = (true, next) → Unifies next pattern slots final →
      Unifies bound (some key :: pattern) (some slot :: slots) final

section Unification

variable {bound next final : Key → Option UInt16} {pattern back : AccessPattern}
  {slots others : List (Option UInt16)}

/-- Slots are unified one by one. -/
theorem Unifies.length_eq (h : Unifies bound pattern slots final) :
    slots.length = pattern.length := by
  induction h with
  | nil => rfl
  | free _ ih | key _ _ ih => rw [List.length_cons, List.length_cons, ih]

/-- Slots unify with a pattern if their parts do. -/
theorem Unifies.append (h : Unifies bound pattern slots next)
    (hback : Unifies next back others final) :
    Unifies bound (pattern ++ back) (slots ++ others) final := by
  induction h with
  | nil => exact hback
  | free _ ih => exact .free (ih hback)
  | key hunify _ ih => exact .key hunify (ih hback)

/-- The parts of slots unify with those of a pattern, one after the other. -/
theorem Unifies.exists_of_append (hlength : slots.length = pattern.length)
    (h : Unifies bound (pattern ++ back) (slots ++ others) final) :
    ∃ next, Unifies bound pattern slots next ∧ Unifies next back others final := by
  induction pattern generalizing bound slots with
  | nil =>
    obtain rfl := List.length_eq_zero_iff.1 hlength
    exact ⟨bound, .nil bound, h⟩
  | cons key? pattern ih =>
    cases slots with
    | nil => cases hlength
    | cons slot slots =>
      cases h with
      | free h =>
        obtain ⟨next, hpattern, hback⟩ := ih (Nat.succ.inj hlength) h
        exact ⟨next, .free hpattern, hback⟩
      | key hunify h =>
        obtain ⟨next, hpattern, hback⟩ := ih (Nat.succ.inj hlength) h
        exact ⟨next, .key hunify hpattern, hback⟩

/-- The slots that are bound in the end stand where their keys do. -/
theorem Unifies.forall₂ (h : Unifies bound pattern slots final) {slotOf : Key → UInt16}
    (hfinal : ∀ key slot, final key = some slot → slotOf key = slot) :
    (∀ key slot, bound key = some slot → slotOf key = slot) ∧
      List.Forall₂ (fun key? slot => ∀ key ∈ key?, slot = some (slotOf key)) pattern slots := by
  induction h with
  | nil => exact ⟨hfinal, .nil⟩
  | free _ ih =>
    obtain ⟨hbound, hpattern⟩ := ih hfinal
    exact ⟨hbound, .cons (by simp) hpattern⟩
  | @key bound next _ _ key slot _ hunify _ ih =>
    obtain ⟨hnext, hpattern⟩ := ih hfinal
    -- Once unified, the key is bound to the slot, and other keys are bound as before.
    obtain ⟨hslot, hkeep⟩ : next key = some slot ∧ ∀ k s, bound k = some s → next k = some s := by
      rcases unify_eq_true_iff.1 hunify with ⟨hslot, rfl⟩ | ⟨hslot, rfl⟩
      · exact ⟨hslot, fun _ _ h => h⟩
      · refine ⟨if_pos rfl, fun k s hk => (if_neg ?_).trans hk⟩
        rintro rfl
        rw [hslot] at hk
        cases hk
    refine ⟨fun k s hk => hnext k s (hkeep k s hk), .cons ?_ hpattern⟩
    rintro _ ⟨⟩
    rw [hnext key slot hslot]

/-- Slots that stand where their keys do can be unified. -/
theorem exists_unifies {slotOf : Key → UInt16}
    (h : List.Forall₂ (fun key? slot => ∀ key ∈ key?, slot = some (slotOf key)) pattern slots)
    (hbound : ∀ key slot, bound key = some slot → slotOf key = slot) :
    ∃ final, Unifies bound pattern slots final := by
  induction h generalizing bound with
  | nil => exact ⟨bound, .nil bound⟩
  | @cons key? slot _ _ hslot _ ih =>
    cases key? with
    | none =>
      obtain ⟨final, hfinal⟩ := ih hbound
      exact ⟨final, .free hfinal⟩
    | some key =>
      rw [hslot key rfl]
      -- The key is bound to this slot, now if not before.
      cases hkey : bound key with
      | some known =>
        obtain ⟨final, hfinal⟩ := ih hbound
        rw [hbound key known hkey]
        exact ⟨final, .key (unify_eq_true_iff.2 (.inl ⟨hkey, rfl⟩)) hfinal⟩
      | none =>
        have hnext : ∀ k s, (if k = key then some (slotOf key) else bound k) = some s →
            slotOf k = s := by
          intro k s hk
          by_cases heq : k = key
          · rw [if_pos heq, Option.some.injEq] at hk
            rw [heq, hk]
          · rw [if_neg heq] at hk
            exact hbound k s hk
        obtain ⟨final, hfinal⟩ := ih hnext
        exact ⟨final, .key (unify_eq_true_iff.2 (.inr ⟨hkey, rfl⟩)) hfinal⟩

/-- Slots can be unified from the start if they stand where their keys do. -/
theorem exists_unifies_iff :
    (∃ final, Unifies (fun _ => none) pattern slots final) ↔ Agrees pattern slots := by
  constructor
  · rintro ⟨final, h⟩
    refine ⟨fun key => (final key).getD 0, (h.forall₂ fun key slot hslot => ?_).2⟩
    rw [hslot, Option.getD_some]
  · rintro ⟨slotOf, h⟩
    exact exists_unifies h (by simp)

end Unification

/-! ### Languages that compare slots -/

/-- The language reads the nodes, whose slots unify with the pattern, and it reads them under any
other slots that do. -/
def Language.Compares (language : Language) (pattern : AccessPattern) : Language :=
  fun before nodes after =>
    Unifies before.slots pattern (accesses nodes) after.slots ∧
      ∀ bound others final, others.map Node.eraseSlot = nodes.map Node.eraseSlot →
        Unifies bound pattern (accesses others) final →
        language { before with slots := bound } others { after with slots := final }

/-- The inspection does not look at slots. -/
def Inspection.IgnoresSlots (inspection : Inspection) : Prop :=
  ∀ before node after, inspection before node after → after.slots = before.slots ∧
    ∀ bound other, Node.eraseSlot other = node.eraseSlot →
      inspection { before with slots := bound } other { after with slots := bound }

namespace Inspection

/-- Opcodes do not depend on slots. -/
theorem ignoresSlots_opcode (accepted : Opcode → Prop) : (opcode accepted).IgnoresSlots := by
  rintro before node _ ⟨hopcode, rfl⟩
  refine ⟨rfl, fun bound other hother => ⟨?_, rfl⟩⟩
  rwa [Node.eq_of_eraseSlot_eq Node.opcode?_eraseSlot hother]

theorem ignoresSlots_callee (accepted : Member → Bool) : (callee accepted).IgnoresSlots := by
  rintro before node _ ⟨hcallee, rfl⟩
  refine ⟨rfl, fun bound other hother => ⟨?_, rfl⟩⟩
  rwa [Node.eq_of_eraseSlot_eq Node.callee?_eraseSlot hother]

theorem ignoresSlots_target (key : Key) :
    (operand Node.target? (·.unifyLabel key)).IgnoresSlots := by
  rintro before node after ⟨label, hlabel, hunify⟩
  obtain ⟨hsame, rfl⟩ := Prod.mk.inj hunify
  refine ⟨rfl, fun bound other hother => ⟨label, ?_, Prod.ext hsame rfl⟩⟩
  rw [Node.eq_of_eraseSlot_eq Node.target?_eraseSlot hother, hlabel]

theorem ignoresSlots_owner (key : Key) :
    (operand Cursor.closedOwner? (·.unifyOwner key)).IgnoresSlots := by
  rintro before node after ⟨owner, howner, hunify⟩
  obtain ⟨hsame, rfl⟩ := Prod.mk.inj hunify
  refine ⟨rfl, fun bound other hother => ⟨owner, ?_, Prod.ext hsame rfl⟩⟩
  rw [Node.eq_of_eraseSlot_eq Node.closedOwner?_eraseSlot hother, howner]

/-- Two looks at a node do not depend on its slot if neither of them does. -/
theorem IgnoresSlots.andThen {first second : Inspection} (hfirst : first.IgnoresSlots)
    (hsecond : second.IgnoresSlots) : (first.andThen second).IgnoresSlots := by
  rintro before node after ⟨between, h, h'⟩
  obtain ⟨hslots, hothers⟩ := hfirst _ _ _ h
  obtain ⟨hslots', hothers'⟩ := hsecond _ _ _ h'
  exact ⟨hslots'.trans hslots, fun bound other hother =>
    ⟨_, hothers bound other hother, hothers' bound other hother⟩⟩

end Inspection

namespace Language

variable {first second language : Language} {before between after : Bindings}
  {nodes front back : List (Node Label)} {pattern : AccessPattern}

theorem Compares.mono {larger : Language} (h : language.Compares pattern before nodes after)
    (hle : ∀ before nodes after, language before nodes after → larger before nodes after) :
    larger.Compares pattern before nodes after :=
  ⟨h.1, fun bound others final herase hunifies =>
    hle _ _ _ (h.2 bound others final herase hunifies)⟩

/-- Languages one after the other compare the accesses of both. -/
theorem Compares.seq {u v : AccessPattern} (hfirst : first.Compares u before front between)
    (hsecond : second.Compares v between back after) :
    (first.seq second).Compares (u ++ v) before (front ++ back) after := by
  obtain ⟨hunifies, hothers⟩ := hfirst
  obtain ⟨hunifies', hothers'⟩ := hsecond
  refine ⟨accesses_append front back ▸ hunifies.append hunifies', ?_⟩
  intro bound others final herase hunify
  -- Other nodes come apart where these do, and so do their slots.
  rw [List.map_append] at herase
  obtain ⟨otherFront, otherBack, rfl, hfront, hback⟩ := List.map_eq_append_iff.1 herase
  rw [accesses_append] at hunify
  obtain ⟨next, hnext, hfinal⟩ :=
    Unifies.exists_of_append ((length_accesses_eq hfront).trans hunifies.length_eq) hunify
  exact ⟨_, _, _, rfl, hothers _ _ _ hfront hnext, hothers' _ _ _ hback hfinal⟩

/-- Nothing compares no accesses. -/
theorem compares_nothing (before : Bindings) : nothing.Compares [] before [] before := by
  refine ⟨.nil _, fun bound others final herase hunifies => ?_⟩
  obtain rfl := List.map_eq_nil_iff.1 herase
  cases hunifies
  exact ⟨rfl, rfl⟩

/-- An instruction compares slots as the inspection of its node does. -/
theorem compares_instruction {inspection : Inspection} {skipped : List (Node Label)}
    {node : Node Label} (hskipped : ∀ n ∈ skipped, n.isPseudo = true)
    (hnode : node.isPseudo = false)
    (hunifies : Unifies before.slots pattern (accesses [node]) after.slots)
    (hothers : ∀ bound other final, Node.eraseSlot other = node.eraseSlot →
      Unifies bound pattern (accesses [other]) final →
      inspection { before with slots := bound } other { after with slots := final }) :
    (instruction inspection).Compares pattern before (skipped ++ [node]) after := by
  refine ⟨?_, fun bound others final herase hunify => ?_⟩
  · rwa [accesses_append, accesses_of_isPseudo hskipped, List.nil_append]
  · rw [List.map_append] at herase
    obtain ⟨otherSkipped, last, rfl, hfront, hlast⟩ := List.map_eq_append_iff.1 herase
    obtain ⟨other, rfl, hother⟩ := List.map_eq_singleton_iff.1 hlast
    -- Pseudo-nodes are the same under other slots.
    have hpseudo : ∀ n ∈ otherSkipped, n.isPseudo = true := by
      intro n hn
      have hmem : n.eraseSlot ∈ skipped.map Node.eraseSlot := by
        rw [← hfront]
        exact List.mem_map_of_mem hn
      obtain ⟨original, horiginal, heq⟩ := List.mem_map.1 hmem
      rw [Node.eq_of_eraseSlot_eq Node.isPseudo_eraseSlot heq.symm]
      exact hskipped original horiginal
    rw [accesses_append, accesses_of_isPseudo hpseudo, List.nil_append] at hunify
    refine ⟨otherSkipped, other, rfl, hpseudo, ?_, hothers bound other final hother hunify⟩
    rw [Node.eq_of_eraseSlot_eq Node.isPseudo_eraseSlot hother, hnode]

end Language

namespace Opcode

/-- The pattern of an instruction whose slot does not count, if it has one. -/
def unkeyed (opcode : Opcode) : AccessPattern :=
  if opcode.letter.isAccess then [none] else []

/-- Loads and stores without a key are accesses that are not compared. -/
theorem unkeyed_eq_none : ∀ opcode ∈ [aload, astore], opcode.unkeyed = [none] := by
  decide

/-- Other opcodes are no accesses. -/
theorem unkeyed_eq_nil : ∀ opcode ∈ [ifNull, ifNonNull, ifAcmpEq, goto, invokeStatic, athrow],
    opcode.unkeyed = [] := by
  decide

end Opcode

namespace Language

variable {before after : Bindings} {nodes : List (Node Label)} {key : Key}

/-- An instruction that is not looked at for its slot. -/
theorem compares_of_ignoresSlots {inspection : Inspection} (h : inspection.IgnoresSlots)
    (hopcode : ∀ before node after, inspection before node after →
      ∃ opcode, node.opcode? = some opcode)
    (hread : instruction inspection before nodes after) :
    ∃ node opcode, inspection before node after ∧ node.opcode? = some opcode ∧
      (instruction inspection).Compares opcode.unkeyed before nodes after := by
  obtain ⟨skipped, node, rfl, hskipped, hnode, hinspection⟩ := hread
  obtain ⟨hslots, hothers⟩ := h _ _ _ hinspection
  obtain ⟨opcode, hopcode⟩ := hopcode _ _ _ hinspection
  -- The slot, if there is one, binds nothing.
  have hunkeyed : ∀ bound final other, Node.eraseSlot other = node.eraseSlot →
      (Unifies bound opcode.unkeyed (accesses [other]) final ↔ final = bound) := by
    intro bound final other hother
    have haccess : other.isAccess = opcode.letter.isAccess := by
      rw [Node.isAccess, Node.eq_of_eraseSlot_eq Node.opcode?_eraseSlot hother, hopcode,
        Option.any_some]
    rw [accesses_singleton, haccess, Opcode.unkeyed]
    constructor
    · intro hunifies
      split at hunifies
      · cases hunifies with
        | free hnil =>
          cases hnil
          rfl
      · cases hunifies
        rfl
    · rintro rfl
      split
      · exact .free (.nil _)
      · exact .nil _
  refine ⟨node, opcode, hinspection, hopcode, compares_instruction hskipped hnode
    ((hunkeyed _ _ node rfl).2 hslots) fun bound other final hother hunifies => ?_⟩
  obtain rfl := (hunkeyed _ _ other hother).1 hunifies
  exact hothers final other hother

/-- An opcode without a key compares no slot. -/
theorem compares_opcode {accepted : Opcode → Prop}
    (hread : instruction (.opcode accepted) before nodes after) :
    ∃ opcode, accepted opcode ∧
      (instruction (.opcode accepted)).Compares opcode.unkeyed before nodes after := by
  obtain ⟨node, opcode, ⟨⟨_, hfound, haccepted⟩, -⟩, hopcode, hcompares⟩ :=
    compares_of_ignoresSlots (Inspection.ignoresSlots_opcode accepted)
      (fun _ _ _ h => h.1.imp fun _ => And.left) hread
  rw [hopcode] at hfound
  cases hfound
  exact ⟨opcode, haccepted, hcompares⟩

/-- An opcode and something else about the node, but not its slot. -/
theorem compares_opcode_andThen {opcode : Opcode} {inspection : Inspection}
    (h : inspection.IgnoresSlots)
    (hread : instruction ((Inspection.opcode (· = opcode)).andThen inspection) before nodes after) :
    (instruction ((Inspection.opcode (· = opcode)).andThen inspection)).Compares opcode.unkeyed
      before nodes after := by
  obtain ⟨node, found, ⟨_, ⟨⟨_, hfound, rfl⟩, -⟩, -⟩, hopcode, hcompares⟩ :=
    compares_of_ignoresSlots ((Inspection.ignoresSlots_opcode _).andThen h)
      (fun _ _ _ ⟨_, hopcode, _⟩ => hopcode.1.imp fun _ => And.left) hread
  rw [hopcode] at hfound
  cases hfound
  exact hcompares

/-- The slot of a load or store is compared with the key. -/
theorem compares_var {opcode : Opcode} (hopcode : opcode.letter.isAccess = true)
    (hread : var opcode key before nodes after) :
    (var opcode key).Compares [some key] before nodes after := by
  obtain ⟨skipped, node, rfl, hskipped, hnode, _, ⟨⟨_, hfound, rfl⟩, rfl⟩, slot, hslot, hunify⟩ :=
    hread
  obtain ⟨hsame, rfl⟩ := Prod.mk.inj hunify
  have haccesses : ∀ other, Node.eraseSlot other = node.eraseSlot →
      accesses [other] = [other.slot?] := by
    intro other hother
    rw [accesses_singleton, if_pos]
    rw [Node.isAccess, Node.eq_of_eraseSlot_eq Node.opcode?_eraseSlot hother, hfound,
      Option.any_some, hopcode]
  refine compares_instruction hskipped hnode ?_ fun bound other final hother hunifies => ?_
  · rw [haccesses node rfl, hslot]
    exact .key (Prod.ext hsame rfl) (.nil _)
  · rw [haccesses other hother] at hunifies
    cases hotherSlot : other.slot? with
    | none =>
      rw [hotherSlot] at hunifies
      cases hunifies
    | some otherSlot =>
      rw [hotherSlot] at hunifies
      cases hunifies with
      | key hunify hnil =>
        cases hnil
        refine ⟨_, ⟨⟨_, ?_, rfl⟩, rfl⟩, otherSlot, hotherSlot, ?_⟩
        · rw [Node.eq_of_eraseSlot_eq Node.opcode?_eraseSlot hother, hfound]
        · simp only [Bindings.unifySlot, hunify]

theorem compares_jump {opcode : Opcode} (hread : jump opcode key before nodes after) :
    (jump opcode key).Compares opcode.unkeyed before nodes after :=
  compares_opcode_andThen (Inspection.ignoresSlots_target key) hread

theorem compares_call {opcode : Opcode} {accepted : Member → Bool}
    (hread : call opcode accepted before nodes after) :
    (call opcode accepted).Compares opcode.unkeyed before nodes after :=
  compares_opcode_andThen (Inspection.ignoresSlots_callee accepted) hread

theorem compares_placement (hread : placement key before nodes after) :
    (placement key).Compares [] before nodes after := by
  obtain ⟨label, rfl, hunify⟩ := hread
  obtain ⟨hsame, rfl⟩ := Prod.mk.inj hunify
  refine ⟨.nil _, fun bound others final herase hunifies => ?_⟩
  obtain ⟨other, rfl, hother⟩ := List.map_eq_singleton_iff.1 herase
  obtain rfl := Node.eraseSlot_eq_label_iff.1 hother
  cases hunifies
  exact ⟨label, rfl, Prod.ext hsame rfl⟩

/-- A close compares the slot of its resource. -/
theorem compares_close (hread : close key before nodes after) :
    (close key).Compares [some key] before nodes after := by
  obtain ⟨front, back, between, rfl, hload, hcall⟩ := hread
  have hopcode : ∀ before node after,
      Inspection.operand Cursor.closedOwner? (·.unifyOwner key) before node after →
        ∃ opcode, node.opcode? = some opcode := by
    rintro before node after ⟨owner, howner, -⟩
    exact (closedOwner?_letter howner).imp fun _ => And.left
  obtain ⟨node, opcode, ⟨owner, howner, -⟩, hfound, hcompares⟩ :=
    compares_of_ignoresSlots (Inspection.ignoresSlots_owner key) hopcode hcall
  obtain ⟨found, hfound', hletter⟩ := closedOwner?_letter howner
  rw [hfound, Option.some.injEq] at hfound'
  -- A call is neither a load nor a store.
  rw [Opcode.unkeyed, hfound', hletter] at hcompares
  exact (compares_var rfl hload).seq hcompares

/-- To suppress an exception compares its slot and that of the other exception. -/
theorem compares_addSuppressed (hread : addSuppressed key before nodes after) :
    (addSuppressed key).Compares
      [some (Symbol.primaryException.resolve .method), some key] before nodes after := by
  obtain ⟨front, rest, between, rfl, hprimary, middle, back, _, rfl, hexception, hcall⟩ := hread
  exact (compares_var rfl hprimary).seq ((compares_var rfl hexception).seq (compares_call hcall))

/-- Where a block is left no slot is compared. -/
theorem compares_exit (hread : exit key before nodes after) :
    ∃ pattern ∈ [[none], []], (exit key).Compares pattern before nodes after := by
  rcases hread with ⟨front, back, between, rfl, hload, hreturn⟩ | hjump
  · obtain ⟨opcode, hopcode, hcompares⟩ := compares_opcode hload
    obtain ⟨returning, hreturning, hcompares'⟩ := compares_opcode hreturn
    have hunkeyed : opcode.unkeyed = [none] := by
      rw [Opcode.unkeyed]
      rcases Opcode.letter_of_isVarLoad hopcode with h | h <;> rw [h] <;> rfl
    have hunkeyed' : returning.unkeyed = [] := by
      rw [Opcode.unkeyed, Opcode.letter_of_isValueReturn hreturning]
      rfl
    rw [hunkeyed] at hcompares
    rw [hunkeyed'] at hcompares'
    have hforgetting : (valueReturn.forgetting key).Compares [] between back after := hcompares'
    refine ⟨[none], by simp, (hcompares.seq hforgetting).mono fun _ _ _ => .inl⟩
  · exact ⟨[], by simp, (compares_jump hjump).mono fun _ _ _ => .inr⟩

/-- Where two paths join no slot is compared. -/
theorem compares_joinLabel (hread : joinLabel key before nodes after) :
    (joinLabel key).Compares [] before nodes after := by
  rw [joinLabel] at hread
  -- Whether the label is known does not depend on slots.
  split at hread
  next hbound =>
    obtain ⟨hunifies, hothers⟩ := compares_placement hread
    refine ⟨hunifies, fun bound others final herase hunify => ?_⟩
    rw [joinLabel, if_pos hbound]
    exact hothers bound others final herase hunify
  next hbound =>
    obtain ⟨rfl, rfl⟩ := hread
    refine ⟨.nil _, fun bound others final herase hunify => ?_⟩
    rw [joinLabel, if_neg hbound]
    exact (compares_nothing after).2 bound others final herase hunify

end Language

/-! ### Patterns of steps -/

/-- The patterns of what a step may read in a scope. -/
def Step.keys (scope : Scope) : Step → List AccessPattern
  | .op opcode | .jump opcode _ | .invoke opcode _ _ => [opcode.unkeyed]
  | .var _ slot => [[some (slot.resolve scope)]]
  | .label _ | .joinLabel _ => [[]]
  | .close resource => [[some (resource.resolve scope)]]
  | .addSuppressed exception =>
    [[some (Symbol.primaryException.resolve .method), some (exception.resolve scope)]]
  | .exit _ => [[none], []]

/-- The patterns of what steps may read in a scope. -/
def Step.keysOf (scope : Scope) : List Step → List AccessPattern
  | [] => [[]]
  | first :: rest => joinedWords (first.keys scope) (keysOf scope rest)

/-- Words may be joined in any way. -/
theorem joinedWords_assoc {α : Type} (us vs ws : List (List α)) :
    joinedWords (joinedWords us vs) ws = joinedWords us (joinedWords vs ws) := by
  simp [joinedWords, List.flatMap_assoc, List.flatMap_map, List.map_flatMap, Function.comp_def]

theorem joinedWords_singleton {α : Type} (u v : List α) : joinedWords [u] [v] = [u ++ v] :=
  rfl

/-- The keys of steps are those of their parts, joined. -/
theorem Step.keysOf_append (scope : Scope) (front back : List Step) :
    keysOf scope (front ++ back) = joinedWords (keysOf scope front) (keysOf scope back) := by
  induction front with
  | nil => simp [keysOf, joinedWords]
  | cons first rest ih => rw [List.cons_append, keysOf, keysOf, ih, joinedWords_assoc]

/-- The patterns of what segments may read. -/
def Segment.keys : List Segment → List AccessPattern
  | [] => [[]]
  | first :: rest => joinedWords (Step.keysOf first.scope first.steps) (keys rest)

/-- The step is a load or a store if it compares a slot. -/
def Step.isAccess : Step → Bool
  | .var opcode _ => opcode.letter.isAccess
  | _ => true

namespace Language

variable {before after : Bindings} {nodes : List (Node Label)} {scope : Scope}

/-- A word of each side makes a joined one. -/
theorem mem_joinedWords {α : Type} {us vs : List (List α)} {u v : List α} (hu : u ∈ us)
    (hv : v ∈ vs) : u ++ v ∈ joinedWords us vs :=
  List.mem_flatMap.2 ⟨u, hu, List.mem_map.2 ⟨v, hv, rfl⟩⟩

/-- A step compares the accesses of one of its patterns. -/
theorem exists_compares_step {s : Step} (hs : s.isAccess = true)
    (hread : s.language scope before nodes after) :
    ∃ pattern ∈ s.keys scope, (s.language scope).Compares pattern before nodes after := by
  cases s with
  | op opcode =>
    obtain ⟨_, rfl, hcompares⟩ := compares_opcode hread
    exact ⟨_, List.mem_singleton.2 rfl, hcompares⟩
  | var opcode slot => exact ⟨_, List.mem_singleton.2 rfl, compares_var hs hread⟩
  | jump opcode target => exact ⟨_, List.mem_singleton.2 rfl, compares_jump hread⟩
  | label name => exact ⟨_, List.mem_singleton.2 rfl, compares_placement hread⟩
  | close resource => exact ⟨_, List.mem_singleton.2 rfl, compares_close hread⟩
  | addSuppressed exception => exact ⟨_, List.mem_singleton.2 rfl, compares_addSuppressed hread⟩
  | invoke opcode name desc => exact ⟨_, List.mem_singleton.2 rfl, compares_call hread⟩
  | exit target => exact compares_exit hread
  | joinLabel name => exact ⟨_, List.mem_singleton.2 rfl, compares_joinLabel hread⟩

/-- Steps compare the accesses of one of their patterns. -/
theorem exists_compares_ofSteps {steps : List Step} (hsteps : ∀ s ∈ steps, s.isAccess = true)
    (hread : ofSteps scope steps before nodes after) :
    ∃ pattern ∈ Step.keysOf scope steps,
      (ofSteps scope steps).Compares pattern before nodes after := by
  induction steps generalizing before nodes with
  | nil =>
    obtain ⟨rfl, rfl⟩ := hread
    exact ⟨[], List.mem_singleton.2 rfl, compares_nothing after⟩
  | cons first rest ih =>
    obtain ⟨hfirst, hrest⟩ := List.forall_mem_cons.1 hsteps
    obtain ⟨front, back, between, rfl, hfront, hback⟩ := hread
    obtain ⟨u, hu, hcompares⟩ := exists_compares_step hfirst hfront
    obtain ⟨v, hv, hcompares'⟩ := ih hrest hback
    exact ⟨u ++ v, mem_joinedWords hu hv, hcompares.seq hcompares'⟩

/-- Segments compare slots by one of their patterns. -/
theorem exists_compares_ofSegments {segments : List Segment}
    (hsegments : ∀ segment ∈ segments, ∀ s ∈ segment.steps, s.isAccess = true)
    (hread : ofSegments segments before nodes after) :
    ∃ pattern ∈ Segment.keys segments,
      (ofSegments segments).Compares pattern before nodes after := by
  induction segments generalizing before nodes with
  | nil =>
    obtain ⟨rfl, rfl⟩ := hread
    exact ⟨[], List.mem_singleton.2 rfl, compares_nothing after⟩
  | cons first rest ih =>
    obtain ⟨hfirst, hrest⟩ := List.forall_mem_cons.1 hsegments
    obtain ⟨front, back, between, rfl, hfront, hback⟩ := hread
    obtain ⟨u, hu, hcompares⟩ := exists_compares_ofSteps hfirst hfront
    obtain ⟨v, hv, hcompares'⟩ := ih hrest hback
    exact ⟨u ++ v, mem_joinedWords hu hv, hcompares.seq hcompares'⟩

/-- What is read from the start has slots that agree with the pattern, and any such slots would have
been read. -/
theorem Compares.agrees {language : Language} {pattern : AccessPattern}
    (h : language.Compares pattern .empty nodes after) :
    Agrees pattern (accesses nodes) ∧
      ∀ others, others.map Node.eraseSlot = nodes.map Node.eraseSlot →
        Agrees pattern (accesses others) → ∃ final, language .empty others final := by
  obtain ⟨hunifies, hothers⟩ := h
  refine ⟨exists_unifies_iff.1 ⟨_, hunifies⟩, fun others herase hagrees => ?_⟩
  obtain ⟨final, hfinal⟩ := exists_unifies_iff.2 hagrees
  exact ⟨_, hothers _ others final herase hfinal⟩

end Language

end CleanupFilter
