import Mathlib.Tactic.SplitIfs
import CleanupFilter.Proofs.Pattern.Recognition

/-!
# Metadata within patterns

A pattern that skips pseudo-nodes reads the same whether there is one more of them or one less. The
one thing to fear is a label: a step that asks for the next label takes any label as long as its key
has none. The patterns of cleanup code only ask for labels that a jump has led to before.

- `Language.Ignores`: what may be read with and without a pseudo-node.
- `Step.known?`, `Segment.known?`: the keys that have labels, as long as no step asks for a label
  that may be new.
- `Language.ignores_ofSegments`: segments that ask for known labels only ignore a pseudo-node.
-/

namespace CleanupFilter

/-- An element of two lists in a row is an element of the one or of the other. -/
theorem append_eq_append_cons {α : Type} {u v front back : List α} {a : α}
    (h : u ++ v = front ++ a :: back) :
    (∃ m, u = front ++ a :: m ∧ back = m ++ v) ∨ ∃ m, front = u ++ m ∧ v = m ++ a :: back := by
  rcases List.append_eq_append_iff.1 h with ⟨m, hfront, hv⟩ | ⟨m, hu, hback⟩
  · exact .inr ⟨m, hfront, hv⟩
  · -- The second list starts with the element if the first one ends right in front of it.
    cases m with
    | nil => exact .inr ⟨[], by simpa using hu.symm, by simpa using hback.symm⟩
    | cons b m =>
      obtain ⟨rfl, rfl⟩ := List.cons.inj hback
      exact .inl ⟨m, hu, rfl⟩

/-- Every one of the keys has a label, and no key has the label that the node places. -/
structure Bindings.Settled (node : Node Label) (keys : List Key) (bindings : Bindings) : Prop where
  known : ∀ key ∈ keys, (bindings.labels key).isSome = true
  avoids : ∀ label ∈ node.placed?, ∀ key, bindings.labels key ≠ some label

/-- Bindings that are settled are so for fewer keys. -/
theorem Bindings.Settled.mono {node : Node Label} {keys fewer : List Key} {bindings : Bindings}
    (h : bindings.Settled node keys) (hsub : ∀ key ∈ fewer, key ∈ keys) :
    bindings.Settled node fewer :=
  ⟨fun key hkey => h.known key (hsub key hkey), h.avoids⟩

/-- No jump of the nodes leads to a label that the node places. -/
def Untargeted (node : Node Label) (nodes : List (Node Label)) : Prop :=
  ∀ label ∈ node.placed?, ∀ n ∈ nodes, n.target? ≠ some label

/-- A label that no jump refers to is not referred to by fewer of them. -/
theorem Untargeted.mono {node : Node Label} {nodes fewer : List (Node Label)}
    (h : Untargeted node nodes) (hsub : ∀ n ∈ fewer, n ∈ nodes) : Untargeted node fewer :=
  fun label hlabel n hn => h label hlabel n (hsub n hn)

/-- Where keys that are `needed` have labels, the language reads the same with the node in front of
an instruction and without the node, and afterwards the keys that are `given` have labels. -/
structure Language.Ignores (node : Node Label) (needed given : List Key) (language : Language) :
    Prop where
  insert : ∀ {before front real back after}, real.isPseudo = false →
    language before (front ++ real :: back) after →
      language before (front ++ node :: real :: back) after
  remove : ∀ {before front back after}, before.Settled node needed →
    Untargeted node (front ++ node :: back) → language before (front ++ node :: back) after →
      language before (front ++ back) after
  settled : ∀ {before nodes after}, before.Settled node needed → Untargeted node nodes →
    language before nodes after → after.Settled node given

namespace Language

variable {node : Node Label} {needed between given : List Key} {first second : Language}

/-- Fewer keys may be told to have labels than do. -/
theorem Ignores.mono (h : first.Ignores node needed given) {fewer : List Key}
    (hsub : ∀ key ∈ fewer, key ∈ given) : first.Ignores node needed fewer where
  insert := h.insert
  remove := h.remove
  settled hbefore huntargeted hnodes := (h.settled hbefore huntargeted hnodes).mono hsub

/-- More keys may have labels than have to. -/
theorem Ignores.mono_needed (h : first.Ignores node needed given) {more : List Key}
    (hsub : ∀ key ∈ needed, key ∈ more) : first.Ignores node more given where
  insert := h.insert
  remove hbefore huntargeted hnodes := h.remove (hbefore.mono hsub) huntargeted hnodes
  settled hbefore huntargeted hnodes := h.settled (hbefore.mono hsub) huntargeted hnodes

/-- Where nothing is read nothing is inserted. -/
theorem ignores_nothing : nothing.Ignores node needed needed where
  insert := by
    rintro before front real back after - ⟨hnil, -⟩
    exact absurd hnil (by simp)
  remove := by
    rintro before front back after - - ⟨hnil, -⟩
    exact absurd hnil (by simp)
  settled := by
    rintro before nodes after hbefore - ⟨rfl, rfl⟩
    exact hbefore

/-- What is inserted or removed stands in the first part or in the second one. -/
theorem Ignores.seq (hfirst : first.Ignores node needed between)
    (hsecond : second.Ignores node between given) : (first.seq second).Ignores node needed given where
  insert := by
    rintro before front real back after hreal ⟨u, v, middle, hsplit, hu, hv⟩
    rcases append_eq_append_cons hsplit.symm with ⟨m, rfl, rfl⟩ | ⟨m, rfl, rfl⟩
    · exact ⟨front ++ node :: real :: m, v, middle, by simp, hfirst.insert hreal hu, hv⟩
    · exact ⟨u, m ++ node :: real :: back, middle, by simp, hu, hsecond.insert hreal hv⟩
  remove := by
    rintro before front back after hbefore huntargeted ⟨u, v, middle, hsplit, hu, hv⟩
    -- Jumps of either part are jumps of the whole.
    rw [hsplit] at huntargeted
    have hleft : Untargeted node u := huntargeted.mono fun n hn => List.mem_append_left v hn
    have hright : Untargeted node v := huntargeted.mono fun n hn => List.mem_append_right u hn
    rcases append_eq_append_cons hsplit.symm with ⟨m, rfl, rfl⟩ | ⟨m, rfl, rfl⟩
    · exact ⟨front ++ m, v, middle, by simp, hfirst.remove hbefore hleft hu, hv⟩
    · have hmiddle := hfirst.settled hbefore hleft hu
      exact ⟨u, m ++ back, middle, by simp, hu, hsecond.remove hmiddle hright hv⟩
  settled := by
    rintro before nodes after hbefore huntargeted ⟨u, v, middle, rfl, hu, hv⟩
    refine hsecond.settled (hfirst.settled hbefore ?_ hu) ?_ hv
    · exact huntargeted.mono fun n hn => List.mem_append_left v hn
    · exact huntargeted.mono fun n hn => List.mem_append_right u hn

/-- A choice ignores what both sides do. -/
theorem Ignores.either (hfirst : first.Ignores node needed given)
    (hsecond : second.Ignores node needed given) :
    (first.either second).Ignores node needed given where
  insert hreal hnodes := hnodes.imp (hfirst.insert hreal) (hsecond.insert hreal)
  remove hbefore huntargeted hnodes :=
    hnodes.imp (hfirst.remove hbefore huntargeted) (hsecond.remove hbefore huntargeted)
  settled hbefore huntargeted hnodes :=
    hnodes.elim (hfirst.settled hbefore huntargeted) (hsecond.settled hbefore huntargeted)

/-- A language that is one of a family. -/
theorem Ignores.exists {ι : Type} {family : ι → Language}
    (h : ∀ i, (family i).Ignores node needed given) :
    Ignores node needed given fun before nodes after => ∃ i, family i before nodes after where
  insert := by
    rintro before front real back after hreal ⟨i, hnodes⟩
    exact ⟨i, (h i).insert hreal hnodes⟩
  remove := by
    rintro before front back after hbefore huntargeted ⟨i, hnodes⟩
    exact ⟨i, (h i).remove hbefore huntargeted hnodes⟩
  settled := by
    rintro before nodes after hbefore huntargeted ⟨i, hnodes⟩
    exact (h i).settled hbefore huntargeted hnodes

/-! ### Instructions -/

/-- An instruction is read behind any pseudo-nodes, whatever the inspection is. -/
theorem ignores_instruction (hpseudo : node.isPseudo = true) {inspection : Inspection}
    (h : ∀ {before n after}, inspection before n after → before.Settled node needed →
      (∀ label ∈ node.placed?, n.target? ≠ some label) → after.Settled node given) :
    (instruction inspection).Ignores node needed given where
  -- The instruction is the last node, so the inserted one is skipped like those in front of it.
  insert := by
    rintro before front real back after hreal ⟨skipped, n, hsplit, hskipped, hn, hinspection⟩
    rcases append_eq_append_cons hsplit.symm with ⟨m, rfl, rfl⟩ | ⟨m, rfl, hlast⟩
    · -- Nothing that is skipped is an instruction.
      exact absurd (hskipped real (by simp)) (by simp [hreal])
    · rcases m with _ | ⟨b, m⟩
      · obtain ⟨rfl, rfl⟩ := List.cons.inj hlast
        refine ⟨skipped ++ [node], n, by simp, fun a ha => ?_, hn, hinspection⟩
        rcases List.mem_append.1 ha with ha | ha
        · exact hskipped a ha
        · exact List.mem_singleton.1 ha ▸ hpseudo
      · exact absurd (congrArg List.length hlast) (by simp)
  remove := by
    rintro before front back after - - ⟨skipped, n, hsplit, hskipped, hn, hinspection⟩
    rcases append_eq_append_cons hsplit.symm with ⟨m, rfl, rfl⟩ | ⟨m, rfl, hlast⟩
    · refine ⟨front ++ m, n, by simp, fun a ha => hskipped a ?_, hn, hinspection⟩
      rcases List.mem_append.1 ha with ha | ha <;> simp [ha]
    · -- The instruction itself is no pseudo-node.
      rcases m with _ | ⟨b, m⟩
      · obtain ⟨rfl, -⟩ := List.cons.inj hlast
        exact absurd hpseudo (by simp [hn])
      · exact absurd (congrArg List.length hlast) (by simp)
  settled := by
    rintro before nodes after hbefore huntargeted ⟨skipped, n, rfl, -, -, hinspection⟩
    exact h hinspection hbefore fun label hlabel => huntargeted label hlabel n (by simp)

/-- An instruction that leaves the labels of all keys as they are. -/
theorem ignores_instruction_of_labels_eq (hpseudo : node.isPseudo = true)
    {inspection : Inspection}
    (h : ∀ {before n after}, inspection before n after → after.labels = before.labels) :
    (instruction inspection).Ignores node needed needed :=
  ignores_instruction hpseudo fun hinspection hbefore _ =>
    ⟨h hinspection ▸ hbefore.known, h hinspection ▸ hbefore.avoids⟩

/-- In front of an instruction a pseudo-node is ignored. -/
theorem ignores_opcode (hpseudo : node.isPseudo = true) (accepted : Opcode → Prop) :
    (instruction (.opcode accepted)).Ignores node needed needed := by
  refine ignores_instruction_of_labels_eq hpseudo ?_
  rintro before n after ⟨-, rfl⟩
  rfl

theorem ignores_var (hpseudo : node.isPseudo = true) (opcode : Opcode) (key : Key) :
    (var opcode key).Ignores node needed needed := by
  refine ignores_instruction_of_labels_eq hpseudo ?_
  rintro before n after ⟨_, ⟨-, rfl⟩, slot, -, hunify⟩
  exact congrArg (Bindings.labels ∘ Prod.snd) hunify.symm

theorem ignores_call (hpseudo : node.isPseudo = true) (opcode : Opcode)
    (accepted : Member → Bool) : (call opcode accepted).Ignores node needed needed := by
  refine ignores_instruction_of_labels_eq hpseudo ?_
  rintro before n after ⟨_, ⟨-, rfl⟩, -, rfl⟩
  rfl

theorem ignores_close (hpseudo : node.isPseudo = true) (key : Key) :
    (close key).Ignores node needed needed := by
  refine (ignores_var hpseudo .aload key).seq (ignores_instruction_of_labels_eq hpseudo ?_)
  rintro before n after ⟨owner, -, hunify⟩
  exact congrArg (Bindings.labels ∘ Prod.snd) hunify.symm

theorem ignores_addSuppressed (hpseudo : node.isPseudo = true) (key : Key) :
    (addSuppressed key).Ignores node needed needed :=
  (ignores_var hpseudo .aload _).seq <|
    (ignores_var hpseudo .aload key).seq (ignores_call hpseudo .invokeVirtual _)

/-! ### Labels -/

/-- A jump gives its key a label that the node does not place. -/
theorem ignores_jump (hpseudo : node.isPseudo = true) (opcode : Opcode) (key : Key) :
    (jump opcode key).Ignores node needed (key :: needed) := by
  refine ignores_instruction hpseudo ?_
  rintro before n after ⟨_, ⟨-, rfl⟩, target, htarget, hunify⟩ hbefore huntargeted
  -- The key has this label already, or it gets it now.
  rcases labels_of_unifyLabel hunify with ⟨hkey, rfl⟩ | ⟨-, hlabels⟩
  · refine ⟨List.forall_mem_cons.2 ⟨by rw [hkey]; rfl, hbefore.known⟩, hbefore.avoids⟩
  · refine ⟨fun k hk => ?_, fun label hlabel k => ?_⟩ <;> rw [hlabels]
    · split_ifs with hkey
      · rfl
      · exact hbefore.known k ((List.mem_cons.1 hk).resolve_left hkey)
    · split_ifs
      · exact htarget ▸ huntargeted label hlabel
      · exact hbefore.avoids label hlabel k

/-- The label that a known key has is not the one that the node places, so the node is not read in
its place. -/
theorem ignores_placement {key : Key} (hkey : key ∈ needed) :
    (placement key).Ignores node needed needed where
  insert := by
    rintro before front real back after hreal ⟨label, hsingle, -⟩
    have hlabel : real = .label label := List.mem_singleton.1 (hsingle ▸ by simp)
    rw [hlabel] at hreal
    exact absurd hreal (by simp [Node.isPseudo])
  remove := by
    rintro before front back after hbefore - ⟨label, hsingle, hunify⟩
    have hnode : node = .label label := List.mem_singleton.1 (hsingle ▸ by simp)
    -- A key with a label has another one than the node, and the key is known to have one.
    rcases labels_of_unifyLabel hunify with ⟨hlabel, -⟩ | ⟨hnone, -⟩
    · exact absurd hlabel (hbefore.avoids label (by rw [hnode]; rfl) key)
    · have hknown := hbefore.known key hkey
      rw [hnone] at hknown
      exact absurd hknown (by simp)
  settled := by
    rintro before nodes after hbefore - ⟨label, -, hunify⟩
    rcases labels_of_unifyLabel hunify with ⟨-, rfl⟩ | ⟨hnone, -⟩
    · exact hbefore
    · have hknown := hbefore.known key hkey
      rw [hnone] at hknown
      exact absurd hknown (by simp)

/-- Where a block is left a pseudo-node is ignored, but the label is forgotten. -/
theorem ignores_exit (hpseudo : node.isPseudo = true) (key : Key) :
    (exit key).Ignores node needed (needed.filter (· ≠ key)) := by
  have hsub : ∀ k ∈ needed.filter (· ≠ key), k ∈ needed := fun k hk => (List.mem_filter.1 hk).1
  refine Ignores.either ?_ ((ignores_jump hpseudo .goto key).mono fun k hk =>
    List.mem_cons_of_mem key (hsub k hk))
  refine Ignores.seq (ignores_opcode hpseudo _) ?_
  -- The return is read whatever the labels are, and only the one key loses its label.
  have hreturn : valueReturn.Ignores node (needed.filter (· ≠ key)) (needed.filter (· ≠ key)) :=
    ignores_opcode hpseudo _
  have hforget : ∀ {before : Bindings}, before.Settled node needed →
      (before.forgetLabel key).Settled node (needed.filter (· ≠ key)) := by
    intro before hbefore
    refine ⟨fun k hk => ?_, fun label hlabel k => ?_⟩
    · have hne : k ≠ key := by simpa using (List.mem_filter.1 hk).2
      simpa [Bindings.forgetLabel, hne] using hbefore.known k (hsub k hk)
    · simp only [Bindings.forgetLabel]
      split_ifs
      · exact fun h => absurd h.symm (Option.some_ne_none label)
      · exact hbefore.avoids label hlabel k
  exact ⟨fun hreal hnodes => hreturn.insert hreal hnodes,
    fun hbefore huntargeted hnodes => hreturn.remove (hforget hbefore) huntargeted hnodes,
    fun hbefore huntargeted hnodes => hreturn.settled (hforget hbefore) huntargeted hnodes⟩

/-- Where the key has a label it is a known one, and where it has none nothing is read. -/
theorem ignores_joinLabel (key : Key) : (joinLabel key).Ignores node needed needed := by
  -- A key with a label counts as one that is needed.
  have hbound : ∀ {before : Bindings}, before.Settled node needed →
      (before.labels key).isSome = true → before.Settled node (key :: needed) :=
    fun hbefore hkey => ⟨List.forall_mem_cons.2 ⟨hkey, hbefore.known⟩, hbefore.avoids⟩
  have hplacement : (placement key).Ignores node (key :: needed) needed :=
    (ignores_placement List.mem_cons_self).mono fun k hk => List.mem_cons_of_mem key hk
  refine ⟨?_, ?_, ?_⟩
  · intro before front real back after hreal hnodes
    rw [joinLabel] at hnodes ⊢
    split_ifs at hnodes ⊢
    · exact hplacement.insert hreal hnodes
    · exact (ignores_nothing : nothing.Ignores node [] []).insert hreal hnodes
  · intro before front back after hbefore huntargeted hnodes
    rw [joinLabel] at hnodes ⊢
    split_ifs at hnodes ⊢ with hkey
    · exact hplacement.remove (hbound hbefore hkey) huntargeted hnodes
    · exact ignores_nothing.remove hbefore huntargeted hnodes
  · intro before nodes after hbefore huntargeted hnodes
    rw [joinLabel] at hnodes
    split_ifs at hnodes with hkey
    · exact hplacement.settled (hbound hbefore hkey) huntargeted hnodes
    · exact ignores_nothing.settled hbefore huntargeted hnodes

end Language

/-! ### Known labels -/

/-- The keys that have labels after the step, if the `known` ones have labels before it. A step that
asks for the label of another key has no answer. -/
def Step.known? (scope : Scope) (known : List Key) : Step → Option (List Key)
  | .jump _ target => some (target.resolve scope :: known)
  | .label name => if name.resolve scope ∈ known then some known else none
  | .exit target => some (known.filter (· ≠ target.resolve scope))
  | .op _ | .var _ _ | .close _ | .addSuppressed _ | .invoke _ _ _ | .joinLabel _ => some known

/-- The keys that have labels after the steps, if the `known` ones have labels before them. -/
def Step.knownAfter? (scope : Scope) (known : List Key) : List Step → Option (List Key)
  | [] => some known
  | first :: rest => (first.known? scope known).bind (knownAfter? scope · rest)

/-- What is known behind steps is known behind their parts, one after the other. -/
theorem Step.knownAfter?_append (scope : Scope) (known : List Key) (front back : List Step) :
    knownAfter? scope known (front ++ back) =
      (knownAfter? scope known front).bind (knownAfter? scope · back) := by
  induction front generalizing known with
  | nil => rfl
  | cons first rest ih =>
    rw [List.cons_append, knownAfter?, knownAfter?, Option.bind_assoc]
    exact congrArg ((first.known? scope known).bind ·) (funext ih)

/-- The keys that have labels after the segments, if the `known` ones have labels before them. -/
def Segment.known? (known : List Key) : List Segment → Option (List Key)
  | [] => some known
  | first :: rest => (Step.knownAfter? first.scope known first.steps).bind (known? · rest)

/-- Segments that ask for known labels, whichever those are at their start. -/
theorem Segment.exists_known {segments : List Segment}
    (h : ∀ s ∈ segments, ∀ known, ∃ given, Step.knownAfter? s.scope known s.steps = some given)
    (known : List Key) : ∃ given, Segment.known? known segments = some given := by
  induction segments generalizing known with
  | nil => exact ⟨known, rfl⟩
  | cons first rest ih =>
    obtain ⟨hfirst, hrest⟩ := List.forall_mem_cons.1 h
    obtain ⟨between, hbetween⟩ := hfirst known
    obtain ⟨given, hgiven⟩ := ih hrest between
    exact ⟨given, by rw [Segment.known?, hbetween, Option.bind_some, hgiven]⟩

namespace Language

variable {node : Node Label} {needed given : List Key}

/-- A step ignores pseudo-nodes if the labels that it asks for are known. -/
theorem ignores_step (hpseudo : node.isPseudo = true) {scope : Scope} {s : Step}
    (h : s.known? scope needed = some given) : (s.language scope).Ignores node needed given := by
  cases s with
  | jump opcode target =>
    obtain rfl := Option.some.inj h
    exact ignores_jump hpseudo opcode _
  -- A label is asked for by itself, so it has to be known.
  | label name =>
    rw [Step.known?] at h
    split_ifs at h with hname
    obtain rfl := Option.some.inj h
    exact ignores_placement hname
  -- The label of the key is forgotten here.
  | exit target =>
    obtain rfl := Option.some.inj h
    exact ignores_exit hpseudo _
  | op opcode =>
    obtain rfl := Option.some.inj h
    exact ignores_opcode hpseudo _
  | var opcode slot =>
    obtain rfl := Option.some.inj h
    exact ignores_var hpseudo opcode _
  | close resource =>
    obtain rfl := Option.some.inj h
    exact ignores_close hpseudo _
  | addSuppressed exception =>
    obtain rfl := Option.some.inj h
    exact ignores_addSuppressed hpseudo _
  | invoke opcode name desc =>
    obtain rfl := Option.some.inj h
    exact ignores_call hpseudo opcode _
  | joinLabel name =>
    obtain rfl := Option.some.inj h
    exact ignores_joinLabel _

/-- Steps ignore pseudo-nodes if the labels that they ask for are known in time. -/
theorem ignores_ofSteps (hpseudo : node.isPseudo = true) {scope : Scope} {steps : List Step}
    (h : Step.knownAfter? scope needed steps = some given) :
    (ofSteps scope steps).Ignores node needed given := by
  induction steps generalizing needed with
  | nil =>
    obtain rfl := Option.some.inj h
    exact ignores_nothing
  | cons first rest ih =>
    obtain ⟨between, hfirst, hrest⟩ := Option.bind_eq_some_iff.1 h
    exact (ignores_step hpseudo hfirst).seq (ih hrest)

/-- Segments that ask for known labels only ignore a pseudo-node whose label no jump leads to. -/
theorem ignores_ofSegments (hpseudo : node.isPseudo = true) {segments : List Segment}
    (h : Segment.known? needed segments = some given) :
    (ofSegments segments).Ignores node needed given := by
  induction segments generalizing needed with
  | nil =>
    obtain rfl := Option.some.inj h
    exact ignores_nothing
  | cons first rest ih =>
    obtain ⟨between, hfirst, hrest⟩ := Option.bind_eq_some_iff.1 h
    exact (ignores_ofSteps hpseudo hfirst).seq (ih hrest)

end Language

end CleanupFilter
