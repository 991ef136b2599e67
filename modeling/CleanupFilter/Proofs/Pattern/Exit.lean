import Mathlib.Logic.Function.Basic
import CleanupFilter.Proofs.Pattern.Unification

/-!
# Labels that become unknown

A return of a value makes the label unknown that a jump out of the block would lead to. What is read
in front of the return is then compared with one label for the key, and what is read behind it with
another one or with none.

- `Valuation.withLabel`: another label for a key.
- `Segment.templates_withLabel`: the label of a key that is not named does not count.
- `Language.exists_ofSegments_exit_iff`: segments with an exit ask for either way out of the block.
-/

namespace CleanupFilter

/-! ### Valuations with another label -/

/-- The valuation with another label for the key. -/
def Valuation.withLabel (values : Valuation) (key : Key) (label : Label) : Valuation :=
  { values with labels := Function.update values.labels key label }

/-- The key has the label that was set. -/
theorem Valuation.labels_withLabel_self (values : Valuation) (key : Key) (label : Label) :
    (values.withLabel key label).labels key = label := by
  simp [withLabel]

/-- Other keys keep their labels. -/
theorem Valuation.labels_withLabel_of_ne {key other : Key} (h : other ≠ key) (values : Valuation)
    (label : Label) : (values.withLabel key label).labels other = values.labels other := by
  simp [withLabel, h]

/-- A label that has become unknown may have been any. -/
theorem Valuation.extends_forgetLabel_iff {values : Valuation} {bindings : Bindings} {key : Key} :
    values.Extends (bindings.forgetLabel key) ↔
      ∃ label, (values.withLabel key label).Extends bindings := by
  constructor
  · rintro ⟨hslots, hlabels, howners⟩
    refine ⟨bindings.valuation.labels key, hslots, fun k label hk => ?_, howners⟩
    by_cases heq : k = key
    · subst heq
      rw [labels_withLabel_self]
      exact bindings.extends_valuation.labels k label hk
    · rw [labels_withLabel_of_ne heq]
      exact hlabels k label ((if_neg heq).trans hk)
  · rintro ⟨label, hslots, hlabels, howners⟩
    refine ⟨hslots, fun k known hk => ?_, howners⟩
    -- The key itself has no label any more.
    obtain ⟨hne, hk⟩ : k ≠ key ∧ bindings.labels k = some known := by
      simpa [Bindings.forgetLabel] using hk
    rw [← labels_withLabel_of_ne hne]
    exact hlabels k known hk

/-- All keys but the forgotten one still have labels. -/
theorem Bindings.Labelled.forgetLabel {bindings : Bindings} {keys : List Key}
    (h : bindings.Labelled keys) (key : Key) :
    (bindings.forgetLabel key).Labelled (keys.filter (· ≠ key)) := by
  intro k
  rw [List.mem_filter, ← h k, Bindings.forgetLabel]
  by_cases heq : k = key <;> simp [heq]

/-- The label of a key that no step names does not count. -/
theorem Step.templatesOf_withLabel {values : Valuation} {key : Key} {label : Label} {scope : Scope}
    {earlier : List Key} {steps : List Step} (hexit : ∀ target, .exit target ∉ steps)
    (hearlier : key ∉ earlier) (hsteps : key ∉ steps.flatMap (labelKeys scope)) :
    templatesOf (values.withLabel key label) scope earlier steps =
      templatesOf values scope earlier steps := by
  induction steps generalizing earlier with
  | nil => rfl
  | cons first rest ih =>
    rw [List.flatMap_cons, List.mem_append, not_or] at hsteps
    obtain ⟨hfirst, hrest⟩ := hsteps
    have hother : ∀ {keys : List Key} {k}, key ∉ keys → k ∈ keys →
        (values.withLabel key label).labels k = values.labels k := fun hkeys hk =>
      Valuation.labels_withLabel_of_ne (ne_of_mem_of_not_mem hk hkeys) _ _
    -- No step names the key, and none leaves a block.
    have hsame : first.templates (values.withLabel key label) scope earlier =
        first.templates values scope earlier := by
      cases first with
      | jump opcode target => rw [templates, templates, hother hfirst List.mem_cons_self]
      | label name => rw [templates, templates, hother hfirst List.mem_cons_self]
      | exit target => exact absurd List.mem_cons_self (hexit target)
      | joinLabel name =>
        rw [templates, templates]
        exact ite_congr rfl (fun hname => by rw [hother hearlier hname]) fun _ => rfl
      | _ => rfl
    rw [templatesOf, templatesOf, hsame]
    refine congrArg _ (ih (fun target h => hexit target (List.mem_cons_of_mem first h)) ?_ hrest)
    rw [List.mem_append, not_or]
    exact ⟨hearlier, hfirst⟩

/-- A label of a key that segments do not name makes no difference to them. -/
theorem Segment.templates_withLabel {values : Valuation} {key : Key} {label : Label}
    {earlier : List Key} {segments : List Segment}
    (hexit : ∀ segment ∈ segments, ∀ target, .exit target ∉ segment.steps)
    (hearlier : key ∉ earlier) (hsegments : key ∉ segments.flatMap labelKeys) :
    templates (values.withLabel key label) earlier segments =
      templates values earlier segments := by
  induction segments generalizing earlier with
  | nil => rfl
  | cons first rest ih =>
    obtain ⟨hfirst, hrest⟩ := List.forall_mem_cons.1 hexit
    rw [List.flatMap_cons, List.mem_append, not_or] at hsegments
    rw [templates, templates, Step.templatesOf_withLabel hfirst hearlier hsegments.1,
      ih hrest (by simp [hearlier, hsegments.1]) hsegments.2]

/-! ### A block that is left on the way -/

namespace Language

/-- Behind the place where a label becomes unknown, the valuation may have another one for it. -/
theorem exists_seq_forgetting_iff {earlier later : List Key} {key : Key} {first second : Language}
    {templates others : Valuation → List Template}
    (hfirst : AmountsTo [] earlier first fun values => Template.sequence (templates values))
    (hsecond : AmountsTo (earlier.filter (· ≠ key)) later second
      fun values => Template.sequence (others values))
    (hothers : ∀ values label, others (values.withLabel key label) = others values)
    (nodes : List (Node Label)) :
    (∃ after, (first.seq (second.forgetting key)) .empty nodes after) ↔
      ∃ values, Template.sequence (templates values ++ others values) nodes := by
  constructor
  · rintro ⟨after, front, back, between, hnodes, hfront, hback⟩
    -- Behind the first part the key has no label, so that the second part may give it another one.
    have hlabelled := (hfirst.labelled Bindings.labelled_empty hfront).forgetLabel key
    obtain ⟨hextends, hothers'⟩ :=
      (hsecond.exists_iff hlabelled).1 ⟨after, hback, after.extends_valuation⟩
    obtain ⟨label, hextends⟩ := Valuation.extends_forgetLabel_iff.1 hextends
    obtain ⟨-, htemplates⟩ :=
      (hfirst.exists_iff Bindings.labelled_empty).1 ⟨between, hfront, hextends⟩
    -- The valuation has the label that was forgotten.
    refine ⟨after.valuation.withLabel key label, Template.sequence_append.2
      ⟨front, back, hnodes, htemplates, ?_⟩⟩
    rwa [hothers]
  · rintro ⟨values, h⟩
    obtain ⟨front, back, hnodes, htemplates, hothers'⟩ := Template.sequence_append.1 h
    obtain ⟨between, hfront, hextends⟩ :=
      (hfirst.exists_iff Bindings.labelled_empty).2 ⟨values.extends_empty, htemplates⟩
    have hlabelled := (hfirst.labelled Bindings.labelled_empty hfront).forgetLabel key
    have hextends' : values.Extends (between.forgetLabel key) :=
      Valuation.extends_forgetLabel_iff.2 ⟨values.labels key, by
        rwa [Valuation.withLabel, Function.update_eq_self]⟩
    obtain ⟨after, hback, -⟩ := (hsecond.exists_iff hlabelled).2 ⟨hextends', hothers'⟩
    exact ⟨after, front, back, between, hnodes, hfront, hback⟩

/-- The two ways out of a block. -/
theorem seq_exit_seq (front back : Language) (key : Key) :
    front.seq ((exit key).seq back) =
      (front.seq ((jump .goto key).seq back)).either
        ((front.seq (instruction (.opcode (·.isVarLoad = true)))).seq
          ((valueReturn.seq back).forgetting key)) := by
  have hreturn : ((instruction (.opcode (·.isVarLoad = true))).seq
        (valueReturn.forgetting key)).seq back =
      (instruction (.opcode (·.isVarLoad = true))).seq ((valueReturn.seq back).forgetting key) :=
    seq_assoc _ _ _
  rw [exit, either_seq, hreturn, seq_either, seq_assoc]
  funext before nodes after
  exact propext or_comm

/-- Segments with an exit among them ask for what either way out of the block reads, and for the
rest as it is behind that way. -/
theorem exists_ofSegments_exit_iff {front back : List Segment} {scope : Scope} {target : Symbol}
    (hfront : ∀ segment ∈ front, ∀ target, .exit target ∉ segment.steps)
    (hback : ∀ segment ∈ back, ∀ target, .exit target ∉ segment.steps)
    (htarget : target.resolve scope ∉ back.flatMap Segment.labelKeys) {nodes : List (Node Label)} :
    (∃ after, ofSegments (front ++ ⟨scope, [.exit target]⟩ :: back) .empty nodes after) ↔
      ∃ (values : Valuation) (exit : Exit), Template.sequence
        (Segment.templates values [] front ++
          exit.templates (values.labels (target.resolve scope)) ++
          Segment.templates values
            (exit.labelKeys (target.resolve scope) (front.flatMap Segment.labelKeys)) back)
        nodes := by
  have hbefore := amountsTo_ofSegments [] hfront
  have hjump := hbefore.seq ((amountsTo_jump _ .goto (target.resolve scope)).seq
    (amountsTo_ofSegments _ hback))
  have hreturn := exists_seq_forgetting_iff (hbefore.seq (amountsTo_load _))
    ((amountsTo_valueReturn _).seq (amountsTo_ofSegments _ hback))
    (fun values label => by
      -- Behind the return no step asks for the label of the key.
      rw [Segment.templates_withLabel hback (by simp) htarget]) nodes
  have hlanguage : ofSegments (front ++ ⟨scope, [.exit target]⟩ :: back) =
      (ofSegments front).seq ((exit (target.resolve scope)).seq (ofSegments back)) := by
    rw [ofSegments_append, ofSegments, ofSteps, ofSteps, seq_nothing, Step.language]
  rw [hlanguage, seq_exit_seq]
  refine exists_or.trans ((or_congr hjump.exists_empty_iff hreturn).trans ?_)
  simp only [List.nil_append, List.append_assoc]
  constructor
  · rintro (⟨values, h⟩ | ⟨values, h⟩)
    · exact ⟨values, .jump, h⟩
    · exact ⟨values, .valueReturn, h⟩
  · rintro ⟨values, _ | _, h⟩
    · exact .inl ⟨values, h⟩
    · exact .inr ⟨values, h⟩

end Language

end CleanupFilter
