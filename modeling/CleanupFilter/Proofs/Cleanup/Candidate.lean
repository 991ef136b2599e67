import Mathlib.Data.List.Nodup
import Mathlib.Data.List.Pairwise
import CleanupFilter.Proofs.Cleanup.Finding

/-!
# Where a resource cleanup is looked for

The search is tried at every position, and it skips pseudo-nodes before the first instruction. So a
cleanup is found at its first instruction and again at every pseudo-node directly in front of it,
but not at two instructions.

- `Code.IsInstruction`: whether a position holds an instruction.
- `resourceCleanup?_eq_some_iff_realFrom?`: a position stands for the first instruction from it on.
- `resourceCleanup?_starts`: a cleanup starts with the load of a reference.
- `last_eq_iff`: cleanups that end alike start with the same instruction.
- `Body.nodup_ignored_iff`: no position is reported twice iff only instructions are reported first.
- `Body.resourceCleanup?_candidates`: all of it for the candidates of a method.
-/

namespace CleanupFilter

-- The table is a large closed term, which the unifier would evaluate.
attribute [local irreducible] instructionTable

/-- The position holds an instruction, not a pseudo-node. -/
def Code.IsInstruction (code : Code) (position : Nat) : Prop :=
  ∃ node ∈ code[position]?, node.isPseudo = false

instance (code : Code) (position : Nat) : Decidable (code.IsInstruction position) :=
  inferInstanceAs (Decidable (∃ node ∈ code[position]?, node.isPseudo = false))

variable {code : Code} {start first last otherLast : Nat} {shape otherShape : ResourceShape}

/-! ### The first instruction -/

/-- The first instruction from a position on is at the position if one stands there. -/
theorem Code.realFrom?_eq_self_iff {position : Nat} :
    code.realFrom? position = some position ↔ code.IsInstruction position := by
  constructor
  · exact Code.exists_node_of_realFrom?
  · rintro ⟨node, hat, hnode⟩
    exact Code.realFrom?_of_node hat hnode

/-- What is found from a position on is an instruction. -/
theorem Code.isInstruction_of_realFrom? (h : code.realFrom? start = some first) :
    code.IsInstruction first :=
  Code.exists_node_of_realFrom? h

/-- What stands in front of the first instruction are pseudo-nodes. -/
theorem Code.isPseudo_of_lt_realFrom? {position : Nat} (h : code.realFrom? start = some first)
    (hstart : start ≤ position) (hfirst : position < first) :
    ∃ node ∈ code[position]?, node.isPseudo = true := by
  have hlt : position < code.size := Nat.lt_trans hfirst (Code.lt_size_of_realFrom?_eq_some h)
  have hat : code[position]? = some code[position] := Array.getElem?_eq_getElem hlt
  refine ⟨code[position], hat, ?_⟩
  by_contra hnode
  have hle := Code.le_of_realFrom? h hstart hat (Bool.eq_false_iff.2 hnode)
  omega

/-! ### Candidates -/

/-- In front of the end of a cleanup there is an instruction. -/
theorem exists_realFrom?_of_resourceCleanup?
    (h : resourceCleanup? code start = some (shape, last)) :
    ∃ first, code.realFrom? start = some first ∧ first ≤ last :=
  (resourceCleanup?_eq_some_iff.1 h).2.exists_real

/-- What is found at a position is what is found at the first instruction from there on. -/
theorem resourceCleanup?_eq_realFrom? (hstart : 1 ≤ start)
    (hfirst : code.realFrom? start = some first) :
    resourceCleanup? code start = resourceCleanup? code first := by
  have hle := Code.le_of_realFrom?_eq_some hfirst
  obtain ⟨p, rfl⟩ : ∃ p, start = p + 1 := ⟨start - 1, by omega⟩
  obtain ⟨q, rfl⟩ : ∃ q, first = q + 1 := ⟨first - 1, by omega⟩
  have hsame := hfirst.trans (Code.realFrom?_self hfirst).symm
  ext ⟨shape, last⟩
  rw [resourceCleanup?_eq_some_iff, resourceCleanup?_eq_some_iff, Cleanup.spans_congr hsame]
  exact and_congr_left fun _ => iff_of_true p.succ_pos q.succ_pos

/-- A cleanup is found at a position if and only if it is found at the first instruction from there
on, and another node stands in front of the position. -/
theorem resourceCleanup?_eq_some_iff_realFrom? {found : ResourceShape × Nat} :
    resourceCleanup? code start = some found ↔
      1 ≤ start ∧ ∃ first, code.realFrom? start = some first ∧
        resourceCleanup? code first = some found := by
  constructor
  · intro h
    have hpos := (resourceCleanup?_eq_some_iff.1 h).1
    obtain ⟨first, hfirst, -⟩ := exists_realFrom?_of_resourceCleanup? h
    exact ⟨hpos, first, hfirst, resourceCleanup?_eq_realFrom? hpos hfirst ▸ h⟩
  · rintro ⟨hpos, first, hfirst, h⟩
    exact (resourceCleanup?_eq_realFrom? hpos hfirst).trans h

/-- No other opcode with a letter of its own has that of `aload`. -/
theorem Opcode.letter_ne_aload_of_mem_named : ∀ opcode ∈ named, opcode.letter ≠ .aload := by
  decide

/-- The letter of `aload` stands for this opcode only. -/
theorem Opcode.eq_aload_of_letter {opcode : Opcode} (h : opcode.letter = .aload) :
    opcode = aload := by
  by_contra hne
  by_cases hnamed : opcode ∈ named
  · exact letter_ne_aload_of_mem_named opcode hnamed h
  · rw [letter_of_notMem_named hnamed hne] at h
    cases hload : opcode.isVarLoad <;> cases hreturn : opcode.isValueReturn <;>
      simp [hload, hreturn] at h

/-- Every cleanup of a resource starts with `aload`. -/
theorem ResourceShape.head?_of_mem_heads : ∀ shape ∈ ResourceShape.all, ∀ head ∈ shape.heads,
    head.head? = some .aload := by
  decide +kernel

/-- A resource cleanup starts with the load of a reference. -/
theorem resourceCleanup?_starts (h : resourceCleanup? code first = some (shape, last))
    (hfirst : code.IsInstruction first) : code[first]?.bind Node.opcode? = some .aload := by
  obtain ⟨-, nodes, after, hnodes, hholds, -⟩ := resourceCleanup?_eq_some_iff.1 h
  obtain ⟨head, hhead, rest, hword⟩ := Cleanup.exists_head hnodes
  have hletter : (word nodes).head? = some .aload := by
    have hstarts := ResourceShape.head?_of_mem_heads shape shape.mem_all head hhead
    rw [← hword, List.head?_append, hstarts, Option.some_or]
  obtain ⟨skipped, node, tail, opcode, rfl, hskipped, hnode, hopcode, hletter⟩ :=
    exists_of_head?_word hletter
  -- The nodes start with the instruction itself.
  have hreal : code.realFrom? first = some (first + skipped.length) := by
    rw [List.append_cons] at hholds
    exact Code.realFrom?_eq_some_iff.2
      ⟨skipped, node, hskipped, hnode, (Code.holds_append.1 hholds).1, rfl⟩
  rw [Code.realFrom?_eq_self_iff.2 hfirst, Option.some.injEq] at hreal
  have hat := hholds.getElem?
  rw [← hreal] at hat
  rw [hat, Option.bind_some, hopcode, Opcode.eq_aload_of_letter hletter]

/-- Of two cleanups with different first instructions, the one that starts earlier ends earlier. -/
theorem last_lt_last {other s t : Nat}
    (h : resourceCleanup? code start = some (shape, last))
    (hother : resourceCleanup? code other = some (otherShape, otherLast))
    (hs : code.realFrom? start = some s) (ht : code.realFrom? other = some t) (hlt : s < t) :
    last < t := by
  obtain ⟨-, hspans⟩ := resourceCleanup?_eq_some_iff.1 h
  obtain ⟨hpos, hotherSpans⟩ := resourceCleanup?_eq_some_iff.1 hother
  obtain ⟨p, rfl⟩ : ∃ p, other = p + 1 := ⟨other - 1, by omega⟩
  exact hspans.lt_of_lt hotherSpans hs ht hlt

/-- Cleanups end alike if and only if they have the same first instruction. -/
theorem last_eq_iff {other : Nat} (h : resourceCleanup? code start = some (shape, last))
    (hother : resourceCleanup? code other = some (otherShape, otherLast)) :
    last = otherLast ↔ code.realFrom? start = code.realFrom? other := by
  have hpos := (resourceCleanup?_eq_some_iff.1 h).1
  have hotherPos := (resourceCleanup?_eq_some_iff.1 hother).1
  -- Both are cleanups from their first instructions on.
  obtain ⟨s, hs, hsLast⟩ := exists_realFrom?_of_resourceCleanup? h
  obtain ⟨t, ht, htLast⟩ := exists_realFrom?_of_resourceCleanup? hother
  rw [hs, ht, Option.some.injEq]
  constructor
  · -- Otherwise one of them ends before the other one starts.
    rintro rfl
    rcases Nat.lt_trichotomy s t with hlt | heq | hlt
    · have := last_lt_last h hother hs ht hlt
      omega
    · exact heq
    · have := last_lt_last hother h ht hs hlt
      omega
  · rintro rfl
    rw [resourceCleanup?_eq_realFrom? hpos hs] at h
    rw [resourceCleanup?_eq_realFrom? hotherPos ht, h] at hother
    exact congrArg Prod.snd (Option.some.inj hother)

/-! ### Reported positions -/

/-- A span within the code holds the positions from its first to its last one. -/
theorem Code.mem_span {position : Nat} (hlast : last < code.size) :
    position ∈ code.span first last ↔ first ≤ position ∧ position ≤ last := by
  rw [span, Nat.min_eq_left hlast, List.mem_range'_1]
  omega

namespace Body

variable {body : Body Label} {f g : Finding}

/-- The findings are the cleanups of resources at their first positions. -/
theorem mem_resourceFindings :
    f ∈ body.resourceFindings ↔ ∃ shape, f.cleanup = .resources shape ∧
      resourceCleanup? body.nodes f.first = some (shape, f.last) := by
  rw [resourceFindings, List.mem_filterMap]
  constructor
  · rintro ⟨first, -, hfound⟩
    obtain ⟨⟨shape, last⟩, hcleanup, rfl⟩ := Option.map_eq_some_iff.1 hfound
    exact ⟨shape, rfl, hcleanup⟩
  · rintro ⟨shape, hshape, hcleanup⟩
    have hlt := (resourceCleanup?_eq_some_iff.1 hcleanup).2.lt_size
    refine ⟨f.first, List.mem_range.2 (Nat.lt_of_le_of_lt hlt.1 hlt.2), ?_⟩
    rw [hcleanup, Option.map_some]
    dsimp only
    rw [← hshape]

/-- Findings of resources are ordered by their first positions. -/
theorem pairwise_resourceFindings :
    body.resourceFindings.Pairwise fun f g => f.first < g.first := by
  refine List.pairwise_filterMap.2 (List.pairwise_lt_range.imp fun {a b} hlt f hf g hg => ?_)
  obtain ⟨_, -, rfl⟩ := Option.map_eq_some_iff.1 hf
  obtain ⟨_, -, rfl⟩ := Option.map_eq_some_iff.1 hg
  exact hlt

/-- The span of a finding holds the positions from its first to its last one. -/
theorem mem_span_of_mem_resourceFindings {position : Nat} (h : f ∈ body.resourceFindings) :
    position ∈ Code.span body.nodes f.first f.last ↔
      f.first ≤ position ∧ position ≤ f.last := by
  obtain ⟨shape, -, hcleanup⟩ := mem_resourceFindings.1 h
  exact Code.mem_span (resourceCleanup?_eq_some_iff.1 hcleanup).2.lt_size.2

/-- Cleanups that are found at instructions have no position in common. -/
theorem nodup_flatMap_span {findings : List Finding} (hsub : findings.Sublist body.resourceFindings)
    (hfirst : ∀ f ∈ findings, Code.IsInstruction body.nodes f.first) :
    (findings.flatMap fun f => Code.span body.nodes f.first f.last).Nodup := by
  refine List.nodup_flatMap.2 ⟨fun f _ => List.nodup_range', ?_⟩
  refine (pairwise_resourceFindings.sublist hsub).imp_of_mem fun {f g} hf hg hlt => ?_
  obtain ⟨_, -, hcleanup⟩ := mem_resourceFindings.1 (hsub.subset hf)
  obtain ⟨_, -, hother⟩ := mem_resourceFindings.1 (hsub.subset hg)
  have hend := last_lt_last hcleanup hother (Code.realFrom?_eq_self_iff.2 (hfirst f hf))
    (Code.realFrom?_eq_self_iff.2 (hfirst g hg)) hlt
  intro position hposition hposition'
  rw [mem_span_of_mem_resourceFindings (hsub.subset hf)] at hposition
  rw [mem_span_of_mem_resourceFindings (hsub.subset hg)] at hposition'
  omega

/-- A cleanup that is found at a pseudo-node is found once more at its first instruction. -/
theorem exists_resourceFinding (hf : f ∈ body.resourceFindings)
    (hfirst : ¬ Code.IsInstruction body.nodes f.first) :
    ∃ g ∈ body.resourceFindings, f.first < g.first ∧ g.first ≤ f.last ∧ g.last = f.last := by
  obtain ⟨shape, hshape, hcleanup⟩ := mem_resourceFindings.1 hf
  obtain ⟨first, hreal, hle⟩ := exists_realFrom?_of_resourceCleanup? hcleanup
  have hpos := (resourceCleanup?_eq_some_iff.1 hcleanup).1
  rw [resourceCleanup?_eq_realFrom? hpos hreal] at hcleanup
  have hg : ⟨f.cleanup, first, f.last⟩ ∈ body.resourceFindings :=
    mem_resourceFindings.2 ⟨shape, hshape, hcleanup⟩
  refine ⟨_, hg, ?_, hle, rfl⟩
  refine Nat.lt_of_le_of_ne (Code.le_of_realFrom?_eq_some hreal) ?_
  rintro rfl
  exact hfirst (Code.isInstruction_of_realFrom? hreal)

/-- Without monitors the ignored positions are the spans of the cleanups of resources. -/
theorem ignored_resources :
    body.ignored { monitors := false } =
      body.resourceFindings.flatMap fun f => Code.span body.nodes f.first f.last := by
  rw [ignored, findings]
  exact congrArg (List.flatMap _) (List.append_nil _)

/-- No position is reported twice if and only if no cleanup is found at a pseudo-node. -/
theorem nodup_ignored_iff :
    (body.ignored { monitors := false }).Nodup ↔
      ∀ f ∈ body.resourceFindings, Code.IsInstruction body.nodes f.first := by
  rw [ignored_resources]
  constructor
  · intro hnodup f hf
    by_contra hfirst
    obtain ⟨g, hg, hlt, hle, hlast⟩ := exists_resourceFinding hf hfirst
    -- The first instruction is reported with either cleanup.
    have hmem := (mem_span_of_mem_resourceFindings hf).2 ⟨Nat.le_of_lt hlt, hle⟩
    have hmem' := (mem_span_of_mem_resourceFindings hg).2 ⟨Nat.le_refl _, hlast ▸ hle⟩
    have hne : f ≠ g := by
      rintro rfl
      exact Nat.lt_irrefl _ hlt
    -- Which of the two comes first does not matter, since being disjoint is symmetric.
    have hsymm : Std.Symm
        (Function.onFun List.Disjoint fun f : Finding => Code.span body.nodes f.first f.last) :=
      ⟨fun _ _ h => List.disjoint_symm h⟩
    exact (List.nodup_flatMap.1 hnodup).2.forall hf hg hne hmem hmem'
  · exact nodup_flatMap_span (List.Sublist.refl _)

/-- A cleanup is found at its first instruction and at the pseudo-nodes directly in front of it,
except at the first node of the code. Cleanups that end alike have the same first instruction. The
cleanups found at instructions have no position in common, and a position is reported twice just
when some cleanup is found at a pseudo-node. -/
theorem resourceCleanup?_candidates (body : Body Label) :
    (∀ start found, resourceCleanup? body.nodes start = some found ↔
        1 ≤ start ∧ ∃ first, Code.realFrom? body.nodes start = some first ∧
          resourceCleanup? body.nodes first = some found) ∧
      (∀ start shape last, resourceCleanup? body.nodes start = some (shape, last) →
        ∃ first, start ≤ first ∧ first ≤ last ∧
          (∀ position, start ≤ position → position < first →
            ∃ node ∈ body.nodes[position]?, node.isPseudo = true) ∧
          body.nodes[first]?.bind Node.opcode? = some .aload) ∧
      (∀ s t shape otherShape last otherLast,
        resourceCleanup? body.nodes s = some (shape, last) →
        resourceCleanup? body.nodes t = some (otherShape, otherLast) →
        (last = otherLast ↔ Code.realFrom? body.nodes s = Code.realFrom? body.nodes t)) ∧
      (∀ s t shape otherShape last,
        Code.IsInstruction body.nodes s → Code.IsInstruction body.nodes t →
        resourceCleanup? body.nodes s = some (shape, last) →
        resourceCleanup? body.nodes t = some (otherShape, last) → s = t) ∧
      ((body.resourceFindings.filter fun f => Code.IsInstruction body.nodes f.first).flatMap
        fun f => Code.span body.nodes f.first f.last).Nodup ∧
      ((body.ignored { monitors := false }).Nodup ↔
        ∀ f ∈ body.resourceFindings, Code.IsInstruction body.nodes f.first) := by
  refine ⟨fun start found => resourceCleanup?_eq_some_iff_realFrom?, fun start shape last h => ?_,
    fun s t shape otherShape last otherLast h hother => last_eq_iff h hother,
    fun s t shape otherShape last hs ht h hother => ?_, ?_, nodup_ignored_iff⟩
  · obtain ⟨-, first, hfirst, hfound⟩ := resourceCleanup?_eq_some_iff_realFrom?.1 h
    obtain ⟨hlast, -⟩ := (resourceCleanup?_eq_some_iff.1 hfound).2.lt_size
    exact ⟨first, Code.le_of_realFrom?_eq_some hfirst, hlast,
      fun position hstart hlt => Code.isPseudo_of_lt_realFrom? hfirst hstart hlt,
      resourceCleanup?_starts hfound (Code.isInstruction_of_realFrom? hfirst)⟩
  -- At an instruction the search ends at once.
  · have hsame := (last_eq_iff h hother).1 rfl
    rw [Code.realFrom?_eq_self_iff.2 hs, Code.realFrom?_eq_self_iff.2 ht] at hsame
    exact Option.some.inj hsame
  · refine nodup_flatMap_span List.filter_sublist fun f hf => ?_
    exact of_decide_eq_true (List.mem_filter.1 hf).2

/-- A close behind a label and a line marker. -/
def labelled : Body Label where
  name := "copy"
  desc := "()V"
  nodes := (#[.var .astore 2, .label ⟨0⟩, .line 7 ⟨0⟩] : Code) ++ closedByHelper.extract 1 18
  tryCatches := []

/-- A match at a label, with the end of another match, and positions that are reported twice. -/
theorem ignored_labelled :
    resourceCleanup? labelled.nodes 1 = some (.javacOptimal, 18) ∧
      ¬ Code.IsInstruction labelled.nodes 1 ∧
      resourceCleanup? labelled.nodes 3 = some (.javacOptimal, 18) ∧
      ¬ (labelled.ignored { monitors := false }).Nodup := by
  refine ⟨?_, ?_, ?_, ?_⟩
  all_goals decide +kernel

/-- The cleanup behind a label is found from the label on as well, but at one instruction only. -/
theorem resourceCleanup?_candidates_labelled :
    resourceCleanup? labelled.nodes 2 = some (.javacOptimal, 18) ∧
      Code.realFrom? labelled.nodes 1 = Code.realFrom? labelled.nodes 2 ∧
      (∀ t shape, Code.IsInstruction labelled.nodes t →
        resourceCleanup? labelled.nodes t = some (shape, 18) → 3 = t) ∧
      (∃ f ∈ labelled.resourceFindings, ¬ Code.IsInstruction labelled.nodes f.first) := by
  have hlabel : resourceCleanup? labelled.nodes 1 = some (.javacOptimal, 18) := by decide +kernel
  have hload : resourceCleanup? labelled.nodes 3 = some (.javacOptimal, 18) := by decide +kernel
  have hreal : Code.realFrom? labelled.nodes 2 = some 3 := by decide +kernel
  have hinstruction : Code.IsInstruction labelled.nodes 3 := by decide +kernel
  have hnodup : ¬ (labelled.ignored { monitors := false }).Nodup := by decide +kernel
  obtain ⟨hcandidate, -, hends, hunique, -, hreported⟩ := resourceCleanup?_candidates labelled
  have hline := (hcandidate 2 _).2 ⟨by decide, 3, hreal, hload⟩
  refine ⟨hline, (hends 1 2 _ _ _ _ hlabel hline).1 rfl, fun t shape ht h => ?_, ?_⟩
  · exact hunique 3 t _ _ 18 hinstruction ht hload h
  · have hsome := mt hreported.2 hnodup
    push Not at hsome
    exact hsome

end Body

end CleanupFilter
