import CleanupFilter.Proofs.Cleanup.Overlap
import CleanupFilter.Proofs.Cleanup.ResourceShape

/-!
# Findings do not share instructions

Every finding is a cleanup, and what two findings have in common is either the whole cleanup or no
instruction at all.

- `Finding.IsCleanup`: the nodes of the finding are the cleanup that it names.
- `Body.isCleanup_of_mem_findings`: all findings are cleanups.
- `Body.findings_disjoint`: no instruction is attributed to two cleanups.
-/

namespace CleanupFilter

namespace Cleanup

variable {code : Code} {cleanup other : Cleanup}

/-- No cleanup is without instructions. -/
theorem word_ne_nil {before after : Bindings} {nodes : List (Node Label)}
    (h : cleanup.language before nodes after) : word nodes ≠ [] := by
  obtain ⟨front, node, hopcode, hend⟩ := endsInThrow h
  have hmem : node ∈ nodes := by
    rcases hend with rfl | ⟨label, rfl⟩ <;> simp
  intro hword
  -- Without letters all nodes are pseudo-nodes, but the throw is none.
  rw [Node.opcode?_eq_none_iff.2 (word_eq_nil_iff.1 hword node hmem)] at hopcode
  exact absurd hopcode (by simp)

/-- A cleanup has a first instruction. -/
theorem Spans.exists_real {first last : Nat} (h : cleanup.Spans code first last) :
    ∃ found, code.realFrom? first = some found ∧ found ≤ last := by
  obtain ⟨nodes, after, hnodes, hholds, hlast⟩ := h
  obtain ⟨letter, hhead⟩ : ∃ letter, (word nodes).head? = some letter :=
    Option.ne_none_iff_exists'.1 (mt List.head?_eq_none_iff.1 (word_ne_nil hnodes))
  obtain ⟨skipped, node, tail, -, rfl, hskipped, hnode, -⟩ := exists_of_head?_word hhead
  rw [List.length_append, List.length_cons] at hlast
  rw [List.append_cons] at hholds
  refine ⟨first + skipped.length, ?_, by omega⟩
  exact Code.realFrom?_eq_some_iff.2
    ⟨skipped, node, hskipped, hnode, (Code.holds_append.1 hholds).1, rfl⟩

end Cleanup

namespace Finding

/-- The nodes of the finding are the cleanup that it names. The label of a handler that releases a
monitor stands in front of the cleanup. -/
def IsCleanup (code : Code) (finding : Finding) : Prop :=
  ∃ position, finding.cleanup.Spans code (position + 1) finding.last ∧
    code.realFrom? finding.first = code.realFrom? (position + 1)

namespace IsCleanup

variable {code : Code} {f g : Finding}

/-- A finding has an instruction. -/
theorem exists_real (h : f.IsCleanup code) : ∃ found, code.realFrom? f.first = some found := by
  obtain ⟨position, hspans, hreal⟩ := h
  obtain ⟨found, hfound, -⟩ := hspans.exists_real
  exact ⟨found, hreal.trans hfound⟩

/-- Findings that start at the same instruction end together. -/
theorem last_eq (hf : f.IsCleanup code) (hg : g.IsCleanup code)
    (h : code.realFrom? f.first = code.realFrom? g.first) : f.last = g.last := by
  obtain ⟨p, hp, hpReal⟩ := hf
  obtain ⟨q, hq, hqReal⟩ := hg
  have hsame : code.realFrom? (p + 1) = code.realFrom? (q + 1) := by rw [← hpReal, h, hqReal]
  exact (((Cleanup.spans_congr hsame).1 hp).unique hq).2

/-- Of two findings, the one with the earlier first instruction ends before that of the other. -/
theorem not_both (hf : f.IsCleanup code) (hg : g.IsCleanup code) {s t : Nat}
    (hs : code.realFrom? f.first = some s) (ht : code.realFrom? g.first = some t) (hlt : s < t)
    {position : Nat} {node : Node Label} (hat : code[position]? = some node)
    (hnode : node.isPseudo = false) : ¬ (position ≤ f.last ∧ g.first ≤ position) := by
  rintro ⟨hlast, hfirst⟩
  obtain ⟨p, hp, hpReal⟩ := hf
  obtain ⟨q, hq, hqReal⟩ := hg
  -- The first finding ends before the first instruction of the second one.
  have hend := hp.lt_of_lt hq (hpReal.symm.trans hs) (hqReal.symm.trans ht) hlt
  have hstart := Code.le_of_realFrom? ht hfirst hat hnode
  omega

end IsCleanup

end Finding

namespace Body

/-- What is found for resources is cleanup code. -/
theorem isCleanup_of_mem_resourceFindings {body : Body Label} {finding : Finding}
    (h : finding ∈ body.resourceFindings) : finding.IsCleanup body.nodes := by
  obtain ⟨first, -, hfound⟩ := List.mem_filterMap.1 h
  obtain ⟨⟨shape, last⟩, hcleanup, rfl⟩ := Option.map_eq_some_iff.1 hfound
  obtain ⟨hpos, hspans⟩ := resourceCleanup?_eq_some_iff.1 hcleanup
  obtain ⟨position, rfl⟩ : ∃ position, first = position + 1 := ⟨first - 1, by omega⟩
  exact ⟨position, hspans, rfl⟩

/-- The first instruction from a label on stands behind the label. -/
theorem realFrom?_of_placement? {code : Code} {label : Label} {position : Nat}
    (h : code.placement? label = some position) :
    code.realFrom? position = code.realFrom? (position + 1) := by
  rw [Code.placement?] at h
  have hlabel : code[position]? = some (.label label) := by simpa using List.find?_some h
  exact Code.realFrom?_of_isPseudo hlabel rfl

/-- What is found for monitors is cleanup code. -/
theorem isCleanup_of_mem_monitorFindings {body : Body Label} {finding : Finding}
    (h : finding ∈ body.monitorFindings) : finding.IsCleanup body.nodes := by
  obtain ⟨entry, -, hentry⟩ := List.mem_filterMap.1 h
  obtain ⟨first, hfirst, hfound⟩ := Option.bind_eq_some_iff.1 hentry
  obtain ⟨⟨shape, last⟩, hrelease, rfl⟩ := Option.map_eq_some_iff.1 hfound
  rw [monitorRelease?] at hrelease
  split_ifs at hrelease
  rw [hfirst, Option.bind_some] at hrelease
  obtain ⟨other, -, hother⟩ := List.exists_of_findSome?_eq_some hrelease
  obtain ⟨_, hlast, ⟨⟩⟩ := Option.map_eq_some_iff.1 hother
  refine ⟨first, ?_, realFrom?_of_placement? hfirst⟩
  exact Cleanup.bind_follow?_eq_some_iff.1 hlast

/-- Everything that is found is cleanup code. -/
theorem isCleanup_of_mem_findings {config : FilterConfig} {body : Body Label} {finding : Finding}
    (h : finding ∈ body.findings config) : finding.IsCleanup body.nodes := by
  have hif : ∀ {enabled : Bool} {found : List Finding},
      finding ∈ (if enabled then found else []) → finding ∈ found := by
    intro enabled found hfound
    split_ifs at hfound
    · exact hfound
    · exact absurd hfound List.not_mem_nil
  rcases List.mem_append.1 h with h | h
  · exact isCleanup_of_mem_resourceFindings (hif h)
  · exact isCleanup_of_mem_monitorFindings (hif h)

/-- No instruction is attributed to two cleanups: two findings either have their first instruction
and their last node in common, or no instruction at all. A resource cleanup ends before the next one
starts. -/
theorem findings_disjoint (config : FilterConfig) (body : Body Label) :
    (∀ f ∈ body.findings config, ∀ g ∈ body.findings config,
        (f.last = g.last ∧ ∃ found, Code.realFrom? body.nodes f.first = some found ∧
          Code.realFrom? body.nodes g.first = some found) ∨
        ∀ position node, body.nodes[position]? = some node → node.isPseudo = false →
          ¬ ((f.first ≤ position ∧ position ≤ f.last) ∧
            (g.first ≤ position ∧ position ≤ g.last))) ∧
      ∀ s t node other shape last otherShape otherLast, s < t →
        body.nodes[s]? = some node → node.isPseudo = false →
        body.nodes[t]? = some other → other.isPseudo = false →
        resourceCleanup? body.nodes s = some (shape, last) →
        resourceCleanup? body.nodes t = some (otherShape, otherLast) → last < t := by
  refine ⟨fun f hf g hg => ?_, ?_⟩
  -- Findings are compared by their first instructions, since they may start with pseudo-nodes.
  · have hf := isCleanup_of_mem_findings hf
    have hg := isCleanup_of_mem_findings hg
    obtain ⟨s, hs⟩ := hf.exists_real
    obtain ⟨t, ht⟩ := hg.exists_real
    rcases Nat.lt_trichotomy s t with hlt | rfl | hlt
    · refine .inr fun position node hat hnode ⟨hposition, hposition'⟩ => ?_
      exact hf.not_both hg hs ht hlt hat hnode ⟨hposition.2, hposition'.1⟩
    · -- The same first instruction: the whole cleanup is the same.
      exact .inl ⟨hf.last_eq hg (hs.trans ht.symm), s, hs, ht⟩
    · refine .inr fun position node hat hnode ⟨hposition, hposition'⟩ => ?_
      exact hg.not_both hf ht hs hlt hat hnode ⟨hposition'.2, hposition.1⟩
  · intro s t node other shape last otherShape otherLast hlt hs hnode ht hother hfound hotherFound
    obtain ⟨-, hspans⟩ := resourceCleanup?_eq_some_iff.1 hfound
    obtain ⟨hpos, hotherSpans⟩ := resourceCleanup?_eq_some_iff.1 hotherFound
    -- The later one starts behind a position, as every candidate does.
    obtain ⟨t, rfl⟩ : ∃ k, t = k + 1 := ⟨t - 1, by omega⟩
    exact hspans.lt_of_lt hotherSpans (Code.realFrom?_of_node hs hnode)
      (Code.realFrom?_of_node ht hother) hlt

/-- A resource is closed, and then the next one is. -/
def closedTwice : Body Label where
  name := "copy"
  desc := "()V"
  nodes := closedByHelper.extract 0 17 ++ closedByHelper.extract 1 18
  tryCatches := []

/-- The label between two cleanups is part of either, but no instruction is. -/
theorem findings_closedTwice :
    closedTwice.findings {} = [⟨.resources .javacOptimal, 1, 16⟩,
        ⟨.resources .javacOptimal, 16, 32⟩, ⟨.resources .javacOptimal, 17, 32⟩] ∧
      16 < 17 ∧
      ∀ position node, closedTwice.nodes[position]? = some node → node.isPseudo = false →
        ¬ ((1 ≤ position ∧ position ≤ 16) ∧ (16 ≤ position ∧ position ≤ 32)) := by
  have hfindings : closedTwice.findings {} = [⟨.resources .javacOptimal, 1, 16⟩,
      ⟨.resources .javacOptimal, 16, 32⟩, ⟨.resources .javacOptimal, 17, 32⟩] := by
    decide +kernel
  obtain ⟨hpairs, hends⟩ := findings_disjoint {} closedTwice
  refine ⟨hfindings, ?_, ?_⟩
  · exact hends 1 17 (.var .aload 1) (.var .aload 1) .javacOptimal 16 .javacOptimal 32 (by decide)
      rfl rfl rfl rfl (by decide +kernel) (by decide +kernel)
  · rw [hfindings] at hpairs
    have hpair := hpairs _ List.mem_cons_self _ (List.mem_cons_of_mem _ List.mem_cons_self)
    exact hpair.resolve_left fun h => absurd h.1 (by decide)

/-- A resource that is closed by the synthetic method, and a monitor that is released. -/
def closedAndReleased : Body Label where
  name := "copy"
  desc := "()V"
  nodes := closedByHelper ++ (#[.label ⟨2⟩, .var .astore 5, .line 7 ⟨0⟩, .var .aload 6,
    .plain .monitorExit, .var .aload 5, .plain .athrow] : Code)
  tryCatches := [⟨⟨0⟩, ⟨2⟩, ⟨2⟩, none⟩]

end Body

end CleanupFilter
