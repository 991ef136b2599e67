import CleanupFilter.Proofs.Cleanup.Word

/-!
# Cleanups do not overlap

No cleanup starts within another one: what is left of the word of a cleanup behind its first letter
is not how any cleanup goes on. Chains of resources need an argument of their own, as the second
close of a chain looks like the first one of a shorter chain. Such a chain has more handlers than
closes, though.

- `Clear`: words within which no cleanup starts.
- `Ecj.comparable_returningWord`: numbers of closes and of handlers can be read off a word.
- `Cleanup.not_comparable_suffix`: no cleanup starts within the word of another one.
- `Cleanup.Spans.lt_of_lt`: a cleanup ends before the next one starts.
-/

namespace CleanupFilter

/-! ### Words within which no cleanup starts -/

/-- Words are comparable if they start alike and what follows is comparable. -/
theorem comparable_cons {a b : Letter} {first second : List Letter} :
    Comparable (a :: first) (b :: second) ↔ a = b ∧ Comparable first second := by
  rw [Comparable, Comparable, List.cons_prefix_cons, List.cons_prefix_cons, and_or_left]
  rw [@eq_comm _ b a]

/-- A word is still comparable with another one if its back part is left out. -/
theorem Comparable.of_append {first rest second : List Letter}
    (h : Comparable (first ++ rest) second) : Comparable first second :=
  (h.symm.of_prefix (List.prefix_append first rest)).symm

/-- No cleanup starts with the word, nor does the word start with what tells a cleanup. -/
def StartsNoCleanup (w : List Letter) : Prop :=
  ∀ cleanup ∈ Cleanup.all, ∀ head ∈ cleanup.heads, ¬ Comparable w head

instance (w : List Letter) : Decidable (StartsNoCleanup w) :=
  inferInstanceAs (Decidable (∀ cleanup ∈ Cleanup.all, _))

/-- No cleanup starts with a longer word either. -/
theorem StartsNoCleanup.append {w : List Letter} (h : StartsNoCleanup w) (rest : List Letter) :
    StartsNoCleanup (w ++ rest) :=
  fun cleanup hcleanup head hhead hcomparable =>
    h cleanup hcleanup head hhead hcomparable.of_append

/-- A word with which no cleanup starts is comparable with none. -/
theorem StartsNoCleanup.not_comparable {w : List Letter} (h : StartsNoCleanup w) {cleanup : Cleanup}
    {before after : Bindings} {nodes : List (Node Label)}
    (hnodes : cleanup.language before nodes after) : ¬ Comparable w (word nodes) := by
  intro hcomparable
  obtain ⟨head, hhead, hprefix⟩ := Cleanup.exists_head hnodes
  exact h cleanup cleanup.mem_all head hhead (hcomparable.of_prefix hprefix)

/-- No cleanup starts anywhere in the word. -/
def Clear : List Letter → Prop
  | [] => True
  | a :: rest => StartsNoCleanup (a :: rest) ∧ Clear rest

instance Clear.decidable : (w : List Letter) → Decidable (Clear w)
  | [] => .isTrue trivial
  | a :: rest =>
    have := Clear.decidable rest
    inferInstanceAs (Decidable (StartsNoCleanup (a :: rest) ∧ Clear rest))

namespace Clear

/-- Clear words put together are clear. -/
theorem append {first second : List Letter} (hfirst : Clear first) (hsecond : Clear second) :
    Clear (first ++ second) := by
  induction first with
  | nil => exact hsecond
  | cons a rest ih => exact ⟨hfirst.1.append second, ih hfirst.2⟩

/-- Clear blocks put together are clear. -/
theorem replicate {block : List Letter} (h : Clear block) (count : Nat) :
    Clear (List.replicate count block).flatten := by
  induction count with
  | zero => exact trivial
  | succ count ih =>
    rw [List.replicate_succ, List.flatten_cons]
    exact h.append ih

/-- Within a clear word no cleanup starts. -/
theorem startsNoCleanup {w s : List Letter} (h : Clear w) (hs : s <:+ w) (hne : s ≠ []) :
    StartsNoCleanup s := by
  -- A suffix is the whole word or a suffix of its tail, which is clear as well.
  induction w with
  | nil => exact absurd (List.suffix_nil.1 hs) hne
  | cons a rest ih =>
    rcases List.suffix_cons_iff.1 hs with rfl | hs
    · exact h.1
    · exact ih h.2 hs

/-- Where a cleanup starts behind a clear word, it starts behind all of it. -/
theorem suffix_append {block w s : List Letter} (h : Clear block) (hs : s <:+ block ++ w) :
    StartsNoCleanup s ∨ s <:+ w := by
  induction block with
  | nil => exact .inr hs
  | cons a rest ih =>
    rcases List.suffix_cons_iff.1 hs with rfl | hs
    · exact .inl (h.1.append w)
    · exact ih h.2 hs

end Clear

/-! ### Chains of resources -/

namespace Ecj

/-- Within a chain behind a jump no cleanup starts. -/
theorem clear_jumpingWord (layers : Nat) : Clear (jumpingWord layers).tail := by
  have hinnermost : Clear (closeWord.tail ++ .goto :: .astore :: closeAndThrowWord) := by
    decide +kernel
  have hlayer : Clear layerWord := by decide +kernel
  have houtermost : Clear (suppressWord ++ [.aload, .athrow]) := by decide +kernel
  exact hinnermost.append ((hlayer.replicate layers).append houtermost)

/-- Within the handlers of a chain no cleanup starts. -/
theorem clear_handlersWord (count : Nat) :
    Clear (.valueReturn :: .astore :: handlersWord (count + 1)) := by
  have hfirst : Clear (.valueReturn :: .astore :: (closeAndThrowWord ++ suppressWord)) := by
    decide +kernel
  have hblock : Clear (closeAndThrowWord ++ suppressWord) := by decide +kernel
  have hthrow : Clear [.aload, .athrow] := by decide +kernel
  rw [handlersWord_succ]
  exact hfirst.append ((hblock.replicate count).append hthrow)

/-- Within a chain, a cleanup could start at a close only. -/
theorem startsNoCleanup_or_eq_returningWord {closes count : Nat} {s : List Letter}
    (hs : s <:+ returningWord closes (count + 1)) (hne : s ≠ []) :
    StartsNoCleanup s ∨ ∃ rest, s = returningWord (rest + 1) (count + 1) ∧ rest < closes := by
  induction closes with
  | zero => exact .inl ((clear_handlersWord count).startsNoCleanup hs hne)
  | succ closes ih =>
    have hclear : Clear closeWord.tail := by decide +kernel
    rw [returningWord_succ] at hs
    -- The suffix starts at the first close, within it, or behind it.
    rcases List.suffix_cons_iff.1 hs with hs | hs
    · exact .inr ⟨closes, hs.trans (returningWord_succ closes (count + 1)).symm, Nat.lt_succ_self _⟩
    · rcases hclear.suffix_append hs with hs | hs
      · exact .inl hs
      · rcases ih hs with hs | ⟨rest, hs, hlt⟩
        · exact .inl hs
        · exact .inr ⟨rest, hs, Nat.lt_succ_of_lt hlt⟩

/-- Handlers are comparable only if there are as many of them. -/
theorem comparable_handlersWord {m n : Nat} (h : Comparable (handlersWord m) (handlersWord n)) :
    m = n := by
  -- The handler of a resource and the outermost one differ in their second letters.
  have hthrow : ∀ n, ¬ Comparable (handlersWord 0) (handlersWord (n + 1)) := by
    intro n h
    rw [handlersWord_succ] at h
    exact absurd (comparable_cons.1 (comparable_cons.1 h).2).1 (by decide)
  induction m generalizing n with
  | zero =>
    cases n with
    | zero => rfl
    | succ n => exact absurd h (hthrow n)
  | succ m ih =>
    cases n with
    | zero => exact absurd h.symm (hthrow m)
    | succ n =>
      rw [handlersWord_succ, handlersWord_succ, comparable_append_left] at h
      rw [ih h]

/-- The numbers of closes and of handlers can be read off a word, whatever stands behind it. -/
theorem comparable_returningWord {m n closes handlers : Nat}
    (h : Comparable (returningWord m n) (returningWord closes handlers)) :
    m = closes ∧ n = handlers := by
  -- A return is not a close, as their first letters tell.
  have hreturn : ∀ n closes handlers,
      ¬ Comparable (returningWord 0 n) (returningWord (closes + 1) handlers) := by
    intro n closes handlers h
    rw [returningWord_succ] at h
    exact absurd (comparable_cons.1 h).1 (by decide)
  induction m generalizing closes with
  | zero =>
    cases closes with
    | zero =>
      exact ⟨rfl, comparable_handlersWord (comparable_cons.1 (comparable_cons.1 h).2).2⟩
    | succ closes => exact absurd h (hreturn n closes handlers)
  | succ m ih =>
    cases closes with
    | zero => exact absurd h.symm (hreturn handlers m n)
    | succ closes =>
      rw [returningWord_succ, returningWord_succ, comparable_append_left] at h
      obtain ⟨rfl, hhandlers⟩ := ih h
      exact ⟨rfl, hhandlers⟩

/-- A chain with a return is not comparable with one with a jump. -/
theorem not_comparable_jumpingWord (closes handlers layers : Nat) :
    ¬ Comparable (returningWord (closes + 1) handlers) (jumpingWord layers) := by
  intro h
  rw [returningWord_succ, jumpingWord, comparable_append_left] at h
  -- Behind the first close stands a return or another close, but no jump.
  cases closes with
  | zero => exact absurd (comparable_cons.1 h).1 (by decide)
  | succ closes => exact absurd (comparable_cons.1 h).1 (by decide)

/-- The rest of a chain has more handlers than closes, so no cleanup starts there either. -/
theorem not_comparable_returningWord {rest count : Nat} (hlt : rest < count) {cleanup : Cleanup}
    {before after : Bindings} {nodes : List (Node Label)}
    (hnodes : cleanup.language before nodes after) :
    ¬ Comparable (returningWord (rest + 1) (count + 1)) (word nodes) := by
  intro h
  by_cases hecj : cleanup = .resources .ecj
  · subst hecj
    -- A chain in front of a jump goes on in another way.
    rcases word_of_language hnodes with ⟨layers, hword⟩ | ⟨other, hword⟩
    · rw [hword] at h
      exact not_comparable_jumpingWord _ _ _ h
    · -- A chain of its own has as many handlers as closes.
      rw [hword] at h
      obtain ⟨hcloses, hhandlers⟩ := comparable_returningWord h
      omega
  · -- The word starts like the cleanup by ecj, which no other cleanup does.
    have hhead : ∃ head ∈ heads, head <+: returningWord (rest + 1) (count + 1) := by
      cases rest with
      | zero => exact ⟨closeWord ++ [.valueReturn], by decide, ⟨_, rfl⟩⟩
      | succ rest => exact ⟨closeWord ++ [.aload, .ifNull], by decide, ⟨_, rfl⟩⟩
    obtain ⟨head, hmem, hprefix⟩ := hhead
    obtain ⟨other, hother, hotherPrefix⟩ := Cleanup.exists_head hnodes
    refine hecj (Cleanup.eq_of_comparable_heads cleanup cleanup.mem_all (.resources .ecj)
      (Cleanup.mem_all _) other hother head hmem ?_)
    exact ((h.of_prefix hotherPrefix).symm.of_prefix hprefix)

end Ecj

/-! ### All cleanups -/

namespace Cleanup

/-- Behind its first instruction no other shape has the start of a cleanup. -/
theorem clear_tail_heads : ∀ cleanup ∈ all, cleanup ≠ .resources .ecj →
    ∀ head ∈ cleanup.heads, Clear head.tail := by
  decide +kernel

variable {cleanup other : Cleanup}

/-- No cleanup starts within the word of another one. -/
theorem not_comparable_suffix {before after before' after' : Bindings}
    {nodes others : List (Node Label)} (hnodes : cleanup.language before nodes after)
    (hothers : other.language before' others after') {s : List Letter} (hs : s <:+ word nodes)
    (hne : s ≠ []) (hproper : s ≠ word nodes) : ¬ Comparable s (word others) := by
  have htail : ∀ {w : List Letter}, word nodes = w → s <:+ w.tail := by
    rintro w rfl
    cases hw : word nodes with
    | nil => exact absurd (List.suffix_nil.1 (hw ▸ hs)) hne
    | cons a rest =>
      rw [hw] at hs hproper
      exact (List.suffix_cons_iff.1 hs).resolve_left hproper
  -- A proper suffix of a chain may start like a chain, one of any other word does not.
  by_cases hecj : cleanup = .resources .ecj
  · subst hecj
    rcases Ecj.word_of_language hnodes with ⟨layers, hword⟩ | ⟨count, hword⟩
    · exact ((Ecj.clear_jumpingWord layers).startsNoCleanup (htail hword) hne).not_comparable
        hothers
    · rw [hword] at hs hproper
      rcases Ecj.startsNoCleanup_or_eq_returningWord hs hne with hstart | ⟨rest, rfl, hlt⟩
      · exact hstart.not_comparable hothers
      · have hrest : rest ≠ count := by
          rintro rfl
          exact hproper rfl
        exact Ecj.not_comparable_returningWord (by omega) hothers
  · have hclear := clear_tail_heads cleanup cleanup.mem_all hecj _ (word_mem_heads hecj hnodes)
    exact (hclear.startsNoCleanup (htail rfl) hne).not_comparable hothers

/-- Code with an instruction among its nodes has a letter. -/
theorem word_ne_nil_of_realFrom? {code : Code} {start first found : Nat} {nodes : List (Node Label)}
    (hfound : code.realFrom? start = some found) (hholds : code.Holds first nodes)
    (hle : first ≤ found) (hlt : found < first + nodes.length) : word nodes ≠ [] := by
  obtain ⟨node, hat, hnode⟩ := Code.exists_node_of_realFrom? hfound
  intro hword
  rw [word_eq_nil_iff.1 hword node (hholds.mem hat hle hlt)] at hnode
  exact Bool.noConfusion hnode

/-- A cleanup ends before the first instruction of the next one. -/
theorem Spans.lt_of_lt {code : Code} {first last position otherLast s t : Nat}
    (h : cleanup.Spans code first last) (hother : other.Spans code (position + 1) otherLast)
    (hs : code.realFrom? first = some s) (ht : code.realFrom? (position + 1) = some t)
    (hlt : s < t) : last < t := by
  refine Nat.lt_of_not_le fun hle => ?_
  obtain ⟨nodes, after, hnodes, hholds, hlast⟩ := h
  have hfirst := Code.le_of_realFrom?_eq_some hs
  obtain ⟨t, rfl⟩ : ∃ k, t = k + 1 := ⟨t - 1, by omega⟩
  -- The pseudo-nodes in front of the second cleanup may belong to the first one.
  have hspans := (spans_congr (ht.trans (Code.realFrom?_self ht).symm)).1 hother
  obtain ⟨others, after', hothers, hholds', -⟩ := hspans
  -- The first cleanup is cut in two where the second one starts.
  have hlength : (nodes.take (t + 1 - first)).length = t + 1 - first :=
    List.length_take_of_le (by omega)
  have hlength' := List.length_drop (i := t + 1 - first) (l := nodes)
  have hword := word_append (nodes.take (t + 1 - first)) (nodes.drop (t + 1 - first))
  rw [List.take_append_drop] at hword
  rw [← List.take_append_drop (t + 1 - first) nodes] at hholds
  obtain ⟨hfront, hback⟩ := Code.holds_append.1 hholds
  rw [hlength, Nat.add_sub_cancel' (by omega)] at hback
  -- Each part holds an instruction, so the second one is a proper suffix.
  have hfrontWord := word_ne_nil_of_realFrom? hs hfront hfirst (by omega)
  have hbackWord := word_ne_nil_of_realFrom? ht hback (Nat.le_refl _) (by omega)
  refine not_comparable_suffix hnodes hothers (hword ▸ List.suffix_append _ _) hbackWord ?_
    (hback.comparable hholds')
  intro heq
  rw [hword] at heq
  exact hfrontWord (List.self_eq_append_left.1 heq)

end Cleanup

end CleanupFilter
