import CleanupFilter.Proofs.Cleanup.Language

/-!
# Words of cleanup code

Every cleanup starts with one of a few words, and from these words alone one can tell which cleanup
it is.

- `Comparable`: one word goes on where another one ends.
- `Ecj.word_of_language`: the words of the cleanup by ecj, for chains of any length.
- `Cleanup.heads`: what the words of a cleanup start with.
- `Cleanup.Spans.unique`: where a cleanup starts no other one does.
-/

namespace CleanupFilter

/-! ### Comparable words -/

/-- One of the words starts with the other one. -/
def Comparable (first second : List Letter) : Prop :=
  first <+: second ∨ second <+: first

instance (first second : List Letter) : Decidable (Comparable first second) :=
  inferInstanceAs (Decidable (_ ∨ _))

theorem Comparable.symm {first second : List Letter} (h : Comparable first second) :
    Comparable second first :=
  Or.symm h

/-- What a word is comparable with is comparable with all that the word starts with. -/
theorem Comparable.of_prefix {first second head : List Letter} (h : Comparable first second)
    (hhead : head <+: second) : Comparable first head := by
  rcases h with h | h
  · exact List.prefix_or_prefix_of_prefix h hhead
  · exact .inr (hhead.trans h)

/-- Words that start alike are comparable if what follows is. -/
theorem comparable_append_left {front first second : List Letter} :
    Comparable (front ++ first) (front ++ second) ↔ Comparable first second := by
  rw [Comparable, Comparable, List.prefix_append_right_inj, List.prefix_append_right_inj]

/-- Nodes that stand in the same place have comparable words. -/
theorem Code.Holds.comparable {code : Code} {first : Nat} {nodes others : List (Node Label)}
    (hnodes : code.Holds first nodes) (hothers : code.Holds first others) :
    Comparable (word nodes) (word others) := by
  rcases List.prefix_or_prefix_of_prefix hnodes hothers with h | h
  · exact .inl (h.filterMap _)
  · exact .inr (h.filterMap _)

/-! ### Cleanup by ecj -/

namespace Ecj

/-- The word of a close. -/
def closeWord : List Letter :=
  [.aload, .ifNull, .aload, .call]

/-- The word of a close and a throw. -/
def closeAndThrowWord : List Letter :=
  [.aload, .ifNull, .aload, .call, .aload, .athrow]

/-- The word of a handler. -/
def suppressWord : List Letter :=
  [.astore, .aload, .ifNonNull, .aload, .astore, .goto, .aload, .aload, .ifAcmpEq, .aload, .aload,
    .call]

/-- The word of a layer. -/
def layerWord : List Letter :=
  closeWord ++ .goto :: (suppressWord ++ closeAndThrowWord)

/-- The word of a chain of resources in which jumps lead outwards. -/
def jumpingWord (layers : Nat) : List Letter :=
  closeWord ++ .goto :: .astore :: (closeAndThrowWord ++
    ((List.replicate layers layerWord).flatten ++ (suppressWord ++ [.aload, .athrow])))

/-- The word of the handlers of resources and of the outermost handler. -/
def handlersWord (count : Nat) : List Letter :=
  (List.replicate count (closeAndThrowWord ++ suppressWord)).flatten ++ [.aload, .athrow]

/-- The word of closes, a value return and handlers. -/
def returningWord (closes handlers : Nat) : List Letter :=
  (List.replicate closes closeWord).flatten ++ .valueReturn :: .astore :: handlersWord handlers

/-- One more resource is closed in front of the others. -/
theorem returningWord_succ (closes handlers : Nat) :
    returningWord (closes + 1) handlers = closeWord ++ returningWord closes handlers := by
  rw [returningWord, returningWord, List.replicate_succ, List.flatten_cons, List.append_assoc]

/-- One more resource has its handler in front of the others. -/
theorem handlersWord_succ (count : Nat) :
    handlersWord (count + 1) = closeAndThrowWord ++ suppressWord ++ handlersWord count := by
  rw [handlersWord, handlersWord, List.replicate_succ, List.flatten_cons, List.append_assoc]

/-- Steps with one word have the letters of this word. -/
theorem word_of_ofSteps {steps : List Step} {w : List Letter} (h : Step.wordsOf steps = [w])
    {scope : Scope} {before after : Bindings} {nodes : List (Node Label)}
    (hnodes : Language.ofSteps scope steps before nodes after) : word nodes = w := by
  have hmem := Language.spelledBy_ofSteps scope steps before nodes after hnodes
  rw [h] at hmem
  exact List.mem_singleton.1 hmem

/-- The letters of layers are those of a layer several times, and those of the tail. -/
theorem word_of_layers {inner : Nat} {before after : Bindings} {nodes : List (Node Label)}
    (h : Layers inner before nodes after) :
    ∃ layers, word nodes =
      (List.replicate layers layerWord).flatten ++ (suppressWord ++ [.aload, .athrow]) := by
  induction h with
  | outermost houtermost =>
    obtain ⟨u, v, between, rfl, hu, hv⟩ := houtermost
    refine ⟨0, ?_⟩
    have hsuppress : word u = suppressWord := word_of_ofSteps rfl hu
    have hthrow : word v = [.aload, .athrow] := word_of_ofSteps rfl hv
    rw [word_append, hsuppress, hthrow]
    rfl
  | @layer inner _ _ _ front back hlayer _ ih =>
    obtain ⟨layers, hback⟩ := ih
    -- The words of a layer do not depend on the index of its resource.
    have hfront : word front ∈ Segment.words (layer 0) :=
      Language.spelledBy_ofSegments (layer inner) _ front _ hlayer
    have hwords : Segment.words (layer 0) = [layerWord] := rfl
    rw [hwords] at hfront
    refine ⟨layers + 1, ?_⟩
    rw [word_append, hback, List.mem_singleton.1 hfront, List.replicate_succ, List.flatten_cons,
      List.append_assoc]

/-- The letters of closes are those of a close several times, and that of the return. -/
theorem word_of_closes {count total : Nat} {before after : Bindings} {nodes : List (Node Label)}
    (h : Closes count total before nodes after) :
    ∃ closes, total = count + closes ∧
      word nodes = (List.replicate closes closeWord).flatten ++ [.valueReturn] := by
  induction h with
  | done hreturn =>
    exact ⟨0, rfl, List.mem_singleton.1 (Language.spelledBy_valueReturn _ _ _ hreturn)⟩
  | @close count _ _ _ _ _ _ hclose _ ih =>
    obtain ⟨closes, rfl, hback⟩ := ih
    refine ⟨closes + 1, by omega, ?_⟩
    rw [word_append, hback, word_of_ofSteps (w := closeWord) rfl hclose, List.replicate_succ,
      List.flatten_cons, List.append_assoc]

/-- The handlers are spelled in one way, whichever resources they are about. -/
theorem words_handlers (count : Nat) :
    Segment.words (handlers count) = [.astore :: handlersWord count] := by
  -- Only the number of resources counts, so the statement is about any indices.
  have hresources : ∀ indices : List Nat,
      Segment.words (indices.map (fun index => ⟨.resource index, closeAndThrow ++ suppress⟩) ++
        [⟨.method, throwPrimary⟩]) = [handlersWord indices.length] := by
    intro indices
    induction indices with
    | nil => rfl
    | cons index rest ih =>
      have hsteps : Step.wordsOf (closeAndThrow ++ suppress) =
          [closeAndThrowWord ++ suppressWord] := rfl
      rw [List.map_cons, List.cons_append, Segment.words, ih, hsteps, List.length_cons,
        handlersWord_succ]
      rfl
  have hcount := hresources (List.range count)
  rw [List.length_range] at hcount
  rw [handlers, List.cons_append, Segment.words, hcount]
  rfl

/-- The words of the cleanup by ecj. -/
theorem word_of_language {before after : Bindings} {nodes : List (Node Label)}
    (h : language before nodes after) :
    (∃ layers, word nodes = jumpingWord layers) ∨
      ∃ count, word nodes = returningWord (count + 1) (count + 1) := by
  obtain ⟨first, behind, between, rfl, hfirst, hbehind⟩ := h
  have hclose : word first = closeWord := word_of_ofSteps rfl hfirst
  rcases hbehind with ⟨u, v, _, rfl, hu, hv⟩ | ⟨total, u, v, _, rfl, hu, hv⟩
  · -- The jump, the handler of the innermost resource, and the layers.
    obtain ⟨layers, hlayers⟩ := word_of_layers hv
    have hinnermost : word u = .goto :: .astore :: closeAndThrowWord := word_of_ofSteps rfl hu
    refine .inl ⟨layers, ?_⟩
    rw [word_append, word_append, hclose, hinnermost, hlayers, jumpingWord]
    rfl
  · -- As many handlers as there were closes, the first one included.
    obtain ⟨closes, rfl, hcloses⟩ := word_of_closes hu
    have hhandlers := Language.spelledBy_ofSegments _ _ _ _ hv
    rw [words_handlers] at hhandlers
    refine .inr ⟨closes, ?_⟩
    rw [word_append, word_append, hclose, hcloses, List.mem_singleton.1 hhandlers,
      returningWord_succ, Nat.add_comm closes 1, returningWord, List.append_assoc]
    rfl

end Ecj

/-! ### What words start with -/

namespace Ecj

/-- What the words of the cleanup by ecj start with. -/
def heads : List (List Letter) :=
  [closeWord ++ [.goto, .astore, .aload, .ifNull], closeWord ++ [.valueReturn],
    closeWord ++ [.aload, .ifNull]]

/-- A chain starts with one of its heads. -/
theorem exists_head {before after : Bindings} {nodes : List (Node Label)}
    (h : language before nodes after) : ∃ head ∈ heads, head <+: word nodes := by
  rcases word_of_language h with ⟨layers, hword⟩ | ⟨count, hword⟩
  · refine ⟨_, List.mem_cons_self, ?_⟩
    rw [hword]
    exact ⟨_, rfl⟩
  · rw [hword]
    -- A second close follows the first one unless the value is returned at once.
    cases count with
    | zero => exact ⟨closeWord ++ [.valueReturn], by decide, ⟨_, rfl⟩⟩
    | succ count => exact ⟨closeWord ++ [.aload, .ifNull], by decide, ⟨_, rfl⟩⟩

end Ecj

/-- What the words of the shape start with. -/
def ResourceShape.heads : ResourceShape → List (List Letter)
  | ecj => Ecj.heads
  | javacOptimal => Segment.words Javac.optimal
  | javacFull => Segment.words Javac.full
  | javacOmittedNullCheck => Segment.words Javac.omittedNullCheck
  | javacMethod => Segment.words Javac.helperMethod

namespace Cleanup

/-- What the words of the cleanup start with. -/
def heads : Cleanup → List (List Letter)
  | resources shape => shape.heads
  | monitor shape => Step.wordsOf shape.steps

/-- All kinds of cleanup. -/
def all : List Cleanup :=
  ResourceShape.all.map .resources ++ MonitorShape.all.map .monitor

theorem mem_all (cleanup : Cleanup) : cleanup ∈ all := by
  rcases cleanup with shape | shape <;> cases shape <;> decide

variable {cleanup other : Cleanup}

/-- Apart from chains of resources, cleanups have only a few words. -/
theorem word_mem_heads (hne : cleanup ≠ .resources .ecj) {before after : Bindings}
    {nodes : List (Node Label)} (h : cleanup.language before nodes after) :
    word nodes ∈ cleanup.heads := by
  cases cleanup with
  | monitor shape => exact Language.spelledBy_ofSteps _ _ _ _ _ h
  | resources shape =>
    cases shape with
    | ecj => exact absurd rfl hne
    | javacOptimal | javacFull | javacOmittedNullCheck | javacMethod =>
      exact Language.spelledBy_ofSegments _ _ _ _ h

/-- A cleanup starts with one of its heads. -/
theorem exists_head {before after : Bindings} {nodes : List (Node Label)}
    (h : cleanup.language before nodes after) : ∃ head ∈ cleanup.heads, head <+: word nodes := by
  by_cases hecj : cleanup = .resources .ecj
  · subst hecj
    exact Ecj.exists_head h
  · exact ⟨word nodes, word_mem_heads hecj h, List.prefix_refl _⟩

/-- A few letters tell the cleanups apart. -/
theorem eq_of_comparable_heads : ∀ cleanup ∈ all, ∀ other ∈ all, ∀ head ∈ cleanup.heads,
    ∀ otherHead ∈ other.heads, Comparable head otherHead → cleanup = other := by
  decide +kernel

/-- Cleanups with comparable words are of one shape. -/
theorem eq_of_comparable {before after before' after' : Bindings}
    {nodes others : List (Node Label)} (hnodes : cleanup.language before nodes after)
    (hothers : other.language before' others after')
    (h : Comparable (word nodes) (word others)) : cleanup = other := by
  -- Comparable words have comparable beginnings.
  obtain ⟨head, hhead, hprefix⟩ := exists_head hnodes
  obtain ⟨otherHead, hotherHead, hotherPrefix⟩ := exists_head hothers
  exact eq_of_comparable_heads cleanup cleanup.mem_all other other.mem_all head hhead otherHead
    hotherHead ((h.of_prefix hotherPrefix).symm.of_prefix hprefix).symm

/-- At most one cleanup starts at a position, and it ends in one place. -/
theorem Spans.unique {code : Code} {position last otherLast : Nat}
    (h : cleanup.Spans code (position + 1) last)
    (hother : other.Spans code (position + 1) otherLast) : cleanup = other ∧ last = otherLast := by
  have heq : cleanup = other := by
    obtain ⟨nodes, after, hnodes, hholds, -⟩ := h
    obtain ⟨others, after', hothers, hholds', -⟩ := hother
    exact eq_of_comparable hnodes hothers (hholds.comparable hholds')
  subst heq
  refine ⟨rfl, ?_⟩
  -- The matcher is a function, so one cleanup ends in one place.
  rw [← bind_follow?_eq_some_iff] at h hother
  rw [h] at hother
  exact Option.some.inj hother

end Cleanup

end CleanupFilter
