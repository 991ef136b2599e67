import CleanupFilter.Cleanup.Ecj
import CleanupFilter.Proofs.Pattern.Word

/-!
# What the cleanup by ecj reads

- `Ecj.Layers`: the resources around the innermost one and the outermost handler.
- `Ecj.Closes`: the closes in front of a value return.
- `Ecj.language`: the whole cleanup.
- `Ecj.layersOf`, `Ecj.closesOf`: chains of a given number of resources.
- `Ecj.recognises_follow?`: the matcher recognises it.
-/

namespace CleanupFilter

namespace Ecj

/-! ### What is read -/

/-- The outermost handler, which throws the primary exception. -/
def outermost : Language :=
  (Language.ofSteps .outermost suppress).seq (.ofSteps .method throwPrimary)

/-- Any number of resources around the one with index `inner`, and the outermost handler. -/
inductive Layers : (inner : Nat) → Language
  | outermost {inner : Nat} {before : Bindings} {nodes : List (Node Label)} {after : Bindings} :
      outermost before nodes after → Layers inner before nodes after
  | layer {inner : Nat} {before between after : Bindings} {front back : List (Node Label)} :
      Language.ofSegments (layer inner) before front between →
      Layers (inner + 1) between back after → Layers inner before (front ++ back) after

/-- The closes of the resources from index `count` up to `total`, and a value return. -/
inductive Closes : (count total : Nat) → Language
  | done {count : Nat} {before : Bindings} {nodes : List (Node Label)} {after : Bindings} :
      Language.valueReturn before nodes after → Closes count count before nodes after
  | close {count total : Nat} {before between after : Bindings} {front back : List (Node Label)} :
      Language.ofSteps (.resource count) close before front between →
      Closes (count + 1) total between back after → Closes count total before (front ++ back) after

/-- The cleanup behind the first close, where a jump leads outwards. -/
def jumping : Language :=
  (Language.ofSteps (.resource 0) innermost).seq (Layers 0)

/-- The cleanup behind the first close, where a value is returned. -/
def returning : Language := fun before nodes after =>
  ∃ total, ((Closes 1 total).seq (.ofSegments (handlers total))) before nodes after

/-- The cleanup of a chain of resources. -/
def language : Language :=
  (Language.ofSteps (.resource 0) close).seq (jumping.either returning)

/-! ### Chains of a given number of resources -/

/-- The given number of resources around the one with index `inner`, and the outermost handler. -/
def layersOf : (count inner : Nat) → Language
  | 0, _ => outermost
  | count + 1, inner => (Language.ofSegments (layer inner)).seq (layersOf count (inner + 1))

/-- What is behind a resource are the layers of some number of outer ones. -/
theorem layers_iff {inner : Nat} {before after : Bindings} {nodes : List (Node Label)} :
    Layers inner before nodes after ↔ ∃ count, layersOf count inner before nodes after := by
  constructor
  · intro h
    induction h with
    | outermost houtermost => exact ⟨0, houtermost⟩
    -- Each layer adds one to the count of those behind it.
    | layer hlayer _ ih =>
      obtain ⟨count, hcount⟩ := ih
      exact ⟨count + 1, _, _, _, rfl, hlayer, hcount⟩
  · rintro ⟨count, hcount⟩
    induction count generalizing inner before nodes with
    | zero => exact .outermost hcount
    | succ count ih =>
      obtain ⟨front, back, between, rfl, hlayer, hrest⟩ := hcount
      exact .layer hlayer (ih hrest)

theorem layers_eq (inner : Nat) :
    Layers inner = fun before nodes after => ∃ count, layersOf count inner before nodes after :=
  funext fun _ => funext fun _ => funext fun _ => propext layers_iff

/-- The closes of the given number of resources from index `first` on, and a value return. -/
def closesOf : (count first : Nat) → Language
  | 0, _ => .valueReturn
  | count + 1, first => (Language.ofSteps (.resource first) close).seq (closesOf count (first + 1))

/-- What closes resources up to a return closes some number of them. -/
theorem closes_iff {first total : Nat} {before after : Bindings} {nodes : List (Node Label)} :
    Closes first total before nodes after ↔
      ∃ count, total = count + first ∧ closesOf count first before nodes after := by
  constructor
  · intro h
    induction h with
    | @done first _ _ _ hreturn => exact ⟨0, (Nat.zero_add first).symm, hreturn⟩
    | close hclose _ ih =>
      obtain ⟨count, rfl, hcount⟩ := ih
      exact ⟨count + 1, by omega, _, _, _, rfl, hclose, hcount⟩
  · rintro ⟨count, rfl, hcount⟩
    -- The total is counted from the first index, so it moves between the two summands.
    induction count generalizing first before nodes with
    | zero =>
      rw [Nat.zero_add]
      exact .done hcount
    | succ count ih =>
      obtain ⟨front, back, between, rfl, hclose, hrest⟩ := hcount
      rw [Nat.add_right_comm, Nat.add_assoc]
      exact .close hclose (ih hrest)

/-- In front of a return the same resources are closed as in the handlers. -/
theorem returning_iff {before after : Bindings} {nodes : List (Node Label)} :
    returning before nodes after ↔
      ∃ count, ((closesOf count 1).seq (.ofSegments (handlers (count + 1)))) before nodes after := by
  constructor
  · rintro ⟨total, front, back, between, rfl, hcloses, hhandlers⟩
    obtain ⟨count, rfl, hcount⟩ := closes_iff.1 hcloses
    exact ⟨count, front, back, between, rfl, hcount, hhandlers⟩
  · rintro ⟨count, front, back, between, rfl, hcount, hhandlers⟩
    exact ⟨count + 1, front, back, between, rfl, closes_iff.2 ⟨count, rfl, hcount⟩, hhandlers⟩

theorem returning_eq : returning = fun before nodes after =>
    ∃ count, ((closesOf count 1).seq (.ofSegments (handlers (count + 1)))) before nodes after :=
  funext fun _ => funext fun _ => funext fun _ => propext returning_iff

/-- The steps of a layer are the same whichever resource it is about. -/
theorem forall_layer {accepted : Step → Prop}
    (h : ∀ segment ∈ layer 0, ∀ s ∈ segment.steps, accepted s) (inner : Nat) :
    ∀ segment ∈ layer inner, ∀ s ∈ segment.steps, accepted s := by
  simp only [layer, List.forall_mem_cons] at h ⊢
  exact h

/-- The steps of a handler are the same whichever resource it is about. -/
theorem forall_handlers {accepted : Step → Prop}
    (h : ∀ segment ∈ handlers 1, ∀ s ∈ segment.steps, accepted s) (count : Nat) :
    ∀ segment ∈ handlers count, ∀ s ∈ segment.steps, accepted s := by
  simp only [handlers, List.cons_append, List.forall_mem_cons, List.forall_mem_append,
    List.forall_mem_map, List.mem_range] at h ⊢
  obtain ⟨hstore, hhandler, hthrow⟩ := h
  exact ⟨hstore, fun index _ => hhandler 0 Nat.one_pos, hthrow⟩

/-! ### How it starts -/

/-- A segment starts with a letter if all of its words do. -/
theorem head?_word_ofSteps {steps : List Step} {letter : Letter}
    (h : ∀ w ∈ Step.wordsOf steps, w.head? = some letter) {scope : Scope} {before after : Bindings}
    {nodes : List (Node Label)} (hnodes : Language.ofSteps scope steps before nodes after) :
    (word nodes).head? = some letter :=
  h _ (Language.spelledBy_ofSteps scope steps before nodes after hnodes)

/-- Code starts with the letter of its front part, if this has one. -/
theorem head?_word_append {front back : List (Node Label)} {letter : Letter}
    (h : (word front).head? = some letter) : (word (front ++ back)).head? = some letter := by
  rw [word_append, List.head?_append, h, Option.some_or]

/-- Code with a letter is not empty. -/
theorem length_pos_of_head?_word {nodes : List (Node Label)} {letter : Letter}
    (h : (word nodes).head? = some letter) : 0 < nodes.length := by
  cases nodes with
  | nil => exact absurd h (by simp [word])
  | cons node rest => exact Nat.succ_pos _

/-- The code that suppresses an exception starts with `astore`. -/
theorem head?_word_suppress {scope : Scope} {before after : Bindings} {nodes : List (Node Label)}
    (h : Language.ofSteps scope suppress before nodes after) :
    (word nodes).head? = some .astore :=
  head?_word_ofSteps (by decide) h

theorem head?_word_close {scope : Scope} {before after : Bindings} {nodes : List (Node Label)}
    (h : Language.ofSteps scope close before nodes after) : (word nodes).head? = some .aload :=
  head?_word_ofSteps (by decide) h

theorem head?_word_innermost {scope : Scope} {before after : Bindings} {nodes : List (Node Label)}
    (h : Language.ofSteps scope innermost before nodes after) :
    (word nodes).head? = some .goto :=
  head?_word_ofSteps (by decide) h

theorem head?_word_layer {inner : Nat} {before after : Bindings} {nodes : List (Node Label)}
    (h : Language.ofSegments (layer inner) before nodes after) :
    (word nodes).head? = some .aload := by
  -- The words of a layer are the same whichever resource it is about.
  have hwords : ∀ w ∈ Segment.words (layer 0), w.head? = some .aload := by decide
  exact hwords _ (Language.spelledBy_ofSegments (layer inner) before nodes after h)

theorem head?_word_valueReturn {before after : Bindings} {nodes : List (Node Label)}
    (h : Language.valueReturn before nodes after) : (word nodes).head? = some .valueReturn := by
  rw [List.mem_singleton.1 (Language.spelledBy_valueReturn before nodes after h)]
  rfl

/-! ### What is recognised -/

variable {code : Code}

/-- The tail of the chain is recognised step by step. -/
theorem recognises_outermost :
    Recognises code (fun cursor => ((Cursor.run code .outermost suppress).follow? cursor).bind
      (Cursor.run code .method throwPrimary).follow?) outermost :=
  recognises_bind (Cursor.recognises_run .outermost suppress)
    (Cursor.recognises_run .method throwPrimary)

/-- A layer starts with a load, so the outermost handler is not found in its place. -/
theorem suppress_eq_none {inner position : Nat} {before between : Bindings}
    {front : List (Node Label)}
    (hlayer : Language.ofSegments (layer inner) before front between)
    (hholds : code.Holds (position + 1) front) :
    (Cursor.run code .outermost suppress).follow? ⟨some position, before⟩ = none := by
  rw [Option.eq_none_iff_forall_ne_some]
  intro next hnext
  obtain ⟨nodes, after, hnodes, hholds', -⟩ :=
    (Cursor.recognises_run .outermost suppress position before next).1 hnext
  have := head?_word_eq (head?_word_layer hlayer) (head?_word_suppress hnodes) hholds hholds'
  exact absurd this (by decide)

/-- Layers are found when the limit is at least the number of nodes that they take up. -/
theorem layers?_eq_some {inner : Nat} {before after : Bindings} {nodes : List (Node Label)}
    (h : Layers inner before nodes after) {limit position : Nat} (hlimit : nodes.length ≤ limit)
    (hholds : code.Holds (position + 1) nodes) :
    layers? code limit inner ⟨some position, before⟩ =
      some ⟨some (position + nodes.length), after⟩ := by
  induction h generalizing limit position with
  | @outermost inner before nodes after houtermost =>
    -- The handler stores the exception first, so the limit is not used up.
    obtain ⟨u, v, between, rfl, hu, hv⟩ := houtermost
    obtain ⟨hholds, hholds'⟩ := Code.holds_succ_append.1 hholds
    have hpos := length_pos_of_head?_word (head?_word_suppress hu)
    rw [List.length_append] at hlimit
    obtain ⟨limit, rfl⟩ : ∃ k, limit = k + 1 := ⟨limit - 1, by omega⟩
    rw [layers?, (Cursor.recognises_run .outermost suppress _ _ _).2 ⟨u, between, hu, hholds, rfl⟩]
    rw [List.length_append, ← Nat.add_assoc]
    exact (Cursor.recognises_run .method throwPrimary _ _ _).2 ⟨v, after, hv, hholds', rfl⟩
  | @layer inner before between after front back hlayer _ ih =>
    -- The outermost handler is tried first, to no avail, and every layer takes one off the limit.
    obtain ⟨hholds, hholds'⟩ := Code.holds_succ_append.1 hholds
    have hpos := length_pos_of_head?_word (head?_word_layer hlayer)
    rw [List.length_append] at hlimit
    obtain ⟨limit, rfl⟩ : ∃ k, limit = k + 1 := ⟨limit - 1, by omega⟩
    rw [layers?, suppress_eq_none hlayer hholds]
    dsimp only
    rw [(Cursor.recognises_runSegments (layer inner) _ _ _).2 ⟨front, between, hlayer, hholds, rfl⟩]
    dsimp only
    rw [ih (by omega) hholds', List.length_append, Nat.add_assoc]

/-- What is found are layers, whatever the limit. -/
theorem layers_of_layers? {limit inner position : Nat} {before : Bindings} {final : Cursor}
    (h : layers? code limit inner ⟨some position, before⟩ = some final) :
    ∃ nodes after, Layers inner before nodes after ∧ code.Holds (position + 1) nodes ∧
      final = ⟨some (position + nodes.length), after⟩ := by
  induction limit generalizing inner position before with
  | zero => exact absurd h (by simp [layers?])
  | succ limit ih =>
    rw [layers?] at h
    cases hsuppress : (Cursor.run code .outermost suppress).follow? ⟨some position, before⟩ with
    | some next =>
      -- Once the first half of the outermost handler is found, no layer is looked for.
      rw [hsuppress] at h
      obtain ⟨nodes, after, hnodes, hholds, hfinal⟩ :=
        (recognises_outermost position before final).1
          (Option.bind_eq_some_iff.2 ⟨next, hsuppress, h⟩)
      exact ⟨nodes, after, .outermost hnodes, hholds, hfinal⟩
    | none =>
      rw [hsuppress] at h
      dsimp only at h
      cases hlayer : (Cursor.runSegments code (layer inner)).follow? ⟨some position, before⟩ with
      | none =>
        rw [hlayer] at h
        exact absurd h (by simp)
      | some next =>
        rw [hlayer] at h
        obtain ⟨front, between, hfront, hholds, rfl⟩ :=
          (Cursor.recognises_runSegments (layer inner) position before next).1 hlayer
        obtain ⟨back, after, hback, hholds', rfl⟩ := ih h
        refine ⟨front ++ back, after, .layer hfront hback,
          Code.holds_succ_append.2 ⟨hholds, hholds'⟩, ?_⟩
        rw [List.length_append, Nat.add_assoc]

/-- The number of nodes that are left is limit enough. -/
theorem recognises_layers? :
    Recognises code (fun cursor => layers? code (cursor.remaining code) 0 cursor) (Layers 0) := by
  intro position before final
  refine ⟨layers_of_layers?, ?_⟩
  rintro ⟨nodes, after, hnodes, hholds, rfl⟩
  refine layers?_eq_some hnodes ?_ hholds
  -- The nodes that were read are among those behind the cursor.
  have hlength := hholds.length_le
  have hsize : code.toList.length = code.size := Array.length_toList
  rw [List.length_drop, hsize] at hlength
  exact hlength

/-- A close starts with a load, so no value return is found in its place. -/
theorem valueReturn_eq_none {count position : Nat} {before between : Bindings}
    {front : List (Node Label)}
    (hclose : Language.ofSteps (.resource count) close before front between)
    (hholds : code.Holds (position + 1) front) :
    (Cursor.expectValueReturn code).follow? ⟨some position, before⟩ = none := by
  rw [Option.eq_none_iff_forall_ne_some]
  intro next hnext
  obtain ⟨nodes, after, hnodes, hholds', -⟩ :=
    (Cursor.recognises_expectValueReturn position before next).1 hnext
  have := head?_word_eq (head?_word_close hclose) (head?_word_valueReturn hnodes) hholds hholds'
  exact absurd this (by decide)

/-- One close of the loop, in terms of what succeeds. -/
theorem closes?_eq (code : Code) (count : Nat) (cursor : Cursor) :
    closes? code count cursor =
      match (Cursor.expectValueReturn code).follow? cursor with
      | some next => some (count, next)
      | none => ((Cursor.run code (.resource count) close).follow? cursor).bind
          (closes? code (count + 1)) := by
  rw [closes?, Primitive.follow?, Primitive.follow?]
  rcases Cursor.expectValueReturn code cursor with ⟨_ | _, _⟩
  · dsimp only
    split
    · rename_i h
      rw [h]
      rfl
    · rename_i h
      rw [h]
      rfl
  · rfl

/-- Resources that are closed in front of a return are counted. -/
theorem closes?_eq_some {count total : Nat} {before after : Bindings} {nodes : List (Node Label)}
    (h : Closes count total before nodes after) {position : Nat}
    (hholds : code.Holds (position + 1) nodes) :
    closes? code count ⟨some position, before⟩ =
      some (total, ⟨some (position + nodes.length), after⟩) := by
  induction h generalizing position with
  | @done count before nodes after hreturn =>
    -- The return is tried before another close is.
    rw [closes?_eq,
      (Cursor.recognises_expectValueReturn _ _ _).2 ⟨nodes, after, hreturn, hholds, rfl⟩]
  | @close count total before between after front back hclose _ ih =>
    obtain ⟨hholds, hholds'⟩ := Code.holds_succ_append.1 hholds
    rw [closes?_eq, valueReturn_eq_none hclose hholds]
    dsimp only
    rw [(Cursor.recognises_run (.resource count) close _ _ _).2
        ⟨front, between, hclose, hholds, rfl⟩,
      Option.bind_some, ih hholds', List.length_append, Nat.add_assoc]

/-- What is counted are resources that are closed in front of a return. -/
theorem closes_of_closes? {count total : Nat} {cursor final : Cursor}
    (h : closes? code count cursor = some (total, final)) {position : Nat} {before : Bindings}
    (hcursor : cursor = ⟨some position, before⟩) :
    ∃ nodes after, Closes count total before nodes after ∧ code.Holds (position + 1) nodes ∧
      final = ⟨some (position + nodes.length), after⟩ := by
  subst hcursor
  -- Every close moves the cursor forward, so the induction is on the nodes that are left.
  induction hn : code.size - position using Nat.strongRecOn generalizing count position before with
  | ind n ih =>
    rw [closes?_eq] at h
    cases hreturn : (Cursor.expectValueReturn code).follow? ⟨some position, before⟩ with
    | some next =>
      rw [hreturn] at h
      obtain ⟨rfl, rfl⟩ := Prod.mk.inj (Option.some.inj h)
      obtain ⟨nodes, after, hnodes, hholds, hfinal⟩ :=
        (Cursor.recognises_expectValueReturn position before _).1 hreturn
      exact ⟨nodes, after, .done hnodes, hholds, hfinal⟩
    | none =>
      rw [hreturn] at h
      obtain ⟨next, hclose, hrest⟩ := Option.bind_eq_some_iff.1 h
      obtain ⟨front, between, hfront, hholds, rfl⟩ :=
        (Cursor.recognises_run (.resource count) close position before next).1 hclose
      have hpos := length_pos_of_head?_word (head?_word_close hfront)
      have hle := hholds.le_size (List.length_pos_iff.1 hpos)
      obtain ⟨back, after, hback, hholds', rfl⟩ := ih _ (by omega) hrest rfl
      refine ⟨front ++ back, after, .close hfront hback,
        Code.holds_succ_append.2 ⟨hholds, hholds'⟩, ?_⟩
      rw [List.length_append, Nat.add_assoc]

/-! ### The branches as matchers of their own -/

/-- Matches the cleanup behind the first close, where a jump leads outwards. -/
def jumping? (code : Code) (first : Cursor) : Option Cursor :=
  ((Cursor.run code (.resource 0) innermost).follow? first).bind fun next =>
    layers? code (next.remaining code) 0 next

/-- Matches the cleanup behind the first close, where a value is returned. -/
def returning? (code : Code) (first : Cursor) : Option Cursor :=
  (closes? code 1 first).bind fun (total, next) =>
    (Cursor.runSegments code (handlers total)).follow? next

/-- Matches the cleanup behind the first close. -/
def behind? (code : Code) (first : Cursor) : Option Cursor :=
  if first.peek? code = some .goto then jumping? code first else returning? code first

/-- A chain is a close and what is behind it. -/
theorem follow?_eq (code : Code) (cursor : Cursor) :
    follow? code cursor =
      ((Cursor.run code (.resource 0) close).follow? cursor).bind (behind? code) := by
  rw [follow?]
  cases (Cursor.run code (.resource 0) close).follow? cursor with
  | none => rfl
  | some first =>
    rw [Option.bind_some, behind?, jumping?, returning?]
    dsimp only
    cases (Cursor.run code (.resource 0) innermost).follow? first <;>
      cases closes? code 1 first <;> rfl

/-- The chain behind a jump is recognised. -/
theorem recognises_jumping? : Recognises code (jumping? code) jumping :=
  recognises_bind (Cursor.recognises_run (.resource 0) innermost) recognises_layers?

theorem recognises_returning? : Recognises code (returning? code) returning := by
  intro position before final
  rw [returning?, Option.bind_eq_some_iff]
  constructor
  -- The handlers start where the closes end, with as many resources as were counted.
  · rintro ⟨⟨total, next⟩, hcloses, hhandlers⟩
    obtain ⟨front, between, hfront, hholds, rfl⟩ := closes_of_closes? hcloses rfl
    obtain ⟨back, after, hback, hholds', rfl⟩ :=
      (Cursor.recognises_runSegments (handlers total) _ between final).1 hhandlers
    refine ⟨front ++ back, after, ⟨total, front, back, between, rfl, hfront, hback⟩,
      Code.holds_succ_append.2 ⟨hholds, hholds'⟩, ?_⟩
    rw [List.length_append, Nat.add_assoc]
  · rintro ⟨nodes, after, ⟨total, front, back, between, rfl, hfront, hback⟩, hholds, rfl⟩
    obtain ⟨hholds, hholds'⟩ := Code.holds_succ_append.1 hholds
    refine ⟨_, closes?_eq_some hfront hholds, ?_⟩
    rw [List.length_append, ← Nat.add_assoc]
    exact (Cursor.recognises_runSegments (handlers total) _ _ _).2
      ⟨back, after, hback, hholds', rfl⟩

/-- A chain behind a jump goes on with the jump. -/
theorem head?_word_jumping {before after : Bindings} {nodes : List (Node Label)}
    (h : jumping before nodes after) : (word nodes).head? = some .goto := by
  obtain ⟨front, back, between, rfl, hfront, -⟩ := h
  exact head?_word_append (head?_word_innermost hfront)

/-- A chain behind a return goes on with a close or with the return. -/
theorem head?_word_returning {before after : Bindings} {nodes : List (Node Label)}
    (h : returning before nodes after) :
    (word nodes).head? = some .aload ∨ (word nodes).head? = some .valueReturn := by
  obtain ⟨total, front, back, between, rfl, hfront, -⟩ := h
  cases hfront with
  | done hreturn => exact .inr (head?_word_append (head?_word_valueReturn hreturn))
  | close hclose _ =>
    rw [List.append_assoc]
    exact .inl (head?_word_append (head?_word_close hclose))

/-- What follows the first close: a jump says which kind of cleanup it is. -/
theorem recognises_behind? : Recognises code (behind? code) (jumping.either returning) := by
  refine recognises_ite recognises_jumping? recognises_returning? ?_ ?_
  · intro position before nodes after hjumping hholds
    obtain ⟨opcode, hpeek, hletter⟩ :=
      Cursor.peek?_of_word (head?_word_jumping hjumping) hholds before
    rw [hpeek, Opcode.letter_eq_goto.1 hletter]
  · intro position before nodes after hreturning hholds hpeek
    have hgoto : ∀ letter, (word nodes).head? = some letter → letter = Opcode.goto.letter := by
      intro letter hletter
      obtain ⟨opcode, hopcode, rfl⟩ := Cursor.peek?_of_word hletter hholds before
      rw [hpeek, Option.some.injEq] at hopcode
      rw [hopcode]
    -- A chain that returns a value goes on with a load or with the return.
    rcases head?_word_returning hreturning with hhead | hhead
    · exact absurd (hgoto _ hhead) (by decide)
    · exact absurd (hgoto _ hhead) (by decide)

/-- The matcher succeeds exactly where the code holds the cleanup of a chain of resources. -/
theorem recognises_follow? : Recognises code (follow? code) language := by
  rw [funext (follow?_eq code)]
  exact recognises_bind (Cursor.recognises_run (.resource 0) close) recognises_behind?

end Ecj

end CleanupFilter
