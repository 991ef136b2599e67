import CleanupFilter.Proofs.Cleanup.Chain
import CleanupFilter.Proofs.Pattern.Progress

/-!
# The loop over the layers

Behind the handler of the innermost resource, cleanup by ecj is matched by a loop. Its rounds are
limited by the number of nodes that are left, and each of them tries the outermost handler first and
goes back to where it was if that is not there. Neither decides what is matched: a loop without a
limit, and one that never goes back, find the same.

- `Ecj.unlimitedLayers?`: the loop without a limit.
- `Ecj.layersAhead`: the loop that looks at the next instruction and never goes back.
- `Ecj.followBy?`: the matcher for a chain with any loop in that place.
- `Ecj.layerRound`: one round, with its answer or the cursor for the next round.
- `Ecj.LayerRounds.remaining_add_le`: every round but the last one takes up many nodes.
- `Ecj.layers?_eq_unlimitedLayers?`, `Ecj.follow?_layersAhead`: the loops agree.
-/

namespace CleanupFilter

variable {code : Code}

/-- What starts with a load or store is found only where that comes next. -/
theorem Cursor.peek?_of_run_var {scope : Scope} {opcode : Opcode} {slot : Symbol}
    {rest : List Step} {cursor final : Cursor}
    (h : run code scope (.var opcode slot :: rest) cursor = (true, final)) :
    cursor.peek? code = some opcode := by
  obtain ⟨next, hvar, -⟩ := Primitive.andThen_eq_true h
  obtain ⟨found, hop, -⟩ := Primitive.andThen_eq_true hvar
  rw [expect, Prod.mk.injEq, decide_eq_true_eq] at hop
  exact hop.1

namespace Ecj

/-! ### Where a layer ends -/

/-- A layer that is found moves the cursor to a node further on. -/
theorem behind_of_layer {inner : Nat} {cursor next : Cursor}
    (h : Cursor.runSegments code (layer inner) cursor = (true, next)) :
    code.Behind cursor.position next.position := by
  refine (Cursor.progress_runSegments (layer inner)).moves cursor next h fun hidle => ?_
  -- The layer starts with the placement of a label, for which a node is read.
  exact hidle _ List.mem_cons_self _ List.mem_cons_self

/-- What a layer reads are 23 instructions, and the labels between them. -/
theorem le_length_of_layer {inner : Nat} {before after : Bindings} {nodes : List (Node Label)}
    (h : Language.ofSegments (layer inner) before nodes after) : 23 ≤ nodes.length := by
  -- The words of a layer are the same whichever resource it is about.
  have hwords : ∀ w ∈ Segment.words (layer 0), 23 ≤ w.length := by decide
  have hword := hwords _ (Language.spelledBy_ofSegments (layer inner) before nodes after h)
  exact Nat.le_trans hword (List.length_filterMap_le _ nodes)

/-- A layer has 23 instructions, which remain no longer. -/
theorem remaining_add_le_of_layer {inner : Nat} {cursor next : Cursor}
    (h : (Cursor.runSegments code (layer inner)).follow? cursor = some next) :
    next.remaining code + 23 ≤ cursor.remaining code := by
  have hbehind := behind_of_layer (Primitive.follow?_eq_some_iff.1 h)
  obtain ⟨_ | position, before⟩ := cursor
  · -- Past the end no layer is found.
    exact hbehind.elim
  · obtain ⟨nodes, after, hnodes, hholds, rfl⟩ :=
      (Cursor.recognises_runSegments (layer inner) position before next).1 h
    have hlength := le_length_of_layer hnodes
    have hne : nodes ≠ [] := List.length_pos_iff.1 (by omega)
    have hle := hholds.le_size hne
    simp only [Cursor.remaining]
    omega

/-- Behind a layer less code remains. -/
theorem remaining_lt_of_layer {inner : Nat} {cursor next : Cursor}
    (h : (Cursor.runSegments code (layer inner)).follow? cursor = some next) :
    next.remaining code < cursor.remaining code := by
  have hle := remaining_add_le_of_layer h
  omega

/-- The first part of the outermost handler moves the cursor forward, too. -/
theorem remaining_lt_of_suppress {scope : Scope} {cursor next : Cursor}
    (h : (Cursor.run code scope suppress).follow? cursor = some next) :
    next.remaining code < cursor.remaining code :=
  Cursor.remaining_lt_of_run_var (Primitive.follow?_eq_some_iff.1 h)

/-! ### Other loops -/

/-- As `layers?`, with no limit to the number of resources. -/
def unlimitedLayers? (code : Code) (inner : Nat) (cursor : Cursor) : Option Cursor :=
  match (Cursor.run code .outermost suppress).follow? cursor with
  | some next => (Cursor.run code .method throwPrimary).follow? next
  | none =>
    match _h : (Cursor.runSegments code (layer inner)).follow? cursor with
    | some next => unlimitedLayers? code (inner + 1) next
    | none => none
termination_by cursor.remaining code
decreasing_by exact remaining_lt_of_layer _h

/-- The outermost handler if a store comes next, and another layer otherwise. Whatever has been
read, the cursor is never put back. -/
def layersAhead (code : Code) (inner : Nat) : Primitive := fun cursor =>
  if cursor.peek? code = some .astore then
    (Cursor.run code .outermost suppress).andThen (Cursor.run code .method throwPrimary) cursor
  else
    match _h : Cursor.runSegments code (layer inner) cursor with
    | (true, next) => layersAhead code (inner + 1) next
    | (false, next) => (false, next)
termination_by cursor => cursor.remaining code
decreasing_by exact remaining_lt_of_layer (Primitive.follow?_eq_some_iff.2 _h)

/-- As `follow?`, with `around?` for the resources around the innermost one and the outermost
handler. -/
def followBy? (around? : Cursor → Option Cursor) (code : Code) (cursor : Cursor) : Option Cursor :=
  match (Cursor.run code (.resource 0) close).follow? cursor with
  | none => none
  | some first =>
    if first.peek? code = some .goto then
      match (Cursor.run code (.resource 0) innermost).follow? first with
      | none => none
      | some next => around? next
    else
      match closes? code 1 first with
      | none => none
      | some (count, next) => (Cursor.runSegments code (handlers count)).follow? next

/-- The chain is followed with a limit on the layers that is never reached. -/
theorem follow?_eq_followBy? (code : Code) :
    follow? code = followBy? (fun next => layers? code (next.remaining code) 0 next) code :=
  rfl

/-! ### One round -/

/-- One round of the loop over the layers: its answer, or else the cursor behind a layer, with which
the next round starts. -/
def layerRound (code : Code) (inner : Nat) (cursor : Cursor) : Option Cursor ⊕ Cursor :=
  match (Cursor.run code .outermost suppress).follow? cursor with
  | some next => .inl ((Cursor.run code .method throwPrimary).follow? next)
  | none =>
    match (Cursor.runSegments code (layer inner)).follow? cursor with
    | some next => .inr next
    | none => .inl none

/-- A round of the limited loop ends it or goes on with one resource more. -/
theorem layers?_succ (code : Code) (limit inner : Nat) (cursor : Cursor) :
    layers? code (limit + 1) inner cursor =
      (layerRound code inner cursor).elim id (layers? code limit (inner + 1)) := by
  rw [layers?, layerRound]
  cases (Cursor.run code .outermost suppress).follow? cursor with
  | some next => rfl
  | none => cases (Cursor.runSegments code (layer inner)).follow? cursor <;> rfl

/-- A round of the loop without a limit does the same. -/
theorem unlimitedLayers?_eq (code : Code) (inner : Nat) (cursor : Cursor) :
    unlimitedLayers? code inner cursor =
      (layerRound code inner cursor).elim id (unlimitedLayers? code (inner + 1)) := by
  rw [unlimitedLayers?, layerRound]
  cases (Cursor.run code .outermost suppress).follow? cursor with
  | some next => rfl
  | none =>
    dsimp only
    split
    · rename_i hlayer
      rw [hlayer]
      rfl
    · rename_i hlayer
      rw [hlayer]
      rfl

/-- A round that gives no answer has found a layer. -/
theorem layerRound_eq_inr_iff {inner : Nat} {cursor next : Cursor} :
    layerRound code inner cursor = .inr next ↔
      (Cursor.run code .outermost suppress).follow? cursor = none ∧
        (Cursor.runSegments code (layer inner)).follow? cursor = some next := by
  rw [layerRound]
  cases (Cursor.run code .outermost suppress).follow? cursor with
  | some _ => simp
  | none => cases (Cursor.runSegments code (layer inner)).follow? cursor <;> simp

/-! ### The limit -/

/-- Behind the last node no round finds anything. -/
theorem layerRound_of_remaining {inner : Nat} {cursor : Cursor} (h : cursor.remaining code = 0) :
    layerRound code inner cursor = .inl none := by
  have hsuppress : (Cursor.run code .outermost suppress).follow? cursor = none := by
    rw [Option.eq_none_iff_forall_ne_some]
    intro next hnext
    have hlt := remaining_lt_of_suppress hnext
    omega
  have hlayer : (Cursor.runSegments code (layer inner)).follow? cursor = none := by
    rw [Option.eq_none_iff_forall_ne_some]
    intro next hnext
    have hlt := remaining_lt_of_layer hnext
    omega
  rw [layerRound, hsuppress, hlayer]

/-- A limit of as many rounds as there are nodes left is no limit. -/
theorem layers?_eq_unlimitedLayers? {limit inner : Nat} {cursor : Cursor}
    (h : cursor.remaining code ≤ limit) :
    layers? code limit inner cursor = unlimitedLayers? code inner cursor := by
  -- Round by round, the limit stays at least the number of nodes that are left.
  induction limit generalizing inner cursor with
  | zero =>
    rw [layers?, unlimitedLayers?_eq, layerRound_of_remaining (Nat.le_zero.1 h)]
    rfl
  | succ limit ih =>
    rw [layers?_succ, unlimitedLayers?_eq]
    cases hround : layerRound code inner cursor with
    | inl answer => rfl
    | inr next =>
      -- The layer that was found leaves fewer nodes for the other rounds.
      have hlt := remaining_lt_of_layer (layerRound_eq_inr_iff.1 hround).2
      exact ih (by omega)

/-- A round leads from the index of an inner resource and a cursor to those for the next round. -/
def LayerRound (code : Code) (state next : Nat × Cursor) : Prop :=
  layerRound code state.1 state.2 = .inr next.2 ∧ next.1 = state.1 + 1

/-- The loop goes through so many rounds, each of which finds a layer. -/
inductive LayerRounds (code : Code) : (rounds : Nat) → (state last : Nat × Cursor) → Prop
  | zero {state : Nat × Cursor} : LayerRounds code 0 state state
  | succ {rounds : Nat} {state next last : Nat × Cursor} :
      LayerRound code state next → LayerRounds code rounds next last →
        LayerRounds code (rounds + 1) state last

/-- A round passes a layer. -/
theorem LayerRound.remaining_add_le {state next : Nat × Cursor} (h : LayerRound code state next) :
    next.2.remaining code + 23 ≤ state.2.remaining code :=
  remaining_add_le_of_layer (layerRound_eq_inr_iff.1 h.1).2

/-- Every round leaves fewer nodes behind the cursor, so the loop comes to an end. -/
theorem wellFounded_layerRound (code : Code) :
    WellFounded fun next state => LayerRound code state next := by
  have hlt : ∀ {next state : Nat × Cursor}, LayerRound code state next →
      next.2.remaining code < state.2.remaining code := by
    intro next state h
    have hle := h.remaining_add_le
    omega
  exact Subrelation.wf hlt (measure fun state : Nat × Cursor => state.2.remaining code).wf

/-- The nodes that rounds take up. -/
theorem LayerRounds.remaining_add_le {rounds : Nat} {state last : Nat × Cursor}
    (h : LayerRounds code rounds state last) :
    last.2.remaining code + 23 * rounds ≤ state.2.remaining code := by
  induction h with
  | zero => exact Nat.le_refl _
  | succ hround _ ih =>
    have hle := hround.remaining_add_le
    omega

/-! ### What comes next -/

/-- Without `astore` nothing is suppressed. -/
theorem suppress_eq_none_of_peek? {scope : Scope} {cursor : Cursor}
    (h : cursor.peek? code ≠ some .astore) :
    (Cursor.run code scope suppress).follow? cursor = none := by
  rw [Option.eq_none_iff_forall_ne_some]
  intro next hnext
  exact h (Cursor.peek?_of_run_var (Primitive.follow?_eq_some_iff.1 hnext))

/-- Behind its label, a layer starts with a load. -/
theorem layer_eq_none_of_peek? {inner : Nat} {cursor : Cursor}
    (h : cursor.peek? code = some .astore) :
    (Cursor.runSegments code (layer inner)).follow? cursor = none := by
  rw [Option.eq_none_iff_forall_ne_some]
  intro next hnext
  have hbehind := behind_of_layer (Primitive.follow?_eq_some_iff.1 hnext)
  obtain ⟨_ | position, before⟩ := cursor
  · exact hbehind.elim
  · obtain ⟨nodes, after, hnodes, hholds, -⟩ :=
      (Cursor.recognises_runSegments (layer inner) position before next).1 hnext
    obtain ⟨opcode, hpeek, hletter⟩ :=
      Cursor.peek?_of_word (head?_word_layer hnodes) hholds before
    obtain rfl := Option.some.inj (hpeek.symm.trans h)
    exact absurd hletter (by decide)

/-- The next instruction tells the outermost handler from a layer, so there is nothing to go back
for. -/
theorem follow?_layersAhead (code : Code) (inner : Nat) (cursor : Cursor) :
    (layersAhead code inner).follow? cursor = unlimitedLayers? code inner cursor := by
  rw [Primitive.follow?]
  fun_induction layersAhead code inner cursor with
  | case1 inner cursor hstore =>
    -- No layer starts with a store, so the handler alone decides, whether it is there or not.
    rw [← Primitive.follow?, Primitive.follow?_andThen, unlimitedLayers?_eq, layerRound,
      layer_eq_none_of_peek? hstore]
    cases (Cursor.run code .outermost suppress).follow? cursor <;> rfl
  | case2 inner cursor hother next hlayer ih =>
    -- The handler starts with a store, so the loop that tries it first goes back to find the layer.
    have hround : layerRound code inner cursor = .inr next := layerRound_eq_inr_iff.2
      ⟨suppress_eq_none_of_peek? hother, Primitive.follow?_eq_some_iff.2 hlayer⟩
    rw [ih, unlimitedLayers?_eq code inner cursor, hround]
    rfl
  | case3 inner cursor hother next hlayer =>
    -- Without a layer there is no answer, wherever the cursor is left.
    rw [unlimitedLayers?_eq, layerRound, suppress_eq_none_of_peek? hother, Primitive.follow?,
      hlayer]
    rfl

/-! ### What the loop decides -/

/-- Neither the limit of the loop nor its going back decides what is matched: with a loop that has
no limit, and with one that looks ahead and never goes back, the matcher succeeds on the same
cursors and ends in the same place. The loop without a limit comes to an end, as every layer moves
the cursor to a node further on, and the limit is never used up by rounds that find a layer. -/
theorem follow?_eq_unlimited_and_ahead (code : Code) :
    (∀ cursor, follow? code cursor = followBy? (unlimitedLayers? code 0) code cursor ∧
        follow? code cursor = followBy? (layersAhead code 0).follow? code cursor) ∧
      (∀ inner cursor next, Cursor.runSegments code (layer inner) cursor = (true, next) →
        code.Behind cursor.position next.position) ∧
      (WellFounded fun next state => LayerRound code state next) ∧
      (∀ limit inner cursor, layers? code (limit + 1) inner cursor =
        (layerRound code inner cursor).elim id (layers? code limit (inner + 1))) ∧
      ∀ rounds state last, LayerRounds code (rounds + 1) state last →
        rounds + 1 < state.2.remaining code := by
  have hunlimited : follow? code = followBy? (unlimitedLayers? code 0) code := by
    have hloop : (fun next => layers? code (next.remaining code) 0 next) =
        unlimitedLayers? code 0 := funext fun next => layers?_eq_unlimitedLayers? (Nat.le_refl _)
    rw [follow?_eq_followBy?, hloop]
  have hahead : (layersAhead code 0).follow? = unlimitedLayers? code 0 :=
    funext (follow?_layersAhead code 0)
  refine ⟨fun cursor => ?_, fun inner cursor next => behind_of_layer, wellFounded_layerRound code,
    layers?_succ code, fun rounds state last h => ?_⟩
  · rw [hahead, hunlimited]
    exact ⟨rfl, rfl⟩
  · -- The rounds take up 23 times as many nodes as the limit would let them.
    have hle := h.remaining_add_le
    omega

/-- All three loops end at the same position for two resources in front of a jump. -/
theorem follow?_chainedByJumps :
    (follow? chainedByJumps (.after 0)).bind Cursor.position = some 57 ∧
      (followBy? (unlimitedLayers? chainedByJumps 0) chainedByJumps (.after 0)).bind
        Cursor.position = some 57 ∧
      (followBy? (layersAhead chainedByJumps 0).follow? chainedByJumps (.after 0)).bind
        Cursor.position = some 57 ∧
      ∃ cursor next : Cursor, LayerRound chainedByJumps (0, cursor) (1, next) ∧
        chainedByJumps.Behind cursor.position next.position ∧
        1 < cursor.remaining chainedByJumps := by
  obtain ⟨hloops, hbehind, -, -, hlimit⟩ := follow?_eq_unlimited_and_ahead chainedByJumps
  have hfound : (follow? chainedByJumps (.after 0)).bind Cursor.position = some 57 := by
    decide +kernel
  obtain ⟨hunlimited, hahead⟩ := hloops (.after 0)
  refine ⟨hfound, by rw [← hunlimited, hfound], by rw [← hahead, hfound], ?_⟩
  -- The first round starts behind the handler of the innermost resource.
  have hsome : ((((Cursor.run chainedByJumps (.resource 0) close).follow? (.after 0)).bind
      (Cursor.run chainedByJumps (.resource 0) innermost).follow?).bind fun cursor =>
        (layerRound chainedByJumps 0 cursor).getRight?.map fun next => (cursor, next)).isSome := by
    decide +kernel
  obtain ⟨⟨cursor, next⟩, hstates⟩ := Option.isSome_iff_exists.1 hsome
  obtain ⟨_, -, hnext⟩ := Option.bind_eq_some_iff.1 hstates
  obtain ⟨_, hright, ⟨⟩⟩ := Option.map_eq_some_iff.1 hnext
  have hround : LayerRound chainedByJumps (0, cursor) (1, next) :=
    ⟨Sum.getRight?_eq_some_iff.1 hright, rfl⟩
  have hlayer := (layerRound_eq_inr_iff.1 hround.1).2
  exact ⟨cursor, next, hround, hbehind 0 cursor next (Primitive.follow?_eq_some_iff.1 hlayer),
    hlimit 0 _ _ (.succ hround .zero)⟩

end Ecj

end CleanupFilter
