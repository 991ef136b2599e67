import Mathlib.Logic.Equiv.Basic
import CleanupFilter.Proofs.Cleanup.Finding
import CleanupFilter.Proofs.Method.Relabel
import CleanupFilter.Proofs.Pattern.Renaming

/-!
# Findings under other names

The search for cleanup code sees which operands are equal and never which ones they are.

- `Body.rename`: the body with its operands renamed.
- `Ecj.follow?_rename`, `ResourceShape.follow?_rename`: every shape is found under other names too.
- `Body.findings_rename`: so the findings are the same.
- `Body.ignored_rename`: and so are the positions to be ignored; in particular they do not depend on
  how labels have been allocated.
-/

namespace CleanupFilter

namespace Ecj

variable {r : Renaming} {code : Code}

/-- Layers are passed in renamed code as in the code itself. -/
theorem layers?_rename (limit inner : Nat) (cursor : Cursor) :
    layers? (code.rename r) limit inner (cursor.rename r) =
      (layers? code limit inner cursor).map (Cursor.rename r) := by
  induction limit generalizing inner cursor with
  | zero => rfl
  | succ limit ih =>
    rw [layers?, layers?, (Cursor.renames_run .outermost suppress).follow?]
    cases (Cursor.run code .outermost suppress).follow? cursor with
    | some next => exact (Cursor.renames_run .method throwPrimary).follow? next
    | none =>
      dsimp only [Option.map_none]
      rw [(Cursor.renames_runSegments (layer inner)).follow?]
      cases (Cursor.runSegments code (layer inner)).follow? cursor with
      | none => rfl
      | some next => exact ih (inner + 1) next

theorem closes?_rename (count : Nat) (cursor : Cursor) :
    closes? (code.rename r) count (cursor.rename r) =
      (closes? code count cursor).map fun (total, next) => (total, next.rename r) := by
  -- Every close moves the cursor forward, so the induction is on the nodes that are left.
  induction hn : cursor.remaining code using Nat.strongRecOn generalizing count cursor with
  | ind n ih =>
    rw [closes?_eq, closes?_eq, Cursor.renames_expectValueReturn.follow?]
    cases (Cursor.expectValueReturn code).follow? cursor with
    | some next => rfl
    | none =>
      dsimp only [Option.map_none]
      rw [(Cursor.renames_run (.resource count) close).follow?]
      cases hclose : (Cursor.run code (.resource count) close).follow? cursor with
      | none => rfl
      | some next =>
        have hlt := Cursor.remaining_lt_of_run_var (Primitive.follow?_eq_some_iff.1 hclose)
        exact ih _ (hn ▸ hlt) (count + 1) next rfl

/-- A chain is followed in renamed code as in the code itself. -/
theorem follow?_rename (cursor : Cursor) :
    follow? (code.rename r) (cursor.rename r) = (follow? code cursor).map (Cursor.rename r) := by
  rw [follow?_eq, follow?_eq, (Cursor.renames_run (.resource 0) close).follow?]
  cases (Cursor.run code (.resource 0) close).follow? cursor with
  | none => rfl
  | some first =>
    rw [Option.map_some, Option.bind_some, Option.bind_some, behind?, behind?,
      Cursor.peek?_rename]
    -- A jump leads outwards in both runs or in none.
    split
    · rw [jumping?, jumping?, (Cursor.renames_run (.resource 0) innermost).follow?]
      cases (Cursor.run code (.resource 0) innermost).follow? first with
      | none => rfl
      | some next =>
        rw [Option.map_some, Option.bind_some, Option.bind_some, Cursor.remaining_rename]
        exact layers?_rename _ 0 next
    · rw [returning?, returning?, closes?_rename]
      cases closes? code 1 first with
      | none => rfl
      | some found => exact (Cursor.renames_runSegments (handlers found.1)).follow? found.2

end Ecj

variable (r : Renaming)

/-- Every shape is followed in renamed code as in the code itself. -/
theorem ResourceShape.follow?_rename (code : Code) (shape : ResourceShape) (cursor : Cursor) :
    shape.follow? (code.rename r) (cursor.rename r) =
      (shape.follow? code cursor).map (Cursor.rename r) := by
  cases shape with
  | ecj => exact Ecj.follow?_rename cursor
  | javacOptimal | javacFull | javacOmittedNullCheck | javacMethod =>
    exact (Cursor.renames_runSegments _).follow? cursor

/-- The last node is the same under either names. -/
theorem bind_position_map_rename (final : Option Cursor) :
    (final.map (Cursor.rename r)).bind Cursor.position = final.bind Cursor.position := by
  cases final <;> rfl

theorem before?_rename (code : Code) (start : Nat) :
    Cursor.before? (code.rename r) start = Cursor.before? code start := by
  rw [Cursor.before?, Cursor.before?, Code.prev?_rename]

/-- A fresh attempt has no bindings to be renamed. -/
theorem rename_after (position : Nat) : (Cursor.after position).rename r = .after position := rfl

/-- A renaming changes no cleanup of a resource. -/
theorem resourceCleanup?_rename (code : Code) (start : Nat) :
    resourceCleanup? (code.rename r) start = resourceCleanup? code start := by
  rw [resourceCleanup?, resourceCleanup?, before?_rename, Cursor.before?]
  cases code.prev? start with
  | none => rfl
  | some position =>
    rw [Option.map_some, Option.bind_some, Option.bind_some]
    refine congrArg (ResourceShape.all.findSome? ·) (funext fun shape => ?_)
    rw [← rename_after r, ResourceShape.follow?_rename, bind_position_map_rename, rename_after]

/-- A renaming changes no release of a monitor. -/
theorem monitorRelease?_rename (code : Code) (entry : TryCatch Label) :
    monitorRelease? (code.rename r) (entry.mapLabel r.label) = monitorRelease? code entry := by
  -- Whether an entry guards its own handler is a matter of equality.
  have hguards : ((entry.mapLabel r.label).isCatchAll = true ∧
      (entry.mapLabel r.label).start ≠ (entry.mapLabel r.label).handler) ↔
        entry.isCatchAll = true ∧ entry.start ≠ entry.handler :=
    and_congr Iff.rfl r.label_injective.ne_iff
  have hhandler : (entry.mapLabel r.label).handlerPosition? (code.rename r) =
      entry.handlerPosition? code := Code.placement?_rename r code entry.handler
  rw [monitorRelease?, monitorRelease?, hhandler, if_congr hguards rfl rfl]
  split
  · cases entry.handlerPosition? code with
    | none => rfl
    | some handler =>
      rw [Option.bind_some, Option.bind_some]
      refine congrArg (MonitorShape.all.findSome? ·) (funext fun shape => ?_)
      rw [← rename_after r, (Cursor.renames_run .method shape.steps).follow?,
        bind_position_map_rename, rename_after]
  · rfl

namespace Body

/-- The body with its operands renamed. -/
def rename (body : Body Label) : Body Label where
  name := body.name
  desc := body.desc
  nodes := Code.rename r body.nodes
  tryCatches := body.tryCatches.map (TryCatch.mapLabel r.label)

variable (body : Body Label)

theorem resourceFindings_rename : (body.rename r).resourceFindings = body.resourceFindings := by
  simp only [resourceFindings, rename, Code.positions, Code.size_rename, resourceCleanup?_rename]

theorem monitorFindings_rename : (body.rename r).monitorFindings = body.monitorFindings := by
  rw [monitorFindings, monitorFindings, rename, List.filterMap_map]
  refine congrArg (List.filterMap · body.tryCatches) (funext fun entry => ?_)
  simp only [Function.comp_apply, TryCatch.handlerPosition?, monitorRelease?_rename]
  exact congrArg (Option.bind · _) (Code.placement?_rename r body.nodes entry.handler)

/-- The findings are the same under any names. -/
theorem findings_rename (config : FilterConfig) :
    (body.rename r).findings config = body.findings config := by
  rw [findings, findings, resourceFindings_rename, monitorFindings_rename]

/-- Renaming labels only. -/
theorem rename_eq_mapLabel {f : Label → Label} (hf : Function.Injective f) :
    body.rename ⟨id, f, id, Function.injective_id, hf, Function.injective_id, rfl⟩ =
      body.mapLabel f := by
  rw [rename, mapLabel, Code.rename]
  congr 2
  funext node
  cases node <;> rfl

end Body

/-- The images of finitely many labels have handles below some number. -/
theorem exists_handle_le (f : Label → Label) (labels : List Label) :
    ∃ taken, ∀ a ∈ labels, (f a).handle ≤ taken := by
  induction labels with
  | nil => exact ⟨0, by simp⟩
  | cons b rest ih =>
    obtain ⟨taken, htaken⟩ := ih
    refine ⟨max (f b).handle taken, List.forall_mem_cons.2 ⟨Nat.le_max_left _ _, ?_⟩⟩
    exact fun a ha => Nat.le_trans (htaken a ha) (Nat.le_max_right _ _)

/-- Labels that are renamed one to one can be renamed together with all others. -/
theorem RenamesOn.exists_injective {f : Label → Label} {labels : List Label}
    (h : RenamesOn f labels) :
    ∃ g : Label → Label, Function.Injective g ∧ ∀ a ∈ labels, f a = g a := by
  obtain ⟨taken, htaken⟩ := exists_handle_le f labels
  -- The other labels get handles above all those that are taken.
  refine ⟨fun a => if a ∈ labels then f a else ⟨taken + 1 + a.handle⟩, ?_,
    fun a ha => (if_pos ha).symm⟩
  intro a b hab
  have hhandles := congrArg Label.handle hab
  by_cases ha : a ∈ labels <;> by_cases hb : b ∈ labels <;>
    simp only [ha, hb, if_true, if_false] at hab hhandles
  · exact h a ha b hb hab
  · have := htaken a ha
    omega
  · have := htaken b hb
    omega
  · have hhandle : a.handle = b.handle := by omega
    cases a
    cases b
    exact congrArg Label.mk hhandle

namespace Body

/-- A renaming changes no position that is ignored. -/
theorem ignored_renamed (config : FilterConfig) (body : Body Label) :
    (body.rename r).ignored config = body.ignored config := by
  have hspan : ∀ first last,
      Code.span (body.rename r).nodes first last = Code.span body.nodes first last := by
    intro first last
    rw [Code.span, Code.span, rename, Code.size_rename]
  simp only [ignored, findings_rename, hspan]

/-- For labels it is enough that those of the body are renamed one to one. -/
theorem ignored_mapLabel (config : FilterConfig) {body : Body Label} {f : Label → Label}
    (hf : RenamesOn f body.mentions) : (body.mapLabel f).ignored config = body.ignored config := by
  obtain ⟨g, hg, hfg⟩ := hf.exists_injective
  rw [mapLabel_congr hfg, ← rename_eq_mapLabel body hg, ignored_renamed]

/-- The positions to be ignored do not depend on the names of operands, and in particular not on how
labels have been allocated. -/
theorem ignored_rename (config : FilterConfig) (body : Body Label) :
    (∀ r : Renaming, (body.rename r).ignored config = body.ignored config) ∧
      ∀ f : Label → Label, RenamesOn f body.mentions →
        (body.mapLabel f).ignored config = body.ignored config :=
  ⟨fun r => body.ignored_renamed r config, fun _ hf => ignored_mapLabel config hf⟩

/-- Slots moved up, labels numbered from 5, and two classes that exchange their names. -/
def moved : Renaming where
  slot := (· + 3)
  label label := ⟨label.handle + 5⟩
  owner := Equiv.swap "Reader" "Writer"
  slot_injective _ _ h := (UInt16.add_left_inj _).1 h
  label_injective a b h := by
    cases a
    cases b
    simpa using h
  owner_injective := (Equiv.swap "Reader" "Writer").injective
  owner_throwable := Equiv.swap_apply_of_ne_of_ne (by decide) (by decide)

/-- What is ignored in a method is ignored in it with other slots, owners and labels. -/
theorem ignored_rename_moved :
    closedAndReleased.ignored {} = List.range' 1 16 ++ List.range' 18 7 ∧
      (closedAndReleased.rename moved).ignored {} = closedAndReleased.ignored {} ∧
      RenamesOn (fun label => (⟨2 - label.handle⟩ : Label)) closedAndReleased.mentions ∧
      (closedAndReleased.mapLabel fun label => ⟨2 - label.handle⟩).ignored {} =
        closedAndReleased.ignored {} := by
  have hreversed : RenamesOn (fun label => (⟨2 - label.handle⟩ : Label))
      closedAndReleased.mentions := by
    unfold RenamesOn
    decide
  obtain ⟨hrename, hlabels⟩ := ignored_rename {} closedAndReleased
  exact ⟨by decide +kernel, hrename moved, hreversed, hlabels _ hreversed⟩

end Body

end CleanupFilter
