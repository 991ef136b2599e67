import CleanupFilter.Listing.Reader
import CleanupFilter.Proofs.Method.Relabel

/-!
# Labels for names

A name on a line of a method gets its label when the first line that mentions it is read, and keeps
it. So the labels are the same as if all names of the method had been numbered beforehand.

- `OpenMethod.namedBody`: the body with its labels named as in the listing.
- `OpenMethod.labels`: all label names of a method, numbered by first mention.
- `OpenMethod.numberItems_eq`: labels given line by line are those numbers.
- `OpenMethod.finish_eq`: the body that is checked at the end of a method.
-/

namespace CleanupFilter

/-- Mentions in two parts are taken in one after the other. -/
theorem Numbering.internAll_append {α : Type} [DecidableEq α] (numbering : Numbering α)
    (front back : List α) :
    numbering.internAll (front ++ back) = (numbering.internAll front).internAll back :=
  List.foldl_append

namespace Item

variable {L M : Type}

/-- Only the labels that an item mentions matter to its renaming. -/
theorem mapLabel_congr {f g : L → M} {item : Item L} (h : ∀ a ∈ item.mentions, f a = g a) :
    item.mapLabel f = item.mapLabel g := by
  cases item with
  | node n => exact congrArg node (Node.mapLabel_congr fun a ha => h a (Option.mem_toList.2 ha))
  | tryCatch entry => exact congrArg tryCatch (TryCatch.mapLabel_congr h)

/-- Renaming an item renames its node. -/
theorem node?_mapLabel (f : L → M) (item : Item L) :
    (item.mapLabel f).node? = item.node?.map (Node.mapLabel f) := by
  cases item <;> rfl

/-- Renaming an item renames its entry. -/
theorem tryCatch?_mapLabel (f : L → M) (item : Item L) :
    (item.mapLabel f).tryCatch? = item.tryCatch?.map (TryCatch.mapLabel f) := by
  cases item <;> rfl

end Item

namespace OpenMethod

/-- The body with its labels named as in the listing. -/
def namedBody (method : OpenMethod) : Body String where
  name := method.name
  desc := method.desc
  nodes := (method.items.toList.filterMap Item.node?).toArray
  tryCatches := method.items.toList.filterMap Item.tryCatch?

/-- The label names of the method, numbered by first mention. -/
def labels (method : OpenMethod) : Numbering String :=
  .ofMentions (method.items.toList.flatMap Item.mentions)

/-- The labels that names get line by line are the numbers that they have in the end. -/
theorem numberItems_eq (labels : Numbering String) (items : List (Item String)) :
    numberItems labels items = items.map (Item.mapLabel fun name =>
      ⟨(labels.internAll (items.flatMap Item.mentions)).number name⟩) := by
  induction items generalizing labels with
  | nil => rfl
  | cons item rest ih =>
    rw [numberItems, ih, List.map_cons, List.flatMap_cons, Numbering.internAll_append]
    refine congrArg (· :: _) (Item.mapLabel_congr fun name hname => ?_)
    -- The names of later lines do not change the numbers of those that are known.
    rw [Numbering.number_internAll (Numbering.mem_internAll labels hname)]

/-- The body that the lines make is the named one with the numbers of its names. -/
theorem body_eq (method : OpenMethod) :
    method.body = method.namedBody.mapLabel fun name => ⟨method.labels.number name⟩ := by
  rw [body, numberItems_eq]
  simp only [namedBody, Body.mapLabel, List.filterMap_map, Function.comp_def, Item.node?_mapLabel,
    Item.tryCatch?_mapLabel, List.map_toArray, List.map_filterMap]
  rfl

/-- What is checked at the end of a method is the named body with the numbers of its names. -/
theorem finish_eq (method : OpenMethod) : method.finish =
    match (method.namedBody.mapLabel fun name => ⟨method.labels.number name⟩).check with
    | .error cause => .error (.malformedBody method.name cause)
    | .ok body => .ok body := by
  rw [← body_eq]
  rfl

end OpenMethod

end CleanupFilter
