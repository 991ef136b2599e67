import Mathlib.Data.List.Basic
import Mathlib.Data.List.Nodup
import CleanupFilter.Listing.Printer
import CleanupFilter.Method.Check
import CleanupFilter.Proofs.Text.Numeral

/-!
# Labels under other names

Only the equality of labels counts: renaming labels one to one changes neither their numbers by
first mention, nor whether a body is well formed, nor the printed names.

- `Numbering.members_intern`, `Numbering.members_ofMentions`: one more mention, and all of them.
- `Numbering.number_map`: numbers by first mention under a renaming.
- `Body.canonical`: the body with its labels numbered by first mention.
- `Body.check_mapLabel`: a renamed body is well formed if the body is.
- `labelName_eq`: a label that is mentioned is called by its number.
- `Body.withLabelNames_mapLabel`: a renamed body prints the same names.
-/

namespace CleanupFilter

variable {α β : Type}

/-- `f` renames the values of a list one to one. -/
def RenamesOn (f : α → β) (values : List α) : Prop :=
  ∀ a ∈ values, ∀ b ∈ values, f a = f b → a = b

/-- A renaming of some values is one of fewer of them. -/
theorem RenamesOn.mono {f : α → β} {values fewer : List α} (h : RenamesOn f values)
    (hsub : ∀ a ∈ fewer, a ∈ values) : RenamesOn f fewer :=
  fun a ha b hb => h a (hsub a ha) b (hsub b hb)

/-! ### Numbers -/

section Numbers

variable [DecidableEq α] [DecidableEq β]

/-- Induction along the recursion of `eraseDups`, which is on the values that differ from the first
one. -/
theorem eraseDups_induction {motive : List α → Prop} (nil : motive [])
    (cons : ∀ a rest, motive (rest.filter fun b => !b == a) → motive (a :: rest))
    (values : List α) : motive values := by
  induction hn : values.length using Nat.strongRecOn generalizing values with
  | ind n ih =>
    cases values with
    | nil => exact nil
    | cons a rest =>
      refine cons a rest (ih _ ?_ _ rfl)
      have hle := List.length_filter_le (fun b => !b == a) rest
      rw [List.length_cons] at hn
      omega

/-- Renamed values repeat where the values do. -/
theorem eraseDups_map {f : α → β} {values : List α} (h : RenamesOn f values) :
    (values.map f).eraseDups = values.eraseDups.map f := by
  induction values using eraseDups_induction with
  | nil => rfl
  | cons a rest ih =>
    -- What repeats the first value is what repeats its image.
    have hfilter : (rest.map f).filter (fun b => !b == f a) =
        (rest.filter fun b => !b == a).map f := by
      rw [List.filter_map]
      refine congrArg _ (List.filter_congr fun b hb => ?_)
      have hiff : f b = f a ↔ b = a :=
        ⟨h b (List.mem_cons_of_mem _ hb) a List.mem_cons_self, congrArg f⟩
      simp [hiff]
    have hrest : RenamesOn f (rest.filter fun b => !b == a) :=
      h.mono fun b hb => List.mem_cons_of_mem _ (List.mem_of_mem_filter hb)
    rw [List.map_cons, List.eraseDups_cons, List.eraseDups_cons, hfilter, ih hrest, List.map_cons]

/-- Without its repeats a list has none. -/
theorem nodup_eraseDups (values : List α) : values.eraseDups.Nodup := by
  induction values using eraseDups_induction with
  | nil => exact List.nodup_nil
  | cons a rest ih =>
    rw [List.eraseDups_cons, List.nodup_cons, List.mem_eraseDups]
    exact ⟨by simp, ih⟩

/-- A renamed value is where the value is. -/
theorem idxOf_map {f : α → β} {values : List α} (h : RenamesOn f values) {a : α}
    (ha : a ∈ values) : (values.map f).idxOf (f a) = values.idxOf a := by
  induction values with
  | nil => exact absurd ha List.not_mem_nil
  | cons b rest ih =>
    rw [List.map_cons]
    by_cases hba : b = a
    · rw [hba, List.idxOf_cons_self, List.idxOf_cons_self]
    · -- Values that differ still do so under the new names.
      have hfba : f b ≠ f a := fun heq => hba (h b List.mem_cons_self a ha heq)
      have ha : a ∈ rest := (List.mem_cons.1 ha).resolve_left fun h => hba h.symm
      rw [List.idxOf_cons_ne _ hfba, List.idxOf_cons_ne _ hba,
        ih (h.mono fun c => List.mem_cons_of_mem _) ha]

namespace Numbering

/-- One more mention adds a value exactly if it has no number. -/
theorem members_intern (numbering : Numbering α) (a : α) : (numbering.intern a).members =
    if a ∈ numbering.members then numbering.members else numbering.members ++ [a] := by
  rw [intern, number?]
  cases h : numbering.members.idxOf? a with
  | none => rw [if_neg (List.idxOf?_eq_none_iff.1 h)]
  | some index =>
    have hmem : a ∈ numbering.members := by
      by_contra hnot
      rw [List.idxOf?_eq_none_iff.2 hnot] at h
      cases h
    rw [if_pos hmem]

/-- More mentions add the values without a number, in the order of their first mention. -/
theorem members_internAll (numbering : Numbering α) (mentions : List α) :
    (numbering.internAll mentions).members = numbering.members ++
      (mentions.filter fun a => decide (a ∉ numbering.members)).eraseDups := by
  induction mentions generalizing numbering with
  | nil => exact (List.append_nil _).symm
  | cons a rest ih =>
    have hstep : numbering.internAll (a :: rest) = (numbering.intern a).internAll rest := rfl
    rw [hstep, ih, members_intern]
    by_cases ha : a ∈ numbering.members
    · rw [if_pos ha, List.filter_cons_of_neg (by simpa using ha)]
    · -- Further mentions of the value have no effect.
      rw [if_neg ha, List.filter_cons_of_pos (by simpa using ha), List.eraseDups_cons,
        List.filter_filter, List.append_assoc, List.singleton_append]
      congr 3
      refine List.filter_congr fun b _ => ?_
      have hne : (!b == a) = decide (¬ b = a) := by rw [decide_not]; rfl
      simp only [List.mem_append, List.mem_singleton, not_or, Bool.decide_and]
      rw [hne, Bool.and_comm]

/-- Mentions one by one number each value by its first mention. -/
theorem members_ofMentions (mentions : List α) :
    (ofMentions mentions).members = mentions.eraseDups := by
  rw [ofMentions, members_internAll, empty, List.nil_append]
  simp

/-- A value that is mentioned has a number. -/
theorem mem_internAll (numbering : Numbering α) {mentions : List α} {a : α} (ha : a ∈ mentions) :
    a ∈ (numbering.internAll mentions).members := by
  rw [members_internAll, List.mem_append, List.mem_eraseDups, List.mem_filter]
  by_cases hmem : a ∈ numbering.members
  · exact .inl hmem
  · exact .inr ⟨ha, decide_eq_true hmem⟩

/-- No later mention changes a number. -/
theorem number_internAll {numbering : Numbering α} {a : α} (ha : a ∈ numbering.members)
    (mentions : List α) : (numbering.internAll mentions).number a = numbering.number a := by
  rw [number, members_internAll, List.idxOf_append_of_mem ha, number]

/-- Renaming does not change numbers. -/
theorem number_map {f : α → β} {mentions : List α} (h : RenamesOn f mentions) {a : α}
    (ha : a ∈ mentions) : (ofMentions (mentions.map f)).number (f a) =
      (ofMentions mentions).number a := by
  have hmembers : RenamesOn f mentions.eraseDups := h.mono fun b hb => List.mem_eraseDups.1 hb
  rw [number, number, members_ofMentions, members_ofMentions, eraseDups_map h]
  exact idxOf_map hmembers (List.mem_eraseDups.2 ha)

/-- A value that is mentioned is found under its number. -/
theorem number?_eq_some {mentions : List α} {a : α} (ha : a ∈ mentions) :
    (ofMentions mentions).number? a = some ((ofMentions mentions).number a) := by
  have hmem : a ∈ (ofMentions mentions).members := mem_internAll empty ha
  -- An earlier index with the same value would have been found first.
  refine List.idxOf?_eq_some_iff.2 ⟨List.idxOf_lt_length_of_mem hmem, List.getElem_idxOf _, ?_⟩
  intro j hj heq
  have hne := List.not_of_lt_findIdx hj
  rw [heq, beq_self_eq_true] at hne
  exact absurd hne (by simp)

/-- Values that are mentioned have different numbers. -/
theorem renamesOn_number (mentions : List α) :
    RenamesOn (ofMentions mentions).number mentions :=
  fun _ ha _ _ heq => (List.idxOf_inj (mem_internAll empty ha)).1 heq

/-- The numbers of values that are numbered by first mention, in the order of first mention. -/
theorem map_number_members (mentions : List α) :
    (ofMentions mentions).members.map (ofMentions mentions).number =
      List.range (ofMentions mentions).members.length := by
  have hnodup : (ofMentions mentions).members.Nodup := by
    rw [members_ofMentions]
    exact nodup_eraseDups mentions
  refine List.ext_getElem (by simp) fun index hindex _ => ?_
  rw [List.getElem_map, List.getElem_range, number, hnodup.idxOf_getElem]

end Numbering

end Numbers

/-! ### Nodes and entries -/

namespace Node

variable {L M N : Type}

theorem mentioned?_mapLabel (f : L → M) (node : Node L) :
    (node.mapLabel f).mentioned? = node.mentioned?.map f := by
  cases node <;> rfl

theorem placed?_mapLabel (f : L → M) (node : Node L) :
    (node.mapLabel f).placed? = node.placed?.map f := by
  cases node <;> rfl

theorem referenced?_mapLabel (f : L → M) (node : Node L) :
    (node.mapLabel f).referenced? = node.referenced?.map f := by
  cases node <;> rfl

theorem opcode?_mapLabel (f : L → M) (node : Node L) :
    (node.mapLabel f).opcode? = node.opcode? := by
  cases node <;> rfl

theorem form?_mapLabel (f : L → M) (node : Node L) : (node.mapLabel f).form? = node.form? := by
  cases node <;> rfl

/-- Two renamings of a node are one. -/
theorem mapLabel_mapLabel (g : M → N) (f : L → M) (node : Node L) :
    (node.mapLabel f).mapLabel g = node.mapLabel (g ∘ f) := by
  cases node <;> rfl

/-- A node is renamed alike by what renames its label alike. -/
theorem mapLabel_congr {f g : L → M} {node : Node L} (h : ∀ a ∈ node.mentioned?, f a = g a) :
    node.mapLabel f = node.mapLabel g := by
  cases node <;> simp_all [mentioned?, mapLabel]

/-- A label that is placed is mentioned. -/
theorem mentioned?_eq_some_of_placed? {node : Node L} {a : L} (h : node.placed? = some a) :
    node.mentioned? = some a := by
  cases node <;> simp_all [placed?, mentioned?]

end Node

/-- Only the labels of an entry matter to its renaming. -/
theorem TryCatch.mapLabel_congr {L M : Type} {f g : L → M} {entry : TryCatch L}
    (h : ∀ a ∈ entry.labels, f a = g a) : entry.mapLabel f = entry.mapLabel g := by
  simp_all [mapLabel, labels]

namespace Body

variable {L M N : Type}

/-- Two renamings of a body are one. -/
theorem mapLabel_mapLabel (g : M → N) (f : L → M) (body : Body L) :
    (body.mapLabel f).mapLabel g = body.mapLabel (g ∘ f) := by
  have hnode : Node.mapLabel g ∘ Node.mapLabel f = Node.mapLabel (g ∘ f) :=
    funext (Node.mapLabel_mapLabel g f)
  simp only [mapLabel, Array.map_map, List.map_map, hnode]
  rfl

/-- A body is renamed alike by what renames its labels alike. -/
theorem mapLabel_congr {f g : L → M} {body : Body L} (h : ∀ a ∈ body.mentions, f a = g a) :
    body.mapLabel f = body.mapLabel g := by
  have hnodes : body.nodes.map (Node.mapLabel f) = body.nodes.map (Node.mapLabel g) := by
    refine Array.map_congr_left fun node hnode => Node.mapLabel_congr fun a ha => h a ?_
    exact List.mem_append_left _
      (List.mem_filterMap.2 ⟨node, Array.mem_toList_iff.2 hnode, ha⟩)
  have hentries : body.tryCatches.map (TryCatch.mapLabel f) =
      body.tryCatches.map (TryCatch.mapLabel g) := by
    refine List.map_congr_left fun entry hentry => TryCatch.mapLabel_congr fun a ha => h a ?_
    exact List.mem_append_right _ (List.mem_flatMap.2 ⟨entry, hentry, ha⟩)
  rw [mapLabel, mapLabel, hnodes, hentries]

/-- The labels of renamed entries are the renamed labels. -/
theorem flatMap_labels_mapLabel (f : L → M) (entries : List (TryCatch L)) :
    (entries.map (TryCatch.mapLabel f)).flatMap TryCatch.labels =
      (entries.flatMap TryCatch.labels).map f := by
  rw [List.flatMap_map, List.map_flatMap]
  rfl

/-- What is collected of renamed nodes is what is collected of the nodes, renamed. -/
theorem filterMap_mapLabel {label? : ∀ {L : Type}, Node L → Option L} {f : L → M}
    (h : ∀ node : Node L, label? (node.mapLabel f) = (label? node).map f) (body : Body L) :
    (body.mapLabel f).nodes.toList.filterMap label? =
      (body.nodes.toList.filterMap label?).map f := by
  rw [mapLabel, Array.toList_map, List.filterMap_map, List.map_filterMap]
  exact congrArg (List.filterMap · body.nodes.toList) (funext h)

/-- A renamed body mentions the renamed labels. -/
theorem mentions_mapLabel (f : L → M) (body : Body L) :
    (body.mapLabel f).mentions = body.mentions.map f := by
  rw [mentions, mentions, List.map_append, ← flatMap_labels_mapLabel,
    ← filterMap_mapLabel (Node.mentioned?_mapLabel f)]
  rfl

theorem placements_mapLabel (f : L → M) (body : Body L) :
    (body.mapLabel f).placements = body.placements.map f :=
  filterMap_mapLabel (Node.placed?_mapLabel f) body

theorem references_mapLabel (f : L → M) (body : Body L) :
    (body.mapLabel f).references = body.references.map f := by
  rw [references, references, List.map_append, ← flatMap_labels_mapLabel,
    ← filterMap_mapLabel (Node.referenced?_mapLabel f)]
  rfl

/-- A label that is placed in a body is mentioned in it. -/
theorem mem_mentions_of_mem_placements {body : Body L} {a : L} (h : a ∈ body.placements) :
    a ∈ body.mentions := by
  obtain ⟨node, hnode, hplaced⟩ := List.mem_filterMap.1 h
  exact List.mem_append_left _
    (List.mem_filterMap.2 ⟨node, hnode, Node.mentioned?_eq_some_of_placed? hplaced⟩)

/-- Every label that occurs is placed or referred to. -/
theorem mem_placements_or_references {body : Body L} {label : L}
    (h : label ∈ body.mentions) : label ∈ body.placements ∨ label ∈ body.references := by
  rcases List.mem_append.1 h with h | h
  · obtain ⟨node, hnode, hlabel⟩ := List.mem_filterMap.1 h
    cases node with
    | label name => exact .inl (List.mem_filterMap.2 ⟨_, hnode, hlabel⟩)
    | jump opcode target =>
      exact .inr (List.mem_append_left _ (List.mem_filterMap.2 ⟨_, hnode, hlabel⟩))
    | line number start =>
      exact .inr (List.mem_append_left _ (List.mem_filterMap.2 ⟨_, hnode, hlabel⟩))
    | _ => cases hlabel
  · exact .inr (List.mem_append_right _ h)

end Body

/-! ### Well-formed bodies -/

/-- No repeat is found if there is none. -/
theorem firstRepeat?_eq_none_iff [DecidableEq α] {seen values : List α} :
    firstRepeat? seen values = none ↔ values.Nodup ∧ ∀ a ∈ values, a ∉ seen := by
  induction values generalizing seen with
  | nil => simp [firstRepeat?]
  | cons a rest ih =>
    rw [firstRepeat?, List.nodup_cons, List.forall_mem_cons]
    by_cases ha : a ∈ seen
    · simp [ha]
    · -- The first value counts as seen for the others.
      rw [if_neg ha, ih]
      constructor
      · rintro ⟨hnodup, hseen⟩
        exact ⟨⟨fun hmem => hseen a hmem List.mem_cons_self, hnodup⟩, ha,
          fun b hb hmem => hseen b hb (List.mem_cons_of_mem _ hmem)⟩
      · rintro ⟨⟨hmem, hnodup⟩, -, hseen⟩
        refine ⟨hnodup, fun b hb hcons => ?_⟩
        rcases List.mem_cons.1 hcons with rfl | hcons
        · exact hmem hb
        · exact hseen b hb hcons

namespace Node

variable {L M : Type}

/-- Labels have no part in whether a node fits. -/
theorem fits_mapLabel (f : L → M) (node : Node L) : (node.mapLabel f).Fits ↔ node.Fits := by
  rw [Fits, Fits, opcode?_mapLabel, form?_mapLabel]

/-- The error that is reported of a node that does not fit and stands at `index`. -/
def misfitAt? (index : Nat) (node : Node L) : Option BuildError :=
  match node.opcode?, node.form? with
  | some opcode, some expected =>
    if opcode.form? = some expected then none
    else some (.operandForm index opcode expected opcode.form?)
  | _, _ => none

/-- Nothing is reported of a node that fits. -/
theorem misfitAt?_eq_none_iff {index : Nat} {node : Node L} :
    node.misfitAt? index = none ↔ node.Fits := by
  rw [Fits]
  cases node <;> simp [misfitAt?, opcode?, form?]

end Node

namespace Body

variable {L : Type}

/-- The first misfit is looked for node by node. -/
theorem misfit?_eq (body : Body L) : body.misfit? =
    body.nodes.toList.zipIdx.findSome? fun (node, index) => node.misfitAt? index :=
  rfl

/-- No misfit is found if all nodes fit. -/
theorem misfit?_eq_none_iff {body : Body L} :
    body.misfit? = none ↔ ∀ node ∈ body.nodes, node.Fits := by
  -- Where a node stands only matters for the error.
  rw [misfit?_eq, List.findSome?_eq_none_iff]
  constructor
  · intro h node hnode
    obtain ⟨index, hindex⟩ := List.mem_iff_getElem?.1 (Array.mem_toList_iff.2 hnode)
    exact Node.misfitAt?_eq_none_iff.1
      (h (node, index) (List.mem_zipIdx_iff_getElem?.2 hindex))
  · rintro h ⟨node, index⟩ hmem
    have hnode := List.mem_of_getElem? (List.mem_zipIdx_iff_getElem?.1 hmem)
    exact Node.misfitAt?_eq_none_iff.2 (h node (Array.mem_toList_iff.1 hnode))

/-- No duplicate is found if no label is placed twice. -/
theorem duplicate?_eq_none_iff {body : Body Label} :
    body.duplicate? = none ↔ body.placements.Nodup := by
  simp [duplicate?, firstRepeat?_eq_none_iff]

/-- A body is well formed if its opcodes fit and its labels are placed, each once. -/
theorem check_eq_ok_iff {body result : Body Label} :
    body.check = .ok result ↔ result = body ∧ (∀ node ∈ body.nodes, node.Fits) ∧
      body.placements.Nodup ∧ ∀ label ∈ body.references, label ∈ body.placements := by
  have hunplaced : body.unplaced? = none ↔ ∀ label ∈ body.references, label ∈ body.placements := by
    simp [unplaced?]
  rw [← misfit?_eq_none_iff, ← duplicate?_eq_none_iff, ← hunplaced, check]
  cases body.misfit? <;> cases body.duplicate? <;> cases body.unplaced? <;>
    simp [eq_comm]

/-- A body is well formed whatever names its labels have. -/
theorem check_mapLabel {f : Label → Label} {body : Body Label}
    (hf : RenamesOn f body.mentions) (h : body.check = .ok body) :
    (body.mapLabel f).check = .ok (body.mapLabel f) := by
  obtain ⟨-, hfits, hnodup, hplaced⟩ := check_eq_ok_iff.1 h
  refine check_eq_ok_iff.2 ⟨rfl, fun node hnode => ?_, ?_, fun label hlabel => ?_⟩
  · obtain ⟨original, horiginal, rfl⟩ := Array.mem_map.1 hnode
    exact (Node.fits_mapLabel f original).2 (hfits original horiginal)
  -- Labels that are placed are mentioned, so their images differ.
  · rw [placements_mapLabel]
    refine hnodup.map_on fun a ha b hb => ?_
    exact hf a (mem_mentions_of_mem_placements ha) b (mem_mentions_of_mem_placements hb)
  · rw [references_mapLabel] at hlabel
    obtain ⟨a, ha, rfl⟩ := List.mem_map.1 hlabel
    rw [placements_mapLabel]
    exact List.mem_map_of_mem (hplaced a ha)

end Body

/-! ### Canonical labels and printed names -/

/-- The printed name of the label with a number. -/
def numberedName (number : Nat) : String :=
  String.ofList ('L' :: Text.Numeral.ofNat number)

/-- Numbers have different names. -/
theorem numberedName_injective : Function.Injective numberedName := by
  intro number other heq
  -- Equal names have equal numerals behind their letters, which read as equal numbers.
  have hnumerals := congrArg String.toList heq
  rw [numberedName, numberedName, String.toList_ofList, String.toList_ofList] at hnumerals
  have hread := congrArg Text.Numeral.digits? (List.cons.inj hnumerals).2
  rw [Text.Numeral.digits?_ofNat, Text.Numeral.digits?_ofNat] at hread
  exact Option.some.inj hread

/-- What is mentioned is called by its number, whatever its handle is. -/
theorem labelName_eq {mentions : List Label} {label : Label} (h : label ∈ mentions) :
    labelName (.ofMentions mentions) label =
      numberedName ((Numbering.ofMentions mentions).number label) := by
  rw [labelName, Numbering.number?_eq_some h, Option.getD_some, numberedName]

/-- Labels that are mentioned have different names in print. -/
theorem renamesOn_labelName (mentions : List Label) :
    RenamesOn (labelName (.ofMentions mentions)) mentions := by
  intro a ha b hb heq
  rw [labelName_eq ha, labelName_eq hb] at heq
  exact Numbering.renamesOn_number mentions a ha b hb (numberedName_injective heq)

/-- Renamed labels have the same printed names. -/
theorem labelName_map {f : Label → Label} {mentions : List Label} (h : RenamesOn f mentions)
    {label : Label} (hlabel : label ∈ mentions) :
    labelName (.ofMentions (mentions.map f)) (f label) =
      labelName (.ofMentions mentions) label := by
  rw [labelName_eq hlabel, labelName_eq (List.mem_map_of_mem hlabel),
    Numbering.number_map h hlabel]

namespace Body

/-- The number of a label by first mention, nodes before the exception table. -/
def rank (body : Body Label) (label : Label) : Label :=
  ⟨(Numbering.ofMentions body.mentions).number label⟩

/-- The body with its labels numbered by first mention. -/
def canonical (body : Body Label) : Body Label :=
  body.mapLabel body.rank

/-- Labels that are mentioned have different ranks. -/
theorem renamesOn_rank (body : Body Label) : RenamesOn body.rank body.mentions :=
  fun a ha b hb heq => Numbering.renamesOn_number _ a ha b hb (congrArg Label.handle heq)

/-- A body passes its check with its labels renumbered if it does with its own. -/
theorem check_canonical {body : Body Label} (h : body.check = .ok body) :
    body.canonical.check = .ok body.canonical :=
  check_mapLabel body.renamesOn_rank h

/-- A renamed body prints the same names. -/
theorem withLabelNames_mapLabel {f : Label → Label} {body : Body Label}
    (h : RenamesOn f body.mentions) : (body.mapLabel f).withLabelNames = body.withLabelNames := by
  rw [withLabelNames, withLabelNames, mapLabel_mapLabel, mentions_mapLabel]
  exact mapLabel_congr fun label hlabel => labelName_map h hlabel

/-- A body is printed alike with its labels renumbered. -/
theorem listing_canonical (body : Body Label) : body.canonical.listing = body.listing := by
  rw [listing, listing, canonical, withLabelNames_mapLabel body.renamesOn_rank]

end Body

end CleanupFilter
