import Mathlib.Algebra.GroupWithZero.Nat
import Mathlib.Data.List.Chain
import Mathlib.Data.List.Sort
import CleanupFilter.CommandLine.Execute

/-!
# Spans of a set

The spans of a set of positions are the only ones that cover it, stand in increasing order and do
not touch. The loop that collects them never looks for the successor of the largest word, and they
are what is printed of a method.

- `Span.IsCanonical`: what the spans of a set have to be like.
- `Span.eq_of_covers`: spans that do not touch are determined by the positions that they cover.
- `IgnoredSet.Collects`: what the loop has collected of the positions so far.
- `IgnoredSet.Collects.extend`, `IgnoredSet.collects_collect`: one round of the loop keeps this, and
  so does the loop.
- `IgnoredSet.canonical_spans`: the spans of a set, and those that are printed.
-/

namespace CleanupFilter

/-! ### Words and their successors -/

/-- Below a larger word the successor does not overflow. -/
theorem toNat_succ_of_lt {id other : UInt32} (h : id < other) : (id + 1).toNat = id.toNat + 1 := by
  have hlt : id.toNat < other.toNat := UInt32.lt_iff_toNat_lt.1 h
  rw [UInt32.toNat_add]
  exact Nat.mod_eq_of_lt (Nat.lt_of_le_of_lt hlt other.toNat_lt)

/-! ### Spans and their positions -/

namespace Span

instance : Membership UInt32 Span :=
  ⟨fun span id => span.first ≤ id ∧ id ≤ span.last⟩

/-- A position is in a span if it stands between its ends. -/
theorem mem_iff {span : Span} {id : UInt32} :
    id ∈ span ↔ span.first.toNat ≤ id.toNat ∧ id.toNat ≤ span.last.toNat :=
  and_congr UInt32.le_iff_toNat_le UInt32.le_iff_toNat_le

/-- The number of positions of a span. -/
def length (span : Span) : Nat :=
  span.last.toNat + 1 - span.first.toNat

/-- The spans, in increasing order, hold exactly the given positions, and between any two of them
that follow each other some position is missing. -/
structure IsCanonical (ids : List UInt32) (spans : List Span) : Prop where
  ordered : ∀ span ∈ spans, span.first ≤ span.last
  increasing : spans.Pairwise fun s t => s.last < t.first
  separated : spans.IsChain fun s t => ∃ id, s.last < id ∧ id < t.first ∧ id ∉ ids
  covers : ∀ id, (∃ span ∈ spans, id ∈ span) ↔ id ∈ ids

/-- The second span starts behind the first one and does not touch it. -/
def Apart (s t : Span) : Prop :=
  s.last.toNat + 1 < t.first.toNat

/-- The spans are not empty, stand in increasing order and do not touch. -/
structure Separate (spans : List Span) : Prop where
  ordered : ∀ span ∈ spans, span.first ≤ span.last
  apart : spans.Pairwise Apart

variable {span other : Span} {spans others : List Span} {ids : List UInt32} {id : UInt32}

/-- The ends of a span that is not empty belong to it. -/
theorem ends_mem (h : span.first ≤ span.last) : span.first ∈ span ∧ span.last ∈ span :=
  ⟨⟨UInt32.le_refl _, h⟩, h, UInt32.le_refl _⟩

/-- Spans that are separate stay so without the first one. -/
theorem Separate.tail (h : Separate (span :: spans)) : Separate spans :=
  ⟨(List.forall_mem_cons.1 h.ordered).2, (List.pairwise_cons.1 h.apart).2⟩

/-- Nothing is covered in front of the first span. -/
theorem Separate.first_le (h : Separate (span :: spans)) (hother : other ∈ span :: spans)
    (hid : id ∈ other) : span.first.toNat ≤ id.toNat := by
  obtain ⟨hspan, -⟩ := List.forall_mem_cons.1 h.ordered
  rw [UInt32.le_iff_toNat_le] at hspan
  have hid := (mem_iff.1 hid).1
  rcases List.mem_cons.1 hother with rfl | hother
  · exact hid
  · have hapart : span.last.toNat + 1 < other.first.toNat :=
      (List.pairwise_cons.1 h.apart).1 other hother
    omega

/-- What is covered behind the first span is covered by the others. -/
theorem Separate.exists_mem_tail_iff (h : Separate (span :: spans)) :
    (∃ s ∈ spans, id ∈ s) ↔ (∃ s ∈ span :: spans, id ∈ s) ∧ span.last < id := by
  rw [UInt32.lt_iff_toNat_lt]
  constructor
  · rintro ⟨s, hs, hid⟩
    have hapart : span.last.toNat + 1 < s.first.toNat := (List.pairwise_cons.1 h.apart).1 s hs
    have hfirst := (mem_iff.1 hid).1
    exact ⟨⟨s, List.mem_cons_of_mem _ hs, hid⟩, by omega⟩
  · rintro ⟨⟨s, hs, hid⟩, hlt⟩
    have hlast := (mem_iff.1 hid).2
    rcases List.mem_cons.1 hs with rfl | hs
    · omega
    · exact ⟨s, hs, hid⟩

/-- A span that is covered ends no later than the first span, if the two start together. -/
theorem Separate.last_le (h : Separate (span :: spans)) (hfirst : span.first = other.first)
    (hcovered : ∀ id ∈ other, ∃ s ∈ span :: spans, id ∈ s) :
    other.last.toNat ≤ span.last.toNat := by
  by_contra hlt
  have hlt : span.last < other.last := UInt32.lt_iff_toNat_lt.2 (Nat.lt_of_not_le hlt)
  have hsucc := toNat_succ_of_lt hlt
  obtain ⟨hspan, -⟩ := List.forall_mem_cons.1 h.ordered
  rw [UInt32.lt_iff_toNat_lt] at hlt
  rw [UInt32.le_iff_toNat_le] at hspan
  -- Otherwise the position right behind the first span would be covered by one that touches it.
  have hmem : span.last + 1 ∈ other := mem_iff.2 ⟨by rw [← hfirst]; omega, by omega⟩
  obtain ⟨s, hs, hid⟩ := hcovered _ hmem
  obtain ⟨hlow, hhigh⟩ := mem_iff.1 hid
  rcases List.mem_cons.1 hs with rfl | hs
  · omega
  · have hapart : span.last.toNat + 1 < s.first.toNat := (List.pairwise_cons.1 h.apart).1 s hs
    omega

/-- Spans that do not touch are determined by what they cover. -/
theorem eq_of_covers (h : Separate spans) (hother : Separate others)
    (hcovers : ∀ id, (∃ s ∈ spans, id ∈ s) ↔ ∃ s ∈ others, id ∈ s) : spans = others := by
  induction spans generalizing others with
  | nil =>
    cases others with
    | nil => rfl
    | cons other rest =>
      have hmem := (ends_mem (hother.ordered other List.mem_cons_self)).1
      obtain ⟨s, hs, -⟩ := (hcovers _).2 ⟨other, List.mem_cons_self, hmem⟩
      exact absurd hs List.not_mem_nil
  | cons span spans ih =>
    have hspan := (ends_mem (h.ordered span List.mem_cons_self)).1
    cases others with
    | nil =>
      obtain ⟨s, hs, -⟩ := (hcovers _).1 ⟨span, List.mem_cons_self, hspan⟩
      exact absurd hs List.not_mem_nil
    | cons other rest =>
      have hmem := (ends_mem (hother.ordered other List.mem_cons_self)).1
      -- The first spans start together, and so they end together.
      have hfirst : span.first = other.first := by
        obtain ⟨s, hs, hid⟩ := (hcovers _).1 ⟨span, List.mem_cons_self, hspan⟩
        obtain ⟨t, ht, hid'⟩ := (hcovers _).2 ⟨other, List.mem_cons_self, hmem⟩
        exact UInt32.toNat_inj.1 (Nat.le_antisymm (h.first_le ht hid') (hother.first_le hs hid))
      have hlast : span.last = other.last := UInt32.toNat_inj.1 <| Nat.le_antisymm
        (hother.last_le hfirst.symm fun id hid => (hcovers id).1 ⟨span, List.mem_cons_self, hid⟩)
        (h.last_le hfirst fun id hid => (hcovers id).2 ⟨other, List.mem_cons_self, hid⟩)
      have hrest : spans = rest := ih h.tail hother.tail fun id => by
        rw [h.exists_mem_tail_iff, hother.exists_mem_tail_iff, hcovers, hlast]
      have hsame : span = other := by
        cases span
        cases other
        cases hfirst
        cases hlast
        rfl
      rw [hsame, hrest]

/-- Canonical spans are separate. -/
theorem IsCanonical.separate (h : IsCanonical ids spans) : Separate spans := by
  obtain ⟨hordered, hincreasing, hseparated, -⟩ := h
  refine ⟨hordered, ?_⟩
  induction spans with
  | nil => exact .nil
  | cons span rest ih =>
    obtain ⟨-, hordered⟩ := List.forall_mem_cons.1 hordered
    obtain ⟨-, hincreasing⟩ := List.pairwise_cons.1 hincreasing
    refine List.pairwise_cons.2 ⟨fun other hother => ?_, ih hordered hincreasing hseparated.tail⟩
    cases rest with
    | nil => exact absurd hother List.not_mem_nil
    | cons next rest =>
      obtain ⟨⟨id, hlow, hhigh, -⟩, -⟩ := List.isChain_cons_cons.1 hseparated
      rw [UInt32.lt_iff_toNat_lt] at hlow hhigh
      rw [Apart]
      -- Spans behind the next one are further away than it is.
      rcases List.mem_cons.1 hother with rfl | hother
      · omega
      · have hnext := hordered next List.mem_cons_self
        have hlast := (List.pairwise_cons.1 hincreasing).1 other hother
        rw [UInt32.le_iff_toNat_le] at hnext
        rw [UInt32.lt_iff_toNat_lt] at hlast
        omega

/-- Separate spans are canonical for what they cover. -/
theorem Separate.isCanonical (h : Separate spans)
    (hcovers : ∀ id, (∃ span ∈ spans, id ∈ span) ↔ id ∈ ids) : IsCanonical ids spans := by
  refine ⟨h.ordered, h.apart.imp fun {s t} hapart => ?_, ?_, hcovers⟩
  · rw [UInt32.lt_iff_toNat_lt]
    exact Nat.lt_of_succ_lt hapart
  · rw [List.isChain_iff_forall_rel_of_append_cons_cons]
    rintro s t front back rfl
    obtain ⟨-, hback, hfront⟩ := List.pairwise_append.1 h.apart
    obtain ⟨hs, ht⟩ := List.pairwise_cons.1 hback
    have hst : s.last.toNat + 1 < t.first.toNat := hs t List.mem_cons_self
    have hlt : s.last < t.first := UInt32.lt_iff_toNat_lt.2 (by omega)
    have hsucc := toNat_succ_of_lt hlt
    refine ⟨s.last + 1, ?_, ?_, fun hmem => ?_⟩
    · rw [UInt32.lt_iff_toNat_lt]
      omega
    · rw [UInt32.lt_iff_toNat_lt]
      omega
    obtain ⟨span, hspan, hid⟩ := (hcovers _).2 hmem
    obtain ⟨hlow, hhigh⟩ := mem_iff.1 hid
    have hordered : ∀ span ∈ front ++ s :: t :: back, span.first.toNat ≤ span.last.toNat :=
      fun span hspan => UInt32.le_iff_toNat_le.1 (h.ordered span hspan)
    -- Spans in front of `s` end before it, and spans behind `t` start after it.
    rcases List.mem_append.1 hspan with hspan | hspan
    · have hapart : span.last.toNat + 1 < s.first.toNat := hfront span hspan s List.mem_cons_self
      have := hordered s (by simp)
      omega
    rcases List.mem_cons.1 hspan with rfl | hspan
    · omega
    rcases List.mem_cons.1 hspan with rfl | hspan
    · omega
    · have hapart : t.last.toNat + 1 < span.first.toNat := (List.pairwise_cons.1 ht).1 span hspan
      have := hordered t (by simp)
      omega

/-- There is only one list of canonical spans. -/
theorem IsCanonical.unique (h : IsCanonical ids spans) (hother : IsCanonical ids others) :
    spans = others :=
  eq_of_covers h.separate hother.separate fun id => (h.covers id).trans (hother.covers id).symm

end Span

namespace IgnoredSet

open CleanupFilter.Span (Apart Separate IsCanonical)

/-! ### The loop -/

/-- The spans, the last one first, are those of the positions so far. -/
structure Collects (ids : List UInt32) (spans : List Span) : Prop where
  ordered : ∀ span ∈ spans, span.first ≤ span.last
  apart : spans.Pairwise fun later earlier => earlier.Apart later
  covers : ∀ id, (∃ span ∈ spans, id ∈ span) ↔ id ∈ ids
  count : (spans.map Span.length).sum = ids.length

namespace Collects

variable {ids rest : List UInt32} {spans others : List Span} {span : Span} {id : UInt32}

/-- Nothing has been collected of no positions. -/
theorem nil : Collects [] [] :=
  ⟨by simp, .nil, by simp, rfl⟩

/-- In their proper order the spans that were collected are separate. -/
theorem separate (h : Collects ids spans) : Separate spans.reverse :=
  ⟨fun span hspan => h.ordered span (List.mem_reverse.1 hspan), List.pairwise_reverse.2 h.apart⟩

/-- No span reaches a position that is larger than all so far. -/
theorem last_lt (h : Collects ids spans) (hid : ∀ earlier ∈ ids, earlier < id)
    (hspan : span ∈ spans) :
    span.last < id :=
  hid _ ((h.covers _).1 ⟨span, hspan, (Span.ends_mem (h.ordered span hspan)).2⟩)

/-- The successor that a round of the loop looks at does not overflow. -/
theorem succ_last (h : Collects ids spans) (hid : ∀ earlier ∈ ids, earlier < id)
    (hspan : span ∈ spans) : (span.last + 1).toNat = span.last.toNat + 1 :=
  toNat_succ_of_lt (h.last_lt hid hspan)

/-- A position next to the last span makes it longer. -/
theorem lengthen (h : Collects ids (span :: others)) (hid : ∀ earlier ∈ ids, earlier < id)
    (hnext : span.last + 1 = id) : Collects (ids ++ [id]) (⟨span.first, id⟩ :: others) := by
  -- No overflow: the last span ends in front of the position.
  have hsucc := h.succ_last hid List.mem_cons_self
  rw [hnext] at hsucc
  obtain ⟨hspan, hothers⟩ := List.forall_mem_cons.1 h.ordered
  rw [UInt32.le_iff_toNat_le] at hspan
  obtain ⟨hfirst, hapart⟩ := List.pairwise_cons.1 h.apart
  refine ⟨List.forall_mem_cons.2 ⟨?_, hothers⟩, List.pairwise_cons.2 ⟨hfirst, hapart⟩, ?_, ?_⟩
  · rw [UInt32.le_iff_toNat_le]
    dsimp only
    omega
  · intro other
    rw [List.mem_append, ← h.covers, List.mem_singleton]
    -- The span has grown by this position and by no other one.
    have hgrown : other ∈ (⟨span.first, id⟩ : Span) ↔ other ∈ span ∨ other = id := by
      rw [Span.mem_iff, Span.mem_iff, ← UInt32.toNat_inj]
      dsimp only
      omega
    simp only [List.exists_mem_cons_iff, hgrown]
    exact or_right_comm
  · have hcount := h.count
    simp only [List.map_cons, List.sum_cons, Span.length, List.length_append,
      List.length_singleton] at hcount ⊢
    omega

/-- A position further on starts a span of its own. -/
theorem start (h : Collects ids spans)
    (hapart : ∀ span ∈ spans, span.last.toNat + 1 < id.toNat) :
    Collects (ids ++ [id]) (⟨id, id⟩ :: spans) := by
  refine ⟨List.forall_mem_cons.2 ⟨UInt32.le_refl id, h.ordered⟩,
    List.pairwise_cons.2 ⟨hapart, h.apart⟩, ?_, ?_⟩
  · intro other
    rw [List.mem_append, ← h.covers, List.mem_singleton]
    -- The new span holds this position and no other one.
    have hsingle : other ∈ (⟨id, id⟩ : Span) ↔ other = id := by
      rw [Span.mem_iff, ← UInt32.toNat_inj]
      exact ⟨fun ⟨hlow, hhigh⟩ => Nat.le_antisymm hhigh hlow, fun h => ⟨h.ge, h.le⟩⟩
    simp only [List.exists_mem_cons_iff, hsingle]
    exact or_comm
  · have hcount := h.count
    simp only [List.map_cons, List.sum_cons, Span.length, List.length_append,
      List.length_singleton]
    omega

/-- One round of the loop takes in a position that is larger than all so far. -/
theorem extend (h : Collects ids spans) (hid : ∀ earlier ∈ ids, earlier < id) :
    Collects (ids ++ [id]) (IgnoredSet.extend spans id) := by
  cases spans with
  | nil => exact h.start (by simp)
  | cons span others =>
    rw [IgnoredSet.extend]
    split
    · next hnext => exact h.lengthen hid hnext
    · next hne =>
      refine h.start fun earlier hearlier => ?_
      have hlt := h.last_lt hid (List.mem_cons_self (a := span))
      have hsucc := toNat_succ_of_lt hlt
      rw [← UInt32.toNat_inj] at hne
      rw [UInt32.lt_iff_toNat_lt] at hlt
      -- The last span ends in front of the position and is not next to it.
      rcases List.mem_cons.1 hearlier with rfl | hearlier
      · omega
      · have hapart : earlier.last.toNat + 1 < span.first.toNat :=
          (List.pairwise_cons.1 h.apart).1 earlier hearlier
        have hspan := UInt32.le_iff_toNat_le.1 (h.ordered span List.mem_cons_self)
        omega

/-- The loop takes in positions that come in increasing order. -/
theorem foldl_extend (h : Collects ids spans) (hincreasing : (ids ++ rest).Pairwise (· < ·)) :
    Collects (ids ++ rest) (rest.foldl IgnoredSet.extend spans) := by
  induction rest generalizing ids spans with
  | nil => rwa [List.append_nil]
  | cons id rest ih =>
    have hid : ∀ earlier ∈ ids, earlier < id := fun earlier hearlier =>
      (List.pairwise_append.1 hincreasing).2.2 earlier hearlier id List.mem_cons_self
    rw [List.append_cons] at hincreasing ⊢
    exact ih (h.extend hid) hincreasing

end Collects

variable {ids : List UInt32} {spans : List Span} {set : IgnoredSet}

/-- The loop collects the spans of positions in increasing order. -/
theorem collects_collect (h : ids.Pairwise (· < ·)) : Collects ids (collect ids) :=
  Collects.nil.foldl_extend h

/-! ### The spans of a set -/

/-- Positions are put into a set one by one. -/
theorem mem_foldl_insert {id : UInt32} :
    id ∈ (ids.foldl insert set).positions ↔ id ∈ ids ∨ id ∈ set.positions := by
  induction ids generalizing set with
  | nil => simp
  | cons first rest ih =>
    rw [List.foldl_cons, ih, insert, mem_insertInto, List.mem_cons, ← or_assoc]
    exact or_congr_left or_comm

/-- A set has the positions that were put into it. -/
theorem mem_ofList {id : UInt32} : id ∈ (ofList ids).positions ↔ id ∈ ids := by
  rw [ofList, mem_foldl_insert, empty]
  exact or_iff_left List.not_mem_nil

/-- Sets with the same positions are equal. -/
theorem eq_of_mem_iff {first second : IgnoredSet}
    (h : ∀ id, id ∈ first.positions ↔ id ∈ second.positions) : first = second := by
  have hpositions := first.increasing.eq_of_mem_iff second.increasing h
  cases first
  cases second
  congr

/-- The spans of a set are canonical for its positions, in whatever order they are listed. -/
theorem isCanonical_spans (h : ∀ id, id ∈ set.positions ↔ id ∈ ids) :
    IsCanonical ids set.spans := by
  have hcollects := collects_collect set.increasing
  refine hcollects.separate.isCanonical fun id => ?_
  simp only [List.mem_reverse]
  exact (hcollects.covers id).trans (h id)

/-- The spans of a set are the canonical ones. -/
theorem spans_eq_iff_isCanonical (h : ∀ id, id ∈ set.positions ↔ id ∈ ids) :
    set.spans = spans ↔ IsCanonical ids spans := by
  constructor
  · rintro rfl
    exact isCanonical_spans h
  · exact fun hspans => (isCanonical_spans h).unique hspans

/-- The spans of a set have as many positions as the set. -/
theorem size_eq_sum (set : IgnoredSet) : set.size = (set.spans.map Span.length).sum := by
  rw [spans, List.map_reverse, List.sum_reverse, (collects_collect set.increasing).count, size]

/-- While the loop runs over a set, the successor of the last end does not overflow. -/
theorem succ_last_collect {front back : List UInt32} {id : UInt32}
    (h : set.positions = front ++ id :: back) :
    ∀ span ∈ (collect front).head?, span.last.toNat + 1 < UInt32.size := by
  have hincreasing := set.increasing
  rw [h] at hincreasing
  obtain ⟨hfront, -, hbehind⟩ := List.pairwise_append.1 hincreasing
  intro span hspan
  have hlt := (collects_collect hfront).last_lt
    (fun earlier hearlier => hbehind earlier hearlier id List.mem_cons_self)
    (List.mem_of_mem_head? hspan)
  exact Nat.lt_of_le_of_lt (UInt32.lt_iff_toNat_lt.1 hlt) id.toNat_lt

end IgnoredSet

/-! ### Printed spans -/

namespace MethodReport

variable {config : FilterConfig} {body : Body Label}

/-- The spans of a report are canonical. -/
theorem isCanonical_ofBody (config : FilterConfig) (body : Body Label) :
    Span.IsCanonical ((body.ignored config).map Nat.toUInt32) (ofBody config body).ignored :=
  IgnoredSet.isCanonical_spans fun _ => IgnoredSet.mem_ofList

/-- A report names the method and then its spans. -/
theorem text_ofBody (config : FilterConfig) (body : Body Label) :
    (ofBody config body).text = body.name ++ body.desc ++ ": " ++
      (if (ofBody config body).ignored = [] then "-"
        else ", ".intercalate ((ofBody config body).ignored.map fun span =>
          span.first.toNat.repr ++ "..=" ++ span.last.toNat.repr)) ++ "\n" := by
  rw [text]
  cases (ofBody config body).ignored <;> rfl

end MethodReport

namespace IgnoredSet

/-- The spans of a set are the canonical ones of the positions that were put into it, in whatever
order and however often. No successor overflows while they are collected. What is printed of a
method are the canonical spans of the positions that its findings cover. -/
theorem canonical_spans :
    (∀ (ids : List UInt32) (spans : List Span),
        (ofList ids).spans = spans ↔ Span.IsCanonical ids spans) ∧
      (∀ (ids : List UInt32) (id : UInt32), (ofList ids).contains id = true ↔ id ∈ ids) ∧
      (∀ ids : List UInt32, (ofList ids).size = ((ofList ids).spans.map Span.length).sum) ∧
      (∀ ids others : List UInt32, (∀ id, id ∈ others ↔ id ∈ ids) →
        (ofList others).spans = (ofList ids).spans) ∧
      (∀ (ids front back : List UInt32) (id : UInt32),
        (ofList ids).positions = front ++ id :: back →
          ∀ span ∈ (collect front).head?, span.last.toNat + 1 < UInt32.size) ∧
      ∀ (path : String) (config : FilterConfig) (bodies : List (Body Label)),
        ∃ found : List (List Span),
          List.Forall₂ (fun body spans =>
            Span.IsCanonical ((body.ignored config).map Nat.toUInt32) spans) bodies found ∧
          ∀ render : Renderer,
            (Command.filter path .text config).output render bodies =
              .ok (String.join (List.zipWith (fun body spans =>
                body.name ++ body.desc ++ ": " ++
                  (if spans = [] then "-"
                    else ", ".intercalate (spans.map fun span =>
                      span.first.toNat.repr ++ "..=" ++ span.last.toNat.repr)) ++ "\n")
                bodies found)) ∧
            (Command.filter path .yaml config).output render bodies =
              render (List.zipWith (fun body spans =>
                { name := body.name, desc := body.desc, ignored := spans }) bodies found) := by
  refine ⟨fun ids spans => spans_eq_iff_isCanonical fun _ => mem_ofList, fun ids id => ?_,
    fun ids => size_eq_sum _, fun ids others h => ?_, fun ids front back id => succ_last_collect,
    fun path config bodies => ?_⟩
  · rw [contains, List.contains_iff_mem]
    exact mem_ofList
  · -- The same positions are the same set.
    rw [eq_of_mem_iff fun id => mem_ofList.trans ((h id).trans mem_ofList.symm)]
  -- The spans of a method are those of its report, and only they are printed.
  · refine ⟨bodies.map fun body => (MethodReport.ofBody config body).ignored, ?_, fun render => ?_⟩
    · exact List.forall₂_map_right_iff.2
        (List.forall₂_same.2 fun body _ => MethodReport.isCanonical_ofBody config body)
    · simp only [List.zipWith_map_right, List.zipWith_self, ← MethodReport.text_ofBody]
      exact ⟨rfl, rfl⟩

/-- Positions out of order, some of them twice, up to the largest word. -/
def scattered : List UInt32 :=
  [4294967295, 7, 3, 4, 5, 9, 8, 3, 12, 4294967294]

/-- The spans of `scattered`, and the last successor that is looked at on the way to them. -/
theorem canonical_spans_scattered :
    (∀ id, id ∈ [3, 4, 5, 7, 8, 9, 12, 4294967294, 4294967295] ↔ id ∈ scattered) ∧
      (ofList [3, 4, 5, 7, 8, 9, 12, 4294967294, 4294967295]).spans =
        [⟨3, 5⟩, ⟨7, 9⟩, ⟨12, 12⟩, ⟨4294967294, 4294967295⟩] ∧
      (ofList scattered).positions =
        [3, 4, 5, 7, 8, 9, 12, 4294967294] ++ 4294967295 :: [] ∧
      (collect [3, 4, 5, 7, 8, 9, 12, 4294967294]).head? = some ⟨4294967294, 4294967294⟩ ∧
      (4294967294 : UInt32).toNat + 1 < UInt32.size := by
  have hsame : ∀ id, id ∈ [3, 4, 5, 7, 8, 9, 12, 4294967294, 4294967295] ↔ id ∈ scattered := by
    intro id
    simp only [scattered, List.mem_cons, List.not_mem_nil, or_false]
    tauto
  have hspans : (ofList scattered).spans =
      [⟨3, 5⟩, ⟨7, 9⟩, ⟨12, 12⟩, ⟨4294967294, 4294967295⟩] := by decide +kernel
  have hpositions : (ofList scattered).positions =
      [3, 4, 5, 7, 8, 9, 12, 4294967294] ++ 4294967295 :: [] := by decide +kernel
  have hlast : (collect [3, 4, 5, 7, 8, 9, 12, 4294967294]).head? =
      some ⟨4294967294, 4294967294⟩ := by decide +kernel
  obtain ⟨-, -, -, hdepends, hsucc, -⟩ := canonical_spans
  exact ⟨hsame, (hdepends _ _ hsame).trans hspans, hpositions, hlast,
    hsucc _ _ _ _ hpositions _ hlast⟩

end IgnoredSet

end CleanupFilter
