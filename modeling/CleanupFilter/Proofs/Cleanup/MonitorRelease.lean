import CleanupFilter.Proofs.Cleanup.Candidate
import CleanupFilter.Proofs.Method.Insertion

/-!
# Where monitors are released

A handler releases a monitor exactly if the instructions behind its label have the opcodes of one
of the two shapes. Labels, line markers and frames may stand between any two of them, and operands
are not looked at.

- `Code.instructionsFrom`: where the instructions of code are, in order.
- `Code.Begins`: the opcodes that the instructions from a position on begin with.
- `TryCatch.Releases`: what releases a monitor at the handler of an entry.
- `Code.not_begins_both`: the two shapes exclude each other.
- `monitorReleaseIn?_eq_some_iff`: what is found, in whatever order the shapes are tried.
- `TryCatch.Releases.filter_span`: no instruction but those of the release is in its span.
- `Body.exists_ignored_monitors`: what is ignored, entry by entry.
- `Body.monitorFindings_releases`: all of it for the findings of a method.
-/

namespace CleanupFilter

variable {code : Code}

/-! ### Instructions in order -/

namespace Code

/-- The positions from `first` on that hold instructions, in order. -/
def instructionsFrom (code : Code) (first : Nat) : List Nat :=
  (List.range' first (code.size - first)).filter fun position => code.IsInstruction position

/-- The opcode of the instruction at a position. -/
def opcodeAt? (code : Code) (position : Nat) : Option Opcode :=
  code[position]?.bind Node.opcode?

/-- The instructions from `first` on begin with those at `matched`, which have these opcodes. -/
def Begins (code : Code) (first : Nat) (opcodes : List Opcode) (matched : List Nat) : Prop :=
  matched <+: code.instructionsFrom first ∧ matched.map code.opcodeAt? = opcodes.map some

instance (code : Code) (first : Nat) (opcodes : List Opcode) (matched : List Nat) :
    Decidable (code.Begins first opcodes matched) :=
  inferInstanceAs (Decidable (_ ∧ _))

/-- The instructions from a position on are those behind it, and the one at the position if there is
one. -/
theorem instructionsFrom_of_lt {first : Nat} (h : first < code.size) :
    code.instructionsFrom first =
      if code.IsInstruction first then first :: code.instructionsFrom (first + 1)
      else code.instructionsFrom (first + 1) := by
  obtain ⟨rest, hrest⟩ : ∃ rest, code.size - first = rest + 1 := ⟨code.size - first - 1, by omega⟩
  have hnext : code.size - (first + 1) = rest := by omega
  rw [instructionsFrom, instructionsFrom, hrest, hnext, List.range'_succ, List.filter_cons]
  simp only [decide_eq_true_eq]

/-- The first instruction is the one that is found, and the others stand behind it. -/
theorem instructionsFrom_eq (code : Code) (first : Nat) :
    code.instructionsFrom first =
      match code.realFrom? first with
      | some found => found :: code.instructionsFrom (found + 1)
      | none => [] := by
  fun_induction realFrom? code first with
  | case1 first hlt hpseudo ih =>
    have hnone : ¬ code.IsInstruction first := by
      rintro ⟨node, hnode, hreal⟩
      rw [Option.mem_def, Array.getElem?_eq_getElem hlt, Option.some.injEq] at hnode
      rw [hnode, hreal] at hpseudo
      exact Bool.noConfusion hpseudo
    rw [instructionsFrom_of_lt hlt, if_neg hnone, ih]
  | case2 first hlt hreal =>
    have hsome : code.IsInstruction first :=
      ⟨code[first], Array.getElem?_eq_getElem hlt, Bool.eq_false_iff.2 hreal⟩
    rw [instructionsFrom_of_lt hlt, if_pos hsome]
  | case3 first hlt =>
    rw [instructionsFrom, Nat.sub_eq_zero_of_le (Nat.le_of_not_lt hlt)]
    rfl

theorem begins_nil {first : Nat} {matched : List Nat} :
    code.Begins first [] matched ↔ matched = [] := by
  rw [Begins, List.map_nil, List.map_eq_nil_iff]
  exact and_iff_right_of_imp fun h => h ▸ List.nil_prefix

/-- The first opcode is that of the first instruction. -/
theorem begins_cons {first : Nat} {opcode : Opcode} {opcodes : List Opcode} {matched : List Nat} :
    code.Begins first (opcode :: opcodes) matched ↔
      ∃ found rest, matched = found :: rest ∧ code.realFrom? first = some found ∧
        code.opcodeAt? found = some opcode ∧ code.Begins (found + 1) opcodes rest := by
  rw [Begins, instructionsFrom_eq, List.map_cons]
  cases hfound : code.realFrom? first with
  | none => cases matched <;> simp
  | some found =>
    cases matched with
    | nil => simp
    | cons other rest =>
      simp only [List.cons_prefix_cons, List.map_cons, List.cons.injEq, Option.some.injEq]
      constructor
      · rintro ⟨⟨rfl, hrest⟩, hopcode, hopcodes⟩
        exact ⟨other, rest, ⟨rfl, rfl⟩, rfl, hopcode, hrest, hopcodes⟩
      · rintro ⟨_, _, ⟨rfl, rfl⟩, rfl, hopcode, hrest, hopcodes⟩
        exact ⟨⟨rfl, hrest⟩, hopcode, hopcodes⟩

end Code

/-! ### Running opcodes -/

namespace Cursor

/-- An opcode that is expected is that of the next instruction. -/
theorem follow?_expect_eq_some_iff {position : Nat} {before : Bindings} {opcode : Opcode}
    {next : Cursor} :
    (expect code opcode).follow? ⟨some position, before⟩ = some next ↔
      ∃ found, code.realFrom? (position + 1) = some found ∧ code.opcodeAt? found = some opcode ∧
        next = ⟨some found, before⟩ := by
  rw [Primitive.follow?_eq_some_iff, expect, Prod.mk.injEq, decide_eq_true_eq, opcode?, current?,
    advance, Option.bind_some, Code.nextReal?]
  cases code.realFrom? (position + 1) with
  | none => simp
  | some found => simp [Code.opcodeAt?, eq_comm]

/-- Opcodes are expected one after the other, and nothing is bound on the way. -/
theorem follow?_run_op_eq_some_iff {scope : Scope} {opcodes : List Opcode} {position : Nat}
    {before : Bindings} {final : Cursor} :
    (run code scope (opcodes.map .op)).follow? ⟨some position, before⟩ = some final ↔
      ∃ matched, code.Begins (position + 1) opcodes matched ∧
        final = ⟨(position :: matched).getLast?, before⟩ := by
  induction opcodes generalizing position with
  | nil =>
    simp only [Code.begins_nil, exists_eq_left]
    exact Option.some_inj.trans eq_comm
  | cons opcode opcodes ih =>
    rw [List.map_cons, run, Primitive.follow?_andThen, Option.bind_eq_some_iff]
    constructor
    · rintro ⟨next, hnext, hfinal⟩
      obtain ⟨found, hfound, hopcode, rfl⟩ := follow?_expect_eq_some_iff.1 hnext
      obtain ⟨rest, hrest, rfl⟩ := ih.1 hfinal
      refine ⟨found :: rest, Code.begins_cons.2 ⟨found, rest, rfl, hfound, hopcode, hrest⟩, ?_⟩
      rw [List.getLast?_cons_cons]
    · rintro ⟨matched, hmatched, rfl⟩
      obtain ⟨found, rest, rfl, hfound, hopcode, hrest⟩ := Code.begins_cons.1 hmatched
      refine ⟨_, follow?_expect_eq_some_iff.2 ⟨found, hfound, hopcode, rfl⟩, ih.2 ⟨rest, hrest, ?_⟩⟩
      rw [List.getLast?_cons_cons]

end Cursor

/-! ### The two shapes -/

/-- The opcodes of the instructions that release a monitor. -/
def MonitorShape.opcodes : MonitorShape → List Opcode
  | javac => [.astore, .aload, .monitorExit, .aload, .athrow]
  | ecj => [.aload, .monitorExit, .athrow]

/-- The steps of a shape look for its opcodes and for nothing else. -/
theorem MonitorShape.steps_eq (shape : MonitorShape) :
    shape.steps = shape.opcodes.map .op := by
  cases shape <;> rfl

theorem MonitorShape.mem_all (shape : MonitorShape) : shape ∈ all := by
  cases shape <;> decide

/-- The first instruction tells the shapes apart. -/
theorem Code.not_begins_both {first : Nat} {matched others : List Nat} :
    ¬ (code.Begins first MonitorShape.javac.opcodes matched ∧
      code.Begins first MonitorShape.ecj.opcodes others) := by
  rintro ⟨hjavac, hecj⟩
  obtain ⟨found, -, -, hfound, hopcode, -⟩ := Code.begins_cons.1 hjavac
  obtain ⟨other, -, -, hother, hopcode', -⟩ := Code.begins_cons.1 hecj
  obtain rfl : found = other := Option.some.inj (hfound.symm.trans hother)
  rw [hopcode] at hopcode'
  exact absurd hopcode' (by decide)

/-- Code begins with one of the shapes only. -/
theorem MonitorShape.eq_of_begins {shape other : MonitorShape} {first : Nat}
    {matched others : List Nat} (h : code.Begins first shape.opcodes matched)
    (hother : code.Begins first other.opcodes others) : shape = other := by
  cases shape <;> cases other
  · rfl
  · exact absurd ⟨h, hother⟩ Code.not_begins_both
  · exact absurd ⟨hother, h⟩ Code.not_begins_both
  · rfl

/-- The instructions that a shape begins with are determined by their number. -/
theorem Code.Begins.unique {first : Nat} {opcodes : List Opcode} {matched others : List Nat}
    (h : code.Begins first opcodes matched) (hothers : code.Begins first opcodes others) :
    matched = others := by
  have hlength : matched.length = others.length := by
    have hmatched := congrArg List.length h.2
    have hlength := congrArg List.length hothers.2
    rw [List.length_map] at hmatched hlength
    exact hmatched.trans hlength.symm
  exact (List.prefix_of_prefix_length_le h.1 hothers.1 (Nat.le_of_eq hlength)).eq_of_length hlength

/-- A monitor is released at the handler of the entry, which starts at `first`, by the instructions
at `matched`, the last of which stands at `last`. -/
structure TryCatch.Releases (code : Code) (shape : MonitorShape) (first : Nat)
    (matched : List Nat) (last : Nat) (entry : TryCatch Label) : Prop where
  /-- The handler catches everything. -/
  catchAll : entry.isCatchAll = true
  /-- The entry does not guard its own handler. -/
  guarded : entry.start ≠ entry.handler
  /-- The label of the handler stands at `first`. -/
  placed : code[first]? = some (.label entry.handler)
  /-- It is not placed again. -/
  placedLast : ∀ later, first < later → code[later]? ≠ some (.label entry.handler)
  /-- The instructions behind the label have the opcodes of the shape. -/
  begins : code.Begins (first + 1) shape.opcodes matched
  /-- The last of them stands at `last`. -/
  ends : matched.getLast? = some last

/-- The positions that the entry adds to the ignored ones: the span of the release at its handler, if
there is one. -/
inductive TryCatch.Ignored (code : Code) (entry : TryCatch Label) : List Nat → Prop
  | release {shape : MonitorShape} {first last : Nat} {matched : List Nat} :
      entry.Releases code shape first matched last → Ignored code entry (code.span first last)
  | nothing : (∀ shape first matched last, ¬ entry.Releases code shape first matched last) →
      Ignored code entry []

/-- The release at the handler of an entry, with the shapes tried in the given order. -/
def monitorReleaseIn? (order : List MonitorShape) (code : Code) (entry : TryCatch Label) :
    Option (MonitorShape × Nat) :=
  if entry.isCatchAll = true ∧ entry.start ≠ entry.handler then
    (entry.handlerPosition? code).bind fun handler =>
      order.findSome? fun shape =>
        (((Cursor.run code .method shape.steps).follow? (.after handler)).bind Cursor.position).map
          fun last => (shape, last)
  else none

/-- In the usual order the release is the usual one. -/
theorem monitorReleaseIn?_all (code : Code) (entry : TryCatch Label) :
    monitorReleaseIn? MonitorShape.all code entry = monitorRelease? code entry :=
  rfl

/-- A shape is found behind a handler if the instructions there begin with its opcodes. -/
theorem map_run_steps_eq_some_iff {handler : Nat} {other : MonitorShape}
    {found : MonitorShape × Nat} :
    (((Cursor.run code .method other.steps).follow? (.after handler)).bind Cursor.position).map
        (fun last => (other, last)) = some found ↔
      found.1 = other ∧ ∃ matched, code.Begins (handler + 1) other.opcodes matched ∧
        matched.getLast? = some found.2 := by
  obtain ⟨shape, last⟩ := found
  have hne : ∀ {matched}, code.Begins (handler + 1) other.opcodes matched →
      (handler :: matched).getLast? = matched.getLast? := by
    rintro (_ | ⟨a, rest⟩) hmatched
    · cases other <;> exact absurd hmatched.2 (by simp [MonitorShape.opcodes])
    · rw [List.getLast?_cons_cons]
  simp only [Option.map_eq_some_iff, Option.bind_eq_some_iff, Prod.mk.injEq,
    MonitorShape.steps_eq, Cursor.after, Cursor.follow?_run_op_eq_some_iff]
  constructor
  · rintro ⟨_, ⟨_, ⟨matched, hmatched, rfl⟩, hlast⟩, rfl, rfl⟩
    exact ⟨rfl, matched, hmatched, (hne hmatched).symm.trans hlast⟩
  · rintro ⟨rfl, matched, hmatched, hlast⟩
    exact ⟨last, ⟨_, ⟨matched, hmatched, rfl⟩, (hne hmatched).trans hlast⟩, rfl, rfl⟩

/-- What is found are the releases, in whatever order the shapes are tried. -/
theorem monitorReleaseIn?_eq_some_iff {order : List MonitorShape}
    (horder : ∀ shape, shape ∈ order) {entry : TryCatch Label} {shape : MonitorShape}
    {last : Nat} :
    monitorReleaseIn? order code entry = some (shape, last) ↔
      ∃ first matched, entry.Releases code shape first matched last := by
  rw [monitorReleaseIn?, Option.ite_none_right_eq_some, Option.bind_eq_some_iff]
  constructor
  · rintro ⟨⟨hcatchAll, hguarded⟩, first, hfirst, hfound⟩
    obtain ⟨hplaced, hplacedLast⟩ := Code.placement?_eq_some_iff.1 hfirst
    obtain ⟨other, -, hother⟩ := List.exists_of_findSome?_eq_some hfound
    obtain ⟨rfl, matched, hbegins, hends⟩ := map_run_steps_eq_some_iff.1 hother
    exact ⟨first, matched, hcatchAll, hguarded, hplaced, hplacedLast, hbegins, hends⟩
  · rintro ⟨first, matched, h⟩
    refine ⟨⟨h.catchAll, h.guarded⟩, first,
      Code.placement?_eq_some_iff.2 ⟨h.placed, h.placedLast⟩, ?_⟩
    cases hfound : order.findSome? fun other =>
        (((Cursor.run code .method other.steps).follow? (.after first)).bind Cursor.position).map
          fun last => (other, last) with
    | none =>
      have hsome : _ = some (shape, last) :=
        map_run_steps_eq_some_iff.2 ⟨rfl, matched, h.begins, h.ends⟩
      exact absurd (hsome.symm.trans (List.findSome?_eq_none_iff.1 hfound shape (horder shape)))
        (Option.some_ne_none _)
    | some found =>
      -- Whichever shape was found first, it is this one.
      obtain ⟨other, -, hother⟩ := List.exists_of_findSome?_eq_some hfound
      obtain ⟨rfl, others, hbegins, hends⟩ := map_run_steps_eq_some_iff.1 hother
      have hshape := MonitorShape.eq_of_begins hbegins h.begins
      rw [hshape] at hbegins
      rw [hbegins.unique h.begins, h.ends, Option.some.injEq] at hends
      rw [← hshape, hends]

/-- The order of the shapes does not matter. -/
theorem monitorReleaseIn?_eq {order : List MonitorShape} (horder : ∀ shape, shape ∈ order)
    (code : Code) (entry : TryCatch Label) :
    monitorReleaseIn? order code entry = monitorRelease? code entry := by
  ext ⟨shape, last⟩
  rw [← monitorReleaseIn?_all, monitorReleaseIn?_eq_some_iff horder,
    monitorReleaseIn?_eq_some_iff MonitorShape.mem_all]

/-! ### Spans -/

namespace Code

/-- Instructions stand within the code. -/
theorem IsInstruction.lt_size {position : Nat} (h : code.IsInstruction position) :
    position < code.size := by
  obtain ⟨node, hnode, -⟩ := h
  exact (Array.getElem?_eq_some_iff.1 hnode).1

/-- The instructions from a position on are all that do not stand in front of it. -/
theorem mem_instructionsFrom {first position : Nat} :
    position ∈ code.instructionsFrom first ↔ first ≤ position ∧ code.IsInstruction position := by
  rw [instructionsFrom, List.mem_filter, List.mem_range'_1, decide_eq_true_eq]
  refine and_congr_left fun h => and_iff_left_of_imp fun hfirst => ?_
  have := h.lt_size
  omega

/-- Instructions are listed in increasing order. -/
theorem pairwise_instructionsFrom (code : Code) (first : Nat) :
    (code.instructionsFrom first).Pairwise (· < ·) :=
  List.Pairwise.filter _ List.pairwise_lt_range'

theorem pairwise_span (code : Code) (first last : Nat) :
    (code.span first last).Pairwise (· < ·) :=
  List.pairwise_lt_range'

/-- The instructions up to one of them are those that come first. -/
theorem Begins.filter_span {first last : Nat} {opcodes : List Opcode} {matched : List Nat}
    (h : code.Begins first opcodes matched) (hlast : matched.getLast? = some last) :
    (code.span first last).filter (fun position => code.IsInstruction position) = matched := by
  obtain ⟨rest, hrest⟩ := h.1
  obtain ⟨front, rfl⟩ := List.getLast?_eq_some_iff.1 hlast
  have hsorted := pairwise_instructionsFrom code first
  rw [← hrest, List.pairwise_append] at hsorted
  obtain ⟨hmatched, -, hbehind⟩ := hsorted
  have hle : ∀ position ∈ front ++ [last], position ≤ last := by
    intro position hposition
    rcases List.mem_append.1 hposition with hfront | hself
    · exact Nat.le_of_lt
        ((List.pairwise_append.1 hmatched).2.2 position hfront last List.mem_cons_self)
    · exact Nat.le_of_eq (List.mem_singleton.1 hself)
  have hmem : ∀ position, position ∈ front ++ [last] ∨ position ∈ rest ↔
      first ≤ position ∧ code.IsInstruction position := by
    intro position
    rw [← List.mem_append, hrest, mem_instructionsFrom]
  obtain ⟨-, hinstruction⟩ := (hmem last).1 (.inl (by simp))
  -- Both lists are increasing, so it is enough that they have the same members.
  have hspan := (code.pairwise_span first last).filter fun position => code.IsInstruction position
  refine List.Perm.eq_of_pairwise ?_ hspan hmatched ?_
  · exact fun a b _ _ hab hba => absurd hab (Nat.lt_asymm hba)
  refine (List.perm_ext_iff_of_nodup (hspan.imp Nat.ne_of_lt) (hmatched.imp Nat.ne_of_lt)).2
    fun position => ?_
  rw [List.mem_filter, mem_span hinstruction.lt_size, decide_eq_true_eq]
  constructor
  · rintro ⟨⟨hfirst, hposition⟩, hreal⟩
    refine ((hmem position).2 ⟨hfirst, hreal⟩).resolve_right fun hrest => ?_
    exact absurd (hbehind last (by simp) position hrest) (Nat.not_lt_of_le hposition)
  · intro hposition
    obtain ⟨hfirst, hreal⟩ := (hmem position).1 (.inl hposition)
    exact ⟨⟨hfirst, hle position hposition⟩, hreal⟩

/-- A span is its first position and the span behind it. -/
theorem span_eq_cons {first last : Nat} (h : first ≤ last) (hlast : last < code.size) :
    code.span first last = first :: code.span (first + 1) last := by
  rw [span, span, Nat.min_eq_left hlast]
  obtain ⟨rest, rfl⟩ := Nat.exists_eq_add_of_le h
  have hlength : first + rest + 1 - first = rest + 1 := by omega
  have hbehind : first + rest + 1 - (first + 1) = rest := by omega
  rw [hlength, hbehind, List.range'_succ]

end Code

namespace TryCatch.Releases

variable {shape : MonitorShape} {first last : Nat} {matched : List Nat} {entry : TryCatch Label}

/-- A release starts at the position of the handler. -/
theorem placement?_eq (h : entry.Releases code shape first matched last) :
    entry.handlerPosition? code = some first :=
  Code.placement?_eq_some_iff.2 ⟨h.placed, h.placedLast⟩

/-- A release ends with an instruction behind its first position. -/
theorem mem_instructionsFrom_last (h : entry.Releases code shape first matched last) :
    last ∈ code.instructionsFrom (first + 1) :=
  h.begins.1.subset (List.mem_of_getLast? h.ends)

/-- The release ends behind the label of the handler, within the code. -/
theorem lt_last (h : entry.Releases code shape first matched last) :
    first < last ∧ last < code.size := by
  obtain ⟨hfirst, hinstruction⟩ := Code.mem_instructionsFrom.1 h.mem_instructionsFrom_last
  exact ⟨hfirst, hinstruction.lt_size⟩

/-- The span of the release is the label and the span behind it. -/
theorem span_eq (h : entry.Releases code shape first matched last) :
    code.span first last = first :: code.span (first + 1) last :=
  Code.span_eq_cons (Nat.le_of_lt h.lt_last.1) h.lt_last.2

/-- No instruction but those of the release is in its span. -/
theorem filter_span (h : entry.Releases code shape first matched last) :
    (code.span first last).filter (fun position => code.IsInstruction position) = matched := by
  have hlabel : ¬ code.IsInstruction first := by
    rintro ⟨node, hnode, hreal⟩
    rw [Option.mem_def, h.placed, Option.some.injEq] at hnode
    rw [← hnode] at hreal
    exact Bool.noConfusion hreal
  rw [h.span_eq, List.filter_cons_of_neg (by simpa using hlabel), h.begins.filter_span h.ends]

end TryCatch.Releases

namespace Body

/-- The findings are the releases at the handlers of the entries. -/
theorem mem_monitorFindings_iff {body : Body Label} {finding : Finding} :
    finding ∈ body.monitorFindings ↔ ∃ entry ∈ body.tryCatches, ∃ shape matched,
      finding.cleanup = .monitor shape ∧
        entry.Releases body.nodes shape finding.first matched finding.last := by
  rw [monitorFindings, List.mem_filterMap]
  refine exists_congr fun entry => and_congr_right fun _ => ?_
  simp only [Option.bind_eq_some_iff, Option.map_eq_some_iff, ← monitorReleaseIn?_all]
  constructor
  · rintro ⟨first, hfirst, ⟨shape, last⟩, hfound, rfl⟩
    obtain ⟨handler, matched, h⟩ := (monitorReleaseIn?_eq_some_iff MonitorShape.mem_all).1 hfound
    -- The release starts where the handler was looked up.
    rw [h.placement?_eq, Option.some.injEq] at hfirst
    exact ⟨shape, matched, rfl, hfirst ▸ h⟩
  · rintro ⟨shape, matched, hcleanup, h⟩
    refine ⟨finding.first, h.placement?_eq, (shape, finding.last), ?_, ?_⟩
    · exact (monitorReleaseIn?_eq_some_iff MonitorShape.mem_all).2 ⟨_, _, h⟩
    · rw [← hcleanup]

/-- The span of what is found for an entry. -/
def ignoredAt (body : Body Label) (entry : TryCatch Label) : List Nat :=
  ((entry.handlerPosition? body.nodes).bind fun first =>
    (monitorRelease? body.nodes entry).map fun (_, last) =>
      Code.span body.nodes first last).getD []

/-- The span of what is found is that of a release, and it is empty if there is none. -/
theorem ignored_ignoredAt (body : Body Label) (entry : TryCatch Label) :
    entry.Ignored body.nodes (body.ignoredAt entry) := by
  cases hfound : monitorRelease? body.nodes entry with
  | none =>
    rw [ignoredAt, hfound]
    simp only [Option.map_none, Option.bind_fun_none, Option.getD_none]
    refine .nothing fun shape first matched last h => ?_
    -- A release would have been found.
    have hsome := (monitorReleaseIn?_eq_some_iff MonitorShape.mem_all).2 ⟨first, matched, h⟩
    rw [monitorReleaseIn?_all, hfound] at hsome
    cases hsome
  | some found =>
    obtain ⟨shape, last⟩ := found
    rw [ignoredAt, hfound]
    rw [← monitorReleaseIn?_all] at hfound
    obtain ⟨first, matched, h⟩ := (monitorReleaseIn?_eq_some_iff MonitorShape.mem_all).1 hfound
    rw [h.placement?_eq]
    exact .release h

/-- The ignored positions are put together entry by entry. -/
theorem ignored_monitors (body : Body Label) :
    body.ignored ⟨false, true⟩ = body.tryCatches.flatMap body.ignoredAt := by
  have hfindings : body.findings ⟨false, true⟩ = body.monitorFindings := rfl
  rw [ignored, hfindings, monitorFindings, List.filterMap_eq_flatMap_toList, List.flatMap_assoc]
  refine congrArg (List.flatMap · body.tryCatches) (funext fun entry => ?_)
  rw [ignoredAt]
  cases entry.handlerPosition? body.nodes with
  | none => rfl
  | some first =>
    cases monitorRelease? body.nodes entry with
    | none => rfl
    | some found => exact List.append_nil _

/-- What is ignored is what the entries add, in the order of the table. -/
theorem exists_ignored_monitors (body : Body Label) :
    ∃ stretches, List.Forall₂ (TryCatch.Ignored body.nodes) body.tryCatches stretches ∧
      body.ignored ⟨false, true⟩ = stretches.flatten := by
  refine ⟨body.tryCatches.map body.ignoredAt, ?_, ?_⟩
  · rw [List.forall₂_map_right_iff, List.forall₂_same]
    exact fun entry _ => ignored_ignoredAt body entry
  · rw [ignored_monitors, List.flatMap_def]

/-- The release of a monitor ends at `last` exactly if the entry catches everything, does not guard
its own handler, and the instructions behind the last placement of the handler's label have the
opcodes of one of the two shapes, the last of which stands at `last`. The shapes exclude each other,
so their order does not matter. What is reported and ignored are the spans of these releases, entry
by entry: they start with the label of the handler, stay within the code and hold no other
instructions. -/
theorem monitorFindings_releases (body : Body Label) :
    (∀ entry last, (monitorRelease? body.nodes entry).map Prod.snd = some last ↔
      entry.isCatchAll = true ∧ entry.start ≠ entry.handler ∧ ∃ first,
        body.nodes[first]? = some (.label entry.handler) ∧
        (∀ later, first < later → body.nodes[later]? ≠ some (.label entry.handler)) ∧
        ∃ matched, matched.getLast? = some last ∧
          (Code.Begins body.nodes (first + 1) [.astore, .aload, .monitorExit, .aload, .athrow]
              matched ∨
            Code.Begins body.nodes (first + 1) [.aload, .monitorExit, .athrow] matched)) ∧
    (∀ first matched others,
      ¬ (Code.Begins body.nodes first [.astore, .aload, .monitorExit, .aload, .athrow] matched ∧
        Code.Begins body.nodes first [.aload, .monitorExit, .athrow] others)) ∧
    (∀ entry, monitorReleaseIn? [.ecj, .javac] body.nodes entry = monitorRelease? body.nodes entry) ∧
    (∀ finding, finding ∈ body.findings ⟨false, true⟩ ↔ ∃ entry ∈ body.tryCatches, ∃ shape matched,
      finding.cleanup = .monitor shape ∧
        entry.Releases body.nodes shape finding.first matched finding.last) ∧
    (∃ stretches, List.Forall₂ (TryCatch.Ignored body.nodes) body.tryCatches stretches ∧
      body.ignored ⟨false, true⟩ = stretches.flatten) ∧
    ∀ (entry : TryCatch Label) shape first matched last,
      entry.Releases body.nodes shape first matched last →
      (Code.span body.nodes first last).head? = some first ∧
      (∀ position ∈ Code.span body.nodes first last, position < body.nodes.size) ∧
      (Code.span body.nodes first last).getLast? = some last ∧
      body.nodes[first]? = some (.label entry.handler) ∧
      (Code.span body.nodes first last).filter
        (fun position => Code.IsInstruction body.nodes position) = matched := by
  refine ⟨fun entry last => ?_, fun first matched others => Code.not_begins_both, fun entry => ?_,
    fun finding => mem_monitorFindings_iff, exists_ignored_monitors body,
    fun entry shape first matched last h => ?_⟩
  · rw [← monitorReleaseIn?_all, Option.map_eq_some_iff]
    constructor
    · rintro ⟨⟨shape, _⟩, hfound, rfl⟩
      obtain ⟨first, matched, h⟩ := (monitorReleaseIn?_eq_some_iff MonitorShape.mem_all).1 hfound
      refine ⟨h.catchAll, h.guarded, first, h.placed, h.placedLast, matched, h.ends, ?_⟩
      cases shape with
      | javac => exact .inl h.begins
      | ecj => exact .inr h.begins
    · rintro ⟨hcatchAll, hguarded, first, hplaced, hplacedLast, matched, hends, hbegins⟩
      -- Whichever opcodes they are, they belong to a shape.
      obtain ⟨shape, hbegins⟩ : ∃ shape : MonitorShape,
          Code.Begins body.nodes (first + 1) shape.opcodes matched :=
        hbegins.elim (fun h => ⟨.javac, h⟩) fun h => ⟨.ecj, h⟩
      refine ⟨(shape, last), (monitorReleaseIn?_eq_some_iff MonitorShape.mem_all).2 ?_, rfl⟩
      exact ⟨first, matched, hcatchAll, hguarded, hplaced, hplacedLast, hbegins, hends⟩
  · exact monitorReleaseIn?_eq (fun shape => by cases shape <;> decide) body.nodes entry
  · obtain ⟨hfirst, hlast⟩ := h.lt_last
    refine ⟨by rw [h.span_eq]; rfl, fun position hposition => ?_, ?_, h.placed, h.filter_span⟩
    · have := (Code.mem_span hlast).1 hposition
      omega
    · have hpos : last + 1 - first ≠ 0 := by omega
      rw [Code.span, Nat.min_eq_left hlast, List.getLast?_range', if_neg hpos, Option.some.injEq]
      omega

/-- A handler whose label is placed twice, with pseudo-nodes among the instructions that release the
monitor. The release is guarded in turn. -/
def guardedRelease : Body Label where
  name := "count"
  desc := "()V"
  nodes := #[.label ⟨0⟩, .label ⟨1⟩, .plain .voidReturn, .label ⟨1⟩, .frame, .var .astore 3,
    .label ⟨2⟩, .var .aload 2, .plain .monitorExit, .line 7 ⟨2⟩, .var .aload 3, .plain .athrow]
  tryCatches := [⟨⟨0⟩, ⟨1⟩, ⟨1⟩, none⟩, ⟨⟨1⟩, ⟨2⟩, ⟨1⟩, none⟩, ⟨⟨0⟩, ⟨1⟩, ⟨2⟩, none⟩]

/-- The release is found at the last placement of the label, and only for the first entry. -/
theorem monitorFindings_releases_guarded :
    guardedRelease.findings ⟨false, true⟩ = [⟨.monitor .javac, 3, 11⟩] ∧
      guardedRelease.ignored ⟨false, true⟩ = [3, 4, 5, 6, 7, 8, 9, 10, 11] ∧
      TryCatch.Releases guardedRelease.nodes .javac 3 [5, 7, 8, 10, 11] 11
        ⟨⟨0⟩, ⟨1⟩, ⟨1⟩, none⟩ ∧
      (Code.span guardedRelease.nodes 3 11).filter
        (fun position => Code.IsInstruction guardedRelease.nodes position) =
          [5, 7, 8, 10, 11] := by
  obtain ⟨-, -, -, -, -, hspans⟩ := monitorFindings_releases guardedRelease
  have hplacement : Code.placement? guardedRelease.nodes ⟨1⟩ = some 3 := by decide +kernel
  obtain ⟨hplaced, hplacedLast⟩ := Code.placement?_eq_some_iff.1 hplacement
  have hrelease : TryCatch.Releases guardedRelease.nodes .javac 3 [5, 7, 8, 10, 11] 11
      ⟨⟨0⟩, ⟨1⟩, ⟨1⟩, none⟩ :=
    ⟨rfl, by decide, hplaced, hplacedLast, by decide +kernel, rfl⟩
  exact ⟨by decide +kernel, by decide +kernel, hrelease, (hspans _ _ _ _ _ hrelease).2.2.2.2⟩

end Body

end CleanupFilter
