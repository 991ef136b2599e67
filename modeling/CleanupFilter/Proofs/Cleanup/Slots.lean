import CleanupFilter.Proofs.Cleanup.ResourceShape
import CleanupFilter.Proofs.Pattern.Slots

/-!
# Slots in resource cleanup

The slots of a resource cleanup are compared by a pattern of its shape, from which one can tell what
is one variable. The load in front of a null check on the resource by javac is compared with
nothing, and neither are the first store of the handler that makes an exception the primary one, nor
the load in front of the throw with which handlers by ecj end.

- `Javac.duplicatedPattern`, `Javac.optimalPattern`: the patterns of cleanup by javac.
- `Ecj.jumpingPattern`, `Ecj.returningPattern`: those of cleanup by ecj, for chains of any length.
- `ResourceShape.HasPattern`: the patterns of a shape.
- `resourceCleanup?_agrees`: slots agree with a pattern of the shape, and could be any that do.
-/

namespace CleanupFilter

open CleanupFilter.Symbol (primaryException)

/-- Loads and stores that are compared with symbols in a scope, or with none. -/
def keyed (scope : Scope) (symbols : List (Option Symbol)) : AccessPattern :=
  symbols.map (Option.map (Symbol.resolve scope))

/-! ### Patterns of cleanup by javac -/

namespace Javac

/-- `$closeResource(primaryExc, r)`. -/
def helperPattern : AccessPattern :=
  keyed .method [primaryException, helperResource]

/-- A close whose exception is added to the primary one if there is one, and the close otherwise. -/
def inlinePattern (scope : Scope) : AccessPattern :=
  keyed scope [primaryException, resource, suppressed, primaryException, suppressed, resource]

/-- `catch (Throwable t) { primaryExc = t; throw t; }`, with any slot in the first store. -/
def bridgePattern : AccessPattern :=
  keyed .method [none, caught, primaryException, caught]

/-- The value that is returned may be any. -/
def exitPatterns : List AccessPattern :=
  [[none], []]

/-- Cleanup by the synthetic method on either path. The slot of the exception that the catch-all
handler throws again may be any, both where it is stored and where it is loaded. -/
def optimalPattern (exit : AccessPattern) : AccessPattern :=
  helperPattern ++ exit ++ bridgePattern ++ [none] ++ helperPattern ++ [none]

/-- Cleanup on the normal and on the exceptional path. -/
def duplicatedPattern (cleanup : Scope → AccessPattern) (exit : AccessPattern) : AccessPattern :=
  cleanup .normal ++ exit ++ bridgePattern ++ keyed .method [caughtAny] ++ cleanup .exceptional ++
    keyed .method [caughtAny]

/-- The accesses of the shape with one close, for each way out of the block. -/
theorem keys_optimal : Segment.keys optimal = exitPatterns.map optimalPattern := rfl

theorem keys_full : Segment.keys full =
    exitPatterns.map (duplicatedPattern fun scope => none :: inlinePattern scope) := rfl

theorem keys_omittedNullCheck :
    Segment.keys omittedNullCheck = exitPatterns.map (duplicatedPattern inlinePattern) := rfl

theorem keys_helperMethod : Segment.keys helperMethod =
    exitPatterns.map (duplicatedPattern fun _ => none :: helperPattern) := rfl

end Javac

/-! ### Patterns of cleanup by ecj -/

namespace Ecj

/-- `if (r != null) r.close();`. -/
def closePattern (scope : Scope) : AccessPattern :=
  keyed scope [resource, resource]

/-- `if (r != null) r.close(); throw primaryExc;`, with any slot in the last load. -/
def closeAndThrowPattern (scope : Scope) : AccessPattern :=
  keyed scope [resource, resource, none]

/-- The handler that makes an exception the primary one, or adds it to the one that there is. The
slot from which the exception is copied, and the one that is compared with the primary exception,
may be any. -/
def suppressPattern (scope : Scope) : AccessPattern :=
  keyed scope [suppressed, primaryException, none, primaryException, primaryException, none,
    primaryException, suppressed]

/-- The slot of the primary exception. -/
def primaryPattern : AccessPattern :=
  keyed .method [primaryException]

/-- The code of a resource around another one. -/
def layerPattern (index : Nat) : AccessPattern :=
  closePattern (.resource index) ++ suppressPattern (.resource index) ++
    closeAndThrowPattern (.resource index)

/-- The code of resources around the one with index `inner`, and the outermost handler. -/
def layersPattern (inner count : Nat) : AccessPattern :=
  (List.range' (inner + 1) count).flatMap layerPattern ++
    (suppressPattern .outermost ++ primaryPattern)

/-- A chain of resources in which jumps lead outwards, `count` of them around the innermost one. -/
def jumpingPattern (count : Nat) : AccessPattern :=
  closePattern (.resource 0) ++ (primaryPattern ++ closeAndThrowPattern (.resource 0) ++
    layersPattern 0 count)

/-- The handlers of resources, and the rethrow of the primary exception. -/
def handlersPattern (indices : List Nat) : AccessPattern :=
  indices.flatMap (fun index =>
    closeAndThrowPattern (.resource index) ++ suppressPattern (.resource index)) ++ primaryPattern

/-- A chain of resources that are closed in front of a value return, `count` of them around the
innermost one. -/
def returningPattern (count : Nat) : AccessPattern :=
  (List.range (count + 1)).flatMap (fun index => closePattern (.resource index)) ++
    (primaryPattern ++ handlersPattern (List.range (count + 1)))

/-- The accesses of a close. -/
theorem keys_close (scope : Scope) : Step.keysOf scope close = [closePattern scope] := by
  simp [close, Step.keysOf, Step.keys, joinedWords, Opcode.unkeyed_eq_nil, closePattern, keyed]

theorem keys_closeAndThrow (scope : Scope) :
    Step.keysOf scope closeAndThrow = [closeAndThrowPattern scope] := by
  simp [closeAndThrow, Step.keysOf, Step.keys, joinedWords, Opcode.unkeyed_eq_nil,
    Opcode.unkeyed_eq_none, closeAndThrowPattern, keyed]

theorem keys_suppress (scope : Scope) : Step.keysOf scope suppress = [suppressPattern scope] := by
  simp [suppress, Step.keysOf, Step.keys, joinedWords, Opcode.unkeyed_eq_nil,
    Opcode.unkeyed_eq_none, suppressPattern, keyed, primaryException, Symbol.resolve]

theorem keys_throwPrimary : Step.keysOf .method throwPrimary = [primaryPattern] := rfl

theorem keys_innermost (scope : Scope) :
    Step.keysOf scope innermost = [primaryPattern ++ closeAndThrowPattern scope] := by
  have hfront : Step.keysOf scope [.jump .goto closed, .var .astore primaryException] =
      [primaryPattern] := by
    simp [Step.keysOf, Step.keys, joinedWords, Opcode.unkeyed_eq_nil, primaryPattern, keyed,
      primaryException, Symbol.resolve]
  rw [innermost, Step.keysOf_append, hfront, keys_closeAndThrow, joinedWords_singleton]

/-- The accesses of a layer. -/
theorem keys_layer (inner : Nat) : Segment.keys (layer inner) = [layerPattern (inner + 1)] := by
  have hjump : Step.keysOf (.resource (inner + 1)) [.jump .goto closed] = [[]] := by
    simp [Step.keysOf, Step.keys, joinedWords, Opcode.unkeyed_eq_nil]
  rw [layer, Segment.keys, Segment.keys, Segment.keys, Step.keysOf_append, Step.keysOf_append,
    Step.keysOf_append, keys_close, hjump, keys_suppress, keys_closeAndThrow]
  simp [Step.keysOf, Step.keys, joinedWords, layerPattern]

/-- The accesses of the handlers are those of the exception and of each resource. -/
theorem keys_handlers (count : Nat) :
    Segment.keys (handlers count) = [primaryPattern ++ handlersPattern (List.range count)] := by
  -- The statement is about any indices, so that it goes by induction on them.
  have hindices : ∀ indices : List Nat,
      Segment.keys (indices.map (fun index => ⟨.resource index, closeAndThrow ++ suppress⟩) ++
        [⟨.method, throwPrimary⟩]) = [handlersPattern indices] := by
    intro indices
    induction indices with
    | nil => rfl
    | cons index rest ih =>
      rw [List.map_cons, List.cons_append, Segment.keys, ih, Step.keysOf_append, keys_closeAndThrow,
        keys_suppress, joinedWords_singleton, joinedWords_singleton, handlersPattern,
        handlersPattern, List.flatMap_cons, List.append_assoc _ _ primaryPattern]
  have hstore : Step.keysOf .method [.var .astore primaryException] = [primaryPattern] := rfl
  rw [handlers, List.cons_append, Segment.keys, hindices, hstore, joinedWords_singleton]

/-! ### What the cleanup by ecj compares -/

variable {before after : Bindings} {nodes : List (Node Label)}

/-- Steps with one pattern compare slots by it. -/
theorem compares_ofSteps {scope : Scope} {steps : List Step} {pattern : AccessPattern}
    (hkeys : Step.keysOf scope steps = [pattern]) (hsteps : ∀ s ∈ steps, s.isAccess = true)
    (hread : Language.ofSteps scope steps before nodes after) :
    (Language.ofSteps scope steps).Compares pattern before nodes after := by
  obtain ⟨found, hfound, hcompares⟩ := Language.exists_compares_ofSteps hsteps hread
  rw [hkeys, List.mem_singleton] at hfound
  rwa [hfound] at hcompares

/-- Segments with one list of accesses compare as this list says. -/
theorem compares_ofSegments {segments : List Segment} {pattern : AccessPattern}
    (hkeys : Segment.keys segments = [pattern])
    (hsegments : ∀ segment ∈ segments, ∀ s ∈ segment.steps, s.isAccess = true)
    (hread : Language.ofSegments segments before nodes after) :
    (Language.ofSegments segments).Compares pattern before nodes after := by
  obtain ⟨found, hfound, hcompares⟩ := Language.exists_compares_ofSegments hsegments hread
  rw [hkeys, List.mem_singleton] at hfound
  rwa [hfound] at hcompares

/-- The steps of a layer either access a slot or none at all. -/
theorem isAccess_layer (inner : Nat) :
    ∀ segment ∈ layer inner, ∀ s ∈ segment.steps, s.isAccess = true :=
  forall_layer (by decide) inner

theorem isAccess_handlers (count : Nat) :
    ∀ segment ∈ handlers count, ∀ s ∈ segment.steps, s.isAccess = true :=
  forall_handlers (by decide) count

/-- Layers compare the accesses of their resources. -/
theorem exists_compares_layers {inner : Nat} (h : Layers inner before nodes after) :
    ∃ count, (Layers inner).Compares (layersPattern inner count) before nodes after := by
  induction h with
  | outermost houtermost =>
    obtain ⟨front, back, between, rfl, hfront, hback⟩ := houtermost
    have hfront := compares_ofSteps (keys_suppress _) (by decide) hfront
    have hback := compares_ofSteps keys_throwPrimary (by decide) hback
    exact ⟨0, (hfront.seq hback).mono fun _ _ _ => .outermost⟩
  | @layer inner _ _ _ front back hlayer _ ih =>
    obtain ⟨count, hback⟩ := ih
    have hfront := compares_ofSegments (keys_layer inner) (isAccess_layer inner) hlayer
    -- The accesses of this layer stand in front of those behind it.
    refine ⟨count + 1, ?_⟩
    rw [layersPattern, List.range'_succ, List.flatMap_cons, List.append_assoc]
    refine (hfront.seq hback).mono ?_
    rintro _ _ _ ⟨front, back, between, rfl, hfront, hback⟩
    exact .layer hfront hback

/-- Closes compare the accesses of their resources. -/
theorem exists_compares_closes {first total : Nat} (h : Closes first total before nodes after) :
    ∃ count, total = first + count ∧ (Closes first total).Compares
      ((List.range' first count).flatMap fun index => closePattern (.resource index))
      before nodes after := by
  induction h with
  | done hreturn =>
    obtain ⟨opcode, hopcode, hcompares⟩ := Language.compares_opcode hreturn
    rw [Opcode.unkeyed, Opcode.letter_of_isValueReturn hopcode] at hcompares
    exact ⟨0, rfl, hcompares.mono fun _ _ _ => .done⟩
  | @close first _ _ _ _ front back hclose _ ih =>
    obtain ⟨count, rfl, hback⟩ := ih
    have hfront := compares_ofSteps (keys_close _) (by decide) hclose
    -- The accesses of this close stand in front of those behind it.
    refine ⟨count + 1, by omega, ?_⟩
    rw [List.range'_succ, List.flatMap_cons]
    refine (hfront.seq hback).mono ?_
    rintro _ _ _ ⟨front, back, between, rfl, hfront, hback⟩
    exact .close hfront hback

/-- The cleanup of a chain of resources compares slots by a pattern for chains of that length. -/
theorem exists_compares_language (h : language before nodes after) :
    ∃ count, language.Compares (jumpingPattern count) before nodes after ∨
      language.Compares (returningPattern count) before nodes after := by
  obtain ⟨first, behind, between, rfl, hfirst, hbehind⟩ := h
  have hfirst := compares_ofSteps (keys_close _) (by decide) hfirst
  rcases hbehind with ⟨front, back, _, rfl, hfront, hback⟩ |
    ⟨total, front, back, _, rfl, hfront, hback⟩
  -- In front of a jump: the innermost layer, and the others.
  · obtain ⟨count, hback⟩ := exists_compares_layers hback
    have hfront := compares_ofSteps (keys_innermost _) (by decide) hfront
    refine ⟨count, .inl ((hfirst.seq (hfront.seq hback)).mono ?_)⟩
    rintro _ _ _ ⟨front, back, between, rfl, hfront, hback⟩
    exact ⟨front, back, between, rfl, hfront, .inl hback⟩
  -- In front of a return: the closes, and the handlers of the same resources.
  · obtain ⟨count, rfl, hfront⟩ := exists_compares_closes hfront
    have hback := compares_ofSegments (keys_handlers _) (isAccess_handlers _) hback
    refine ⟨count, .inr ?_⟩
    rw [returningPattern, List.range_eq_range', List.range'_succ, List.flatMap_cons,
      ← List.range'_succ, ← List.range_eq_range', List.append_assoc, Nat.add_comm count]
    refine (hfirst.seq (hfront.seq hback)).mono ?_
    rintro _ _ _ ⟨front, back, between, rfl, hfront, hback⟩
    exact ⟨front, back, between, rfl, hfront, .inr ⟨_, hback⟩⟩

end Ecj

/-! ### Patterns of shapes -/

/-- The patterns of a shape. -/
inductive ResourceShape.HasPattern : ResourceShape → AccessPattern → Prop
  | ecjJumping (count : Nat) : HasPattern ecj (Ecj.jumpingPattern count)
  | ecjReturning (count : Nat) : HasPattern ecj (Ecj.returningPattern count)
  | javacOptimal {exit : AccessPattern} : exit ∈ Javac.exitPatterns →
      HasPattern javacOptimal (Javac.optimalPattern exit)
  /-- The loads in front of the checks on the resource are compared with nothing. -/
  | javacFull {exit : AccessPattern} : exit ∈ Javac.exitPatterns →
      HasPattern javacFull
        (Javac.duplicatedPattern (fun scope => none :: Javac.inlinePattern scope) exit)
  | javacOmittedNullCheck {exit : AccessPattern} : exit ∈ Javac.exitPatterns →
      HasPattern javacOmittedNullCheck (Javac.duplicatedPattern Javac.inlinePattern exit)
  /-- The loads in front of the checks on the resource are compared with nothing. -/
  | javacMethod {exit : AccessPattern} : exit ∈ Javac.exitPatterns →
      HasPattern javacMethod (Javac.duplicatedPattern (fun _ => none :: Javac.helperPattern) exit)

/-- Segments with an exit compare slots by the pattern for one way of leaving. -/
theorem Javac.exists_compares {segments : List Segment} {patternOf : AccessPattern → AccessPattern}
    (hkeys : Segment.keys segments = exitPatterns.map patternOf)
    (hsegments : ∀ segment ∈ segments, ∀ s ∈ segment.steps, s.isAccess = true)
    {before after : Bindings} {nodes : List (Node Label)}
    (h : Language.ofSegments segments before nodes after) :
    ∃ exit ∈ exitPatterns,
      (Language.ofSegments segments).Compares (patternOf exit) before nodes after := by
  obtain ⟨pattern, hpattern, hcompares⟩ := Language.exists_compares_ofSegments hsegments h
  rw [hkeys] at hpattern
  obtain ⟨exit, hexit, rfl⟩ := List.mem_map.1 hpattern
  exact ⟨exit, hexit, hcompares⟩

/-- A shape compares slots by one of its patterns. -/
theorem ResourceShape.exists_compares {shape : ResourceShape} {before after : Bindings}
    {nodes : List (Node Label)} (h : shape.language before nodes after) :
    ∃ pattern, shape.HasPattern pattern ∧ shape.language.Compares pattern before nodes after := by
  cases shape with
  | ecj =>
    obtain ⟨count, hjumping | hreturning⟩ := Ecj.exists_compares_language h
    · exact ⟨_, .ecjJumping count, hjumping⟩
    · exact ⟨_, .ecjReturning count, hreturning⟩
  | javacOptimal =>
    obtain ⟨exit, hexit, hcompares⟩ := Javac.exists_compares Javac.keys_optimal (by decide) h
    exact ⟨_, .javacOptimal hexit, hcompares⟩
  | javacFull =>
    obtain ⟨exit, hexit, hcompares⟩ := Javac.exists_compares Javac.keys_full (by decide) h
    exact ⟨_, .javacFull hexit, hcompares⟩
  | javacOmittedNullCheck =>
    obtain ⟨exit, hexit, hcompares⟩ :=
      Javac.exists_compares Javac.keys_omittedNullCheck (by decide) h
    exact ⟨_, .javacOmittedNullCheck hexit, hcompares⟩
  | javacMethod =>
    obtain ⟨exit, hexit, hcompares⟩ := Javac.exists_compares Javac.keys_helperMethod (by decide) h
    exact ⟨_, .javacMethod hexit, hcompares⟩

/-! ### Slots of the window -/

/-- The nodes from one position to another one. -/
def Code.window (code : Code) (first last : Nat) : List (Node Label) :=
  (code.toList.drop first).take (last + 1 - first)

/-- The window onto nodes that the code holds shows these nodes. -/
theorem Code.Holds.window_eq {code : Code} {first last : Nat} {nodes : List (Node Label)}
    (h : code.Holds first nodes) (hlast : last + 1 = first + nodes.length) :
    code.window first last = nodes := by
  rw [window, hlast, Nat.add_sub_cancel_left, ← List.prefix_iff_eq_take.1 h]

/-- The code holds what a window onto it shows. -/
theorem Code.holds_window (code : Code) (first last : Nat) :
    code.Holds first (code.window first last) :=
  List.take_prefix _ _

/-- The slots of a resource cleanup agree with a pattern of its shape, and nothing else counts of
them: code with any other slots that agree has the same cleanup. -/
theorem resourceCleanup?_agrees {code : Code} {start last : Nat} {shape : ResourceShape}
    (h : resourceCleanup? code start = some (shape, last)) :
    ∃ pattern, shape.HasPattern pattern ∧ Agrees pattern (accesses (code.window start last)) ∧
      ∀ other : Code,
        (other.window start last).map Node.eraseSlot =
          (code.window start last).map Node.eraseSlot →
        Agrees pattern (accesses (other.window start last)) →
        resourceCleanup? other start = some (shape, last) := by
  obtain ⟨hpos, nodes, after, hnodes, hholds, hlast⟩ := resourceCleanup?_eq_some_iff.1 h
  obtain ⟨pattern, hpattern, hcompares⟩ := shape.exists_compares hnodes
  obtain ⟨hagrees, hothers⟩ := hcompares.agrees
  rw [hholds.window_eq hlast]
  refine ⟨pattern, hpattern, hagrees, fun other herase hagrees' => ?_⟩
  obtain ⟨final, hfinal⟩ := hothers _ herase hagrees'
  refine resourceCleanup?_eq_some_iff.2 ⟨hpos, _, final, hfinal, other.holds_window start last, ?_⟩
  have hlength := congrArg List.length herase
  rw [List.length_map, List.length_map] at hlength
  rw [hlength, hlast]

/-! ### Code with slots that do not count -/

/-- The synthetic call that closes the resource in slot 1. -/
def closeResourceCall : List (Node Label) :=
  [.var .aload 2, .var .aload 1, .call .invokeStatic
    ⟨"Main", "$closeResource", "(Ljava/lang/Throwable;Ljava/lang/AutoCloseable;)V"⟩]

/-- Cleanup of the resource in slot 1 on either path, behind a null check of another slot or the
same one, with the store that the handler between the paths starts with. -/
def checkedCleanup (stored : UInt16) (cleanup : Label → Label → List (Node Label)) : Code :=
  List.toArray <| .frame :: cleanup ⟨0⟩ ⟨1⟩ ++
    [.jump .goto ⟨0⟩, .var .astore stored, .var .aload 3, .var .astore 2, .var .aload 3,
      .plain .athrow, .var .astore 4] ++
    cleanup ⟨2⟩ ⟨3⟩ ++ [.label ⟨2⟩, .var .aload 4, .plain .athrow, .label ⟨0⟩]

/-- Cleanup with a check of the primary exception in slot 2. -/
def inlineCleanup (checked : UInt16) (stop closing : Label) : List (Node Label) :=
  [.var .aload checked, .jump .ifNull stop, .var .aload 2, .jump .ifNull closing] ++ closeCall 1 ++
    [.jump .goto stop, .var .astore 5] ++ addSuppressedCall 2 5 ++
    [.jump .goto stop, .label closing] ++ closeCall 1

/-- Cleanup by the synthetic method. -/
def helperCleanup (checked : UInt16) (stop _closing : Label) : List (Node Label) :=
  [.var .aload checked, .jump .ifNull stop] ++ closeResourceCall

/-- Cleanup of one resource by ecj, the primary exception being in slot 1, with the slot from which
the innermost handler throws. -/
def thrownCleanup (thrown : UInt16) : Code :=
  List.toArray <| .frame :: .var .aload 3 :: .jump .ifNull ⟨0⟩ :: closeCall 3 ++
    [.jump .goto ⟨0⟩, .var .astore 1, .var .aload 3, .jump .ifNull ⟨1⟩] ++ closeCall 3 ++
    [.label ⟨1⟩, .var .aload thrown, .plain .athrow, .var .astore 2, .var .aload 1,
      .jump .ifNonNull ⟨2⟩, .var .aload 2, .var .astore 1, .jump .goto ⟨3⟩, .label ⟨2⟩,
      .var .aload 1, .var .aload 2, .jump .ifAcmpEq ⟨3⟩] ++ addSuppressedCall 1 2 ++
    [.label ⟨3⟩, .var .aload 1, .plain .athrow, .label ⟨0⟩]

/-- Loads and stores that stand for one variable in the source, but whose slots are not compared. -/
theorem resourceCleanup?_uncompared :
    (resourceCleanup? (checkedCleanup 3 (inlineCleanup 9)) 1 = some (.javacFull, 41) ∧
      (checkedCleanup 3 (inlineCleanup 9))[1]? = some (.var .aload 9) ∧
      (checkedCleanup 3 (inlineCleanup 9))[5]? = some (.var .aload 1)) ∧
    (resourceCleanup? (checkedCleanup 3 (helperCleanup 9)) 1 = some (.javacMethod, 21) ∧
      (checkedCleanup 3 (helperCleanup 9))[1]? = some (.var .aload 9) ∧
      (checkedCleanup 3 (helperCleanup 9))[4]? = some (.var .aload 1)) ∧
    (resourceCleanup? (checkedCleanup 9 (inlineCleanup 1)) 1 = some (.javacFull, 41) ∧
      (checkedCleanup 9 (inlineCleanup 1))[17]? = some (.var .astore 9) ∧
      (checkedCleanup 9 (inlineCleanup 1))[18]? = some (.var .aload 3)) ∧
    resourceCleanup? (thrownCleanup 9) 1 = some (.ecj, 29) ∧
      (thrownCleanup 9)[6]? = some (.var .astore 1) ∧
      (thrownCleanup 9)[12]? = some (.var .aload 9) := by
  refine ⟨⟨?_, rfl, rfl⟩, ⟨?_, rfl, rfl⟩, ⟨?_, rfl, rfl⟩, ?_, rfl, rfl⟩ <;> decide +kernel

/-- The accesses of a resource that is closed inline agree. -/
theorem resourceCleanup?_agrees_inline :
    resourceCleanup? (checkedCleanup 3 (inlineCleanup 1)) 1 = some (.javacFull, 41) ∧
      ∃ pattern, ResourceShape.javacFull.HasPattern pattern ∧
        Agrees pattern (accesses ((checkedCleanup 3 (inlineCleanup 1)).window 1 41)) := by
  have hfound : resourceCleanup? (checkedCleanup 3 (inlineCleanup 1)) 1 =
      some (.javacFull, 41) := by decide +kernel
  obtain ⟨pattern, hpattern, hagrees, -⟩ := resourceCleanup?_agrees hfound
  exact ⟨hfound, pattern, hpattern, hagrees⟩

end CleanupFilter
