import CleanupFilter.Proofs.Pattern.Recognition

/-!
# What primitives do to a cursor

Whether it succeeds or fails, a primitive never moves the cursor back, and what it has bound stays
bound to the same operand. Only leaving a block by a return makes a label unknown. A primitive that
succeeds has moved the cursor to a node further on, unless it is to join a label that is not known.

- `Code.NotBefore`, `Code.Behind`: the order of positions, with the end of the code last.
- `Bindings.Keeps`: what is bound in one environment is bound in another one.
- `Primitive.Progress`: what a primitive does to any cursor.
- `Step.Idle`, `Step.Forgets`: the steps that read nothing, and those that make a label unknown.
- `Primitive.Progress.andThen`: one primitive after the other.
- `Cursor.progress_run`, `Cursor.progress_runSegments`: what running a pattern does.
-/

namespace CleanupFilter

variable {code : Code}

/-! ### The order of positions -/

namespace Code

/-- The second position holds a node behind the first position. -/
def Behind (code : Code) : Option Nat → Option Nat → Prop
  | some earlier, some later => earlier < later ∧ later < code.size
  | _, _ => False

/-- The second position is the first one, or holds a node behind it, or is past the end. -/
def NotBefore (code : Code) : Option Nat → Option Nat → Prop
  | _, none => True
  | none, some _ => False
  | some earlier, some later => later = earlier ∨ earlier < later ∧ later < code.size

variable {p q r : Option Nat}

/-- A place is not in front of itself. -/
theorem NotBefore.refl (code : Code) (p : Option Nat) : code.NotBefore p p := by
  cases p with
  | none => trivial
  | some position => exact .inl rfl

/-- Places that are not in front of each other are so in a row. -/
theorem NotBefore.trans (hpq : code.NotBefore p q) (hqr : code.NotBefore q r) :
    code.NotBefore p r := by
  cases r with
  | none => cases p <;> trivial
  | some third =>
    cases q with
    | none => exact hqr.elim
    | some second =>
      cases p with
      | none => exact hpq.elim
      | some first =>
        simp only [NotBefore] at *
        omega

/-- What is behind is not in front. -/
theorem Behind.notBefore (h : code.Behind p q) : code.NotBefore p q := by
  cases p with
  | none => exact h.elim
  | some earlier =>
    cases q with
    | none => trivial
    | some later => exact .inr h

/-- What is behind a place is behind all that the place is not in front of. -/
theorem NotBefore.trans_behind (hpq : code.NotBefore p q) (hqr : code.Behind q r) :
    code.Behind p r := by
  cases q with
  | none => exact hqr.elim
  | some second =>
    cases r with
    | none => exact hqr.elim
    | some third =>
      cases p with
      | none => exact hpq.elim
      | some first =>
        simp only [NotBefore, Behind] at *
        omega

/-- A position that is not before another one is behind it if it has moved to a node. -/
theorem NotBefore.behind (h : code.NotBefore p q) (hne : q ≠ p) (hsome : q ≠ none) :
    code.Behind p q := by
  cases q with
  | none => exact absurd rfl hsome
  | some later =>
    cases p with
    | none => exact h.elim
    | some earlier => exact h.resolve_left fun heq => hne (congrArg some heq)

/-- The next instruction is not in front. -/
theorem notBefore_bind_nextReal? (code : Code) (p : Option Nat) :
    code.NotBefore p (p.bind code.nextReal?) := by
  cases p with
  | none => trivial
  | some position =>
    rw [Option.bind_some]
    cases h : code.nextReal? position with
    | none => trivial
    | some found =>
      exact .inr ⟨le_of_realFrom?_eq_some h, lt_size_of_realFrom?_eq_some h⟩

/-- The next node is not in front. -/
theorem notBefore_bind_next? (code : Code) (p : Option Nat) :
    code.NotBefore p (p.bind code.next?) := by
  cases p with
  | none => trivial
  | some position =>
    rw [Option.bind_some]
    cases h : code.next? position with
    | none => trivial
    | some found =>
      obtain ⟨hlt, rfl⟩ := next?_eq_some_iff.1 h
      exact .inr ⟨Nat.lt_succ_self position, hlt⟩

end Code

/-! ### What stays bound -/

/-- What is bound stays bound to the same operand, the labels of keys that are forgotten apart. -/
structure Bindings.Keeps (forgotten : Key → Prop) (before after : Bindings) : Prop where
  slots : ∀ key slot, before.slots key = some slot → after.slots key = some slot
  labels : ∀ key label, ¬ forgotten key → before.labels key = some label →
    after.labels key = some label
  owners : ∀ key owner, before.owners key = some owner → after.owners key = some owner

namespace Bindings

variable {forgotten more : Key → Prop} {before between after : Bindings}

theorem Keeps.refl (forgotten : Key → Prop) (bindings : Bindings) :
    Keeps forgotten bindings bindings :=
  ⟨fun _ _ => id, fun _ _ _ => id, fun _ _ => id⟩

/-- What is kept twice is kept, except for what was forgotten at one time. -/
theorem Keeps.trans (h : Keeps forgotten before between) (hafter : Keeps more between after) :
    Keeps (fun key => forgotten key ∨ more key) before after where
  slots key slot hslot := hafter.slots key slot (h.slots key slot hslot)
  labels key label hkey hlabel :=
    hafter.labels key label (fun hmore => hkey (.inr hmore))
      (h.labels key label (fun hforgotten => hkey (.inl hforgotten)) hlabel)
  owners key owner howner := hafter.owners key owner (h.owners key owner howner)

/-- Bindings keep what they do if more may be forgotten. -/
theorem Keeps.mono (h : Keeps forgotten before after) (hmore : ∀ key, forgotten key → more key) :
    Keeps more before after :=
  ⟨h.slots, fun key label hkey => h.labels key label fun hforgotten => hkey (hmore key hforgotten),
    h.owners⟩

end Bindings

/-- Unifying never changes what is bound. -/
theorem unify_of_eq_some {α : Type} [DecidableEq α] {bound : Key → Option α} {key other : Key}
    {value known : α} (h : bound other = some known) :
    (unify bound key value).2 other = some known := by
  rw [unify]
  cases hkey : bound key with
  | some value => exact h
  | none =>
    have hne : other ≠ key := by
      rintro rfl
      rw [hkey] at h
      cases h
    exact (if_neg hne).trans h

namespace Bindings

variable (forgotten : Key → Prop) (bindings : Bindings) (key : Key)

/-- Unifying a slot changes no other binding. -/
theorem keeps_unifySlot (slot : UInt16) :
    Keeps forgotten bindings (bindings.unifySlot key slot).2 :=
  ⟨fun _ _ => unify_of_eq_some, fun _ _ _ => id, fun _ _ => id⟩

theorem keeps_unifyLabel (label : Label) :
    Keeps forgotten bindings (bindings.unifyLabel key label).2 :=
  ⟨fun _ _ => id, fun _ _ _ => unify_of_eq_some, fun _ _ => id⟩

theorem keeps_unifyOwner (owner : String) :
    Keeps forgotten bindings (bindings.unifyOwner key owner).2 :=
  ⟨fun _ _ => id, fun _ _ _ => id, fun _ _ => unify_of_eq_some⟩

/-- Only the label of the key is forgotten. -/
theorem keeps_forgetLabel : Keeps (· = key) bindings (bindings.forgetLabel key) :=
  ⟨fun _ _ => id, fun _ _ hne => (if_neg hne).trans, fun _ _ => id⟩

end Bindings

/-! ### Primitives -/

/-- The cursor has not moved back, and what was bound still is. -/
structure Cursor.Follows (code : Code) (forgotten : Key → Prop) (before after : Cursor) : Prop where
  position : code.NotBefore before.position after.position
  bindings : before.bindings.Keeps forgotten after.bindings

namespace Cursor.Follows

variable {forgotten more : Key → Prop} {before between after : Cursor}

theorem refl (code : Code) (forgotten : Key → Prop) (cursor : Cursor) :
    cursor.Follows code forgotten cursor :=
  ⟨.refl code cursor.position, .refl forgotten cursor.bindings⟩

/-- Cursors follow each other in a row. -/
theorem trans (h : Follows code forgotten before between)
    (hafter : Follows code more between after) :
    Follows code (fun key => forgotten key ∨ more key) before after :=
  ⟨h.position.trans hafter.position, h.bindings.trans hafter.bindings⟩

/-- A cursor follows another one if more may be forgotten. -/
theorem mono (h : Follows code forgotten before after) (hmore : ∀ key, forgotten key → more key) :
    Follows code more before after :=
  ⟨h.position, h.bindings.mono hmore⟩

end Cursor.Follows

namespace Primitive

/-- The primitive leaves the cursor where it is and binds at most what was not bound. -/
structure InPlace (code : Code) (primitive : Primitive) : Prop where
  position : ∀ cursor, (primitive cursor).2.position = cursor.position
  bindings : ∀ (forgotten : Key → Prop) (cursor : Cursor),
    cursor.bindings.Keeps forgotten (primitive cursor).2.bindings
  /-- Past the end it fails. -/
  nowhere : ∀ before, primitive.follow? ⟨none, before⟩ = none

/-- What a primitive does to any cursor, given the cursors that it leaves alone and the keys whose
labels it makes unknown. -/
structure Progress (code : Code) (idle : Cursor → Prop) (forgets : Cursor → Key → Prop)
    (primitive : Primitive) : Prop where
  follows : ∀ cursor : Cursor, cursor.Follows code (forgets cursor) (primitive cursor).2
  stays : ∀ cursor, idle cursor → primitive cursor = (true, cursor)
  moves : ∀ cursor next, primitive cursor = (true, next) → ¬ idle cursor →
    code.Behind cursor.position next.position

/-- A primitive that moves whenever it succeeds and forgets nothing. -/
abbrev Moves (code : Code) (primitive : Primitive) : Prop :=
  Progress code (fun _ => False) (fun _ _ => False) primitive

namespace Progress

variable {first second : Primitive} {idle other : Cursor → Prop}
  {forgets more : Cursor → Key → Prop}

/-- What always succeeds leaves the cursor as it is. -/
theorem accept (code : Code) : Progress code (fun _ => True) (fun _ _ => False) .accept where
  follows cursor := .refl code _ cursor
  stays _ _ := rfl
  moves _ _ _ hidle := absurd trivial hidle

/-- The second primitive starts where the first one has succeeded. -/
theorem andThen (hfirst : Progress code idle forgets first)
    (hsecond : Progress code other more second) :
    Progress code (fun cursor => idle cursor ∧ other cursor)
      (fun cursor key => forgets cursor key ∨
        ∃ next, first cursor = (true, next) ∧ more next key)
      (first.andThen second) where
  follows cursor := by
    have hfollows := hfirst.follows cursor
    rw [Primitive.andThen]
    -- After a failure the second one is not tried.
    rcases hrun : first cursor with ⟨_ | _, next⟩ <;> rw [hrun] at hfollows
    · exact hfollows.mono fun key => .inl
    · refine (hfollows.trans (hsecond.follows next)).mono fun key => ?_
      exact Or.imp_right fun hmore => ⟨next, rfl, hmore⟩
  stays := by
    rintro cursor ⟨hidle, hother⟩
    rw [Primitive.andThen, hfirst.stays cursor hidle]
    exact hsecond.stays cursor hother
  moves cursor final hrun hidle := by
    obtain ⟨next, hnext, hfinal⟩ := andThen_eq_true hrun
    by_cases hfirstIdle : idle cursor
    · -- The first one has left the cursor alone, so the second one has moved it.
      have hsame := (hfirst.stays cursor hfirstIdle).symm.trans hnext
      obtain rfl : cursor = next := (Prod.mk.inj hsame).2
      exact hsecond.moves cursor final hfinal fun hother => hidle ⟨hfirstIdle, hother⟩
    · have hbehind := hfirst.moves cursor next hnext hfirstIdle
      by_cases hother : other next
      · have hsame := (hsecond.stays next hother).symm.trans hfinal
        obtain rfl : next = final := (Prod.mk.inj hsame).2
        exact hbehind
      · exact hbehind.notBefore.trans_behind (hsecond.moves next final hfinal hother)

/-- What is said of a primitive may be said in other words, and more may be forgotten. -/
theorem congr (h : Progress code idle forgets first) (hidle : ∀ cursor, idle cursor ↔ other cursor)
    (hforgets : ∀ cursor key, forgets cursor key → more cursor key) :
    Progress code other more first where
  follows cursor := (h.follows cursor).mono (hforgets cursor)
  stays cursor hother := h.stays cursor ((hidle cursor).2 hother)
  moves cursor next hrun hother :=
    h.moves cursor next hrun fun hcursor => hother ((hidle cursor).1 hcursor)

end Progress

/-- Two primitives that move, one after the other. -/
theorem Moves.andThen {first second : Primitive} (hfirst : Moves code first)
    (hsecond : Moves code second) : Moves code (first.andThen second) :=
  (Progress.andThen hfirst hsecond).congr (fun _ => and_self_iff) fun _ _ =>
    Or.rec False.elim fun ⟨_, _, h⟩ => h

/-- A test behind a primitive that moves. -/
theorem Moves.andThen_inPlace {first test : Primitive} (hfirst : Moves code first)
    (htest : InPlace code test) : Moves code (first.andThen test) where
  follows cursor := by
    have hfollows := hfirst.follows cursor
    rw [Primitive.andThen]
    rcases hrun : first cursor with ⟨_ | _, next⟩ <;> rw [hrun] at hfollows
    · exact hfollows
    · refine ⟨?_, (hfollows.bindings.trans (htest.bindings _ next)).mono fun _ => or_self_iff.1⟩
      rw [htest.position]
      exact hfollows.position
  stays _ := False.elim
  -- The test leaves the cursor where the first one has moved it.
  moves cursor final hrun hidle := by
    obtain ⟨next, hnext, hfinal⟩ := andThen_eq_true hrun
    have hposition := htest.position next
    rw [hfinal] at hposition
    rw [hposition]
    exact hfirst.moves cursor next hnext hidle

end Primitive

/-! ### What each primitive does -/

namespace Cursor

open Primitive (InPlace Moves Progress)

/-- Whatever unifies an operand of the current node leaves the cursor in place. -/
theorem inPlace_operand {α : Type} {operand? : Node Label → Option α}
    {unify : Bindings → α → Bool × Bindings} {primitive : Primitive}
    (hkeeps : ∀ forgotten bindings a, Bindings.Keeps forgotten bindings (unify bindings a).2)
    (hnone : ∀ cursor : Cursor, (cursor.current? code).bind operand? = none →
      primitive cursor = (false, cursor))
    (hsome : ∀ (cursor : Cursor) a, (cursor.current? code).bind operand? = some a →
      primitive cursor = ((unify cursor.bindings a).1,
        { cursor with bindings := (unify cursor.bindings a).2 })) :
    InPlace code primitive where
  -- There is an operand or not: only bindings change.
  position cursor := by
    cases h : (cursor.current? code).bind operand? with
    | none => rw [hnone cursor h]
    | some a => rw [hsome cursor a h]
  bindings forgotten cursor := by
    cases h : (cursor.current? code).bind operand? with
    | none =>
      rw [hnone cursor h]
      exact .refl forgotten cursor.bindings
    | some a =>
      rw [hsome cursor a h]
      exact hkeeps forgotten cursor.bindings a
  nowhere before := by rw [Primitive.follow?, hnone _ rfl]

/-- Slots are bound in place. -/
theorem inPlace_bindSlot (key : Key) : InPlace code (bindSlot code key) :=
  inPlace_operand (fun forgotten bindings => Bindings.keeps_unifySlot forgotten bindings key)
    (fun _ h => by rw [bindSlot, h]) (fun _ _ h => by rw [bindSlot, h])

theorem inPlace_bindTarget (key : Key) : InPlace code (bindTarget code key) :=
  inPlace_operand (fun forgotten bindings => Bindings.keeps_unifyLabel forgotten bindings key)
    (fun _ h => by rw [bindTarget, h]) (fun _ _ h => by rw [bindTarget, h])

theorem inPlace_bindPlaced (key : Key) : InPlace code (bindPlaced code key) :=
  inPlace_operand (fun forgotten bindings => Bindings.keeps_unifyLabel forgotten bindings key)
    (fun _ h => by rw [bindPlaced, h]) (fun _ _ h => by rw [bindPlaced, h])

theorem inPlace_bindOwner (key : Key) : InPlace code (bindOwner code key) :=
  inPlace_operand (fun forgotten bindings => Bindings.keeps_unifyOwner forgotten bindings key)
    (fun _ h => by rw [bindOwner, h]) (fun _ _ h => by rw [bindOwner, h])

/-- A test of the current node binds nothing. -/
theorem inPlace_test {test : Cursor → Bool} (hnowhere : ∀ before, test ⟨none, before⟩ = false) :
    InPlace code fun cursor => (test cursor, cursor) where
  position _ := rfl
  bindings forgotten cursor := .refl forgotten cursor.bindings
  nowhere before := by rw [Primitive.follow?, hnowhere]

/-- The called method is looked at in place. -/
theorem inPlace_checkCallee (accepted : Member → Bool) :
    InPlace code (checkCallee code accepted) :=
  inPlace_test fun _ => rfl

/-- A test of the node that the cursor has moved to. It fails past the end, so the cursor has moved
to a node when it succeeds. -/
theorem moves_of_move (move : Cursor → Cursor) {test : Primitive} (htest : InPlace code test)
    (hposition : ∀ cursor : Cursor, code.NotBefore cursor.position (move cursor).position)
    (hbindings : ∀ cursor : Cursor, (move cursor).bindings = cursor.bindings)
    (hmoved : ∀ cursor : Cursor, (move cursor).position = cursor.position →
      cursor.position = none) :
    Moves code fun cursor => test (move cursor) where
  follows cursor := by
    refine ⟨?_, ?_⟩
    · rw [htest.position]
      exact hposition cursor
    · have hkeeps := htest.bindings (fun _ => False) (move cursor)
      rwa [hbindings] at hkeeps
  stays _ := False.elim
  moves cursor next hrun _ := by
    have hsame := htest.position (move cursor)
    rw [hrun] at hsame
    -- The test has not failed, so the cursor has not moved past the end.
    have hsome : (move cursor).position ≠ none := by
      intro hnone
      have hfollow := Primitive.follow?_eq_some_iff.2 hrun
      have heq : move cursor = ⟨none, (move cursor).bindings⟩ := by rw [← hnone]
      rw [heq, htest.nowhere] at hfollow
      cases hfollow
    rw [hsame]
    refine (hposition cursor).behind (fun heq => hsome ?_) hsome
    rw [heq, hmoved cursor heq]

/-- Only a cursor that is nowhere stays where it is when it advances. -/
theorem position_advance_eq {cursor : Cursor}
    (h : (cursor.advance code).position = cursor.position) : cursor.position = none := by
  cases hposition : cursor.position with
  | none => rfl
  | some position =>
    rw [advance, hposition, Option.bind_some] at h
    have := Code.le_of_realFrom?_eq_some h
    omega

/-- Only a cursor that is nowhere stays where it is when it advances by one node. -/
theorem position_advanceLiteral_eq {cursor : Cursor}
    (h : (cursor.advanceLiteral code).position = cursor.position) : cursor.position = none := by
  cases hposition : cursor.position with
  | none => rfl
  | some position =>
    rw [advanceLiteral, hposition, Option.bind_some, Code.next?_eq_some_iff] at h
    omega

/-- Whatever tests the next instruction moves to it. -/
theorem moves_advancing {test : Primitive} (htest : InPlace code test) :
    Moves code ((advancing code).andThen test) :=
  moves_of_move (advance code) htest
    (fun cursor => code.notBefore_bind_nextReal? cursor.position) (fun _ => rfl)
    fun _ => position_advance_eq

/-- A primitive that expects an opcode moves the cursor. -/
theorem moves_expect (opcode : Opcode) : Moves code (expect code opcode) := by
  rw [expect_eq]
  exact moves_advancing (inPlace_test fun _ => rfl)

theorem moves_expectVar (opcode : Opcode) (key : Key) : Moves code (expectVar code opcode key) :=
  (moves_expect opcode).andThen_inPlace (inPlace_bindSlot key)

theorem moves_expectJump (opcode : Opcode) (key : Key) : Moves code (expectJump code opcode key) :=
  (moves_expect opcode).andThen_inPlace (inPlace_bindTarget key)

theorem moves_expectLabel (key : Key) : Moves code (expectLabel code key) :=
  moves_of_move (advanceLiteral code) (inPlace_bindPlaced key)
    (fun cursor => code.notBefore_bind_next? cursor.position) (fun _ => rfl)
    fun _ => position_advanceLiteral_eq

theorem moves_expectClose (key : Key) : Moves code (expectClose code key) :=
  (moves_expectVar .aload key).andThen (moves_advancing (inPlace_bindOwner key))

theorem moves_expectInvoke (opcode : Opcode) (accepted : Member → Bool) :
    Moves code ((expect code opcode).andThen (checkCallee code accepted)) :=
  (moves_expect opcode).andThen_inPlace (inPlace_checkCallee accepted)

theorem moves_expectAddSuppressed (key : Key) : Moves code (expectAddSuppressed code key) :=
  (moves_expectVar .aload _).andThen
    ((moves_expectVar .aload key).andThen (moves_expectInvoke .invokeVirtual _))

theorem moves_expectValueReturn : Moves code (expectValueReturn code) := by
  rw [expectValueReturn_eq]
  exact moves_advancing (inPlace_test fun _ => rfl)

/-- The next instruction is a typed load, by which a block is left with a return. -/
def SeesLoad (code : Code) (cursor : Cursor) : Prop :=
  (cursor.peek? code).any Opcode.isVarLoad = true

/-- With a load in front the block is left by a return, and the label is forgotten. -/
theorem exit_of_seesLoad {key : Key} {cursor : Cursor} (h : cursor.SeesLoad code) :
    exit code key cursor = expectValueReturn code
      { cursor.advance code with bindings := cursor.bindings.forgetLabel key } :=
  if_pos h

/-- Otherwise the block is left by a jump. -/
theorem exit_of_not_seesLoad {key : Key} {cursor : Cursor} (h : ¬ cursor.SeesLoad code) :
    exit code key cursor = expectJump code .goto key cursor :=
  if_neg h

/-- The label of the key is forgotten if the block is left by a return. -/
theorem progress_exit (key : Key) :
    Progress code (fun _ => False) (fun cursor other => other = key ∧ cursor.SeesLoad code)
      (exit code key) where
  follows cursor := by
    by_cases h : cursor.SeesLoad code
    · rw [exit_of_seesLoad h]
      have hload : cursor.Follows code (· = key)
          { cursor.advance code with bindings := cursor.bindings.forgetLabel key } :=
        ⟨code.notBefore_bind_nextReal? cursor.position, cursor.bindings.keeps_forgetLabel key⟩
      refine (hload.trans (moves_expectValueReturn.follows _)).mono fun other => ?_
      rintro (hother | hother)
      · exact ⟨hother, h⟩
      · exact hother.elim
    · rw [exit_of_not_seesLoad h]
      exact ((moves_expectJump .goto key).follows cursor).mono fun _ => False.elim
  stays _ := False.elim
  moves cursor next hrun hidle := by
    by_cases h : cursor.SeesLoad code
    · rw [exit_of_seesLoad h] at hrun
      -- The return is a node behind the load, wherever that is.
      exact (code.notBefore_bind_nextReal? cursor.position).trans_behind
        (moves_expectValueReturn.moves _ next hrun hidle)
    · rw [exit_of_not_seesLoad h] at hrun
      exact (moves_expectJump .goto key).moves cursor next hrun hidle

/-- Nothing is read to join a label that is not known. -/
theorem progress_joinLabel (key : Key) :
    Progress code (fun cursor => cursor.bindings.labels key = none) (fun _ _ => False)
      (joinLabel code key) where
  follows cursor := by
    rw [joinLabel]
    split
    · exact (moves_expectLabel key).follows cursor
    · exact .refl code _ cursor
  stays cursor hidle := by
    rw [joinLabel, hidle]
    rfl
  moves cursor next hrun hidle := by
    rw [joinLabel, if_pos (Option.isSome_iff_ne_none.2 hidle)] at hrun
    exact (moves_expectLabel key).moves cursor next hrun id

end Cursor

/-! ### Steps -/

/-- The step is to join a label that is not known, so it reads nothing. -/
def Step.Idle (scope : Scope) (cursor : Cursor) : Step → Prop
  | .joinLabel name => cursor.bindings.labels (name.resolve scope) = none
  | _ => False

/-- The step leaves a block by a return, which makes the label of the key unknown. -/
def Step.Forgets (code : Code) (scope : Scope) (cursor : Cursor) (key : Key) : Step → Prop
  | .exit target => key = target.resolve scope ∧ cursor.SeesLoad code
  | _ => False

/-- One of the steps that are run makes the label of the key unknown. -/
def Step.ForgetsAmong (code : Code) (scope : Scope) (key : Key) : List Step → Cursor → Prop
  | [], _ => False
  | first :: rest, cursor => first.Forgets code scope cursor key ∨
    ∃ next, Cursor.step code scope first cursor = (true, next) ∧
      ForgetsAmong code scope key rest next

/-- One of the segments that are run makes the label of the key unknown. -/
def Segment.ForgetsAmong (code : Code) (key : Key) : List Segment → Cursor → Prop
  | [], _ => False
  | first :: rest, cursor => Step.ForgetsAmong code first.scope key first.steps cursor ∨
    ∃ next, Cursor.run code first.scope first.steps cursor = (true, next) ∧
      ForgetsAmong code key rest next

namespace Cursor

open Primitive (Moves Progress)

/-- A step that moves whenever it succeeds is never idle and forgets nothing. -/
theorem progress_step (scope : Scope) (s : Step) :
    Progress code (fun cursor => s.Idle scope cursor)
      (fun cursor key => s.Forgets code scope cursor key) (step code scope s) := by
  cases s with
  | op opcode => exact moves_expect opcode
  | var opcode slot => exact moves_expectVar opcode _
  | jump opcode target => exact moves_expectJump opcode _
  | label name => exact moves_expectLabel _
  | close resource => exact moves_expectClose _
  | addSuppressed exception => exact moves_expectAddSuppressed _
  | invoke opcode name desc => exact moves_expectInvoke opcode _
  | exit target => exact progress_exit _
  | joinLabel name => exact progress_joinLabel _

/-- Running steps leaves the cursor alone if none of them reads anything. -/
theorem progress_run (scope : Scope) (steps : List Step) :
    Progress code (fun cursor => ∀ s ∈ steps, s.Idle scope cursor)
      (fun cursor key => Step.ForgetsAmong code scope key steps cursor) (run code scope steps) := by
  induction steps with
  | nil => exact (Progress.accept code).congr (by simp) fun _ _ => id
  | cons first rest ih =>
    exact ((progress_step scope first).andThen ih).congr (by simp) fun _ _ => id

/-- So does running segments. -/
theorem progress_runSegments (segments : List Segment) :
    Progress code
      (fun cursor => ∀ segment ∈ segments, ∀ s ∈ segment.steps, s.Idle segment.scope cursor)
      (fun cursor key => Segment.ForgetsAmong code key segments cursor)
      (runSegments code segments) := by
  induction segments with
  | nil => exact (Progress.accept code).congr (by simp) fun _ _ => id
  | cons first rest ih =>
    exact ((progress_run first.scope first.steps).andThen ih).congr (by simp) fun _ _ => id

end Cursor

end CleanupFilter
