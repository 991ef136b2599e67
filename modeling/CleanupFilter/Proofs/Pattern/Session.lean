import CleanupFilter.Proofs.Pattern.Progress

/-!
# Sessions with a cursor

A cursor may be driven by any calls in any order, going on after failures, and it may be put back to
where it was saved. Between two restores it never moves back, and what is bound stays bound.

- `Cursor.Call`, `Cursor.Call.perform`: a call, its answer and the cursor behind it.
- `Cursor.Action`, `Session.run`: calls, saves and restores in order.
- `Cursor.Call.progress`: what one call does.
- `Cursor.follows_performAll`: what calls without a restore do.
- `Session.standsFrom_run`: where the cursor of a session may stand.
- `Session.cursor_restore`: a restore puts back what was saved.
- `Code.searchByIndex?_eq`: no node is read that is not there.
- `Session.run_keeps`: all of it for the sessions from a position.
-/

namespace CleanupFilter

variable {code : Code}

/-! ### Reading by index -/

/-- Every index that is read is that of a node. -/
theorem Code.searchByIndex?_eq (code : Code) (position : Nat) :
    code.searchByIndex? position = some (code.nextReal? position) := by
  fun_induction searchByIndex? code position with
  | case1 position hnext =>
    rw [next?, ite_eq_right_iff] at hnext
    have hend : ¬ position + 1 < code.size := fun hlt => by simpa using hnext hlt
    rw [nextReal?, realFrom?, dif_neg hend]
  | case2 position next hnext hnone =>
    obtain ⟨hlt, rfl⟩ := next?_eq_some_iff.1 hnext
    rw [Array.getElem?_eq_getElem hlt] at hnone
    cases hnone
  | case3 position next hnext node hnode hpseudo ih =>
    obtain ⟨hlt, rfl⟩ := next?_eq_some_iff.1 hnext
    rw [ih, nextReal?, nextReal?, realFrom?_of_isPseudo hnode hpseudo]
  | case4 position next hnext node hnode hreal =>
    obtain ⟨hlt, rfl⟩ := next?_eq_some_iff.1 hnext
    rw [nextReal?, realFrom?_of_node hnode (Bool.eq_false_iff.2 hreal)]

/-- Looking ahead by index never fails and sees the next instruction. -/
theorem Cursor.peekByIndex?_eq (code : Code) (cursor : Cursor) :
    cursor.peekByIndex? code = some (cursor.peek? code) := by
  obtain ⟨_ | position, bindings⟩ := cursor
  · rfl
  · simp only [peekByIndex?, Code.searchByIndex?_eq, peek?, opcode?, current?, advance,
      Option.bind_some]
    cases h : code.nextReal? position with
    | none => rfl
    | some found =>
      -- The instruction that is found is one of the nodes, so its index can be read.
      have hlt := Code.lt_size_of_realFrom?_eq_some h
      simp [Array.getElem?_eq_getElem hlt]

/-! ### Calls -/

namespace Cursor

/-- A call on a cursor. -/
inductive Call
  | advance
  | expect (opcode : Opcode)
  | expectVar (opcode : Opcode) (key : Key)
  | expectJump (opcode : Opcode) (key : Key)
  | expectLabel (key : Key)
  | expectClose (key : Key)
  | expectAddSuppressed (key : Key)
  | expectInvoke (opcode : Opcode) (name desc : String)
  | expectValueReturn
  | exit (key : Key)
  | joinLabel (key : Key)
  | step (scope : Scope) (s : Step)
  | run (scope : Scope) (steps : List Step)
  | runSegments (segments : List Segment)
  deriving DecidableEq, Repr

namespace Call

/-- The primitive that a call stands for. Moving to the next instruction is none, as it neither
succeeds nor fails. -/
def primitive? (code : Code) : Call → Option Primitive
  | advance => none
  | expect opcode => some (Cursor.expect code opcode)
  | expectVar opcode key => some (Cursor.expectVar code opcode key)
  | expectJump opcode key => some (Cursor.expectJump code opcode key)
  | expectLabel key => some (Cursor.expectLabel code key)
  | expectClose key => some (Cursor.expectClose code key)
  | expectAddSuppressed key => some (Cursor.expectAddSuppressed code key)
  | expectInvoke opcode name desc => some (Cursor.expectInvoke code opcode name desc)
  | expectValueReturn => some (Cursor.expectValueReturn code)
  | exit key => some (Cursor.exit code key)
  | joinLabel key => some (Cursor.joinLabel code key)
  | step scope s => some (Cursor.step code scope s)
  | run scope steps => some (Cursor.run code scope steps)
  | runSegments segments => some (Cursor.runSegments code segments)

/-- The answer of a call, if it gives one, and the cursor behind it. -/
def perform (code : Code) (call : Call) (cursor : Cursor) : Option Bool × Cursor :=
  match call.primitive? code with
  | some primitive => (some (primitive cursor).1, (primitive cursor).2)
  | none => (none, cursor.advance code)

/-- The call is to join a label that is not known, or to run steps that all are. -/
def Idle (cursor : Cursor) : Call → Prop
  | joinLabel key => cursor.bindings.labels key = none
  | step scope s => s.Idle scope cursor
  | run scope steps => ∀ s ∈ steps, s.Idle scope cursor
  | runSegments segments => ∀ segment ∈ segments, ∀ s ∈ segment.steps,
      s.Idle segment.scope cursor
  | _ => False

/-- In the course of the call a block is left by a return, which makes the label of the key
unknown. -/
def Forgets (code : Code) (cursor : Cursor) (key : Key) : Call → Prop
  | exit other => key = other ∧ cursor.SeesLoad code
  | step scope s => s.Forgets code scope cursor key
  | run scope steps => Step.ForgetsAmong code scope key steps cursor
  | runSegments segments => Segment.ForgetsAmong code key segments cursor
  | _ => False

/-- What a call that gives an answer does to any cursor. -/
theorem progress {call : Call} {primitive : Primitive}
    (h : call.primitive? code = some primitive) :
    primitive.Progress code (fun cursor => call.Idle cursor)
      (fun cursor key => call.Forgets code cursor key) := by
  cases call with
  | advance => cases h
  | expect opcode => cases h; exact moves_expect opcode
  | expectVar opcode key => cases h; exact moves_expectVar opcode key
  | expectJump opcode key => cases h; exact moves_expectJump opcode key
  | expectLabel key => cases h; exact moves_expectLabel key
  | expectClose key => cases h; exact moves_expectClose key
  | expectAddSuppressed key => cases h; exact moves_expectAddSuppressed key
  | expectInvoke opcode name desc => cases h; exact moves_expectInvoke opcode _
  | expectValueReturn => cases h; exact moves_expectValueReturn
  | exit key => cases h; exact progress_exit key
  | joinLabel key => cases h; exact progress_joinLabel key
  | step scope s => cases h; exact progress_step scope s
  | run scope steps => cases h; exact progress_run scope steps
  | runSegments segments => cases h; exact progress_runSegments segments

variable {cursor next : Cursor}

/-- Whatever its answer, a call does not move back and does not change what is bound. -/
theorem follows (code : Code) (call : Call) (cursor : Cursor) :
    cursor.Follows code (fun key => call.Forgets code cursor key)
      (call.perform code cursor).2 := by
  rw [perform]
  cases h : call.primitive? code with
  | some primitive => exact (progress h).follows cursor
  | none =>
    exact ⟨code.notBefore_bind_nextReal? cursor.position, .refl _ cursor.bindings⟩

/-- A call that succeeds stands for a primitive that does. -/
theorem exists_primitive {call : Call} (h : call.perform code cursor = (some true, next)) :
    ∃ primitive, call.primitive? code = some primitive ∧ primitive cursor = (true, next) := by
  rw [perform] at h
  cases hprimitive : call.primitive? code with
  | none =>
    rw [hprimitive] at h
    cases h
  | some primitive =>
    rw [hprimitive, Prod.mk.injEq, Option.some.injEq] at h
    exact ⟨primitive, rfl, Prod.ext h.1 h.2⟩

/-- A call that succeeds moves on to a node, unless there was nothing to read. -/
theorem behind_of_success {call : Call} (h : call.perform code cursor = (some true, next))
    (hidle : ¬ call.Idle cursor) : code.Behind cursor.position next.position := by
  obtain ⟨primitive, hprimitive, hrun⟩ := exists_primitive h
  exact (progress hprimitive).moves cursor next hrun hidle

/-- If there is nothing to read, the call succeeds and leaves the cursor as it is. -/
theorem perform_of_idle {call : Call} (h : call.Idle cursor) :
    call.perform code cursor = (some true, cursor) := by
  rw [perform]
  cases hprimitive : call.primitive? code with
  | none =>
    cases call with
    | advance => exact h.elim
    | _ => cases hprimitive
  | some primitive =>
    dsimp only
    rw [(progress hprimitive).stays cursor h]

end Call

/-- The cursor after calls in the given order, whatever their answers. -/
def performAll (code : Code) (calls : List Call) (cursor : Cursor) : Cursor :=
  calls.foldl (fun cursor call => (call.perform code cursor).2) cursor

/-- One of the calls makes the label of the key unknown. -/
def ForgetsAmong (code : Code) (key : Key) : List Call → Cursor → Prop
  | [], _ => False
  | call :: rest, cursor => call.Forgets code cursor key ∨
    ForgetsAmong code key rest (call.perform code cursor).2

/-- Calls do not move back and do not change what is bound. -/
theorem follows_performAll (code : Code) (calls : List Call) (cursor : Cursor) :
    cursor.Follows code (fun key => ForgetsAmong code key calls cursor)
      (performAll code calls cursor) := by
  induction calls generalizing cursor with
  | nil => exact .refl code _ cursor
  | cons call rest ih => exact (call.follows code cursor).trans (ih _)

/-- No more code remains if the cursor is not in front of where it was. -/
theorem remaining_le_of_notBefore {before after : Cursor}
    (h : code.NotBefore before.position after.position) :
    after.remaining code ≤ before.remaining code := by
  rw [remaining, remaining]
  cases hafter : after.position with
  | none => exact Nat.zero_le _
  | some later =>
    cases hbefore : before.position with
    | none => rw [hbefore, hafter] at h; exact h.elim
    | some earlier =>
      rw [hbefore, hafter, Code.NotBefore] at h
      dsimp only
      omega

/-! ### Sessions -/

/-- What may be done to the cursor of a session. -/
inductive Action
  | call (call : Call)
  /-- Saves position and bindings. -/
  | save
  /-- Puts back what was saved at the given turn, counted from 0. -/
  | restore (index : Nat)
  deriving DecidableEq, Repr

end Cursor

open Cursor (Action Call performAll)

/-- A cursor with what has been saved of it. -/
structure Session where
  /-- The cursor. -/
  cursor : Cursor
  /-- What was saved, in order. -/
  saved : List Cursor

namespace Session

/-- The session of a fresh cursor. -/
def start (position : Nat) : Session :=
  ⟨.after position, []⟩

/-- The session after an action. Nothing is put back that was not saved. -/
def perform (code : Code) (session : Session) : Action → Session
  | .call call => { session with cursor := (call.perform code session.cursor).2 }
  | .save => { session with saved := session.saved ++ [session.cursor] }
  | .restore index => { session with cursor := session.saved[index]?.getD session.cursor }

/-- The session after actions in the given order. -/
def run (code : Code) (session : Session) (actions : List Action) : Session :=
  actions.foldl (perform code) session

/-- Actions are performed one after the other. -/
theorem run_append (code : Code) (session : Session) (front back : List Action) :
    session.run code (front ++ back) = (session.run code front).run code back :=
  List.foldl_append

/-- Calls alone act on the cursor only. -/
theorem run_calls (code : Code) (session : Session) (calls : List Call) :
    session.run code (calls.map .call) =
      { session with cursor := performAll code calls session.cursor } := by
  induction calls generalizing session with
  | nil => rfl
  | cons call rest ih => exact ih _

/-- The cursor and all that was saved of it stand where a cursor from `position` may stand. -/
structure StandsFrom (code : Code) (position : Nat) (session : Session) : Prop where
  cursor : code.NotBefore (some position) session.cursor.position
  saved : ∀ cursor ∈ session.saved, code.NotBefore (some position) cursor.position

/-- A session still stands from where it started after one more action. -/
theorem standsFrom_perform {position : Nat} {session : Session}
    (h : session.StandsFrom code position) (action : Action) :
    (session.perform code action).StandsFrom code position := by
  cases action with
  | call call => exact ⟨h.cursor.trans (call.follows code session.cursor).position, h.saved⟩
  | save => exact ⟨h.cursor, List.forall_mem_append.2 ⟨h.saved, by simpa using h.cursor⟩⟩
  | restore index =>
    refine ⟨?_, h.saved⟩
    rw [perform]
    -- Nothing is put back if nothing was saved at this turn.
    cases hsaved : session.saved[index]? with
    | none => exact h.cursor
    | some cursor => exact h.saved cursor (List.mem_of_getElem? hsaved)

/-- So it does after any actions. -/
theorem standsFrom_run {position : Nat} {session : Session}
    (h : session.StandsFrom code position) (actions : List Action) :
    (session.run code actions).StandsFrom code position := by
  induction actions generalizing session with
  | nil => exact h
  | cons action rest ih => exact ih (standsFrom_perform h action)

/-- A session stands from where it starts. -/
theorem standsFrom_start (code : Code) (position : Nat) :
    (start position).StandsFrom code position :=
  ⟨.refl code _, by simp [start]⟩

/-- What was saved stays saved. -/
theorem saved_prefix_run (code : Code) (session : Session) (actions : List Action) :
    session.saved <+: (session.run code actions).saved := by
  induction actions generalizing session with
  | nil => exact List.prefix_refl _
  | cons action rest ih =>
    -- Saving adds at the end, and nothing else changes what was saved.
    refine List.IsPrefix.trans ?_ (ih (session.perform code action))
    cases action with
    | call call => exact List.prefix_refl _
    | save => exact List.prefix_append _ _
    | restore index => exact List.prefix_refl _

/-- A restore puts back what was saved, whatever has been done since. -/
theorem cursor_restore (code : Code) (session : Session) (actions : List Action) :
    (session.run code (.save :: actions ++ [.restore session.saved.length])).cursor =
      session.cursor := by
  rw [run_append]
  have hsaved := saved_prefix_run code (session.perform code .save) actions
  obtain ⟨more, hmore⟩ := hsaved
  have hfound : (session.run code (.save :: actions)).saved[session.saved.length]? =
      some session.cursor := by
    show ((session.perform code .save).run code actions).saved[_]? = _
    rw [← hmore, perform, List.append_assoc, List.getElem?_append_right (Nat.le_refl _),
      Nat.sub_self]
    rfl
  show (((session.run code (.save :: actions)).saved[_]?).getD _) = _
  rw [hfound, Option.getD_some]

/-- Leaving a block by a return forgets the label of its own key and changes no other binding. -/
theorem bindings_exit {key : Key} {cursor : Cursor} (h : cursor.SeesLoad code) :
    ((Call.exit key).perform code cursor).2.bindings = cursor.bindings.forgetLabel key := by
  show (Cursor.exit code key cursor).2.bindings = _
  rw [Cursor.exit_of_seesLoad h]
  rfl

/-- A position that is not in front of another one is equal, or behind it, or none. -/
theorem notBefore_some_iff {position : Nat} {found? : Option Nat} :
    code.NotBefore (some position) found? ↔ found? = some position ∨ found? = none ∨
      ∃ found, found? = some found ∧ position < found ∧ found < code.size := by
  cases found? with
  | none => simp [Code.NotBefore]
  | some found => simp [Code.NotBefore]

/-- After any actions on a cursor from `position`, the cursor stands there, on a node behind it or
past the end, and no index is read at which there is no node. From then on, until something is put
back, calls do not move the cursor back and keep what is bound, but for labels of blocks that are
left by a return. Each call that succeeds moves on to a node, unless it had nothing to read. What is
put back is what was saved. -/
theorem run_keeps (code : Code) (position : Nat) (actions : List Action) (calls : List Call) :
    let session := (start position).run code actions
    let cursor := session.cursor
    let final := (session.run code (calls.map .call)).cursor
    ((∀ first, code.searchByIndex? first = some (code.nextReal? first)) ∧
      cursor.peekByIndex? code = some (cursor.peek? code)) ∧
    (cursor.position = some position ∨ cursor.position = none ∨
      ∃ found, cursor.position = some found ∧ position < found ∧ found < code.size) ∧
    (code.NotBefore cursor.position final.position ∧
      (cursor.position = none → final.position = none) ∧
      final.remaining code ≤ cursor.remaining code) ∧
    (∀ (call : Call) next, call.perform code cursor = (some true, next) →
      (call.Idle cursor → next = cursor) ∧
      (¬ call.Idle cursor → code.Behind cursor.position next.position)) ∧
    ((∀ key slot, cursor.bindings.slots key = some slot →
        final.bindings.slots key = some slot) ∧
      (∀ key owner, cursor.bindings.owners key = some owner →
        final.bindings.owners key = some owner) ∧
      ∀ key label, cursor.bindings.labels key = some label →
        ¬ Cursor.ForgetsAmong code key calls cursor → final.bindings.labels key = some label) ∧
    (∀ key, cursor.SeesLoad code →
      ((Call.exit key).perform code cursor).2.bindings = cursor.bindings.forgetLabel key) ∧
    ∀ since, (session.run code (.save :: since ++ [.restore session.saved.length])).cursor =
      cursor := by
  intro session cursor final
  have hfollows :
      cursor.Follows code (fun key => Cursor.ForgetsAmong code key calls cursor) final := by
    show Cursor.Follows code _ _ (session.run code (calls.map .call)).cursor
    rw [run_calls]
    exact Cursor.follows_performAll code calls cursor
  have hstands := standsFrom_run (standsFrom_start code position) actions
  refine ⟨⟨code.searchByIndex?_eq, cursor.peekByIndex?_eq code⟩,
    notBefore_some_iff.1 hstands.cursor,
    ⟨hfollows.position, fun hnone => ?_, Cursor.remaining_le_of_notBefore hfollows.position⟩,
    fun call next hcall => ⟨fun hidle => ?_, Call.behind_of_success hcall⟩,
    ⟨hfollows.bindings.slots, hfollows.bindings.owners, fun key label hlabel hkey => ?_⟩,
    fun key => bindings_exit, session.cursor_restore code⟩
  · -- No position is behind the end.
    have hposition := hfollows.position
    rw [hnone] at hposition
    cases hfinal : final.position with
    | none => rfl
    | some found =>
      rw [hfinal] at hposition
      exact hposition.elim
  · rw [Call.perform_of_idle hidle] at hcall
    exact ((Prod.mk.inj hcall).2).symm
  · exact hfollows.bindings.labels key label hkey hlabel

/-- A jump and a label, with a block behind them that is left by a return. -/
def leaving : Code :=
  #[.label ⟨0⟩, .jump .goto ⟨0⟩, .label ⟨1⟩, .frame, .var .aload 1, .plain ⟨0xb0⟩]

/-- Leaving the block forgets the target of the jump, but not the label in front of it. -/
theorem run_keeps_leaving :
    let jump : Key := ⟨.normal, "jump"⟩
    let block : Key := ⟨.normal, "block"⟩
    let session := (start 0).run leaving [.call (.expectJump .goto jump), .call (.expectLabel block)]
    let left := (session.run leaving [.call (.exit jump)]).cursor
    (session.cursor.position = some 2 ∧ session.cursor.bindings.labels jump = some ⟨0⟩) ∧
      left.position = some 5 ∧ leaving.Behind session.cursor.position left.position ∧
      left.bindings = session.cursor.bindings.forgetLabel jump ∧
      left.bindings.labels block = some ⟨1⟩ := by
  intro jump block session left
  have hload : session.cursor.SeesLoad leaving := by
    rw [Cursor.SeesLoad]
    decide +kernel
  obtain ⟨-, -, -, hcalls, ⟨-, -, hlabels⟩, hexit, -⟩ := run_keeps leaving 0
    [.call (.expectJump .goto jump), .call (.expectLabel block)] [.exit jump]
  have hblock : session.cursor.bindings.labels block = some ⟨1⟩ := by decide +kernel
  have hkept : ¬ Cursor.ForgetsAmong leaving block [.exit jump] session.cursor := by
    rintro (⟨hsame, -⟩ | hnone)
    · exact absurd hsame (by decide)
    · exact hnone
  have hsuccess : (Call.exit jump).perform leaving session.cursor = (some true, left) :=
    Prod.ext (by decide +kernel) rfl
  exact ⟨⟨by decide +kernel, by decide +kernel⟩, by decide +kernel,
    (hcalls _ _ hsuccess).2 id, hexit jump hload, hlabels block _ hblock hkept⟩

end Session

end CleanupFilter
