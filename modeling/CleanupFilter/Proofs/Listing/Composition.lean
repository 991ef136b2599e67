import Mathlib.Data.List.Basic
import CleanupFilter.Listing.Reader

/-!
# Listings one behind the other

A listing that ends with a complete line can be followed by any other text. What is read of the two
is what is read of each, and what is wrong with the second is found where it stands.

- `Text.IsComplete`: nothing, or a text that ends with a line feed.
- `Line.split_append_of_isComplete`: the lines of a text behind a complete one.
- `ListingError.behind`: an error in a text that stands behind some lines.
- `readLines_behind`: lines read alike wherever they stand.
- `readListing_append`: what is read of a text behind a complete one.
-/

namespace CleanupFilter

/-! ### Complete texts -/

/-- The text is empty or ends with a line feed. -/
def Text.IsComplete (text : List Char) : Prop :=
  text = [] ∨ ∃ front, text = front ++ ['\n']

namespace Line

/-- A text without lines is empty. -/
theorem eq_nil_of_split_eq_nil {text : List Char} (h : split text = []) : text = [] := by
  fun_cases split text with
  | case1 => rfl
  | _ => simp_all [split]

/-- A text without its first character is complete if it was, unless that was its line feed. -/
theorem isComplete_tail {c : Char} {rest : List Char} (h : Text.IsComplete (c :: rest)) :
    Text.IsComplete rest ∧ (rest = [] → c = '\n') := by
  obtain h | ⟨front, h⟩ := h
  · exact absurd h (List.cons_ne_nil c rest)
  cases front with
  | nil =>
    obtain ⟨rfl, rfl⟩ := List.cons.inj h
    exact ⟨.inl rfl, fun _ => rfl⟩
  | cons d front =>
    obtain ⟨rfl, rfl⟩ := List.cons.inj h
    exact ⟨.inr ⟨front, rfl⟩, fun hnil => absurd hnil (by simp)⟩

/-- The lines of a complete text are not changed by what follows. -/
theorem split_append_of_isComplete {text : List Char} (h : Text.IsComplete text)
    (rest : List Char) : split (text ++ rest) = split text ++ split rest := by
  induction text using split.induct with
  | case1 => rfl
  | case2 text ih =>
    rw [List.cons_append, split, split, ih (isComplete_tail h).1]
    rfl
  | case3 text ih =>
    rw [List.cons_append, List.cons_append, split, split,
      ih (isComplete_tail (isComplete_tail h).1).1]
    rfl
  | case4 c text hfeed hreturn hnone _ =>
    -- A text with no line is empty, and its last character would have been a line feed.
    have hlast := (isComplete_tail h).2 (eq_nil_of_split_eq_nil hnone)
    exact absurd hlast hfeed
  | case5 c text hfeed hreturn line others hsome ih =>
    obtain ⟨htail, hlast⟩ := isComplete_tail h
    have hreturn' : ∀ t, c = '\r' → text ++ rest = '\n' :: t → False := by
      intro t hc ht
      cases text with
      | nil => exact hfeed (hlast rfl)
      | cons d text =>
        obtain ⟨rfl, -⟩ := List.cons.inj ht
        exact hreturn text hc rfl
    rw [List.cons_append, split, split, ih htail, hsome]
    · rfl
    · exact hfeed
    · exact hreturn
    · exact hfeed
    · exact hreturn'

/-- A complete text has as many lines as line feeds. -/
theorem length_split_of_isComplete {text : List Char} (h : Text.IsComplete text) :
    (split text).length = text.count '\n' := by
  induction text using split.induct with
  | case1 => rfl
  | case2 text ih =>
    rw [split, List.length_cons, ih (isComplete_tail h).1, List.count_cons_self]
  | case3 text ih =>
    rw [split, List.length_cons, ih (isComplete_tail (isComplete_tail h).1).1,
      List.count_cons_of_ne (by decide), List.count_cons_self]
  | case4 c text hfeed hreturn hnone _ =>
    exact absurd ((isComplete_tail h).2 (eq_nil_of_split_eq_nil hnone)) hfeed
  | case5 c text hfeed hreturn line others hsome ih =>
    -- A character of the first line adds neither a line nor a line feed.
    have ih := ih (isComplete_tail h).1
    rw [hsome] at ih
    rw [split, hsome, List.count_cons_of_ne hfeed, ← ih]
    · rfl
    · exact hfeed
    · exact hreturn

end Line

/-! ### Errors behind other lines -/

/-- The error of a text that stands behind some lines. Errors of a whole body have no line. -/
def ListingError.behind (lines : Nat) : ListingError → ListingError
  | .line number fault => .line (number + lines) fault
  | .unterminatedMethod start name => .unterminatedMethod (start + lines) name
  | .malformedBody name cause => .malformedBody name cause

/-- The method, if its first line stands behind some more lines. -/
def OpenMethod.behind (lines : Nat) (method : OpenMethod) : OpenMethod :=
  { method with line := method.line + lines }

/-- What a line makes of such a method, if it stands behind some more lines itself. -/
def LineResult.behind (lines : Nat) : LineResult → LineResult
  | .ok (next, completed) => .ok (next.map (·.behind lines), completed)
  | .error error => .error (error.behind lines)

section Behind

variable (lines number : Nat) (opened : Option OpenMethod)

/-- A method is opened alike behind some more lines. -/
theorem startMethod_behind (words : List (List Char)) :
    startMethod (number + lines) (opened.map (·.behind lines)) words =
      LineResult.behind lines (startMethod number opened words) := by
  cases opened with
  | some method => rfl
  | none =>
    -- Only two words open a method, which then has the number of the line.
    rcases words with _ | ⟨name, _ | ⟨desc, _ | ⟨more, rest⟩⟩⟩ <;> rfl

theorem endMethod_behind (head : List Char) :
    endMethod (number + lines) (opened.map (·.behind lines)) head =
      LineResult.behind lines (endMethod number opened head) := by
  cases opened with
  | none => rfl
  | some method =>
    -- Where a method stands matters neither for its body nor for what is wrong with it.
    have hfinish : (method.behind lines).finish = method.finish := rfl
    rw [Option.map_some, endMethod, endMethod, hfinish]
    unfold OpenMethod.finish
    split <;> rfl

theorem continueMethod_behind (head text : List Char) (words : List (List Char)) :
    continueMethod (number + lines) (opened.map (·.behind lines)) head text words =
      LineResult.behind lines (continueMethod number opened head text words) := by
  cases opened with
  | none => rfl
  | some method =>
    rw [Option.map_some, continueMethod, continueMethod]
    cases Item.read head text words <;> rfl

/-- A line is read alike wherever it stands. -/
theorem readLine_behind (line : Line) :
    readLine (number + lines) (opened.map (·.behind lines)) line =
      LineResult.behind lines (readLine number opened line) := by
  unfold readLine
  split
  · rfl
  · next head words _ =>
    by_cases hopen : head = Keyword.openMethod
    · rw [if_pos hopen, if_pos hopen, startMethod_behind]
    rw [if_neg hopen, if_neg hopen]
    by_cases hclose : head = Keyword.closeMethod
    · rw [if_pos hclose, if_pos hclose, endMethod_behind]
    · rw [if_neg hclose, if_neg hclose, continueMethod_behind]

/-- Lines are read alike wherever they stand. -/
theorem readLines_behind (rest : List (List Char)) :
    readLines (number + lines) (opened.map (·.behind lines)) rest =
      (readLines number opened rest).mapError (·.behind lines) := by
  induction rest generalizing number opened with
  | nil => cases opened <;> rfl
  | cons line rest ih =>
    rw [readLines, readLines, readLine_behind]
    cases readLine number opened (Line.read line) with
    | error error => rfl
    | ok result =>
      obtain ⟨next, completed⟩ := result
      -- The next line has the next number in both texts.
      have ih := ih (number + 1) next
      rw [Nat.add_right_comm] at ih
      rw [LineResult.behind]
      dsimp only
      rw [ih]
      cases readLines (number + 1) next rest <;> rfl

end Behind

/-! ### Lines behind other lines -/

section Append

variable {number : Nat} {opened : Option OpenMethod} {front : List (List Char)}

/-- Lines that leave no method open are read apart from what follows. -/
theorem readLines_append_of_eq_ok {bodies : List (Body Label)}
    (h : readLines number opened front = .ok bodies) (back : List (List Char)) :
    readLines number opened (front ++ back) =
      (readLines (number + front.length) none back).map (bodies ++ ·) := by
  induction front generalizing number opened bodies with
  | nil =>
    cases opened with
    -- With an open method the first text would not have been read.
    | some method => cases h
    | none =>
      cases h
      show readLines number none back = _
      cases readLines number none back <;> rfl
  | cons line front ih =>
    rw [readLines] at h
    rw [List.cons_append, readLines, List.length_cons, Nat.add_comm front.length, ← Nat.add_assoc]
    cases hread : readLine number opened (Line.read line) with
    | error error =>
      rw [hread] at h
      cases h
    | ok result =>
      obtain ⟨next, completed⟩ := result
      simp only [hread] at h ⊢
      cases hrest : readLines (number + 1) next front with
      | error error =>
        rw [hrest] at h
        cases h
      | ok others =>
        rw [hrest] at h
        cases h
        -- The bodies of the first line stand in front of all others.
        rw [ih hrest]
        cases readLines (number + 1 + front.length) none back with
        | error error => rfl
        | ok rest => exact congrArg Except.ok (List.append_assoc completed.toList others rest).symm

/-- What is wrong with a line is found whatever follows. Only a method that no line has closed yet
may still be closed. -/
theorem readLines_append_of_eq_error {error : ListingError}
    (h : readLines number opened front = .error error)
    (hclosed : ∀ start name, error ≠ .unterminatedMethod start name) (back : List (List Char)) :
    readLines number opened (front ++ back) = .error error := by
  induction front generalizing number opened with
  | nil =>
    cases opened with
    | none => cases h
    | some method =>
      cases h
      -- At the end of the text only an open method is an error.
      exact absurd rfl (hclosed method.line method.name)
  | cons line front ih =>
    rw [readLines] at h
    rw [List.cons_append, readLines]
    cases hread : readLine number opened (Line.read line) with
    | error found => simpa only [hread] using h
    | ok result =>
      obtain ⟨next, completed⟩ := result
      simp only [hread] at h ⊢
      cases hrest : readLines (number + 1) next front with
      | error found =>
        rw [hrest] at h
        cases h
        -- The error is one of the other lines, and stays where it is.
        rw [ih hrest]
      | ok others =>
        rw [hrest] at h
        cases h

end Append

/-! ### Listings behind other listings -/

/-- The number of lines of a listing. -/
def lineCount (source : String) : Nat :=
  (Line.split source.toList).length

/-- A text behind a complete one adds its own lines, each of which is read by itself. What is read
of it is what is read of the second text alone, with the lines of its errors counted from the start
of the first one, which has as many lines as line feeds. An error of the first text stays what it
is, unless it is a method without an end. -/
theorem readListing_append {first : String} (hfirst : Text.IsComplete first.toList)
    (second : String) :
    (Line.split (first ++ second).toList).map Line.read =
        (Line.split first.toList).map Line.read ++ (Line.split second.toList).map Line.read ∧
      lineCount first = first.toList.count '\n' ∧
      (∀ bodies, readListing first = .ok bodies →
        (∀ others, readListing second = .ok others →
          readListing (first ++ second) = .ok (bodies ++ others)) ∧
        ∀ error, readListing second = .error error →
          readListing (first ++ second) = .error (error.behind (lineCount first))) ∧
      ∀ error, readListing first = .error error →
        (∀ start name, error ≠ .unterminatedMethod start name) →
          readListing (first ++ second) = .error error := by
  have hsplit : Line.split (first ++ second).toList =
      Line.split first.toList ++ Line.split second.toList := by
    rw [String.toList_append, Line.split_append_of_isComplete hfirst]
  refine ⟨by rw [hsplit, List.map_append], Line.length_split_of_isComplete hfirst,
    fun bodies hbodies => ?_, fun error herror hclosed => ?_⟩
  · -- The lines of the second text are counted on from those of the first one.
    have happend : readListing (first ++ second) =
        ((readListing second).mapError (·.behind (lineCount first))).map (bodies ++ ·) := by
      have hbehind := readLines_behind (lineCount first) 1 none (Line.split second.toList)
      rw [Option.map_none] at hbehind
      rw [readListing, hsplit, readLines_append_of_eq_ok hbodies]
      exact congrArg (Except.map (bodies ++ ·)) hbehind
    refine ⟨fun others hothers => ?_, fun error herror => ?_⟩
    · rw [happend, hothers]
      rfl
    · rw [happend, herror]
      rfl
  · rw [readListing, hsplit]
    exact readLines_append_of_eq_error herror hclosed _

/-- A method that jumps in a circle, behind an open quote in a comment. -/
def loopListing : String :=
  "method loop ()V // \"\r\nagain:\n 1: GOTO again\nend\n"

/-- The method of `loopListing`. -/
def loopBody : Body Label where
  name := "loop"
  desc := "()V"
  nodes := #[.label ⟨0⟩, .jump .goto ⟨0⟩]
  tryCatches := []

/-- The method is read twice, and errors behind it are counted from its own lines on. -/
theorem readListing_append_loop :
    readListing (loopListing ++ loopListing) = .ok [loopBody, loopBody] ∧
      readListing (loopListing ++ "method jump ()V\nGOTO again\nend") =
        .error (.malformedBody "jump" (.unplacedLabel ⟨0⟩)) ∧
      readListing (loopListing ++ "// \"\nLDC 1") = .error (.line 6 (.outsideMethod "LDC")) ∧
      readListing ("again:\n" ++ loopListing) = .error (.line 1 (.outsideMethod "again:")) := by
  have hcomplete : Text.IsComplete loopListing.toList :=
    .inr (List.getLast?_eq_some_iff.1 (by decide +kernel))
  have hlabel : Text.IsComplete "again:\n".toList :=
    .inr (List.getLast?_eq_some_iff.1 (by decide +kernel))
  have hloop : readListing loopListing = .ok [loopBody] := by decide +kernel
  refine ⟨?_, ?_, ?_, ?_⟩
  · exact ((readListing_append hcomplete _).2.2.1 _ hloop).1 _ hloop
  · have herror : readListing "method jump ()V\nGOTO again\nend" =
        .error (.malformedBody "jump" (.unplacedLabel ⟨0⟩)) := by decide +kernel
    exact ((readListing_append hcomplete _).2.2.1 _ hloop).2 _ herror
  · have herror : readListing "// \"\nLDC 1" = .error (.line 2 (.outsideMethod "LDC")) := by
      decide +kernel
    have hcount : lineCount loopListing = 4 := by decide +kernel
    have happend := ((readListing_append hcomplete _).2.2.1 _ hloop).2 _ herror
    rwa [hcount] at happend
  · exact (readListing_append hlabel _).2.2.2 _ (by decide +kernel) (by simp)

end CleanupFilter
