import CleanupFilter.Proofs.Listing.Correspondence
import CleanupFilter.Proofs.Listing.Layout

/-!
# Lines that place labels

A line with nothing but a name and a colon places the label of the name, whichever lines mention it,
unless the name is made of digits. Then it is an index with nothing behind it, and no line: the
label is not placed, although it is mentioned wherever its name stands on other lines.

- `Line.Places`: the line has nothing but the name and a colon.
- `Line.item?_of_places`, `Line.words_of_places_digits`: what such a line stands for.
- `OpenMethod.onLines`, `readLines_method`: the method of some lines, and what is read of it.
- `OpenMethod.Follows.finish_ne_unplacedLabel`: a label with a line is never missed.
- `OpenMethod.Follows.finish_eq_unplacedLabel`: a label without one is.
- `readLines_placement`: methods with a line that has nothing but a name and a colon.
-/

namespace CleanupFilter

open Text (isBlank IsToken atBoundary)

-- The table is a large closed term, which the unifier would evaluate.
attribute [local irreducible] instructionTable

/-! ### Lines with a name and a colon -/

/-- A name that is a token is one with a colon behind it. -/
theorem isToken_colon {name : List Char} (h : IsToken name) : IsToken (name ++ [':']) := by
  obtain ⟨⟨hne, hblank⟩, hquote, hslashes⟩ := h
  have hcolon : ∀ c ∈ [':'], isBlank c = false := List.forall_mem_singleton.2 (by decide)
  refine ⟨⟨by simp, List.forall_mem_append.2 ⟨hblank, hcolon⟩⟩, by simp [hquote], ?_⟩
  rw [List.prefix_concat_iff, not_or]
  refine ⟨fun heq => ?_, hslashes⟩
  -- The second slash would be the colon.
  have hlast := congrArg List.getLast? heq
  rw [List.getLast?_concat] at hlast
  exact absurd hlast (by decide)

namespace Line

/-- The line has nothing but the name and a colon, blanks and a comment apart. -/
def Places (name line : List Char) : Prop :=
  ∃ margin tail, line = margin ++ (name ++ [':'] ++ tail) ∧ (∀ c ∈ margin, isBlank c = true) ∧
    atBoundary tail = true ∧ Text.words (stripComment tail) = []

variable {name line : List Char}

/-- A name with a colon is an index if it is made of digits. -/
theorem isIndex_colon (hname : IsToken name) :
    isIndex (name ++ [':']) = name.all Char.isDigit := by
  rw [isIndex, List.getLast?_concat, List.dropLast_concat]
  simp [hname.1.1]

/-- A line that places a label has its name and the colon as words, unless they are an index. -/
theorem words_of_places (hname : IsToken name) (h : Places name line) :
    (read line).words = dropIndex [name ++ [':']] := by
  obtain ⟨margin, tail, rfl, hmargin, htail, hwords⟩ := h
  show dropIndex (Text.words (Text.trim (stripComment _))) = _
  rw [Text.words_trim, words_stripComment_token hmargin (isToken_colon hname) htail, hwords]

/-- If the name is made of digits, the line is as good as blank. -/
theorem words_of_places_digits (hname : IsToken name) (h : Places name line)
    (hdigits : name.all Char.isDigit = true) : (read line).words = [] := by
  rw [words_of_places hname h, dropIndex, isIndex_colon hname, if_pos hdigits]

/-- Otherwise it places the label. -/
theorem item?_of_places (hname : IsToken name) (h : Places name line)
    (hdigits : name.all Char.isDigit = false) :
    (read line).item? = some (.node (.label (String.ofList name))) := by
  have hlast : (name ++ [':']).getLast? = some ':' := List.getLast?_concat
  have hkeyword : ¬ (name ++ [':'] = Keyword.openMethod ∨ name ++ [':'] = Keyword.closeMethod) := by
    rintro (heq | heq) <;> rw [heq] at hlast <;> exact absurd hlast (by decide)
  have hread : Item.read (name ++ [':']) (read line).text [] =
      .ok (.node (.label (String.ofList name))) := by
    rw [Item.read, if_pos hlast, List.dropLast_concat, if_pos ⟨rfl, hname.1.1⟩]
  rw [item?, words_of_places hname h, dropIndex, isIndex_colon hname, hdigits]
  simp only [Bool.false_eq_true, if_false, hkeyword, hread]
  rfl

end Line

/-! ### Methods of lines -/

/-- The line is blank, or stands for a node or an exception table entry. -/
def Line.IsSound (line : Line) : Prop :=
  line.words = [] ∨ ∃ item, line.item? = some item

/-- The method that is open behind the lines. -/
def OpenMethod.onLines (number : Nat) (name desc : List Char) (lines : List Line) : OpenMethod where
  line := number
  name := String.ofList name
  desc := String.ofList desc
  items := (lines.filterMap Line.item?).toArray

section Reading

variable {header : Line} {lines : List Line} {name desc : List Char}

/-- The method of lines without faults follows them. -/
theorem OpenMethod.follows_onLines (hheader : header.words = [Keyword.openMethod, name, desc])
    (h : ∀ line ∈ lines, line.IsSound) (number : Nat) :
    (onLines number name desc lines).Follows header lines where
  header := by rw [hheader, onLines, String.toList_ofList, String.toList_ofList]
  behind := h
  items := rfl

/-- A line that stands for something adds it to the open method. -/
theorem readLine_of_item? {line : Line} {item : Item String} (h : line.item? = some item)
    (number : Nat) (method : OpenMethod) :
    readLine number (some method) line = .ok (some (method.add item), none) := by
  rw [Line.item?] at h
  rw [readLine]
  cases hwords : line.words with
  | nil => simp [hwords] at h
  | cons head words =>
    simp only [hwords, Option.ite_none_left_eq_some, not_or] at h
    -- The line neither opens nor closes a method.
    obtain ⟨⟨hopen, hclose⟩, hread⟩ := h
    cases hitem : Item.read head line.text words with
    | error fault => simp [hitem, Except.toOption] at hread
    | ok found =>
      rw [hitem] at hread
      obtain rfl := Option.some.inj hread
      simp only [hopen, hclose, ↓reduceIte, continueMethod, hitem]

/-- A line without faults adds its item to the open method, or nothing. -/
theorem readLine_of_isSound {line : Line} (h : line.IsSound) (number start : Nat)
    (before : List Line) :
    readLine number (some (.onLines start name desc before)) line =
      .ok (some (.onLines start name desc (before ++ [line])), none) := by
  rcases h with hwords | ⟨item, hitem⟩
  · have hnone : line.item? = none := by rw [Line.item?, hwords]
    rw [readLine, hwords, OpenMethod.onLines, OpenMethod.onLines, List.filterMap_append,
      List.filterMap_cons_none hnone, List.filterMap_nil, List.append_nil]
  · rw [readLine_of_item? hitem, OpenMethod.add, OpenMethod.onLines, OpenMethod.onLines,
      List.filterMap_append, List.filterMap_cons_some hitem, List.filterMap_nil,
      List.push_toArray]

/-- Lines without faults are read one by one. -/
theorem readLines_of_isSound {texts : List (List Char)}
    (h : ∀ text ∈ texts, (Line.read text).IsSound) (number start : Nat) (before : List Line)
    (rest : List (List Char)) :
    readLines number (some (.onLines start name desc before)) (texts ++ rest) =
      readLines (number + texts.length)
        (some (.onLines start name desc (before ++ texts.map Line.read))) rest := by
  induction texts generalizing number before with
  | nil => rw [List.map_nil, List.append_nil, List.nil_append, List.length_nil, Nat.add_zero]
  | cons text texts ih =>
    obtain ⟨htext, htexts⟩ := List.forall_mem_cons.1 h
    rw [List.cons_append, readLines_cons_none (readLine_of_isSound htext number start before),
      ih htexts, List.map_cons, List.append_assoc, List.singleton_append, List.length_cons,
      Nat.add_assoc, Nat.add_comm 1]

/-- A method is read as what its lines say, and the lines behind it are read on their own. -/
theorem readLines_method {texts rest : List (List Char)} {header close : List Char}
    (hheader : (Line.read header).words = [Keyword.openMethod, name, desc])
    (hclose : (Line.read close).words.head? = some Keyword.closeMethod)
    (h : ∀ text ∈ texts, (Line.read text).IsSound) (number : Nat) :
    readLines number none (header :: texts ++ close :: rest) =
      match (OpenMethod.onLines number name desc (texts.map Line.read)).finish with
      | .error error => .error error
      | .ok body => (readLines (number + texts.length + 2) none rest).map (body :: ·) := by
  have hopened : readLine number none (Line.read header) =
      .ok (some (.onLines number name desc []), none) := by
    rw [readLine, hheader]
    rfl
  obtain ⟨words, hwords⟩ := List.head?_eq_some_iff.1 hclose
  -- The last line completes whatever has been read.
  have hended : ∀ number method, readLine number (some method) (Line.read close) =
      method.finish.map fun body => (none, some body) := by
    intro number method
    rw [readLine, hwords]
    rfl
  rw [List.cons_append, readLines_cons_none hopened, readLines_of_isSound h, List.nil_append]
  cases hfinish : (OpenMethod.onLines number name desc (texts.map Line.read)).finish with
  | error error =>
    rw [readLines, hended, hfinish]
    rfl
  | ok body =>
    rw [readLines_cons (by rw [hended, hfinish]; rfl), Nat.add_right_comm number 1]
    rfl

end Reading

/-! ### Labels that are placed and labels that are not -/

namespace OpenMethod

/-- The labels that are placed are those of the items. -/
theorem mem_placements_namedBody_iff {method : OpenMethod} {name : String} :
    name ∈ method.namedBody.placements ↔ .node (.label name) ∈ method.items.toList := by
  rw [Body.placements, namedBody, List.filterMap_filterMap, List.mem_filterMap]
  constructor
  · rintro ⟨item, hitem, hname⟩
    cases item with
    | node node => rwa [← Node.placed?_eq_some_iff.1 hname]
    | tryCatch entry => cases hname
  · exact fun h => ⟨_, h, rfl⟩

namespace Follows

variable {header line : Line} {lines : List Line} {method : OpenMethod} {name : String}

/-- What is checked at the end is the named body with the labels of its lines. -/
theorem finish_eq (h : method.Follows header lines) :
    method.finish = match (method.namedBody.mapLabel (labelOn lines)).check with
      | .error cause => .error (.malformedBody method.name cause)
      | .ok body => .ok body := by
  rw [← h.number_eq]
  exact OpenMethod.finish_eq method

/-- The labels that are placed are those of the lines. -/
theorem mem_placements_iff (h : method.Follows header lines) :
    name ∈ method.namedBody.placements ↔
      ∃ line ∈ lines, line.item? = some (.node (.label name)) := by
  rw [mem_placements_namedBody_iff, h.items, List.mem_filterMap]

/-- The names that are mentioned are those on the lines. -/
theorem mem_mentions_iff (h : method.Follows header lines) :
    name ∈ method.namedBody.mentions ↔ name ∈ lines.flatMap Line.mentions := by
  rw [mem_mentions_namedBody_iff, h.flatMap_mentions]

/-- Different names that are mentioned are different labels. -/
theorem labelOn_mem_placements_iff (h : method.Follows header lines)
    (hname : name ∈ method.namedBody.mentions) :
    labelOn lines name ∈ (method.namedBody.mapLabel (labelOn lines)).placements ↔
      name ∈ method.namedBody.placements := by
  rw [Body.placements_mapLabel, List.mem_map]
  constructor
  · rintro ⟨other, hother, heq⟩
    have hmention := Body.mem_mentions_of_mem_placements hother
    rwa [← renamesOn_labelOn lines other (h.mem_mentions_iff.1 hmention) name
      (h.mem_mentions_iff.1 hname) heq]
  · exact fun hplaced => ⟨name, hplaced, rfl⟩

/-- A label that a line places is not reported as placed nowhere. -/
theorem finish_ne_unplacedLabel (h : method.Follows header lines) (hline : line ∈ lines)
    (hitem : line.item? = some (.node (.label name))) (reported : String) :
    method.finish ≠ .error (.malformedBody reported (.unplacedLabel (labelOn lines name))) := by
  intro hfinish
  have hplaced := h.mem_placements_iff.2 ⟨line, hline, hitem⟩
  rw [h.finish_eq] at hfinish
  split at hfinish
  · next cause hcheck =>
    cases hfinish
    -- What is reported as placed nowhere is not among the placements.
    cases Body.check_eq_error_iff.1 hcheck with
    | unplacedLabel _ _ _ _ hlabel =>
      exact hlabel ((h.labelOn_mem_placements_iff
        (Body.mem_mentions_of_mem_placements hplaced)).2 hplaced)
  · cases hfinish

/-- A method is not read if it mentions a label that no line places. -/
theorem finish_ne_ok (h : method.Follows header lines) (hname : name ∈ method.namedBody.mentions)
    (hnone : name ∉ method.namedBody.placements) (body : Body Label) : method.finish ≠ .ok body := by
  intro hfinish
  rw [h.finish_eq] at hfinish
  split at hfinish
  · cases hfinish
  · next hcheck =>
    obtain ⟨-, -, -, hplaced⟩ := Body.check_eq_ok_iff.1 hcheck
    have hreferenced := (Body.mem_placements_or_references hname).resolve_left hnone
    refine hnone ((h.labelOn_mem_placements_iff hname).1 (hplaced _ ?_))
    rw [Body.references_mapLabel]
    exact List.mem_map_of_mem hreferenced

/-- If all others are placed once, this label is reported. -/
theorem finish_eq_unplacedLabel (h : method.Follows header lines)
    (hname : name ∈ method.namedBody.mentions) (hnone : name ∉ method.namedBody.placements)
    (honce : method.namedBody.placements.Nodup)
    (hothers : ∀ other ∈ method.namedBody.references,
      other = name ∨ other ∈ method.namedBody.placements) :
    method.finish =
      .error (.malformedBody method.name (.unplacedLabel (labelOn lines name))) := by
  have hreferenced := (Body.mem_placements_or_references hname).resolve_left hnone
  -- Whatever is referred to in front of the first reference to this label is placed.
  obtain ⟨front, back, hsplit, hfront⟩ := List.eq_append_cons_of_mem hreferenced
  have hreports : (method.namedBody.mapLabel (labelOn lines)).Reports
      (.unplacedLabel (labelOn lines name)) := by
    refine @Body.Reports.unplacedLabel _ (front.map (labelOn lines)) (back.map (labelOn lines)) _
      (fun node hnode => ?_) ?_ ?_ (fun label hlabel => ?_) ?_
    · obtain ⟨named, hnamed, rfl⟩ := Array.mem_map.1 hnode
      exact (Node.fits_mapLabel _ named).2 (h.fits hnamed).1
    · rw [Body.placements_mapLabel]
      refine honce.map_on fun a ha b hb => renamesOn_labelOn lines a ?_ b ?_
      · exact h.mem_mentions_iff.1 (Body.mem_mentions_of_mem_placements ha)
      · exact h.mem_mentions_iff.1 (Body.mem_mentions_of_mem_placements hb)
    · rw [Body.references_mapLabel, hsplit, List.map_append, List.map_cons]
    · obtain ⟨other, hother, rfl⟩ := List.mem_map.1 hlabel
      rw [Body.placements_mapLabel]
      refine List.mem_map_of_mem ((hothers other ?_).resolve_left ?_)
      · rw [hsplit]
        exact List.mem_append_left _ hother
      · rintro rfl
        exact hfront hother
    · rwa [h.labelOn_mem_placements_iff hname]
  rw [h.finish_eq, Body.check_eq_error_iff.2 hreports]

end Follows

/-- The node of a line stands behind as many nodes as there are such lines in front of it. -/
theorem getElem?_nodes_onLines {before after : List Line} {line : Line} {named : Node String}
    (h : ∀ line ∈ before, line.IsSound) (hitem : line.item? = some (.node named)) (number : Nat)
    (name desc : List Char) :
    (onLines number name desc (before ++ line :: after)).namedBody.nodes[
      (before.filter Line.isNode).length]? = some named := by
  have hlength := (forall₂_filter_lines (fun _ => Line.isNode_of_blank)
    (fun _ _ => Line.isNode_eq) h).length_eq
  rw [← Array.getElem?_toList, namedBody, onLines, hlength]
  simp [List.filterMap_cons_some hitem, Item.node?]

/-- No other node of a method that was read places the label. -/
theorem getElem?_eq_label_iff {before after : List Line} {header line : Line} {placed : String}
    {number : Nat} {name desc : List Char} {body : Body Label}
    (hfollows : (onLines number name desc (before ++ line :: after)).Follows header
      (before ++ line :: after))
    (hbefore : ∀ line ∈ before, line.IsSound) (hitem : line.item? = some (.node (.label placed)))
    (hfinish : (onLines number name desc (before ++ line :: after)).finish = .ok body)
    (position : Nat) :
    body.nodes[position]? = some (.label (labelOn (before ++ line :: after) placed)) ↔
      position = (before.filter Line.isNode).length := by
  obtain ⟨heq, hcheck⟩ := eq_of_finish hfinish
  obtain ⟨-, hwell⟩ := Body.check_eq_ok_iff_wellFormed.1 hcheck
  rw [hfollows.number_eq] at heq
  have hat : body.nodes[(before.filter Line.isNode).length]? =
      some (.label (labelOn (before ++ line :: after) placed)) := by
    rw [heq, Body.mapLabel, Array.getElem?_map, getElem?_nodes_onLines hbefore hitem]
    rfl
  exact ⟨fun hposition => Body.eq_of_placed hwell.placedOnce hposition hat,
    fun hposition => hposition ▸ hat⟩

end OpenMethod

/-- Between well-formed lines of a method, one that has nothing but a name and a colon adds one node
to the method, which places the label of the name, and the label is not reported as placed nowhere.
If the name is made of digits, the line adds nothing. Then a method that mentions the label is not
read unless another line places it, and the label is reported if the others are placed. -/
theorem readLines_placement {name : List Char} (hname : IsToken name) {placement : List Char}
    (hplacement : Line.Places name placement) {header close methodName desc : List Char}
    {front back : List (List Char)}
    (hheader : (Line.read header).words = [Keyword.openMethod, methodName, desc])
    (hclose : (Line.read close).words.head? = some Keyword.closeMethod)
    (hothers : ∀ text ∈ front ++ back, (Line.read text).IsSound) (number : Nat)
    (rest : List (List Char)) :
    let before := front.map Line.read
    let after := back.map Line.read
    let lines := before ++ Line.read placement :: after
    let method := OpenMethod.onLines number methodName desc lines
    let label := labelOn lines (String.ofList name)
    (readLines number none (header :: (front ++ placement :: back) ++ close :: rest) =
      match method.finish with
      | .error error => .error error
      | .ok body =>
        (readLines (number + (front.length + back.length + 3)) none rest).map (body :: ·)) ∧
    (name.all Char.isDigit = false →
      method.items.toList = before.filterMap Line.item? ++
        .node (.label (String.ofList name)) :: after.filterMap Line.item? ∧
      (∀ reported, method.finish ≠ .error (.malformedBody reported (.unplacedLabel label))) ∧
      ∀ body, method.finish = .ok body → ∀ position : Nat,
        body.nodes[position]? = some (.label label) ↔
          position = (before.filter Line.isNode).length) ∧
    (name.all Char.isDigit = true →
      method.items.toList = before.filterMap Line.item? ++ after.filterMap Line.item? ∧
      (String.ofList name ∈ method.namedBody.mentions →
        String.ofList name ∉ method.namedBody.placements →
        (∀ body, method.finish ≠ .ok body) ∧
        (method.namedBody.placements.Nodup →
          (∀ other ∈ method.namedBody.references,
            other = String.ofList name ∨ other ∈ method.namedBody.placements) →
          method.finish = .error (.malformedBody method.name (.unplacedLabel label))))) := by
  intro before after lines method label
  have hplaced : (Line.read placement).IsSound := by
    cases hdigits : name.all Char.isDigit with
    | false => exact .inr ⟨_, Line.item?_of_places hname hplacement hdigits⟩
    | true => exact .inl (Line.words_of_places_digits hname hplacement hdigits)
  obtain ⟨hfront, hback⟩ := List.forall_mem_append.1 hothers
  have hsound : ∀ text ∈ front ++ placement :: back, (Line.read text).IsSound :=
    List.forall_mem_append.2 ⟨hfront, List.forall_mem_cons.2 ⟨hplaced, hback⟩⟩
  -- The line is well formed like the others, so the method follows all of them.
  have hlines : (front ++ placement :: back).map Line.read = lines := List.map_append
  have hfollows : method.Follows (Line.read header) lines :=
    OpenMethod.follows_onLines hheader (hlines ▸ List.forall_mem_map.2 hsound) number
  have hbefore : ∀ line ∈ before, line.IsSound := List.forall_mem_map.2 hfront
  refine ⟨?_, fun hdigits => ?_, fun hdigits => ?_⟩
  · have hlength : number + (front ++ placement :: back).length + 2 =
        number + (front.length + back.length + 3) := by
      rw [List.length_append, List.length_cons]
      omega
    rw [readLines_method hheader hclose hsound, hlines, hlength]
  · have hitem := Line.item?_of_places hname hplacement hdigits
    have hmem : Line.read placement ∈ lines := List.mem_append_right _ List.mem_cons_self
    refine ⟨?_, hfollows.finish_ne_unplacedLabel hmem hitem, fun body hfinish =>
      OpenMethod.getElem?_eq_label_iff hfollows hbefore hitem hfinish⟩
    rw [hfollows.items, List.filterMap_append, List.filterMap_cons_some hitem]
  · have hwords := Line.words_of_places_digits hname hplacement hdigits
    have hnone : (Line.read placement).item? = none := by rw [Line.item?, hwords]
    refine ⟨?_, fun hmentioned hnowhere => ⟨hfollows.finish_ne_ok hmentioned hnowhere,
      hfollows.finish_eq_unplacedLabel hmentioned hnowhere⟩⟩
    rw [hfollows.items, List.filterMap_append, List.filterMap_cons_none hnone]

/-- A name that only starts with a digit places its label. -/
theorem readLines_placement_suffixed :
    let before := [Line.read "LINENUMBER 3 5a".toList]
    let after := [Line.read "TRYCATCHBLOCK 5a 5a 5a null".toList]
    let lines := before ++ Line.read " 5a: // loop".toList :: after
    let method := OpenMethod.onLines 1 "m".toList "()V".toList lines
    Line.Places ['5', 'a'] " 5a: // loop".toList ∧
      readLines 1 none ["method m ()V".toList, "LINENUMBER 3 5a".toList, " 5a: // loop".toList,
        "TRYCATCHBLOCK 5a 5a 5a null".toList, "end".toList] =
          .ok [⟨"m", "()V", #[.line 3 ⟨0⟩, .label ⟨0⟩], [⟨⟨0⟩, ⟨0⟩, ⟨0⟩, none⟩]⟩] ∧
      ∀ reported, method.finish ≠ .error (.malformedBody reported
        (.unplacedLabel (labelOn lines (String.ofList ['5', 'a'])))) := by
  have hname : IsToken ['5', 'a'] := by decide
  have hplacement : Line.Places ['5', 'a'] " 5a: // loop".toList :=
    ⟨[' '], " // loop".toList, rfl, List.forall_mem_singleton.2 (by decide), by decide,
      by decide +kernel⟩
  have hmarker : (Line.read "LINENUMBER 3 5a".toList).IsSound :=
    .inr ⟨.node (.line 3 "5a"), by decide +kernel⟩
  have hentry : (Line.read "TRYCATCHBLOCK 5a 5a 5a null".toList).IsSound :=
    .inr ⟨.tryCatch ⟨"5a", "5a", "5a", none⟩, by decide +kernel⟩
  have hothers : ∀ text ∈ ["LINENUMBER 3 5a".toList] ++ ["TRYCATCHBLOCK 5a 5a 5a null".toList],
      (Line.read text).IsSound := by
    rw [List.forall_mem_append, List.forall_mem_singleton, List.forall_mem_singleton]
    exact ⟨hmarker, hentry⟩
  obtain ⟨-, hletters, -⟩ := @readLines_placement _ hname _ hplacement "method m ()V".toList
    "end".toList "m".toList "()V".toList _ _ (by decide +kernel) (by decide +kernel) hothers 1 []
  exact ⟨hplacement, by decide +kernel, (hletters (by decide)).2.1⟩

/-- A label that a line places is reported as placed nowhere, since its name is made of digits. -/
theorem readListing_placement_digits :
    IsToken ['5'] ∧ Line.Places ['5'] "5:".toList ∧
      (Line.read "5:".toList).item? = none ∧
      (Line.read "GOTO 5".toList).item? = some (.node (.jump .goto (String.ofList ['5']))) ∧
      readListing "method m ()V\nGOTO 5\n5:\nend\n" =
        .error (.malformedBody "m" (.unplacedLabel ⟨0⟩)) :=
  ⟨by decide, ⟨[], [], rfl, List.forall_mem_nil _, rfl, rfl⟩, by decide +kernel,
    by decide +kernel, by decide +kernel⟩

end CleanupFilter
