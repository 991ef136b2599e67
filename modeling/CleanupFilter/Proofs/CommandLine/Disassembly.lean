import CleanupFilter.CommandLine.Execute
import CleanupFilter.Proofs.Cleanup.Renaming
import CleanupFilter.Proofs.Listing.Accepted
import CleanupFilter.Yaml.Report

/-!
# Listings that were disassembled

What `disasm` prints below its first line is a listing again. It holds the same methods with their
labels numbered by first mention, and `filter` reports the same of it.

- `disassembly`: the printed methods.
- `readListing_disassembly`: the methods that they read as.
- `MethodReport.ofBody_canonical`: reports do not depend on how labels are numbered.
- `outcome_disassembly`: both commands on a listing and on its disassembly.
-/

namespace CleanupFilter

/-! ### Printed methods -/

/-- The printed methods of a listing, with an empty line in front and behind each method. -/
def disassembly (bodies : List (Body Label)) : String :=
  "\n" ++ String.join (bodies.map fun body => body.indexedListing ++ "\n")

/-- The lines of a printed method, with an empty one behind them. -/
def Body.disassemblyLines (body : Body Label) : List (List Char) :=
  body.withLabelNames.lines indexColumn (List.replicate 6 ' ') ++ [[]]

/-- What stands in front of an exception table entry where positions are printed. -/
theorem isMargin_indexedEntry : IsMargin (List.replicate 6 ' ' ++ List.replicate 4 ' ') :=
  isMargin_replicate 10

/-- A disassembly is a header line and the lines of its methods. -/
theorem toList_disassembly (bodies : List (Body Label)) :
    (disassembly bodies).toList =
      ([] :: bodies.flatMap Body.disassemblyLines).flatMap (· ++ ['\n']) := by
  have hbody : ∀ body : Body Label, (body.indexedListing ++ "\n").toList =
      body.disassemblyLines.flatMap (· ++ ['\n']) := by
    intro body
    rw [Body.disassemblyLines, Body.indexedListing, String.toList_append, String.toList_ofList,
      List.flatMap_append]
    rfl
  rw [disassembly, String.toList_append, String.toList_join, List.flatMap_map,
    List.flatMap_cons, List.flatMap_assoc]
  simp only [hbody]
  rfl

/-- An empty line says nothing. -/
theorem readLines_nil_cons (number : Nat) (opened : Option OpenMethod) (rest : List (List Char)) :
    readLines number opened ([] :: rest) = readLines (number + 1) opened rest := by
  rw [readLines_cons (rfl : readLine number opened (Line.read []) = .ok (opened, none))]
  cases readLines (number + 1) opened rest <;> rfl

variable {bodies : List (Body Label)}

/-- Printed methods are read one by one. -/
theorem readLines_disassembly
    (h : ∀ body ∈ bodies, body.IsBuilt ∧ body.Writable ∧
      ∀ entry ∈ body.tryCatches, ¬ entry.Commented) (number : Nat) :
    readLines number none (bodies.flatMap Body.disassemblyLines) =
      .ok (bodies.map Body.canonical) := by
  induction bodies generalizing number with
  | nil => rfl
  | cons body rest ih =>
    obtain ⟨⟨hbuilt, hwritable, hcommented⟩, hrest⟩ := List.forall_mem_cons.1 h
    -- The lines of the first method are read as the method, and the empty one says nothing.
    rw [List.flatMap_cons, Body.disassemblyLines, List.append_assoc,
      Body.readLines_lines hbuilt hwritable hcommented isMargin_indexColumn isMargin_indexedEntry,
      List.singleton_append, readLines_nil_cons, ih hrest]
    rfl

/-- What is printed reads as the methods with canonical labels. -/
theorem readListing_disassembly
    (h : ∀ body ∈ bodies, body.IsBuilt ∧ body.Writable ∧
      ∀ entry ∈ body.tryCatches, ¬ entry.Commented) :
    readListing (disassembly bodies) = .ok (bodies.map Body.canonical) := by
  have hbetween : ∀ line ∈ [] :: bodies.flatMap Body.disassemblyLines,
      '\n' ∉ line ∧ line.getLast? ≠ some '\r' := by
    -- The header is empty, and the others are lines of methods.
    intro line hline
    rcases List.mem_cons.1 hline with rfl | hline
    · decide
    obtain ⟨body, hbody, hline⟩ := List.mem_flatMap.1 hline
    obtain ⟨hbuilt, hwritable, -⟩ := h body hbody
    rcases List.mem_append.1 hline with hline | hline
    · exact Body.between_of_mem_lines hbuilt hwritable isMargin_indexColumn isMargin_indexedEntry
        line hline
    · rw [List.mem_singleton.1 hline]
      decide
  rw [readListing, toList_disassembly, Line.split_flatMap hbetween, readLines_nil_cons,
    readLines_disassembly h]

/-! ### Commands -/

/-- The report on a method does not depend on how its labels are numbered. -/
theorem MethodReport.ofBody_canonical (config : FilterConfig) (body : Body Label) :
    ofBody config body.canonical = ofBody config body := by
  rw [ofBody, ofBody, Body.canonical, Body.ignored_mapLabel config body.renamesOn_rank]
  rfl

namespace Command

variable (render : Renderer)

/-- What `filter` prints does not depend on how labels are numbered, or on the path. -/
theorem output_filter_canonical (first second : String) (format : ReportFormat)
    (config : FilterConfig) (bodies : List (Body Label)) :
    (filter first format config).output render (bodies.map Body.canonical) =
      (filter second format config).output render bodies := by
  cases format with
  | text => simp only [output, List.map_map, Function.comp_def, MethodReport.ofBody_canonical]
  | yaml => simp only [output, List.map_map, Function.comp_def, MethodReport.ofBody_canonical]

/-- The outcome for a listing that can be read is what is printed of its methods. -/
theorem outcome_toUTF8 {source : String} (h : readListing source = .ok bodies)
    (command : Command) :
    command.outcome render (.ok source.toUTF8) = .ofResult (command.output render bodies) := by
  have hdecode : String.fromUTF8? source.toUTF8 = some source := dif_pos source.isValidUTF8
  simp only [outcome, load, hdecode, h]

/-- If no label name of a listing holds a quote, then below its first line `disasm` prints the same
methods, and `filter` does the same with what is printed there, whatever renderer it has. -/
theorem outcome_disassembly {source : String} (h : readListing source = .ok bodies)
    (hquotes : ∀ name ∈ labelNames source, '"' ∉ name.toList) :
    (∀ path, (disasm path).outcome render (.ok source.toUTF8) =
      { exitCode := 0
        output := "# " ++ path ++ " (" ++ bodies.length.repr ++ " methods)\n" ++
          disassembly bodies }) ∧
      readListing (disassembly bodies) = .ok (bodies.map Body.canonical) ∧
      ∀ first second format config,
        (filter first format config).outcome render (.ok (disassembly bodies).toUTF8) =
          (filter second format config).outcome render (.ok source.toUTF8) := by
  have hread : readListing (disassembly bodies) = .ok (bodies.map Body.canonical) := by
    -- Everything that was read can be written, and no type is taken for a comment.
    refine readListing_disassembly fun body hbody => ?_
    obtain ⟨hbuilt, hwritable⟩ := isBuilt_and_writable_of_mem h hbody
    exact ⟨hbuilt, hwritable, not_commented_of_mem h hquotes hbody⟩
  refine ⟨fun path => ?_, hread, fun first second format config => ?_⟩
  · -- The first line ends before the empty one.
    have hheader : " methods)\n\n" = " methods)\n" ++ "\n" := by decide
    simp only [outcome_toUTF8 render h, output, Outcome.ofResult, disassembly, hheader,
      String.append_assoc]
  · rw [outcome_toUTF8 render hread, outcome_toUTF8 render h,
      output_filter_canonical render first second]

/-- Two methods, the first of which releases a monitor in its handler. -/
def twoMethodLines : List (List Char) :=
  ["method run ()V // guarded", "  TRYCATCHBLOCK from to free null", "free:", "  5: aload 1",
    "  MONITOREXIT", "  ATHROW", "from:", "  LDC \"// held\"", "to:", "end", "", "method idle ()V",
    "end"].map String.toList

/-- The listing with these lines. -/
def twoMethods : String :=
  String.ofList (twoMethodLines.flatMap (· ++ ['\n']))

/-- The methods of `twoMethods`, with labels numbered as their names come up. -/
def twoBodies : List (Body Label) :=
  [{ name := "run"
     desc := "()V"
     nodes := #[.label ⟨2⟩, .var .aload 1, .plain .monitorExit, .plain .athrow, .label ⟨0⟩,
      .ldc ⟨0x12⟩ "\"// held\"", .label ⟨1⟩]
     tryCatches := [⟨⟨0⟩, ⟨1⟩, ⟨2⟩, none⟩] },
   { name := "idle", desc := "()V", nodes := #[], tryCatches := [] }]

/-- Both formats of the report of the disassembly of `twoMethods`, and the outcome if its reports
cannot be rendered. -/
theorem outcome_disassembly_twoMethods :
    readListing twoMethods = .ok twoBodies ∧
      (∀ name ∈ labelNames twoMethods, '"' ∉ name.toList) ∧
      readListing (disassembly twoBodies) = .ok (twoBodies.map Body.canonical) ∧
      (filter "in" .text {}).outcome yamlRenderer (.ok (disassembly twoBodies).toUTF8) =
        { exitCode := 0, output := "run()V: 0..=3\nidle()V: -\n" } ∧
      (filter "in" .yaml {}).outcome yamlRenderer (.ok (disassembly twoBodies).toUTF8) =
        { exitCode := 0
          output := "- name: run\n  desc: ()V\n  ignored:\n  - from: 0\n    to: 3\n" ++
            "- name: idle\n  desc: ()V\n  ignored: []\n" } ∧
      (filter "in" .yaml {}).outcome (fun _ => .error "no memory")
          (.ok (disassembly twoBodies).toUTF8) =
        { exitCode := 1, errors := "Error: no memory\n" } := by
  have hsplit : Line.split twoMethods.toList = twoMethodLines := by
    rw [twoMethods, String.toList_ofList, Line.split_flatMap (by decide +kernel)]
  have hread : readListing twoMethods = .ok twoBodies := by
    rw [readListing, hsplit]
    decide +kernel
  have hquotes : ∀ name ∈ labelNames twoMethods, '"' ∉ name.toList := by
    rw [labelNames, hsplit]
    decide +kernel
  obtain ⟨-, hdisassembly, hfilter⟩ := outcome_disassembly yamlRenderer hread hquotes
  obtain ⟨-, -, hrefused⟩ := outcome_disassembly (fun _ => .error "no memory") hread hquotes
  refine ⟨hread, hquotes, hdisassembly, ?_, ?_, ?_⟩
  · rw [hfilter "in" "in", outcome_toUTF8 _ hread]
    exact congrArg (Outcome.mk 0 · "") (by decide +kernel)
  · rw [hfilter "in" "in", outcome_toUTF8 _ hread]
    exact congrArg (Outcome.mk 0 · "") (by decide +kernel)
  · rw [hrefused "in" "in", outcome_toUTF8 _ hread]
    rfl

end Command

end CleanupFilter
