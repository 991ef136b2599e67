import CleanupFilter.CommandLine.Execute
import CleanupFilter.Yaml.Scalar

/-!
# Reports in YAML

The renderer that the program comes with. What the program prints is otherwise stated for any
renderer.

- `MethodReport.yaml`: a report as an item of a list.
- `MethodReport.yamlDocument`: reports as a document.
- `yamlRenderer`: the renderer, which never refuses.
-/

namespace CleanupFilter

namespace MethodReport

/-- The report as an item of a YAML list. -/
def yaml (report : MethodReport) : String :=
  let spans := match report.ignored with
    | [] => " []\n"
    | spans =>
      "\n" ++ String.join (spans.map fun span =>
        "  - from: " ++ span.first.toNat.repr ++ "\n    to: " ++ span.last.toNat.repr ++ "\n")
  "- name: " ++ String.ofList (Yaml.scalar report.name.toList) ++ "\n  desc: " ++
    String.ofList (Yaml.scalar report.desc.toList) ++ "\n  ignored:" ++ spans

/-- Reports as a YAML document. -/
def yamlDocument : List MethodReport → String
  | [] => "[]\n"
  | reports => String.join (reports.map yaml)

end MethodReport

/-- Reports as a YAML document, which every list of reports has. -/
def yamlRenderer : Renderer :=
  fun reports => .ok (MethodReport.yamlDocument reports)

end CleanupFilter
