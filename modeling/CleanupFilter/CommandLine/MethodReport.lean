import CleanupFilter.Cleanup.IgnoredSet
import CleanupFilter.Cleanup.Finding

/-!
# Reports

A report names a method and the spans of its code that are ignored.

- `MethodReport.ofBody`: the report of a body.
- `MethodReport.text`: the report on a line.
-/

namespace CleanupFilter

/-- What is ignored in a method. -/
structure MethodReport where
  /-- The name of the method. -/
  name : String
  /-- The descriptor of the method. -/
  desc : String
  /-- The ignored positions as maximal runs. -/
  ignored : List Span
  deriving DecidableEq, Repr

namespace MethodReport

/-- The report of a body. -/
def ofBody (config : FilterConfig) (body : Body Label) : MethodReport where
  name := body.name
  desc := body.desc
  ignored := (IgnoredSet.ofList ((body.ignored config).map Nat.toUInt32)).spans

/-- The report on a line, with a dash for no span at all. -/
def text (report : MethodReport) : String :=
  let spans := match report.ignored with
    | [] => "-"
    | spans => ", ".intercalate (spans.map fun span => rangeText span.first.toNat span.last.toNat)
  report.name ++ report.desc ++ ": " ++ spans ++ "\n"

end MethodReport

end CleanupFilter
