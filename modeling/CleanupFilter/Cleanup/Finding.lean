import CleanupFilter.Cleanup.ResourceShape
import CleanupFilter.Cleanup.MonitorRelease

/-!
# What a coverage engine should not count

Cleanup code is found in two passes, one for resources and one for monitors. Every finding covers
the nodes from its first to its last one.

- `FilterConfig`: which passes run.
- `Finding`: a stretch of cleanup code and what it cleans up.
- `Body.findings`: the findings of a body, resources first.
- `Body.ignored`: the positions that the findings cover, in the order in which they are reported.
- `Body.log`: the log records that go with the findings.
-/

namespace CleanupFilter

/-- Which kinds of cleanup code are looked for. -/
structure FilterConfig where
  /-- Cleanup of resources. -/
  resources : Bool := true
  /-- Release of monitors. -/
  monitors : Bool := true
  deriving DecidableEq, Repr

/-- What a stretch of cleanup code cleans up, and in which shape. -/
inductive Cleanup
  | resources (shape : ResourceShape)
  | monitor (shape : MonitorShape)
  deriving DecidableEq, Repr

/-- A stretch of cleanup code. -/
structure Finding where
  /-- What is cleaned up. -/
  cleanup : Cleanup
  /-- The position of the first node. -/
  first : Nat
  /-- The position of the last node. -/
  last : Nat
  deriving DecidableEq, Repr

/-- How much detail a log record gives. -/
inductive LogLevel
  | debug
  | trace
  deriving DecidableEq, Repr

namespace LogLevel

/-- The name of the level in front of a record. -/
def name : LogLevel → String
  | debug => "DEBUG"
  | trace => "TRACE"

end LogLevel

/-- A log record. -/
structure LogRecord where
  /-- How much detail the record gives. -/
  level : LogLevel
  /-- What happened. -/
  text : String
  deriving DecidableEq, Repr

/-- The text of an inclusive range of positions. -/
def rangeText (first last : Nat) : String :=
  first.repr ++ "..=" ++ last.repr

namespace Finding

/-- How the finding was made. -/
def recognition (finding : Finding) : String :=
  match finding.cleanup with
  | .resources shape => shape.name ++ " cleanup at " ++ rangeText finding.first finding.last
  | .monitor shape => shape.name ++ " monitor release at handler " ++ finding.first.repr

/-- The records of a finding in the method with the given name and descriptor. -/
def log (name desc : String) (finding : Finding) : List LogRecord :=
  [⟨.trace, finding.recognition⟩,
    ⟨.debug, name ++ desc ++ ": ignoring " ++ rangeText finding.first finding.last⟩]

end Finding

namespace Body

/-- The resource cleanups of a body, by position. -/
def resourceFindings (body : Body Label) : List Finding :=
  (Code.positions body.nodes).filterMap fun first =>
    (resourceCleanup? body.nodes first).map fun (shape, last) =>
      { cleanup := .resources shape, first, last }

/-- The monitor releases of a body, in the order of the exception table. Each starts with the label
of its handler. -/
def monitorFindings (body : Body Label) : List Finding :=
  body.tryCatches.filterMap fun entry =>
    (entry.handlerPosition? body.nodes).bind fun first =>
      (monitorRelease? body.nodes entry).map fun (shape, last) =>
        { cleanup := .monitor shape, first, last }

/-- The cleanup code of a body. -/
def findings (config : FilterConfig) (body : Body Label) : List Finding :=
  (if config.resources then body.resourceFindings else []) ++
    (if config.monitors then body.monitorFindings else [])

/-- The positions that the findings cover, finding by finding. -/
def ignored (config : FilterConfig) (body : Body Label) : List Nat :=
  (body.findings config).flatMap fun finding =>
    Code.span body.nodes finding.first finding.last

/-- The log records of the search for cleanup code. -/
def log (config : FilterConfig) (body : Body Label) : List LogRecord :=
  (body.findings config).flatMap (Finding.log body.name body.desc)

end Body

end CleanupFilter
