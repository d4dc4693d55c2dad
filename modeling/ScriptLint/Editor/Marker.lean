import ScriptLint.Diagnostic.Basic
import ScriptLint.Editor.LineTable

/-!
# Markers

A marker is a diagnostic as an editor draws it: a stretch of characters in the style of its severity.
-/

namespace ScriptLint

structure Marker where
  start : Nat
  stop : Nat
  style : Nat
  /-- The place of the diagnostic in its list. -/
  diagnostic : Nat
  deriving DecidableEq

/-- The number of the drawing style of a severity. -/
def Severity.style : Severity → Nat
  | error => 0x05000001
  | warning => 0x05000002

namespace Marker

/-- The marker of one diagnostic.  A span that ends before it starts marks nothing, at its start. -/
def ofDiagnostic (x : LineTable) (place : Nat) (d : Diagnostic) : Marker :=
  let start := x.offsetOf d.span.start
  ⟨start, max start (x.offsetOf d.span.stop), d.severity.style, place⟩

/-- The markers of a list of diagnostics, in order. -/
def ofDiagnostics (x : LineTable) (ds : List Diagnostic) : List Marker :=
  ds.mapIdx (ofDiagnostic x)

end Marker

end ScriptLint
