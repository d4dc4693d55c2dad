import ScriptLint.Diagnostic.Json
import ScriptLint.Diagnostic.Summary
import ScriptLint.Json.Layout

/-!
# Reports

A report lists the diagnostics of one input.  The text form has one line for each diagnostic, with lines and
columns counted from one, and a last line with the totals; the JSON form has all that a diagnostic holds.
-/

namespace ScriptLint

structure Report where
  path : String
  diagnostics : List Diagnostic
  deriving DecidableEq

/-- The forms in which reports are written. -/
inductive Format where
  | text | json
  deriving DecidableEq

namespace Format

def all : List Format := [.text, .json]

def name : Format → String
  | text => "text"
  | json => "json"

def ofName? (s : String) : Option Format := all.find? fun f => f.name == s

end Format

namespace Report

def summary (r : Report) : Summary := .ofDiagnostics r.diagnostics

def toJson (r : Report) : Json :=
  .object [("path", .string r.path), ("diagnostics", .array (r.diagnostics.map Diagnostic.toJson))]

/-- The totals of several reports. -/
def totals (reports : List Report) : Summary :=
  reports.foldl (fun t r => ⟨t.errors + r.summary.errors, t.warnings + r.summary.warnings⟩) {}

/-- The line of one diagnostic, without its line feed. -/
def diagnosticLine (path : String) (d : Diagnostic) : String :=
  path ++ ":" ++ Nat.repr (d.span.start.line + 1) ++ ":" ++ Nat.repr (d.span.start.column + 1) ++ ": " ++
    d.severity.name ++ "[" ++ d.code.name ++ "]: " ++ d.message

/-- The last line of a text report, without its line feed. -/
def totalsLine (reports : List Report) : String :=
  Nat.repr reports.length ++ " file" ++ pluralEnding reports.length ++ " checked: " ++ (totals reports).describe

/-- The lines of a text report. -/
def textLines (reports : List Report) : List String :=
  reports.flatMap (fun r => r.diagnostics.map (diagnosticLine r.path)) ++ [totalsLine reports]

def textForm (reports : List Report) : String :=
  String.join ((textLines reports).map (· ++ "\n"))

def jsonForm (reports : List Report) : String :=
  String.ofList ((Json.array (reports.map toJson)).layout 0 ++ ['\n'])

def write : Format → List Report → String
  | .text => textForm
  | .json => jsonForm

/-- Do the reports count as a failure?  Errors do, and warnings if they are denied. -/
def isFailure (reports : List Report) (denyWarnings : Bool) : Bool :=
  let t := totals reports
  0 < t.errors || (denyWarnings && 0 < t.warnings)

end Report

end ScriptLint
