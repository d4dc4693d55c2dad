import ScriptLint.Diagnostic.Basic
import ScriptLint.Json.Basic

/-!
# Diagnostics as JSON

Every field of a position, a span and a diagnostic is written, and every one has to be there to be read.
-/

namespace ScriptLint

def Position.toJson (p : Position) : Json :=
  .object [("line", .natural p.line), ("column", .natural p.column)]

def Position.ofJson? (j : Json) : Option Position := do
  let fields ← j.fields? ["line", "column"]
  return ⟨← Json.field? fields "line" Json.word?, ← Json.field? fields "column" Json.word?⟩

def Span.toJson (s : Span) : Json := .object [("from", s.start.toJson), ("to", s.stop.toJson)]

def Span.ofJson? (j : Json) : Option Span := do
  let fields ← j.fields? ["from", "to"]
  return ⟨← Json.field? fields "from" Position.ofJson?, ← Json.field? fields "to" Position.ofJson?⟩

def Severity.toJson (s : Severity) : Json := .string s.name

def Severity.ofJson? (j : Json) : Option Severity := j.named? Severity.name Severity.all

def Code.toJson (c : Code) : Json := .string c.name

def Code.ofJson? (j : Json) : Option Code := j.named? Code.name Code.all

namespace Diagnostic

def toJson (d : Diagnostic) : Json :=
  .object [("range", d.span.toJson), ("severity", d.severity.toJson), ("code", d.code.toJson),
    ("message", .string d.message)]

def ofJson? (j : Json) : Option Diagnostic := do
  let fields ← j.fields? ["range", "severity", "code", "message"]
  return {
    span := ← Json.field? fields "range" Span.ofJson?
    severity := ← Json.field? fields "severity" Severity.ofJson?
    code := ← Json.field? fields "code" Code.ofJson?
    message := ← Json.field? fields "message" Json.string? }

end Diagnostic

end ScriptLint
