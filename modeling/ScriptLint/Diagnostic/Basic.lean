import ScriptLint.Keyword
import ScriptLint.Text.Position

/-!
# Diagnostics

A finding is what the linter has found: it fixes the code, the severity and the message.  A diagnostic is a finding
put into words, together with the part of the text that it is about.
-/

namespace ScriptLint

inductive Severity where
  | error | warning
  deriving DecidableEq

def Severity.name : Severity → String
  | error => "error"
  | warning => "warning"

def Severity.all : List Severity := [.error, .warning]

/-- The kinds of diagnostics. -/
inductive Code where
  | unexpectedClosingBracket | mismatchedBrackets | unclosedBracket
  | unexpectedEnd | unmatchedUntil | unclosedBlock
  | unclosedParameterList | missingThen | missingDo
  deriving DecidableEq

def Code.name : Code → String
  | unexpectedClosingBracket => "unexpected-closing-bracket"
  | mismatchedBrackets => "mismatched-brackets"
  | unclosedBracket => "unclosed-bracket"
  | unexpectedEnd => "unexpected-end"
  | unmatchedUntil => "unmatched-until"
  | unclosedBlock => "unclosed-block"
  | unclosedParameterList => "unclosed-parameter-list"
  | missingThen => "missing-then"
  | missingDo => "missing-do"

def Code.all : List Code :=
  [.unexpectedClosingBracket, .mismatchedBrackets, .unclosedBracket, .unexpectedEnd, .unmatchedUntil,
   .unclosedBlock, .unclosedParameterList, .missingThen, .missingDo]

structure Diagnostic where
  span : Span
  severity : Severity
  code : Code
  message : String
  deriving DecidableEq

namespace Diagnostic

/-- Where the diagnostic starts. -/
def start (d : Diagnostic) : Position := d.span.start

def isError (d : Diagnostic) : Bool := d.severity == .error

end Diagnostic

/-- What the linter can find. -/
inductive Finding where
  /-- A closer with no open bracket. -/
  | unexpectedCloser (found : Char)
  /-- A closer other than the one that the innermost open bracket asks for. -/
  | mismatchedCloser (expected found : Char)
  | unclosedBracket (opener : Char)
  | unexpectedEnd
  | unmatchedUntil
  | unclosedBlock (keyword : Keyword)
  | unclosedParameterList
  | missingThen
  | missingDo
  deriving DecidableEq

namespace Finding

def code : Finding → Code
  | unexpectedCloser _ => .unexpectedClosingBracket
  | mismatchedCloser _ _ => .mismatchedBrackets
  | unclosedBracket _ => .unclosedBracket
  | unexpectedEnd => .unexpectedEnd
  | unmatchedUntil => .unmatchedUntil
  | unclosedBlock _ => .unclosedBlock
  | unclosedParameterList => .unclosedParameterList
  | missingThen => .missingThen
  | missingDo => .missingDo

/-- A missing word is a warning, every other finding an error. -/
def severity : Finding → Severity
  | missingThen | missingDo => .warning
  | _ => .error

def message : Finding → String
  | unexpectedCloser c => "Unexpected closing '" ++ c.toString ++ "'"
  | mismatchedCloser e c =>
    "Mismatched brackets: expected '" ++ e.toString ++ "' but found '" ++ c.toString ++ "'"
  | unclosedBracket c => "Unclosed '" ++ c.toString ++ "'"
  | unexpectedEnd => "Unexpected 'end' - no matching block statement"
  | unmatchedUntil => "'until' without matching 'repeat'"
  | unclosedBlock k => "Unclosed '" ++ k.word ++ "' block - missing '" ++ k.closingWord ++ "'"
  | unclosedParameterList => "Unclosed function parameter list"
  | missingThen => "Missing 'then' after 'if' statement"
  | missingDo => "Missing 'do' after loop statement"

/-- The diagnostic of a finding at a place. -/
def report (f : Finding) (span : Span) : Diagnostic := ⟨span, f.severity, f.code, f.message⟩

end Finding

end ScriptLint
