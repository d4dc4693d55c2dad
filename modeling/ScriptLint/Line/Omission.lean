import ScriptLint.Config.Rules
import ScriptLint.Diagnostic.Basic

/-!
# Omissions

Things that a single line lacks: the end of a parameter list, a `then`, a `do`.  The test is by occurrence of the
pieces anywhere in the trimmed line, in strings and longer words too.
-/

namespace ScriptLint

/-- A line as the omission tests see it. -/
structure LineView where
  number : Nat
  text : Text
  trimmed : Text
  isComment : Bool
  deriving DecidableEq

namespace LineView

/-- The whole line. -/
def whole (v : LineView) : Span := Span.inLine v.number 0 v.text.length

/-- The column of the first `(`, counted in the text with its indentation. -/
def parenColumn (v : LineView) : Nat :=
  v.text.indentation + (v.trimmed.takeWhile (· != '(')).length

/-- A `function` with a `(` and no `)`.  Comment lines are not spared. -/
def lacksParameterEnd (v : LineView) : Bool :=
  v.trimmed.includes "function".toList && !v.trimmed.contains ')' && v.trimmed.contains '('

/-- An `if` with no `then`. -/
def lacksThen (v : LineView) : Bool :=
  !v.isComment && v.trimmed.includes "if ".toList && !v.trimmed.includes "then".toList

/-- A `for` or `while` with no `do`. -/
def lacksDo (v : LineView) : Bool :=
  !v.isComment && (v.trimmed.includes "for ".toList || v.trimmed.includes "while ".toList) &&
    !v.trimmed.includes "do".toList

/-- The omissions of a line, under the rules that are switched on. -/
def omissions (v : LineView) (rules : Rules) : List Diagnostic :=
  (if rules.wantsParameterEnd && v.lacksParameterEnd then
    [Finding.unclosedParameterList.report (Span.inLine v.number v.parenColumn v.text.length)] else []) ++
  (if rules.wantsThen && v.lacksThen then [Finding.missingThen.report v.whole] else []) ++
  (if rules.wantsDo && v.lacksDo then [Finding.missingDo.report v.whole] else [])

end LineView

end ScriptLint
