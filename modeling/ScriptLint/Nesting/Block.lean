import ScriptLint.Nesting.Stack

/-!
# Block nesting

Blocks are opened by the keywords of a line and closed by a line that is `end` or `until` and nothing else.  The
word `end` closes the innermost block of any kind, `until` only a `repeat`.
-/

namespace ScriptLint

/-- An open block and the line that opened it. -/
structure OpenBlock where
  keyword : Keyword
  line : Nat
  deriving DecidableEq

instance : Opened OpenBlock where
  unclosed b width := (Finding.unclosedBlock b.keyword).report (Span.inLine b.line 0 width)

/-- The blocks that are open, innermost first. -/
abbrev BlockStack := OpenStack OpenBlock

namespace BlockStack

/-- Opens a block for each keyword, in order. -/
def openAll (s : BlockStack) (line : Nat) (keywords : List Keyword) : BlockStack :=
  keywords.foldl (fun s k => s.push ⟨k, line⟩) s

theorem items_openAll (s : BlockStack) (line : Nat) (keywords : List Keyword) :
    (s.openAll line keywords).items = (keywords.map fun k => ⟨k, line⟩).reverse ++ s.items := by
  unfold openAll
  induction keywords generalizing s with
  | nil => rfl
  | cons k rest ih => simp [ih]

/-- Closes what a line with the text `trimmed` closes, and reports a closing word that has nothing to close. -/
def close (s : BlockStack) (line length : Nat) (trimmed : Text) : BlockStack × Option Diagnostic :=
  if trimmed = "end".toList then
    if s.isEmpty then (s, some (Finding.unexpectedEnd.report (Span.inLine line 0 length))) else (s.pop, none)
  else if trimmed = "until".toList then
    if s.top?.any fun b => b.keyword == .repeatUntil then (s.pop, none)
    else (s, some (Finding.unmatchedUntil.report (Span.inLine line 0 length)))
  else (s, none)

/-- Reads one line.  A comment line opens nothing. -/
def readLine (s : BlockStack) (line length : Nat) (trimmed : Text) (isComment : Bool) :
    BlockStack × Option Diagnostic :=
  (s.openAll line (if isComment then [] else Keyword.allIn trimmed)).close line length trimmed

end BlockStack

end ScriptLint
