/-!
# Rules

Which omissions are looked for, and how wide the mark of an unclosed block is.
-/

namespace ScriptLint

structure Rules where
  /-- Look for parameter lists that are not closed. -/
  wantsParameterEnd : Bool := true
  /-- Look for an `if` without `then`. -/
  wantsThen : Bool := true
  /-- Look for a loop without `do`. -/
  wantsDo : Bool := true
  /-- How many columns of its first line an unclosed block marks. -/
  blockWidth : Nat := 10
  deriving DecidableEq

end ScriptLint
