import ScriptLint.Language.Basic
import ScriptLint.Nesting.Stack

/-!
# Bracket nesting

Brackets are matched by a stack of the open ones.  A closer always takes the innermost open bracket with it, also
when it is not the closer that this bracket asks for.

The columns of a text that is held in memory are smaller than the largest word, and the linter reads such texts
(`read`, `readAll`).  A stack that is used by itself is given any positions (`read?`, `report?`): then the column
behind a bracket may not fit into a word.  It is computed for every closer, and for the brackets that are open at
the end.
-/

namespace ScriptLint

/-- An open bracket, and the closer that it asks for. -/
structure OpenBracket where
  opener : Char
  closer : Char
  position : Position
  deriving DecidableEq

instance : Opened OpenBracket where
  unclosed b _ := (Finding.unclosedBracket b.opener).report b.position.cell

/-- The brackets that are open, innermost first. -/
abbrev BracketStack := OpenStack OpenBracket

namespace BracketStack

/-- Reads a closer, whose column is the given span. -/
def close (s : BracketStack) (c : Char) (cell : Span) : BracketStack × Option Diagnostic :=
  match s.top? with
  | none => (s, some ((Finding.unexpectedCloser c).report cell))
  | some b =>
    (s.pop, if b.closer = c then none else some ((Finding.mismatchedCloser b.closer c).report cell))

/-- Reads one code character.  Characters that are no brackets change nothing. -/
def read (s : BracketStack) (l : Language) (c : Char) (p : Position) : BracketStack × Option Diagnostic :=
  match l.closing? c with
  | some closer => (s.push ⟨c, closer, p⟩, none)
  | none => if l.closes c then s.close c p.cell else (s, none)

/-- Reads code characters in order. -/
def readAll (s : BracketStack) (l : Language) : List (Char × Position) → BracketStack × List Diagnostic
  | [] => (s, [])
  | (c, p) :: rest =>
    let r := s.read l c p
    let r' := readAll r.1 l rest
    (r'.1, r.2.toList ++ r'.2)

theorem readAll_append (s : BracketStack) (l : Language) (xs ys : List (Char × Position)) :
    s.readAll l (xs ++ ys) =
      (((s.readAll l xs).1.readAll l ys).1, (s.readAll l xs).2 ++ ((s.readAll l xs).1.readAll l ys).2) := by
  induction xs generalizing s with
  | nil => rfl
  | cons x xs ih => simp [readAll, ih]

end BracketStack

/-! ### Positions in words -/

/-- The diagnostic of a bracket that is never closed. -/
def OpenBracket.unclosed? (o : Overflow) (b : OpenBracket) : Option Diagnostic :=
  (b.position.cell? o).map (Finding.unclosedBracket b.opener).report

namespace BracketStack

/-- Reads one code character at any position. -/
def read? (o : Overflow) (s : BracketStack) (l : Language) (c : Char) (p : Position) :
    Option (BracketStack × Option Diagnostic) :=
  match l.closing? c with
  | some closer => some (s.push ⟨c, closer, p⟩, none)
  | none => if l.closes c then (p.cell? o).map (s.close c) else some (s, none)

/-- Reads code characters in order. -/
def readAll? (o : Overflow) (s : BracketStack) (l : Language) :
    List (Char × Position) → Option (BracketStack × List Diagnostic)
  | [] => some (s, [])
  | (c, p) :: rest => do
    let r ← s.read? o l c p
    let r' ← readAll? o r.1 l rest
    return (r'.1, r.2.toList ++ r'.2)

/-- Reports the brackets that are open, outermost first. -/
def unclosed? (o : Overflow) (s : BracketStack) : Option (List Diagnostic) :=
  s.items.reverse.mapM (OpenBracket.unclosed? o)

/-- Everything that a fresh stack says about code characters, up to their end. -/
def report? (o : Overflow) (l : Language) (xs : List (Char × Position)) : Option (List Diagnostic) := do
  let r ← readAll? o .empty l xs
  return r.2 ++ (← r.1.unclosed? o)

end BracketStack

end ScriptLint
