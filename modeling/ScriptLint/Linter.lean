import ScriptLint.Config.Basic
import ScriptLint.Line.Mode
import ScriptLint.Line.Omission
import ScriptLint.Nesting.Block
import ScriptLint.Nesting.Bracket

/-!
# The linter

A linter has a language without faults, and rules.  It reads a text line by line with two stacks, one of open
brackets and one of open blocks.  The diagnostics come in this order: for each line those of its brackets, of its
closing word and of its omissions; then the brackets left open, then the blocks left open.
-/

namespace ScriptLint

structure Linter where
  language : Language
  rules : Rules
  faultless : language.fault? = none

/-- What is open between two lines. -/
structure Nesting where
  brackets : BracketStack
  blocks : BlockStack
  deriving DecidableEq

def Nesting.none : Nesting := ⟨.empty, .empty⟩

namespace Linter

/-- The linter of a configuration whose language has no fault. -/
def ofConfig (c : Config) : Except LanguageFault Linter :=
  match h : c.language.fault? with
  | some fault => .error fault
  | none => .ok ⟨c.language, c.rules, h⟩

/-- The linter for Lua with every rule on. -/
def default : Linter := ⟨.lua, {}, Language.fault?_lua⟩

instance : Inhabited Linter := ⟨default⟩

/-- The code characters of a line with their positions. -/
def codeOf (l : Language) (number : Nat) (line : Text) : List (Char × Position) :=
  (Scan.ofLine l line).code.map fun x => (x.2, ⟨number, x.1⟩)

/-- The line as the omission tests see it. -/
def view (l : Language) (number : Nat) (line : Text) : LineView :=
  ⟨number, line, line.trim, l.startsComment line.trim⟩

/-- Reads one line. -/
def lintLine (lt : Linter) (s : Nesting) (number : Nat) (line : Text) : Nesting × List Diagnostic :=
  let v := view lt.language number line
  let brackets := s.brackets.readAll lt.language (codeOf lt.language number line)
  let blocks := s.blocks.readLine number line.length v.trimmed v.isComment
  (⟨brackets.1, blocks.1⟩, brackets.2 ++ blocks.2.toList ++ v.omissions lt.rules)

theorem lintLine_nil (lt : Linter) (s : Nesting) (number : Nat) : lt.lintLine s number [] = (s, []) := by
  have hcomment : lt.language.startsComment [] = false := by
    unfold Language.startsComment
    cases lt.language.commentToken <;> rfl
  have hview : view lt.language number [] = ⟨number, [], [], false⟩ := by rw [← hcomment]; rfl
  have homissions : LineView.omissions ⟨number, [], [], false⟩ lt.rules = [] := by
    have hend : LineView.lacksParameterEnd ⟨number, [], [], false⟩ = false := rfl
    have hthen : LineView.lacksThen ⟨number, [], [], false⟩ = false := rfl
    have hdo : LineView.lacksDo ⟨number, [], [], false⟩ = false := rfl
    simp [LineView.omissions, hend, hthen, hdo]
  rw [lintLine, hview, homissions]
  rfl

/-- Reads lines, the first of which has the given number. -/
def lintLines (lt : Linter) (s : Nesting) (number : Nat) : List Text → Nesting × List Diagnostic
  | [] => (s, [])
  | line :: rest =>
    let r := lt.lintLine s number line
    let r' := lt.lintLines r.1 (number + 1) rest
    (r'.1, r.2 ++ r'.2)

/-- Reading some lines and then others is reading them all. -/
theorem lintLines_append (lt : Linter) (s : Nesting) (number : Nat) (xs ys : List Text) :
    lt.lintLines s number (xs ++ ys) =
      ((lt.lintLines (lt.lintLines s number xs).1 (number + xs.length) ys).1,
       (lt.lintLines s number xs).2 ++
         (lt.lintLines (lt.lintLines s number xs).1 (number + xs.length) ys).2) := by
  induction xs generalizing s number with
  | nil => rfl
  | cons x xs ih =>
    simp only [List.cons_append, lintLines, ih, List.length_cons, List.append_assoc]
    rw [show number + 1 + xs.length = number + (xs.length + 1) by omega]

/-- Reports what is still open at the end of a text: brackets first. -/
def finish (lt : Linter) (s : Nesting) : List Diagnostic :=
  s.brackets.unclosed lt.rules.blockWidth ++ s.blocks.unclosed lt.rules.blockWidth

/-- The diagnostics of a text. -/
def lint (lt : Linter) (text : Text) : List Diagnostic :=
  let r := lt.lintLines .none 0 text.lines
  r.2 ++ lt.finish r.1

end Linter

end ScriptLint
