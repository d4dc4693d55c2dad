import ScriptLint.Text.Basic
import ScriptLint.Text.Position

/-!
# Line tables

A table of the offsets at which the lines of a text start.  It turns positions into offsets and offsets into
positions.  Both directions take any number: what lies outside a line or the text is moved to its end.
-/

namespace ScriptLint

/-- A text and the offsets at which its lines start. -/
structure LineTable where
  chars : Text
  starts : List Nat
  deriving DecidableEq

namespace LineTable

/-- The offsets just behind the line feeds of a text that starts at `offset`. -/
def startsAfter (offset : Nat) : Text → List Nat
  | [] => []
  | c :: rest =>
    if c = '\n' then (offset + 1) :: startsAfter (offset + 1) rest else startsAfter (offset + 1) rest

def ofText (t : Text) : LineTable := ⟨t, 0 :: startsAfter 0 t⟩

def lineCount (x : LineTable) : Nat := x.starts.length

def charCount (x : LineTable) : Nat := x.chars.length

/-- The offset at which the line's text ends: its line feed, or the end of the text. -/
def lineEnd (x : LineTable) (line : Nat) : Nat :=
  match x.starts[line + 1]? with
  | some next => next - 1
  | none => x.charCount

/-- The number of characters of a line without its line feed; no line has none. -/
def lineLength (x : LineTable) (line : Nat) : Nat :=
  match x.starts[line]? with
  | some start => x.lineEnd line - start
  | none => 0

/-- The text of a line without its line feed. -/
def lineText? (x : LineTable) (line : Nat) : Option Text :=
  x.starts[line]?.map fun start => (x.chars.drop start).take (x.lineLength line)

/-- The offset of a position.  A column past the end of its line counts as the end of the line, a line past the end
of the text as the end of the text. -/
def offsetOf (x : LineTable) (p : Position) : Nat :=
  match x.starts[p.line]? with
  | some start => start + min p.column (x.lineLength p.line)
  | none => x.charCount

/-- The position of an offset.  An offset past the end of the text counts as its end. -/
def positionAt (x : LineTable) (offset : Nat) : Position :=
  let o := min offset x.charCount
  let line := x.starts.countP (· ≤ o) - 1
  ⟨line, o - x.starts.getD line 0⟩

end LineTable

end ScriptLint
