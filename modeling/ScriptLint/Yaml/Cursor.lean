import ScriptLint.Text.Basic
import ScriptLint.Yaml.Fault

/-!
# Reading a YAML text

The characters that YAML allows, the characters that end a line, and a place in a text.  Line ends are first made
alike: a carriage return, a carriage return with a line feed, and a next-line character all become a line feed, so
that every line end is one character.
-/

namespace ScriptLint.Yaml

/-! ### Characters -/

/-- The byte order mark. -/
def byteOrderMark : Char := '\ufeff'

/-- The characters that a text may hold, as closed ranges of code points. -/
def allowedRanges : List (Nat × Nat) :=
  [(0x09, 0x0A), (0x0D, 0x0D), (0x20, 0x7E), (0x85, 0x85), (0xA0, 0xD7FF), (0xE000, 0xFFFD),
   (0x10000, 0x10FFFF)]

def isAllowed (c : Char) : Bool := allowedRanges.any fun r => r.1 ≤ c.toNat && c.toNat ≤ r.2

/-- A space or a tab. -/
def isSpace (c : Char) : Bool := c == ' ' || c == '\t'

/-- A line feed, a line separator or a paragraph separator. -/
def isBreak (c : Char) : Bool := c == '\n' || c == '\u2028' || c == '\u2029'

/-- The characters of anchors and tag handles. -/
def isNameChar (c : Char) : Bool := Text.isWordChar c || c == '-'

/-- Is there nothing, or a space or a line end, at the start of the text? -/
def startsBlank : Text → Bool
  | [] => true
  | c :: _ => isSpace c || isBreak c

/-- Does the text start with a mark between documents?  Such a mark stands at the start of a line. -/
def startsDocumentMark : Text → Bool
  | '-' :: '-' :: '-' :: rest => startsBlank rest
  | '.' :: '.' :: '.' :: rest => startsBlank rest
  | _ => false

/-- Makes all line ends alike, apart from the separators. -/
def unifyBreaks : Text → Text
  | [] => []
  | '\r' :: '\n' :: rest => '\n' :: unifyBreaks rest
  | c :: rest => (if c == '\r' || c == '\u0085' then '\n' else c) :: unifyBreaks rest

/-- The text to be read: all characters allowed, all line ends alike. -/
def prepare (t : Text) : Except Fault Text :=
  if t.all isAllowed then .ok (unifyBreaks t) else .error .controlCharacter

/-! ### Places -/

/-- A place in a text. -/
structure Mark where
  line : Nat := 0
  /-- The number of characters before the place on its line. -/
  column : Nat := 0
  /-- The number of octets that these characters take in UTF-8. -/
  octets : Nat := 0
  deriving DecidableEq

/-- The place behind a character of the line. -/
def Mark.past (m : Mark) (c : Char) : Mark := { m with column := m.column + 1, octets := m.octets + c.utf8Size }

/-- The place behind a row of characters of the line. -/
def Mark.pastAll (m : Mark) (t : Text) : Mark := t.foldl Mark.past m

/-- The place behind a line end. -/
def Mark.newline (m : Mark) : Mark := { line := m.line + 1 }

/-- A place in a text and the text from there on. -/
structure Cursor where
  mark : Mark
  rest : Text
  deriving DecidableEq

namespace Cursor

/-- Behind the next `n` characters of the line. -/
def forward (c : Cursor) (n : Nat := 1) : Cursor := ⟨c.mark.pastAll (c.rest.take n), c.rest.drop n⟩

/-- The place where `rest` is left, further on the same line. -/
def upTo (c : Cursor) (rest : Text) : Cursor := c.forward (c.rest.length - rest.length)

/-- Behind the characters of the line that satisfy `p`. -/
def skip (c : Cursor) (p : Char → Bool) : Cursor := ⟨c.mark.pastAll (c.rest.takeWhile p), c.rest.dropWhile p⟩

/-- The characters of the line that satisfy `p`, and the place behind them. -/
def take (c : Cursor) (p : Char → Bool) : Text × Cursor := (c.rest.takeWhile p, c.skip p)

/-- Behind spaces and a comment, to the end of the line, which has to follow; then behind it. -/
def endLine (c : Cursor) (fault : Fault) : Except Fault Cursor :=
  let spaced := c.skip isSpace
  let bare := if spaced.rest.head? == some '#' then spaced.skip (!isBreak ·) else spaced
  match bare.rest with
  | [] => .ok bare
  | b :: rest => if isBreak b then .ok ⟨bare.mark.newline, rest⟩ else .error fault

end Cursor

end ScriptLint.Yaml
