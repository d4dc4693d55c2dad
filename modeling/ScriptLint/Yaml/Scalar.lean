import ScriptLint.Yaml.Cursor

/-!
# Scalars

Scalars are read in three ways: quoted, plain and block scalars.  Quoted and plain scalars may go over several
lines, and the space between two words on different lines is folded; block scalars keep their lines or fold them.
-/

namespace ScriptLint.Yaml

/-- How a scalar is written. -/
inductive Style where
  | plain | single | double | literal | folded
  deriving DecidableEq

/-- A scalar that has been read. -/
structure ScalarRead where
  value : Text
  /-- The place behind the scalar. -/
  after : Cursor

/-! ### Gaps -/

/-- The space between two words of a scalar. -/
structure Gap where
  /-- The spaces before the first line end. -/
  spaces : Text := []
  /-- The first line end; it is empty if an escape has taken it away. -/
  first : Option Text := none
  /-- The other line ends. -/
  more : Text := []
  deriving DecidableEq

namespace Gap

def isEmpty (g : Gap) : Bool := g.spaces.isEmpty && g.first.isNone

/-- Is there a line end in the gap? -/
def isBroken (g : Gap) : Bool := g.first.isSome

/-- Spaces that follow a line end are dropped. -/
def space (g : Gap) (c : Char) : Gap := if g.isBroken then g else { g with spaces := g.spaces ++ [c] }

def lineEnd (g : Gap) (c : Char) : Gap :=
  if g.isBroken then { g with more := g.more ++ [c] } else { g with first := some [c] }

/-- What the gap stands for.  A single line feed is a space, and the first of several is dropped. -/
def text (g : Gap) : Text :=
  match g.first with
  | none => g.spaces
  | some ['\n'] => if g.more.isEmpty then [' '] else g.more
  | some b => b ++ g.more

end Gap

/-! ### Quoted scalars -/

/-- The character that a one-letter escape stands for. -/
def simpleEscape? : Char → Option Char
  | '0' => some '\x00'
  | 'a' => some '\x07'
  | 'b' => some '\x08'
  | 't' | '\t' => some '\t'
  | 'n' => some '\n'
  | 'v' => some '\x0b'
  | 'f' => some '\x0c'
  | 'r' => some '\r'
  | 'e' => some '\x1b'
  | ' ' => some ' '
  | '"' => some '"'
  | '/' => some '/'
  | '\\' => some '\\'
  | 'N' => some '\u0085'
  | '_' => some '\u00a0'
  | 'L' => some '\u2028'
  | 'P' => some '\u2029'
  | _ => none

/-- The value of a digit of base sixteen. -/
def hexValue? (c : Char) : Option Nat :=
  if c.isDigit then some (c.toNat - '0'.toNat)
  else if 'a' ≤ c ∧ c ≤ 'f' then some (c.toNat - 'a'.toNat + 10)
  else if 'A' ≤ c ∧ c ≤ 'F' then some (c.toNat - 'A'.toNat + 10)
  else none

/-- The value of a row of digits of base sixteen. -/
def hexNumber? (digits : Text) : Option Nat :=
  digits.foldl (fun n c => n.bind fun n => (hexValue? c).map fun d => 16 * n + d) (some 0)

/-- The character whose code point the digits give. -/
def hexChar? (digits : Text) : Option Char :=
  (hexNumber? digits).bind fun n => if n.isValidChar then some (Char.ofNat n) else none

/-- Reads on within double quotes: `gap` is the space since the last word, `value` what has been read, backwards.
-/
def readDouble (gap : Gap) (value : Text) (m : Mark) : Text → Except Fault ScalarRead
  | [] => .error .unterminatedQuote
  | c :: rest =>
    if isSpace c then readDouble (gap.space c) value (m.past c) rest
    else if isBreak c then readDouble (gap.lineEnd c) value m.newline rest
    else if m.column = 0 && startsDocumentMark (c :: rest) then .error .documentMarkInQuote
    else
      let value := gap.text.reverse ++ value
      if c = '"' then .ok ⟨value.reverse, ⟨m.past c, rest⟩⟩
      else if c = '\\' then
        match rest with
        | 'x' :: a :: b :: rest =>
          match hexChar? [a, b] with
          | some c => readDouble {} (c :: value) (m.pastAll ['\\', 'x', a, b]) rest
          | none => .error .badEscape
        | 'u' :: a :: b :: c' :: d :: rest =>
          match hexChar? [a, b, c', d] with
          | some c => readDouble {} (c :: value) (m.pastAll ['\\', 'u', a, b, c', d]) rest
          | none => .error .badEscape
        | 'U' :: a :: b :: c' :: d :: e :: f :: g :: h :: rest =>
          match hexChar? [a, b, c', d, e, f, g, h] with
          | some c => readDouble {} (c :: value) (m.pastAll ['\\', 'U', a, b, c', d, e, f, g, h]) rest
          | none => .error .badEscape
        | e :: rest =>
          if isBreak e then readDouble { first := some [] } value m.newline rest
          else
            match simpleEscape? e with
            | some c => readDouble {} (c :: value) (m.pastAll ['\\', e]) rest
            | none => .error .badEscape
        | [] => .error .unterminatedQuote
      else readDouble {} (c :: value) (m.past c) rest

/-- Reads on within single quotes, where two quotes stand for one. -/
def readSingle (gap : Gap) (value : Text) (m : Mark) : Text → Except Fault ScalarRead
  | [] => .error .unterminatedQuote
  | c :: rest =>
    if isSpace c then readSingle (gap.space c) value (m.past c) rest
    else if isBreak c then readSingle (gap.lineEnd c) value m.newline rest
    else if m.column = 0 && startsDocumentMark (c :: rest) then .error .documentMarkInQuote
    else
      let value := gap.text.reverse ++ value
      if c = '\'' then
        match rest with
        | '\'' :: rest => readSingle {} ('\'' :: value) (m.pastAll ['\'', '\'']) rest
        | rest => .ok ⟨value.reverse, ⟨m.past c, rest⟩⟩
      else readSingle {} (c :: value) (m.past c) rest

/-! ### Plain scalars -/

/-- The characters that end a plain scalar within a flow collection. -/
def isFlowIndicator (c : Char) : Bool := [',', '[', ']', '\x7b', '\x7d'].contains c

/-- Does a plain scalar end before `c`, with `rest` behind it? -/
def endsPlain (inFlow : Bool) (c : Char) (rest : Text) : Bool :=
  (c == ':' && startsBlank rest) || (inFlow && isFlowIndicator c)

/-- Within a flow collection a colon before an indicator is neither text nor the end of a key. -/
def isStrayColon (inFlow : Bool) (c : Char) (rest : Text) : Bool :=
  inFlow && c == ':' && rest.head?.any fun d => isFlowIndicator d || d == '?'

/-- A plain scalar, and whether a line end follows it. -/
structure PlainRead extends ScalarRead where
  broken : Bool

/-- Reads on in a plain scalar whose further lines have to be indented by `margin` columns. -/
def readPlain (inFlow : Bool) (margin : Nat) (gap : Gap) (value : Text) (m : Mark) :
    Text → Except Fault PlainRead
  | [] => .ok ⟨⟨value.reverse, ⟨m, []⟩⟩, gap.isBroken⟩
  | c :: rest =>
    let stop : Except Fault PlainRead := .ok ⟨⟨value.reverse, ⟨m, c :: rest⟩⟩, gap.isBroken⟩
    if isSpace c then
      if gap.isBroken && c == '\t' && m.column < margin then .error .tabIndentation
      else readPlain inFlow margin (gap.space c) value (m.past c) rest
    else if isBreak c then readPlain inFlow margin (gap.lineEnd c) value m.newline rest
    else if !gap.isEmpty && !inFlow && m.column < margin then stop
    else if m.column = 0 && startsDocumentMark (c :: rest) then stop
    else if !gap.isEmpty && c == '#' then stop
    else if isStrayColon inFlow c rest then .error .colonInFlowScalar
    else if endsPlain inFlow c rest then stop
    else readPlain inFlow margin {} (c :: (gap.text.reverse ++ value)) (m.past c) rest

/-! ### Block scalars -/

/-- What becomes of the line ends at the end of a block scalar. -/
inductive Chomping where
  | strip | clip | keep
  deriving DecidableEq

/-- What the first line of a block scalar says. -/
structure BlockHeader where
  chomping : Chomping := .clip
  /-- How much deeper than its surroundings the text is indented, if that is said. -/
  increment : Option Nat := none

def chomping? : Char → Option Chomping
  | '+' => some .keep
  | '-' => some .strip
  | _ => none

/-- Reads an indentation indicator. -/
def readIncrement (c : Cursor) : Except Fault (Option Nat × Cursor) :=
  match c.rest with
  | d :: _ =>
    if d = '0' then .error .badBlockHeader
    else if d.isDigit then .ok (some (d.toNat - '0'.toNat), c.forward)
    else .ok (none, c)
  | [] => .ok (none, c)

/-- Reads a chomping indicator. -/
def readChomping (c : Cursor) : Option Chomping × Cursor :=
  match c.rest.head?.bind chomping? with
  | some k => (some k, c.forward)
  | none => (none, c)

/-- Reads the indicators, which may stand in either order. -/
def readBlockHeader (c : Cursor) : Except Fault (BlockHeader × Cursor) := do
  match readChomping c with
  | (some k, c) =>
    let (increment, c) ← readIncrement c
    return (⟨k, increment⟩, c)
  | (none, c) =>
    let (increment, c) ← readIncrement c
    match increment, readChomping c with
    | some _, (some k, c) => return (⟨k, increment⟩, c)
    | _, _ => return (⟨.clip, increment⟩, c)

/-- How far a block scalar has been read. -/
structure BlockState where
  /-- The column at which its lines start, once it is known. -/
  indent : Option Nat
  /-- The largest column at which a line has started so far. -/
  deepest : Nat := 0
  /-- What has been read, backwards. -/
  value : Text := []
  /-- The end of the last line that is not empty. -/
  first : Text := []
  /-- The ends of the empty lines behind it. -/
  more : Text := []
  /-- Did that last line start with a space? -/
  spaced : Bool := false
  inLine : Bool := false

namespace BlockState

/-- May `column` still be part of the indentation? -/
def inMargin (s : BlockState) (column : Nat) : Bool := s.indent.all (column < ·)

/-- The state with its indentation fixed, if it was not known before. -/
def settle (s : BlockState) (margin column : Nat) : BlockState :=
  { s with indent := some (s.indent.getD (max (max s.deepest column) (max margin 1))) }

/-- The state in a line that starts with `c`.  A folded scalar joins two lines that do not start with a space. -/
def startLine (s : BlockState) (folded : Bool) (c : Char) : BlockState :=
  let join :=
    if folded && s.first == ['\n'] && !s.spaced && !isSpace c then
      if s.more.isEmpty then [' '] else s.more
    else s.first ++ s.more
  { s with value := c :: (join.reverse ++ s.value), first := [], more := [], spaced := isSpace c, inLine := true }

/-- The text of the scalar. -/
def finish (s : BlockState) : Chomping → Text
  | .strip => s.value.reverse
  | .clip => s.value.reverse ++ s.first
  | .keep => s.value.reverse ++ s.first ++ s.more

end BlockState

/-- Reads the lines of a block scalar. -/
def readBlock (folded : Bool) (margin : Nat) (s : BlockState) (m : Mark) :
    Text → Except Fault (BlockState × Cursor)
  | [] => .ok (s, ⟨m, []⟩)
  | c :: rest =>
    if s.inLine then
      if isBreak c then readBlock folded margin { s with first := [c], inLine := false } m.newline rest
      else readBlock folded margin { s with value := c :: s.value } (m.past c) rest
    else if c == ' ' && s.inMargin m.column then readBlock folded margin s (m.past c) rest
    else if c == '\t' && s.inMargin m.column then .error .tabIndentation
    else if isBreak c then
      readBlock folded margin { s with more := s.more ++ [c], deepest := max s.deepest m.column } m.newline rest
    else
      let s := s.settle margin m.column
      if s.indent = some m.column then readBlock folded margin (s.startLine folded c) (m.past c) rest
      else .ok (s, ⟨m, c :: rest⟩)

end ScriptLint.Yaml
