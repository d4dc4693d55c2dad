import ScriptLint.Language.Basic

/-!
# Reading a line

A line is read from left to right, and each of its characters is code, part of a string, or part of a comment.
Nothing is carried from one line to the next.

* `Mode.read` reads one character, given the one before it and the rest of the line.
* `Mode.readAt` is the same at an index of the line, and has no answer where there is nothing to read.
* `Scan.ofLine` gives the code characters of a line with their columns, and the mode at its end.
-/

namespace ScriptLint

/-- What a character of a line is part of. -/
inductive Role where
  | code | string | comment
  deriving DecidableEq

/-- What is being read. -/
inductive Mode where
  | code
  | string (quote : Char)
  /-- A comment, possibly one that hides an open string; a line that is read from its start has no such comment. -/
  | comment (quote : Option Char)
  deriving DecidableEq

/-- The role of a character, how many characters are taken with it, and the mode after them. -/
structure Reading where
  role : Role
  length : Nat
  mode : Mode
  deriving DecidableEq

namespace Mode

/-- The quote of the string that is open. -/
def quote? : Mode → Option Char
  | code => none
  | string q => some q
  | comment q => q

def inComment : Mode → Bool
  | comment _ => true
  | _ => false

/-- Does `c`, read after `before`, end a string that `q` has opened? -/
def endsString (l : Language) (q : Char) (before : Option Char) (c : Char) : Bool :=
  c == q && !before.any l.isEscapeChar

/-- Reads `c` where no comment starts. -/
def readPlain (m : Mode) (l : Language) (before : Option Char) (c : Char) : Reading :=
  match m with
  | code => if l.isQuote c then ⟨.string, 1, string c⟩ else ⟨.code, 1, code⟩
  | string q => ⟨.string, 1, if endsString l q before c then code else string q⟩
  | comment q => ⟨.comment, 1, comment q⟩

/-- Reads the character `c` that stands between `before` and `rest`.  A comment token is taken whole, also within a
comment, and is not looked for while a string is open. -/
def read (m : Mode) (l : Language) (before : Option Char) (c : Char) (rest : Text) : Reading :=
  if m.quote?.isNone && l.startsComment (c :: rest) then ⟨.comment, l.commentToken.length, comment none⟩
  else m.readPlain l before c

/-- Reads the character of `line` at `index`.  At the end of the line only a comment can be read on, because that
takes no character; past the end not even that, unless no token is looked for. -/
def readAt (m : Mode) (l : Language) (line : Text) (index : Nat) : Option Reading :=
  match line.drop index with
  | c :: rest => some (m.read l (line.take index).getLast? c rest)
  | [] =>
    if m.inComment && (m.quote?.isSome || l.commentToken.isEmpty || index == line.length) then
      some ⟨.comment, 1, m⟩
    else none

end Mode

/-- The code characters of a line with their columns, and the mode at the end of the line. -/
structure Scan where
  code : List (Nat × Char)
  final : Mode
  deriving DecidableEq

namespace Scan

/-- Scans the rest of a line, where `before` is the character before it and `column` its first column.  A comment
takes all the rest. -/
def run (l : Language) (m : Mode) (column : Nat) (before : Option Char) : Text → Scan
  | [] => ⟨[], m⟩
  | c :: rest =>
    let r := m.read l before c rest
    match r.role with
    | .comment => ⟨[], r.mode⟩
    | .string => run l r.mode (column + 1) (some c) rest
    | .code =>
      let tail := run l r.mode (column + 1) (some c) rest
      ⟨(column, c) :: tail.code, tail.final⟩

def ofLine (l : Language) (line : Text) : Scan := run l .code 0 none line

end Scan

end ScriptLint
