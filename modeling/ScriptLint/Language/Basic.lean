import ScriptLint.Text.Basic

/-!
# Languages

What the linter knows about the language of a text: the token that starts a comment, the characters that quote
strings, the escape character, and the bracket pairs.
-/

namespace ScriptLint

/-- An opening character and the character that closes it. -/
structure BracketPair where
  opener : Char
  closer : Char
  deriving DecidableEq

/-- The lexical description of a language. -/
structure Language where
  /-- A comment runs from this token to the end of the line. -/
  commentToken : Text
  /-- Each of these characters starts a string that the same character ends. -/
  quotes : List Char
  /-- The character that keeps a quote behind it from ending the string. -/
  escape : Option Char
  pairs : List BracketPair
  deriving DecidableEq

namespace Language

/-- The lexical description of Lua. -/
def lua : Language where
  commentToken := ['-', '-']
  quotes := ['"', '\'']
  escape := some '\\'
  pairs := [⟨'(', ')'⟩, ⟨'[', ']'⟩, ⟨'\x7b', '\x7d'⟩]

/-- Does the text start with a comment?  An empty token starts none. -/
def startsComment (l : Language) (t : Text) : Bool :=
  !l.commentToken.isEmpty && l.commentToken.isPrefixOf t

def isQuote (l : Language) (c : Char) : Bool := l.quotes.contains c

def isEscapeChar (l : Language) (c : Char) : Bool := l.escape == some c

/-- The closer that `c` asks for if `c` opens a bracket: the one of the first pair that `c` opens. -/
def closing? (l : Language) (c : Char) : Option Char :=
  (l.pairs.find? fun p => p.opener == c).map BracketPair.closer

/-- Does `c` close a bracket of some pair? -/
def closes (l : Language) (c : Char) : Bool := l.pairs.any fun p => p.closer == c

/-- The characters of all pairs, in order. -/
def bracketChars (l : Language) : List Char := l.pairs.flatMap fun p => [p.opener, p.closer]

end Language

end ScriptLint
