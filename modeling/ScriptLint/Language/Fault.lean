import ScriptLint.Language.Basic

/-!
# Faults of language descriptions

A language description can be used when every character has at most one role: the comment token is not empty, no
character stands in two places of the bracket pairs, and no quote is a bracket.  `Language.fault?` finds the first
fault, and `LanguageFault.message` words it.
-/

namespace ScriptLint

/-- Why a language description cannot be used. -/
inductive LanguageFault where
  | emptyToken
  /-- A pair that opens and closes with the same character. -/
  | selfClosing (pair : BracketPair)
  /-- A character that stands in two pairs. -/
  | sharedBracket (c : Char)
  /-- A character that is a quote and a bracket. -/
  | quoteBracket (c : Char)
  deriving DecidableEq

def LanguageFault.message : LanguageFault → String
  | emptyToken => "line comment token must not be empty"
  | selfClosing p =>
    "bracket pair '" ++ p.opener.toString ++ p.closer.toString ++ "' uses the same character to open and close"
  | sharedBracket c => "bracket character '" ++ c.toString ++ "' appears in more than one pair"
  | quoteBracket c =>
    "character '" ++ c.toString ++ "' is used both as a string delimiter and as a bracket"

namespace Language

/-- The first fault of a list of pairs, where `seen` holds the characters of the pairs before it. -/
def pairFault? (seen : List Char) : List BracketPair → Option LanguageFault
  | [] => none
  | p :: rest =>
    if p.opener = p.closer then some (.selfClosing p)
    else if p.opener ∈ seen then some (.sharedBracket p.opener)
    else if p.closer ∈ seen then some (.sharedBracket p.closer)
    else pairFault? (p.opener :: p.closer :: seen) rest

/-- The first quote that is a bracket. -/
def quoteFault? (l : Language) : Option LanguageFault :=
  (l.quotes.find? fun c => l.bracketChars.contains c).map .quoteBracket

/-- The first fault of a description: of the token, then of the pairs, then of the quotes. -/
def fault? (l : Language) : Option LanguageFault :=
  if l.commentToken.isEmpty then some .emptyToken else (pairFault? [] l.pairs).or l.quoteFault?

theorem fault?_lua : lua.fault? = none := rfl

end Language

end ScriptLint
