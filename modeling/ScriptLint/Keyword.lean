import ScriptLint.Text.Basic

/-!
# Block keywords

The keywords that open a block, in the order in which the blocks of one line are opened.  A keyword occurs in a
line when it is one of the line's words; how often it occurs, and whether it stands in a string, does not matter.
-/

namespace ScriptLint

/-- A keyword that opens a block. -/
inductive Keyword where
  | function | ifThen | forDo | whileDo | repeatUntil | plainDo
  deriving DecidableEq

namespace Keyword

/-- Every keyword, in the order in which they open blocks. -/
def all : List Keyword := [.function, .ifThen, .forDo, .whileDo, .repeatUntil, .plainDo]

/-- The word itself. -/
def word : Keyword → String
  | function => "function"
  | ifThen => "if"
  | forDo => "for"
  | whileDo => "while"
  | repeatUntil => "repeat"
  | plainDo => "do"

/-- The word that closes the block. -/
def closingWord : Keyword → String
  | repeatUntil => "until"
  | _ => "end"

/-- The keyword that `t` spells, if it spells one. -/
def ofWord? (t : Text) : Option Keyword := all.find? fun k => k.word.toList == t

/-- The keywords among the words of a line, each once. -/
def allIn (line : Text) : List Keyword := all.filter fun k => line.words.contains k.word.toList

end Keyword

end ScriptLint
