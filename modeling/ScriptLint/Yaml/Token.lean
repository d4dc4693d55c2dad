import ScriptLint.Yaml.Scalar

/-!
# Tokens

The tokens of a YAML text, and the reading of those that have a text of their own apart from scalars: directives,
anchors and tags.
-/

namespace ScriptLint.Yaml

inductive Token where
  | versionDirective (major minor : Nat)
  | tagDirective (handle stem : Text)
  | documentStart
  | documentEnd
  | blockSequenceStart
  | blockMappingStart
  | blockEnd
  | flowSequenceStart
  | flowSequenceEnd
  | flowMappingStart
  | flowMappingEnd
  | blockEntry
  | flowEntry
  | key
  | value
  | alias (name : Text)
  | anchor (name : Text)
  | tag (handle suffix : Text)
  | scalar (style : Style) (text : Text)
  deriving DecidableEq

/-! ### Tags -/

/-- The characters of a tag that stand for themselves.  Between angle brackets there are a few more. -/
def isTagChar (verbatim : Bool) (c : Char) : Bool :=
  isNameChar c || ";/?:@&=+$.!~*'()".toList.contains c || (verbatim && [',', '[', ']'].contains c)

/-- How many octets a character has whose first octet is given. -/
def octetCount? (octet : Nat) : Option Nat :=
  if octet < 0x80 then some 1
  else if 0xC0 ≤ octet ∧ octet < 0xE0 then some 2
  else if 0xE0 ≤ octet ∧ octet < 0xF0 then some 3
  else if 0xF0 ≤ octet ∧ octet < 0xF8 then some 4
  else none

/-- Reads the text of a tag: the octets, each as the character with that code, and what follows.  An octet may be
written by its number; then all octets of its character have to be, and `owed` of them are still to come. -/
def readTagText (verbatim : Bool) (owed : Nat) : Text → Except Fault (Text × Text)
  | '%' :: a :: b :: rest =>
    match hexNumber? [a, b] with
    | none => .error .badTag
    | some octet => do
      let owed ← match owed with
        | 0 => (octetCount? octet).elim (.error .badTag) fun n => .ok (n - 1)
        | n + 1 => if 0x80 ≤ octet ∧ octet < 0xC0 then .ok n else .error .badTag
      let (text, after) ← readTagText verbatim owed rest
      return (Char.ofNat octet :: text, after)
  | c :: rest =>
    if c = '%' ∨ owed ≠ 0 then .error .badTag
    else if isTagChar verbatim c then do
      let (text, after) ← readTagText verbatim 0 rest
      return (c :: text, after)
    else .ok ([], c :: rest)
  | [] => if owed = 0 then .ok ([], []) else .error .badTag

/-- The text of a tag ends before its first octet zero, which only a number can give. -/
def cutTagText (t : Text) : Text := t.takeWhile (· != '\x00')

/-- Reads a text of a tag of which something must be written. -/
def readTagTextNonempty (verbatim : Bool) (t : Text) : Except Fault (Text × Text) := do
  let (text, after) ← readTagText verbatim 0 t
  if text.isEmpty then .error .badTag else return (cutTagText text, after)

/-- Reads what may be a tag handle: an exclamation mark, a name, and a second exclamation mark if there is one. -/
def readTagHandle : Text → Except Fault (Text × Text)
  | '!' :: rest =>
    let name := rest.takeWhile isNameChar
    match rest.dropWhile isNameChar with
    | '!' :: after => .ok ('!' :: name ++ ['!'], after)
    | after => .ok ('!' :: name, after)
  | _ => .error .badTag

/-- Is the text a handle and not just the start of a tag? -/
def isTagHandle (t : Text) : Bool := 2 ≤ t.length && t.getLast? == some '!'

/-- Reads a tag: `!<text>`, `!handle!suffix`, `!suffix` or `!`. -/
def readTag (c : Cursor) : Except Fault (Token × Cursor) := do
  match c.rest with
  | '!' :: '<' :: rest =>
    let (suffix, after) ← readTagTextNonempty true rest
    match after with
    | '>' :: after => return (.tag [] suffix, c.upTo after)
    | _ => .error .badTag
  | t =>
    let (handle, after) ← readTagHandle t
    if isTagHandle handle then
      let (suffix, after) ← readTagTextNonempty false after
      return (.tag handle suffix, c.upTo after)
    else
      let (text, after) ← readTagText false 0 after
      let suffix := handle.tail ++ cutTagText text
      return (if suffix.isEmpty then .tag [] ['!'] else .tag ['!'] suffix, c.upTo after)

/-! ### Anchors -/

/-- Reads the name of an anchor or an alias behind its indicator. -/
def readAnchorName (c : Cursor) : Except Fault (Text × Cursor) :=
  let (name, after) := c.forward.take isNameChar
  if name.isEmpty then .error .badAnchor
  else if startsBlank after.rest || after.rest.head?.any fun d => "?:,]\x7d%@`".toList.contains d then
    .ok (name, after)
  else .error .badAnchor

/-! ### Directives -/

/-- Reads a number of at most nine digits. -/
def readVersionNumber (c : Cursor) : Except Fault (Nat × Cursor) :=
  let (digits, after) := c.take Char.isDigit
  if digits.isEmpty || 9 < digits.length then .error .badDirective
  else .ok (Nat.ofDigitChars 10 digits 0, after)

def readVersion (c : Cursor) : Except Fault (Token × Cursor) := do
  let (major, c) ← readVersionNumber (c.skip isSpace)
  match c.rest with
  | '.' :: _ =>
    let (minor, c) ← readVersionNumber c.forward
    return (.versionDirective major minor, c)
  | _ => .error .badDirective

def readTagDirective (c : Cursor) : Except Fault (Token × Cursor) := do
  let c := c.skip isSpace
  let (handle, after) ← readTagHandle c.rest
  if handle ≠ ['!'] ∧ !isTagHandle handle then .error .badDirective
  else if !after.head?.any isSpace then .error .badDirective
  else
    let c := (c.upTo after).skip isSpace
    let (stem, after) ← readTagTextNonempty true c.rest
    if startsBlank after then return (.tagDirective handle stem, c.upTo after) else .error .badDirective

/-- Reads a directive and the rest of its line. -/
def readDirective (c : Cursor) : Except Fault (Token × Cursor) := do
  let (name, c) := c.forward.take isNameChar
  if !startsBlank c.rest then .error .badDirective
  else
    let (token, c) ←
      if name = "YAML".toList then readVersion c
      else if name = "TAG".toList then readTagDirective c
      else .error .badDirective
    return (token, ← c.endLine .badDirective)

end ScriptLint.Yaml
