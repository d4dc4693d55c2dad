import ScriptLint.Yaml.Token

/-!
# Token streams

The tokens of a text.  Two things are not written in the text and are found here: where the blocks start and end,
which the indentation tells, and which scalars are keys, which only the colon behind them tells.

A place where a key may start is remembered until a colon follows.  A key has to be on one line and at most 1024
octets long, and where a line of a block mapping starts there has to be one.
-/

namespace ScriptLint.Yaml

/-- A place where a key may have started. -/
structure PendingKey where
  /-- Has there to be a key? -/
  required : Bool
  /-- The number of tokens before the key. -/
  place : Nat
  mark : Mark
  deriving DecidableEq

/-- How far a text has been cut into tokens. -/
structure TokenStream where
  cursor : Cursor
  tokens : Array Token := #[]
  /-- The least column at which text of the innermost block may stand. -/
  margin : Nat := 0
  /-- The margins of the blocks around it, innermost first. -/
  margins : List Nat := []
  /-- May a key start here? -/
  keyAllowed : Bool := true
  /-- The key that may have started in the innermost flow collection, or in the block. -/
  pending : Option PendingKey := none
  /-- The same for the collections around it; as many as there are flow collections open. -/
  outer : List (Option PendingKey) := []

namespace TokenStream

def inFlow (s : TokenStream) : Bool := !s.outer.isEmpty

def column (s : TokenStream) : Nat := s.cursor.mark.column

/-- Adds the token of the next `n` characters. -/
def emitNext (s : TokenStream) (t : Token) (n : Nat) : TokenStream :=
  { s with tokens := s.tokens.push t, cursor := s.cursor.forward n }

/-- Adds a token that has been read, with the place behind it. -/
def emitRead (s : TokenStream) (r : Token × Cursor) : TokenStream :=
  { s with tokens := s.tokens.push r.1, cursor := r.2 }

/-! ### Keys -/

/-- Is it too late for the key to be one? -/
def PendingKey.isStale (k : PendingKey) (m : Mark) : Bool := k.mark.line < m.line || k.mark.octets + 1024 < m.octets

/-- Gives up a key that can no longer be one. -/
def dropStale (m : Mark) : Option PendingKey → Except Fault (Option PendingKey)
  | none => .ok none
  | some k =>
    if PendingKey.isStale k m then if k.required then .error .missingColon else .ok none else .ok (some k)

def dropStaleKeys (s : TokenStream) : Except Fault TokenStream := do
  return { s with
    pending := ← dropStale s.cursor.mark s.pending
    outer := ← s.outer.mapM (dropStale s.cursor.mark) }

/-- Gives up the key that may have started. -/
def dropKey (s : TokenStream) : Except Fault TokenStream :=
  if s.pending.any (·.required) then .error .missingColon else .ok { s with pending := none }

/-- Remembers that a key may start here. -/
def saveKey (s : TokenStream) : Except Fault TokenStream := do
  if s.keyAllowed then
    let s ← s.dropKey
    let required := !s.inFlow && s.margin == s.column + 1
    return { s with pending := some ⟨required, s.tokens.size, s.cursor.mark⟩ }
  else return s

/-- The state before a token that may start a key, after which none may. -/
def beforeNode (s : TokenStream) : Except Fault TokenStream := do
  return { ← s.saveKey with keyAllowed := false }

/-- The state before a token that ends what may have been a key; `next` says whether one may follow. -/
def beforeIndicator (s : TokenStream) (next : Bool) : Except Fault TokenStream := do
  return { ← s.dropKey with keyAllowed := next }

/-! ### Blocks -/

/-- Starts a block at a column, unless it is already in one there; its token comes after the first `place` ones. -/
def openBlock (s : TokenStream) (column place : Nat) (t : Token) : TokenStream :=
  if !s.inFlow && s.margin ≤ column then
    { s with
      margin := column + 1
      margins := s.margin :: s.margins
      tokens := s.tokens.insertIdxIfInBounds place t }
  else s

/-- The margin, the margins around it and the tokens after closing the blocks that need more than `limit`. -/
def closeBlocks (limit : Nat) (tokens : Array Token) (margin : Nat) : List Nat → Nat × List Nat × Array Token
  | [] => (margin, [], tokens)
  | outer :: rest =>
    if limit < margin then closeBlocks limit (tokens.push .blockEnd) outer rest
    else (margin, outer :: rest, tokens)

/-- Ends the blocks whose margin is larger than `limit`. -/
def closeTo (s : TokenStream) (limit : Nat) : TokenStream :=
  if s.inFlow then s
  else
    let (margin, margins, tokens) := closeBlocks limit s.tokens s.margin s.margins
    { s with margin := margin, margins := margins, tokens := tokens }

/-! ### Space between tokens -/

/-- Moves over spaces, comments and line ends.  A tab is no space where a key may start, and a byte order mark may
start a line.  Behind a line end a key may start, except in a flow collection. -/
def skipSpace (inFlow keyAllowed inComment : Bool) (m : Mark) : Text → Bool × Cursor
  | [] => (keyAllowed, ⟨m, []⟩)
  | c :: rest =>
    if isBreak c then skipSpace inFlow (keyAllowed || !inFlow) false m.newline rest
    else if inComment || c == '#' then skipSpace inFlow keyAllowed true (m.past c) rest
    else if c == ' ' || (c == '\t' && (inFlow || !keyAllowed)) || (c == byteOrderMark && m.column = 0) then
      skipSpace inFlow keyAllowed false (m.past c) rest
    else (keyAllowed, ⟨m, c :: rest⟩)

/-- The state before the next token, with the blocks closed that end there. -/
def toNext (s : TokenStream) : Except Fault TokenStream := do
  let (keyAllowed, cursor) := skipSpace s.inFlow s.keyAllowed false s.cursor.mark s.cursor.rest
  let s ← { s with keyAllowed := keyAllowed, cursor := cursor }.dropStaleKeys
  return s.closeTo (s.column + 1)

/-! ### Single tokens -/

/-- Reads a token that stands between documents, by closing all blocks. -/
def atDocumentLevel (s : TokenStream) : Except Fault TokenStream := (s.closeTo 0).beforeIndicator false

def flowStart (s : TokenStream) (t : Token) : Except Fault TokenStream := do
  let s ← s.saveKey
  return { s.emitNext t 1 with pending := none, outer := s.pending :: s.outer, keyAllowed := true }

def flowEnd (s : TokenStream) (t : Token) : Except Fault TokenStream := do
  let s ← s.beforeIndicator false
  return (match s.outer with
    | k :: rest => { s with pending := k, outer := rest }
    | [] => s).emitNext t 1

def blockEntry (s : TokenStream) : Except Fault TokenStream := do
  if !s.inFlow && !s.keyAllowed then .error .misplacedEntry
  else
    let s ← (s.openBlock s.column s.tokens.size .blockSequenceStart).beforeIndicator true
    return s.emitNext .blockEntry 1

def explicitKey (s : TokenStream) : Except Fault TokenStream := do
  if !s.inFlow && !s.keyAllowed then .error .misplacedKey
  else
    let s ← (s.openBlock s.column s.tokens.size .blockMappingStart).beforeIndicator !s.inFlow
    return s.emitNext .key 1

/-- A colon.  If a key has been remembered, this is where it turns out to be one. -/
def value (s : TokenStream) : Except Fault TokenStream :=
  match s.pending with
  | some k =>
    let s := { s with tokens := s.tokens.insertIdxIfInBounds k.place .key }
    let s := s.openBlock k.mark.column k.place .blockMappingStart
    .ok ({ s with pending := none, keyAllowed := false }.emitNext .value 1)
  | none =>
    if !s.inFlow && !s.keyAllowed then .error .misplacedValue
    else
      let s := s.openBlock s.column s.tokens.size .blockMappingStart
      .ok ({ s with keyAllowed := !s.inFlow }.emitNext .value 1)

def anchor (s : TokenStream) (make : Text → Token) : Except Fault TokenStream := do
  let s ← s.beforeNode
  let (name, after) ← readAnchorName s.cursor
  return s.emitRead (make name, after)

def tag (s : TokenStream) : Except Fault TokenStream := do
  let s ← s.beforeNode
  let (t, after) ← readTag s.cursor
  if startsBlank after.rest || (s.inFlow && after.rest.head? == some ',') then return s.emitRead (t, after)
  else .error .badTag

def blockScalar (s : TokenStream) (folded : Bool) : Except Fault TokenStream := do
  let s ← s.beforeIndicator true
  let (header, c) ← readBlockHeader s.cursor.forward
  let c ← c.endLine .badBlockHeader
  let start : BlockState := { indent := header.increment.map (s.margin - 1 + ·) }
  let (block, after) ← readBlock folded s.margin start c.mark c.rest
  return s.emitRead (.scalar (if folded then .folded else .literal) (block.finish header.chomping), after)

def quotedScalar (s : TokenStream) (style : Style) (read : Gap → Text → Mark → Text → Except Fault ScalarRead) :
    Except Fault TokenStream := do
  let s ← s.beforeNode
  let c := s.cursor.forward
  let r ← read {} [] c.mark c.rest
  return s.emitRead (.scalar style r.value, r.after)

def plainScalar (s : TokenStream) : Except Fault TokenStream := do
  let s ← s.beforeNode
  let r ← readPlain s.inFlow s.margin {} [] s.cursor.mark s.cursor.rest
  return { s.emitRead (.scalar .plain r.value, r.after) with keyAllowed := r.broken }

/-- The characters that cannot start a plain scalar, apart from `-`, `?` and `:`. -/
def isIndicator (c : Char) : Bool := ",[]\x7b\x7d#&*!|>'\"%@`".toList.contains c

/-- May a plain scalar start with `c`, with `rest` behind it? -/
def startsPlain (inFlow : Bool) (c : Char) (rest : Text) : Bool :=
  if c == '-' then !rest.head?.any isSpace
  else if c == '?' || c == ':' then !inFlow && !startsBlank rest
  else !isSpace c && !isBreak c && !isIndicator c

/-- Reads one token. -/
def next (s : TokenStream) (c : Char) (rest : Text) : Except Fault TokenStream := do
  if s.column = 0 && c == '%' then
    let s ← s.atDocumentLevel
    return s.emitRead (← readDirective s.cursor)
  else if s.column = 0 && startsDocumentMark (c :: rest) then
    return (← s.atDocumentLevel).emitNext (if c == '-' then .documentStart else .documentEnd) 3
  else if c == '[' then s.flowStart .flowSequenceStart
  else if c == '\x7b' then s.flowStart .flowMappingStart
  else if c == ']' then s.flowEnd .flowSequenceEnd
  else if c == '\x7d' then s.flowEnd .flowMappingEnd
  else if c == ',' then return (← s.beforeIndicator true).emitNext .flowEntry 1
  else if c == '-' && startsBlank rest then s.blockEntry
  else if c == '?' && (s.inFlow || startsBlank rest) then s.explicitKey
  else if c == ':' && (s.inFlow || startsBlank rest) then s.value
  else if c == '*' then s.anchor .alias
  else if c == '&' then s.anchor .anchor
  else if c == '!' then s.tag
  else if c == '|' && !s.inFlow then s.blockScalar false
  else if c == '>' && !s.inFlow then s.blockScalar true
  else if c == '\'' then s.quotedScalar .single readSingle
  else if c == '"' then s.quotedScalar .double readDouble
  else if startsPlain s.inFlow c rest then s.plainScalar
  else .error .unknownCharacter

/-- Reads all tokens.  Every turn takes at least one character, so that the length of the text is fuel enough. -/
def run : Nat → TokenStream → Except Fault TokenStream
  | 0, _ => .error .nestingTooDeep
  | fuel + 1, s => do
    let s ← s.toNext
    match s.cursor.rest with
    | [] => s.atDocumentLevel
    | c :: rest => run fuel (← s.next c rest)

end TokenStream

/-- The tokens of a text. -/
def Token.ofText (t : Text) : Except Fault (List Token) := do
  let body ← prepare t
  let s ← TokenStream.run (body.length + 1) { cursor := ⟨{}, body⟩ }
  return s.tokens.toList

end ScriptLint.Yaml
