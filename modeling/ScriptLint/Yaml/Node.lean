import ScriptLint.Yaml.Token

/-!
# Nodes

The tree of a YAML document.  An alias points to an anchor by its number.

The number of an anchor is the number of distinct anchor names before it.  A name that is given again therefore
shares its number with the next new name, and an alias stands for the last node of its number.
-/

namespace ScriptLint.Yaml

/-- What may be said in front of a node. -/
structure Properties where
  anchor : Option Nat := none
  tag : Option Text := none
  deriving DecidableEq

inductive Node where
  | alias (anchor : Nat)
  | scalar (properties : Properties) (style : Style) (value : Text)
  | sequence (properties : Properties) (items : List Node)
  | mapping (properties : Properties) (entries : List (Node × Node))
  deriving Inhabited

namespace Node

/-- The node that stands where nothing is written. -/
def empty : Node := .scalar {} .plain []

/-- A node together with its number, if it has one. -/
def numbered (p : Properties) (n : Node) : List (Nat × Node) := (p.anchor.map fun i => (i, n)).toList

mutual

/-- The nodes that have anchors, in the order of the text. -/
def anchored : Node → List (Nat × Node)
  | .alias _ => []
  | .scalar p style value => numbered p (.scalar p style value)
  | .sequence p items => numbered p (.sequence p items) ++ anchoredItems items
  | .mapping p entries => numbered p (.mapping p entries) ++ anchoredEntries entries

def anchoredItems : List Node → List (Nat × Node)
  | [] => []
  | n :: rest => anchored n ++ anchoredItems rest

def anchoredEntries : List (Node × Node) → List (Nat × Node)
  | [] => []
  | (k, v) :: rest => anchored k ++ anchored v ++ anchoredEntries rest

end

end Node

/-! ### Reading nodes from tokens -/

/-- What has been read of a document. -/
structure NodeState where
  tokens : List Token
  /-- The tag handles and what they stand for, the first one first. -/
  handles : List (Text × Text)
  /-- The anchor names and their numbers, the last one first. -/
  names : List (Text × Nat) := []

abbrev NodeReader := StateT NodeState (Except Fault)

namespace NodeReader

def fault {α : Type} (f : Fault) : NodeReader α := throw f

def peek : NodeReader (Option Token) := return (← get).tokens.head?

def skip : NodeReader Unit := modify fun s => { s with tokens := s.tokens.tail }

/-- Is the next token one of these?  At the end there is none. -/
def nextIn (ts : List Token) : NodeReader Bool := return (← peek).any ts.contains

/-- The text of a tag. -/
def resolveTag (handle suffix : Text) : NodeReader Text := do
  if handle.isEmpty then return suffix
  else
    match (← get).handles.lookup handle with
    | some stem => return stem ++ suffix
    | none => fault .unknownTagHandle

/-- Gives an anchor name its number. -/
def number (name : Text) : NodeReader Nat := do
  let names := (← get).names
  let n := (names.map Prod.fst).eraseDups.length
  modify fun s => { s with names := (name, n) :: names }
  return n

/-- Reads an anchor, if there is one. -/
def anchor? : NodeReader (Option Nat) := do
  match ← peek with
  | some (.anchor name) =>
    skip
    return some (← number name)
  | _ => return none

/-- Reads a tag, if there is one. -/
def tag? : NodeReader (Option Text) := do
  match ← peek with
  | some (.tag handle suffix) =>
    skip
    return some (← resolveTag handle suffix)
  | _ => return none

/-- Reads an anchor and a tag in either order. -/
def properties : NodeReader Properties := do
  match ← anchor? with
  | some n => return ⟨some n, ← tag?⟩
  | none =>
    match ← tag? with
    | some t => return ⟨← anchor?, some t⟩
    | none => return {}

/-- A node of which only the properties are written, if any are. -/
def bare (p : Properties) : NodeReader Node :=
  if p = {} then fault .missingContent else return .scalar p .plain []

mutual

/-- Reads a node.  Outside flow collections (`inBlock`) it may be a block, and behind a key or a colon
(`indentless`) a sequence whose entries are not indented. -/
def node (fuel : Nat) (inBlock indentless : Bool) : NodeReader Node :=
  match fuel with
  | 0 => fault .nestingTooDeep
  | fuel + 1 => do
    match ← peek with
    | some (.alias name) =>
      skip
      match (← get).names.lookup name with
      | some n => return .alias n
      | none => fault .unknownAlias
    | _ =>
      let p ← properties
      match ← peek with
      | some (.scalar style value) =>
        skip
        return .scalar p style value
      | some .flowSequenceStart =>
        skip
        return .sequence p (← flowItems fuel true)
      | some .flowMappingStart =>
        skip
        return .mapping p (← flowEntries fuel true)
      | some .blockEntry =>
        if indentless then return .sequence p (← indentlessItems fuel) else bare p
      | some .blockSequenceStart =>
        if inBlock then
          skip
          return .sequence p (← blockItems fuel)
        else bare p
      | some .blockMappingStart =>
        if inBlock then
          skip
          return .mapping p (← blockEntries fuel)
        else bare p
      | _ => bare p

/-- Reads a node, or the empty one if one of the given tokens comes next. -/
def nodeUnless (fuel : Nat) (ts : List Token) (inBlock indentless : Bool) : NodeReader Node :=
  match fuel with
  | 0 => fault .nestingTooDeep
  | fuel + 1 => do
    if ← nextIn ts then return .empty else node fuel inBlock indentless

/-- Reads the entries of a block sequence. -/
def blockItems (fuel : Nat) : NodeReader (List Node) :=
  match fuel with
  | 0 => fault .nestingTooDeep
  | fuel + 1 => do
    match ← peek with
    | some .blockEntry =>
      skip
      let item ← nodeUnless fuel [.blockEntry, .blockEnd] true false
      return item :: (← blockItems fuel)
    | some .blockEnd =>
      skip
      return []
    | _ => fault .missingEntry

/-- Reads the entries of a sequence that is not indented. -/
def indentlessItems (fuel : Nat) : NodeReader (List Node) :=
  match fuel with
  | 0 => fault .nestingTooDeep
  | fuel + 1 => do
    match ← peek with
    | some .blockEntry =>
      skip
      let item ← nodeUnless fuel [.blockEntry, .key, .value, .blockEnd] true false
      return item :: (← indentlessItems fuel)
    | _ => return []

/-- Reads the entries of a block mapping. -/
def blockEntries (fuel : Nat) : NodeReader (List (Node × Node)) :=
  match fuel with
  | 0 => fault .nestingTooDeep
  | fuel + 1 => do
    match ← peek with
    | some .key =>
      skip
      let key ← nodeUnless fuel [.key, .value, .blockEnd] true true
      let value ← valueUnless fuel [.key, .value, .blockEnd] true
      return (key, value) :: (← blockEntries fuel)
    | some .blockEnd =>
      skip
      return []
    | _ => fault .missingKey

/-- Reads a colon and the node behind it, or the empty node if there is no colon. -/
def valueUnless (fuel : Nat) (ts : List Token) (inBlock : Bool) : NodeReader Node :=
  match fuel with
  | 0 => fault .nestingTooDeep
  | fuel + 1 => do
    if ← nextIn [.value] then
      skip
      nodeUnless fuel ts inBlock inBlock
    else return .empty

/-- Reads the items of a flow sequence; a key starts a mapping with one entry. -/
def flowItems (fuel : Nat) (first : Bool) : NodeReader (List Node) :=
  match fuel with
  | 0 => fault .nestingTooDeep
  | fuel + 1 => do
    if ← nextIn [.flowSequenceEnd] then
      skip
      return []
    else if !first && !(← nextIn [.flowEntry]) then fault .missingFlowEnd
    else
      if !first then skip
      match ← peek with
      | some .key =>
        skip
        let key ← singleKey fuel
        let value ← valueUnless fuel [.flowEntry, .flowSequenceEnd] false
        return .mapping {} [(key, value)] :: (← flowItems fuel false)
      | some .flowSequenceEnd =>
        skip
        return []
      | _ =>
        let item ← node fuel false false
        return item :: (← flowItems fuel false)

/-- Reads the key of a mapping with one entry.  Where there is none, the token in its place is passed over. -/
def singleKey (fuel : Nat) : NodeReader Node :=
  match fuel with
  | 0 => fault .nestingTooDeep
  | fuel + 1 => do
    if ← nextIn [.value, .flowEntry, .flowSequenceEnd] then
      skip
      return .empty
    else node fuel false false

/-- Reads the entries of a flow mapping; a node without a key indicator has the empty node as value. -/
def flowEntries (fuel : Nat) (first : Bool) : NodeReader (List (Node × Node)) :=
  match fuel with
  | 0 => fault .nestingTooDeep
  | fuel + 1 => do
    if ← nextIn [.flowMappingEnd] then
      skip
      return []
    else if !first && !(← nextIn [.flowEntry]) then fault .missingFlowEnd
    else
      if !first then skip
      match ← peek with
      | some .key =>
        skip
        let key ← nodeUnless fuel [.value, .flowEntry, .flowMappingEnd] false false
        let value ← valueUnless fuel [.flowEntry, .flowMappingEnd] false
        return (key, value) :: (← flowEntries fuel false)
      | some .flowMappingEnd =>
        skip
        return []
      | _ =>
        let key ← node fuel false false
        return (key, .empty) :: (← flowEntries fuel false)

end

end NodeReader

end ScriptLint.Yaml
