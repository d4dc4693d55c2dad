import ScriptLint.Config.Source
import ScriptLint.Yaml.Document

/-!
# Configurations as YAML

A configuration file is one YAML document.  Records are mappings, and where nothing is written stands an empty one;
fields that are not there have their defaults, keys that no field has are passed over, and a field may be given
only once.  Texts and characters take any scalar by its text; switches and widths have to be plain.
-/

namespace ScriptLint

namespace Yaml

/-- Reads a node of a document as a value. -/
abbrev Reader (α : Type) := Document → Node → Except Fault α

namespace Reader

def fault {α : Type} : Except Fault α := .error .unexpectedForm

def ofOption {α : Type} : Option α → Except Fault α
  | some a => .ok a
  | none => fault

/-! ### Scalars -/

/-- The text of a scalar, however it is written. -/
def text : Reader Text := fun d n =>
  match d.resolve n with
  | .scalar _ _ value => .ok value
  | _ => fault

/-- A character is the only one of its scalar. -/
def char : Reader Char := fun d n => do
  match ← text d n with
  | [c] => return c
  | _ => fault

/-- The full name of a tag of the core kinds. -/
def coreTag (kind : String) : Text := ("tag:yaml.org,2002:" ++ kind).toList

/-- The text of a scalar that is plain, or a literal block with the tag of its kind. -/
def unquoted (kind : String) : Reader Text := fun d n =>
  match d.resolve n with
  | .scalar _ .plain value => .ok value
  | .scalar p .literal value => if p.tag = some (coreTag kind) then .ok value else fault
  | _ => fault

def boolOfText? (t : Text) : Option Bool :=
  if ["true", "True", "TRUE"].contains (String.ofList t) then some true
  else if ["false", "False", "FALSE"].contains (String.ofList t) then some false
  else none

def bool : Reader Bool := fun d n => do ofOption (boolOfText? (← unquoted "bool" d n))

/-- The value of a digit of the given base. -/
def digit? (base : Nat) (c : Char) : Option Nat :=
  (hexValue? c).filter (· < base)

/-- The value of a non-empty row of digits, if it has at most 64 bits. -/
def digits? (base : Nat) (t : Text) : Option Nat :=
  if t.isEmpty then none
  else
    (t.foldl (fun n c => n.bind fun n => (digit? base c).map fun d => base * n + d) (some 0)).filter
      (· < UInt64.size)

/-- Numbers may have a plus sign, and then a base mark `0x`, `0o` or `0b`; decimal ones have no zeros in front. -/
def wordOfText? (t : Text) : Option Nat :=
  match (match t with | '+' :: rest => rest | _ => t) with
  | '0' :: 'x' :: rest => digits? 16 rest
  | '0' :: 'o' :: rest => digits? 8 rest
  | '0' :: 'b' :: rest => digits? 2 rest
  | ['0'] => some 0
  | '0' :: _ => none
  | rest => digits? 10 rest

def word : Reader Nat := fun d n => do ofOption (wordOfText? (← unquoted "int" d n))

/-- The ways to write that there is nothing. -/
def isNullText (t : Text) : Bool := ["null", "Null", "NULL", "~"].contains (String.ofList t)

/-- Reads what may be nothing: a plain scalar that is empty or says so.  A tag, and also a lone `!`, makes a value of
any scalar, except the tag of nothing itself, which allows for no value. -/
def option {α : Type} (read : Reader α) : Reader (Option α) := fun d n =>
  match d.resolve n with
  | .scalar p .plain value =>
    match p.tag with
    | none => if value.isEmpty || isNullText value then .ok none else some <$> read d n
    | some t =>
      if t = coreTag "null" then if isNullText value then .ok none else fault else some <$> read d n
  | _ => some <$> read d n

/-! ### Collections -/

/-- Is the node one where nothing is written? -/
def isNothing : Node → Bool
  | .scalar _ .plain [] => true
  | _ => false

def list {α : Type} (read : Reader α) : Reader (List α) := fun d n =>
  match d.resolve n with
  | .sequence _ items => items.mapM (read d)
  | n => if isNothing n then .ok [] else fault

/-- The fields of a record with their names. -/
def fields : Reader (List (Text × Node)) := fun d n =>
  match d.resolve n with
  | .mapping _ entries => entries.mapM fun e => do return (← text d e.1, e.2)
  | n => if isNothing n then .ok [] else fault

/-- Reads a field, if it is there; it may not be there twice. -/
def field? {α : Type} (d : Document) (fs : List (Text × Node)) (name : String) (read : Reader α) :
    Except Fault (Option α) :=
  match fs.filter fun f => f.1 == name.toList with
  | [] => .ok none
  | [f] => some <$> read d f.2
  | _ => fault

/-- Reads a field that has the given value if it is not there. -/
def fieldD {α : Type} (d : Document) (fs : List (Text × Node)) (name : String) (value : α) (read : Reader α) :
    Except Fault α := do
  return (← field? d fs name read).getD value

/-- Reads a field that has to be there. -/
def field {α : Type} (d : Document) (fs : List (Text × Node)) (name : String) (read : Reader α) :
    Except Fault α := do
  ofOption (← field? d fs name read)

end Reader

end Yaml

open Yaml Yaml.Reader

def BracketPair.ofYaml : Reader BracketPair := fun d n => do
  let fs ← fields d n
  return ⟨← field d fs "open" char, ← field d fs "close" char⟩

def Language.ofYaml : Reader Language := fun d n => do
  let fs ← fields d n
  return {
    commentToken := ← fieldD d fs "line_comment" lua.commentToken text
    quotes := ← fieldD d fs "string_delimiters" lua.quotes (list char)
    escape := ← fieldD d fs "escape" lua.escape (option char)
    pairs := ← fieldD d fs "brackets" lua.pairs (list BracketPair.ofYaml) }

def Rules.ofYaml : Reader Rules := fun d n => do
  let fs ← fields d n
  let r : Rules := {}
  return {
    wantsParameterEnd := ← fieldD d fs "unclosed_parameter_list" r.wantsParameterEnd bool
    wantsThen := ← fieldD d fs "missing_then" r.wantsThen bool
    wantsDo := ← fieldD d fs "missing_do" r.wantsDo bool
    blockWidth := ← fieldD d fs "unclosed_block_width" r.blockWidth word }

namespace Config

def ofYaml : Reader Config := fun d n => do
  let fs ← fields d n
  let c : Config := {}
  return {
    language := ← fieldD d fs "language" c.language Language.ofYaml
    rules := ← fieldD d fs "rules" c.rules Rules.ofYaml }

/-- The configuration in a document. -/
def ofDocument (d : Document) : Except Fault Config :=
  match d.root with
  | none => .ok {}
  | some n => ofYaml d n

end Config

/-- The reader of YAML texts. -/
def ConfigReader.yaml : ConfigReader := fun t =>
  match Document.ofText t >>= Config.ofDocument with
  | .error f => .error f.message
  | .ok c => .ok c

end ScriptLint
