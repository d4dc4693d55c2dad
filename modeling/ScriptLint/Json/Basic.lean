/-!
# JSON values

Values of the JSON data format, and the ways in which records are read from them.  A record may be written as an
object, or as an array with the fields in order; fields that a record does not have are passed over.
-/

namespace ScriptLint

inductive Json where
  | null
  | bool (b : Bool)
  /-- A number that is written as an unsigned integer. -/
  | natural (n : Nat)
  /-- Any other number: the mantissa with its last `places` digits behind the point. -/
  | decimal (mantissa : Int) (places : Nat)
  | string (s : String)
  | array (items : List Json)
  | object (fields : List (String × Json))
  deriving Inhabited

namespace Json

/-- A character is written as a string that holds nothing else. -/
def char (c : Char) : Json := .string c.toString

/-! ### Reading -/

def bool? : Json → Option Bool
  | .bool b => some b
  | _ => none

/-- Reads an unsigned integer of at most 64 bits. -/
def word? : Json → Option Nat
  | .natural n => if n < UInt64.size then some n else none
  | _ => none

def string? : Json → Option String
  | .string s => some s
  | _ => none

def char? : Json → Option Char
  | .string s =>
    match s.toList with
    | [c] => some c
    | _ => none
  | _ => none

/-- Reads `null` as nothing, and anything else as `read` does. -/
def option? {α : Type} (read : Json → Option α) : Json → Option (Option α)
  | .null => some none
  | j => (read j).map some

def list? {α : Type} (read : Json → Option α) : Json → Option (List α)
  | .array items => items.mapM read
  | _ => none

/-- Reads one of the given things by its name: the name itself, or an object that has it as its only key, with
nothing behind it. -/
def named? {α : Type} (name : α → String) (things : List α) : Json → Option α
  | .string s => things.find? fun x => name x == s
  | .object [(s, .null)] => things.find? fun x => name x == s
  | _ => none

/-- The fields of a record whose fields have the given names in order. -/
def fields? (names : List String) : Json → Option (List (String × Json))
  | .object fields => some fields
  | .array items => if items.length ≤ names.length then some (names.zip items) else none
  | _ => none

/-- Reads a field that has to be there. -/
def field? {α : Type} (fields : List (String × Json)) (name : String) (read : Json → Option α) : Option α :=
  (fields.lookup name).bind read

/-- Reads a field that has the given value if it is not there. -/
def fieldD? {α : Type} (fields : List (String × Json)) (name : String) (value : α) (read : Json → Option α) :
    Option α :=
  match fields.lookup name with
  | none => some value
  | some j => read j

end Json

end ScriptLint
