import ScriptLint.Json.Basic
import ScriptLint.Text.Basic

/-!
# The layout of JSON texts

JSON values are written with one item to a line, indented by two spaces for each level; empty arrays and objects
stay on their line.  Strings escape the quote, the backslash and the control characters, and nothing else.
-/

namespace ScriptLint

namespace Json

/-- A digit of base sixteen, in lower case. -/
def hexDigit (n : Nat) : Char := Nat.digitChar (n % 16)

/-- A character as it stands within a string. -/
def escapeChar (c : Char) : Text :=
  if c = '"' then ['\\', '"']
  else if c = '\\' then ['\\', '\\']
  else if c = '\x08' then ['\\', 'b']
  else if c = '\x0c' then ['\\', 'f']
  else if c = '\n' then ['\\', 'n']
  else if c = '\r' then ['\\', 'r']
  else if c = '\t' then ['\\', 't']
  else if c.toNat < 0x20 then ['\\', 'u', '0', '0', hexDigit (c.toNat / 16), hexDigit c.toNat]
  else [c]

def quote (s : Text) : Text := '"' :: s.flatMap escapeChar ++ ['"']

/-- A number with `places` digits behind the point. -/
def decimalText (mantissa : Int) (places : Nat) : Text :=
  let unit := Nat.pow 10 places
  let whole := Nat.toDigits 10 (mantissa.natAbs / unit)
  let part := Nat.toDigits 10 (mantissa.natAbs % unit)
  (if mantissa < 0 then ['-'] else []) ++ whole ++
    (if places = 0 then [] else '.' :: (List.replicate (places - part.length) '0' ++ part))

/-- The space before an item at a level. -/
def margin (level : Nat) : Text := List.replicate (2 * level) ' '

mutual

/-- The text of a value whose first line stands at the given level. -/
def layout (level : Nat) : Json → Text
  | .null => "null".toList
  | .bool b => if b then "true".toList else "false".toList
  | .natural n => Nat.toDigits 10 n
  | .decimal m p => decimalText m p
  | .string s => quote s.toList
  | .array [] => ['[', ']']
  | .array (j :: rest) =>
    '[' :: '\n' :: (margin (level + 1) ++ layout (level + 1) j ++ layoutItems (level + 1) rest) ++
      '\n' :: margin level ++ [']']
  | .object [] => ['\x7b', '\x7d']
  | .object ((key, j) :: rest) =>
    '\x7b' :: '\n' :: (margin (level + 1) ++ quote key.toList ++ ':' :: ' ' :: layout (level + 1) j ++
      layoutFields (level + 1) rest) ++ '\n' :: margin level ++ ['\x7d']

/-- The items of an array behind its first one. -/
def layoutItems (level : Nat) : List Json → Text
  | [] => []
  | j :: rest => ',' :: '\n' :: (margin level ++ layout level j ++ layoutItems level rest)

/-- The fields of an object behind its first one. -/
def layoutFields (level : Nat) : List (String × Json) → Text
  | [] => []
  | (key, j) :: rest =>
    ',' :: '\n' :: (margin level ++ quote key.toList ++ ':' :: ' ' :: layout level j ++ layoutFields level rest)

end

end Json

end ScriptLint
