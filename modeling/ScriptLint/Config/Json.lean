import ScriptLint.Config.Basic
import ScriptLint.Json.Basic

/-!
# Configurations as JSON

Every field is written.  A field that is not there is read as its default; only the escape character may be `null`,
which means that there is none.  Reading does not check whether the language is usable.
-/

namespace ScriptLint

namespace BracketPair

def toJson (p : BracketPair) : Json := .object [("open", .char p.opener), ("close", .char p.closer)]

def ofJson? (j : Json) : Option BracketPair := do
  let fields ← j.fields? ["open", "close"]
  return ⟨← Json.field? fields "open" Json.char?, ← Json.field? fields "close" Json.char?⟩

end BracketPair

namespace Language

def toJson (l : Language) : Json :=
  .object [("line_comment", .string (String.ofList l.commentToken)),
    ("string_delimiters", .array (l.quotes.map .char)),
    ("escape", l.escape.elim .null .char),
    ("brackets", .array (l.pairs.map BracketPair.toJson))]

def ofJson? (j : Json) : Option Language := do
  let fields ← j.fields? ["line_comment", "string_delimiters", "escape", "brackets"]
  return {
    commentToken := ← Json.fieldD? fields "line_comment" lua.commentToken fun j => j.string?.map String.toList
    quotes := ← Json.fieldD? fields "string_delimiters" lua.quotes (Json.list? Json.char?)
    escape := ← Json.fieldD? fields "escape" lua.escape (Json.option? Json.char?)
    pairs := ← Json.fieldD? fields "brackets" lua.pairs (Json.list? BracketPair.ofJson?) }

end Language

namespace Rules

def toJson (r : Rules) : Json :=
  .object [("unclosed_parameter_list", .bool r.wantsParameterEnd), ("missing_then", .bool r.wantsThen),
    ("missing_do", .bool r.wantsDo), ("unclosed_block_width", .natural r.blockWidth)]

def ofJson? (j : Json) : Option Rules := do
  let fields ← j.fields? ["unclosed_parameter_list", "missing_then", "missing_do", "unclosed_block_width"]
  let d : Rules := {}
  return {
    wantsParameterEnd := ← Json.fieldD? fields "unclosed_parameter_list" d.wantsParameterEnd Json.bool?
    wantsThen := ← Json.fieldD? fields "missing_then" d.wantsThen Json.bool?
    wantsDo := ← Json.fieldD? fields "missing_do" d.wantsDo Json.bool?
    blockWidth := ← Json.fieldD? fields "unclosed_block_width" d.blockWidth Json.word? }

end Rules

namespace Config

def toJson (c : Config) : Json := .object [("language", c.language.toJson), ("rules", c.rules.toJson)]

def ofJson? (j : Json) : Option Config := do
  let fields ← j.fields? ["language", "rules"]
  let d : Config := {}
  return {
    language := ← Json.fieldD? fields "language" d.language Language.ofJson?
    rules := ← Json.fieldD? fields "rules" d.rules Rules.ofJson? }

end Config

end ScriptLint
