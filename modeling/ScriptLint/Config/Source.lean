import ScriptLint.Config.Basic

/-!
# Configuration texts

The format of a configuration text is known to a reader of its own.  What holds for every reader stands here: a
text of blanks is the default configuration, without the reader being asked, and the language of a configuration is
checked.
-/

namespace ScriptLint

/-- A reader of configuration texts, which refuses a text in words of its own. -/
abbrev ConfigReader := Text → Except String Config

/-- Why a configuration cannot be had from a text. -/
inductive ConfigError where
  /-- What the reader says. -/
  | malformed (message : String)
  | unusable (fault : LanguageFault)
  deriving DecidableEq

namespace Config

/-- The configuration that a text gives, before its language is checked. -/
def parse (reader : ConfigReader) (t : Text) : Except String Config :=
  if t.trim.isEmpty then .ok {} else reader t

/-- The configuration that a text gives; its language is checked. -/
def ofText (reader : ConfigReader) (t : Text) : Except ConfigError Config :=
  match parse reader t with
  | .error message => .error (.malformed message)
  | .ok c =>
    match c.language.fault? with
    | none => .ok c
    | some f => .error (.unusable f)

end Config

end ScriptLint
