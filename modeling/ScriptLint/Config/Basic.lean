import ScriptLint.Config.Rules
import ScriptLint.Language.Fault

/-!
# Configurations

A configuration is a language together with rules; what is not said is Lua with every rule on.
-/

namespace ScriptLint

structure Config where
  language : Language := .lua
  rules : Rules := {}
  deriving DecidableEq

end ScriptLint
