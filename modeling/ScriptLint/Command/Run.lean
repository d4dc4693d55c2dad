import ScriptLint.Command.Arguments
import ScriptLint.Command.Host
import ScriptLint.Config.Source
import ScriptLint.Linter

/-!
# Runs

A run loads its configuration, reads all its inputs in order, and only then lints and reports.  A run that fails
writes no report; a run that reports says by its status whether the reports count as a failure.  How a
configuration is written is left to the reader that the run is given.
-/

namespace ScriptLint

/-- What a call leaves behind. -/
structure Outcome where
  status : Nat
  stdout : String := ""
  stderr : String := ""
  deriving DecidableEq

/-- Why a configuration file cannot be used. -/
inductive LoadError where
  | unreadable (error : ReadError)
  | rejected (error : ConfigError)
  deriving DecidableEq

/-- Why a run fails. -/
inductive RunError where
  | config (path : String) (error : LoadError)
  /-- The configuration has no usable language. -/
  | language (fault : LanguageFault)
  | input (path : String) (error : ReadError)
  | stdin (error : ReadError)
  deriving DecidableEq

/-- A cause said twice: within the words for its kind, and on its own. -/
def saidTwice (kind cause : String) : String := kind ++ ": " ++ cause ++ ": " ++ cause

def LanguageFault.longMessage (e : LanguageFault) : String := saidTwice "invalid language configuration" e.message

def LoadError.message : LoadError → String
  | unreadable e => saidTwice "I/O error" e.message
  | rejected (.malformed m) => saidTwice "YAML parse error" m
  | rejected (.unusable e) => e.longMessage

def RunError.message : RunError → String
  | config path e => "failed to load configuration from " ++ path ++ ": " ++ e.message
  | language e => "invalid configuration: " ++ e.longMessage
  | input path e => "failed to read " ++ path ++ ": " ++ e.message
  | stdin e => "failed to read standard input: " ++ e.message

namespace Command

/-- Where a configuration is looked for if none is named. -/
def defaultConfigPath : String := "./lua-lint.yaml"

/-- The file that the configuration is read from, if it is read from one. -/
def configPath? (c : Command) (h : Host) : Option String :=
  match c.config with
  | some path => some path
  | none => if h.hasFile defaultConfigPath then some defaultConfigPath else none

def readConfig (reader : ConfigReader) (h : Host) (path : String) : Except LoadError Config :=
  match h.readText path with
  | .error e => .error (.unreadable e)
  | .ok text =>
    match Config.ofText reader text with
    | .error e => .error (.rejected e)
    | .ok config => .ok config

def loadConfig (c : Command) (reader : ConfigReader) (h : Host) : Except RunError Config :=
  match c.configPath? h with
  | none => .ok {}
  | some path =>
    match readConfig reader h path with
    | .error e => .error (.config path e)
    | .ok config => .ok config

/-- The name of standard input as an argument. -/
def stdinArgument : String := "-"

/-- The name of standard input in reports. -/
def stdinLabel : String := "<stdin>"

/-- An input with the name that reports give it. -/
structure Input where
  label : String
  text : Text
  deriving DecidableEq

/-- Reads the inputs that arguments name, where `stdin` is what is left of standard input.  The first one that
names standard input takes all of it. -/
def readInputs (h : Host) (stdin : Except ReadError ByteArray) : List String → Except RunError (List Input)
  | [] => .ok []
  | path :: rest =>
    if path = stdinArgument then
      match stdin >>= decodeText with
      | .error e => .error (.stdin e)
      | .ok text => (⟨stdinLabel, text⟩ :: ·) <$> readInputs h (.ok .empty) rest
    else
      match h.readText path with
      | .error e => .error (.input path e)
      | .ok text => (⟨path, text⟩ :: ·) <$> readInputs h stdin rest

/-- The inputs of a command; with no files there is standard input alone. -/
def inputs (c : Command) (h : Host) : Except RunError (List Input) :=
  readInputs h h.stdin (if c.files.isEmpty then [stdinArgument] else c.files)

def makeLinter (config : Config) : Except RunError Linter :=
  match Linter.ofConfig config with
  | .error e => .error (.language e)
  | .ok lt => .ok lt

/-- The reports of a run. -/
def reports (c : Command) (reader : ConfigReader) (h : Host) : Except RunError (List Report) := do
  let config ← c.loadConfig reader h
  let lt ← makeLinter config
  return (← c.inputs h).map fun i => ⟨i.label, lt.lint i.text⟩

def run (c : Command) (reader : ConfigReader) (h : Host) : Outcome :=
  match c.reports reader h with
  | .error e => { status := 2, stderr := "error: " ++ e.message ++ "\n" }
  | .ok rs => { status := if Report.isFailure rs c.denyWarnings then 1 else 0, stdout := Report.write c.format rs }

end Command

namespace Invocation

def versionText : String := "lua-lint 0.1.0\n"

def usageLine : String := "Usage: lua-lint [OPTIONS] [FILES]...\n"

def helpText : String :=
  "Structural linter for Lua source files\n\n" ++ usageLine ++ "
Arguments:
  [FILES]...  Files to lint; `-` or no files reads standard input

Options:
  -f, --format <FORMAT>  Output format [default: text] [possible values: text, json]
  -c, --config <CONFIG>  Configuration file (defaults to ./lua-lint.yaml when present)
      --deny-warnings    Treat warnings as failures
  -h, --help             Print help
  -V, --version          Print version
"

def run (i : Invocation) (reader : ConfigReader) (h : Host) : Outcome :=
  match i with
  | .lint c => c.run reader h
  | .version => { status := 0, stdout := versionText }
  | .help => { status := 0, stdout := helpText }
  | .misuse e => { status := 2, stderr := "error: " ++ e.message ++ "\n\n" ++ usageLine }

end Invocation

end ScriptLint
