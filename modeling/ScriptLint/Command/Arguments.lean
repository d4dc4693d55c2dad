import ScriptLint.Report
import ScriptLint.Text.Basic

/-!
# Command-line arguments

What the arguments of a call ask for.  Options and files may be mixed; `--` ends the options.  An option takes its
value from the same argument (`-fjson`, `-f=json`, `--format=json`) or from the next one, and may be given only
once.  A request for the version or the help ends the reading, so that faults behind it are not seen.
-/

namespace ScriptLint

/-- A run of the linter over some inputs. -/
structure Command where
  /-- The inputs; with none, standard input is linted. -/
  files : List String := []
  format : Format := .text
  config : Option String := none
  denyWarnings : Bool := false
  deriving DecidableEq

/-- Why arguments cannot be understood. -/
inductive UsageError where
  | unknownOption (option : String)
  | missingValue (option : String)
  | unexpectedValue (option : String)
  | invalidValue (option value : String)
  | repeatedOption (option : String)
  | emptyFile
  deriving DecidableEq

def UsageError.message : UsageError → String
  | unknownOption o => "unexpected argument '" ++ o ++ "' found"
  | missingValue o => "a value is required for '" ++ o ++ "' but none was supplied"
  | unexpectedValue o => "unexpected value for '" ++ o ++ "' found; no more were expected"
  | invalidValue o v => "invalid value '" ++ v ++ "' for '" ++ o ++ "'"
  | repeatedOption o => "the argument '" ++ o ++ "' cannot be used multiple times"
  | emptyFile => "a value is required for '[FILES]...' but none was supplied"

/-- What a call asks for. -/
inductive Invocation where
  | lint (command : Command)
  | version
  | help
  | misuse (error : UsageError)
  deriving DecidableEq

namespace Arguments

/-- The options that take a value. -/
inductive ValueOption where
  | format | config
  deriving DecidableEq

def ValueOption.name : ValueOption → String
  | format => "--format"
  | config => "--config"

/-- What the arguments have said so far; the files are in reverse order. -/
structure Draft where
  files : List String := []
  format : Option Format := none
  config : Option String := none
  denyWarnings : Bool := false

def Draft.toCommand (d : Draft) : Command :=
  ⟨d.files.reverse, d.format.getD .text, d.config, d.denyWarnings⟩

/-- Gives an option its value. -/
def Draft.set (d : Draft) (o : ValueOption) (value : String) : Except UsageError Draft :=
  match o with
  | .format =>
    match Format.ofName? value with
    | none => .error (.invalidValue o.name value)
    | some f => if d.format.isSome then .error (.repeatedOption o.name) else .ok { d with format := some f }
  | .config =>
    if value.isEmpty then .error (.missingValue o.name)
    else if d.config.isSome then .error (.repeatedOption o.name)
    else .ok { d with config := some value }

def Draft.addFile (d : Draft) (file : String) : Except UsageError Draft :=
  if file.isEmpty then .error .emptyFile else .ok { d with files := file :: d.files }

/-- One argument by its form. -/
inductive Form where
  | terminator
  /-- `--name` or `--name=value` -/
  | long (name : String) (value : Option String)
  /-- `-x`, with all that follows the letter. -/
  | short (letter : Char) (attached : Text)
  | file

def Form.ofArgument (arg : String) : Form :=
  match arg.toList with
  | ['-', '-'] => .terminator
  | '-' :: '-' :: rest =>
    let name := String.ofList (rest.takeWhile (· != '='))
    match rest.dropWhile (· != '=') with
    | [] => .long name none
    | _ :: value => .long name (some (String.ofList value))
  | '-' :: letter :: attached => .short letter attached
  | _ => .file

/-- May the argument be the value of the option before it? -/
def isValue (arg : String) : Bool := arg == "-" || arg.toList.head? != some '-'

/-- What an argument does on its own. -/
inductive Effect where
  | stop (result : Invocation)
  | deny
  | give (option : ValueOption) (value : String)
  /-- The value is in the next argument. -/
  | await (option : ValueOption)
  | file
  | filesOnly

/-- An option that takes no value, given with or without one. -/
def flag (name : String) (value : Option String) (effect : Effect) : Effect :=
  if value.isSome then .stop (.misuse (.unexpectedValue name)) else effect

def effect (arg : String) : Effect :=
  match Form.ofArgument arg with
  | .terminator => .filesOnly
  | .file => .file
  | .long name value =>
    if name = "version" then flag "--version" value (.stop .version)
    else if name = "help" then flag "--help" value (.stop .help)
    else if name = "deny-warnings" then flag "--deny-warnings" value .deny
    else if name = "format" then value.elim (.await .format) (.give .format)
    else if name = "config" then value.elim (.await .config) (.give .config)
    else .stop (.misuse (.unknownOption ("--" ++ name)))
  | .short letter attached =>
    let value : Option String := match attached with
      | [] => none
      | '=' :: rest => some (String.ofList rest)
      | rest => some (String.ofList rest)
    if letter = 'V' then .stop .version
    else if letter = 'h' then .stop .help
    else if letter = 'f' then value.elim (.await .format) (.give .format)
    else if letter = 'c' then value.elim (.await .config) (.give .config)
    else .stop (.misuse (.unknownOption (String.ofList ['-', letter])))

/-- Reads arguments that are all files. -/
def readFiles (d : Draft) (args : List String) : Invocation :=
  match args.foldlM Draft.addFile d with
  | .ok d => .lint d.toCommand
  | .error e => .misuse e

def read (d : Draft) : List String → Invocation
  | [] => .lint d.toCommand
  | arg :: rest =>
    match effect arg with
    | .stop result => result
    | .filesOnly => readFiles d rest
    | .deny =>
      if d.denyWarnings then .misuse (.repeatedOption "--deny-warnings")
      else read { d with denyWarnings := true } rest
    | .file =>
      match d.addFile arg with
      | .ok d => read d rest
      | .error e => .misuse e
    | .give o value =>
      match d.set o value with
      | .ok d => read d rest
      | .error e => .misuse e
    | .await o =>
      match rest with
      | [] => .misuse (.missingValue o.name)
      | value :: rest =>
        if isValue value then
          match d.set o value with
          | .ok d => read d rest
          | .error e => .misuse e
        else .misuse (.missingValue o.name)

end Arguments

/-- What the arguments of a call ask for. -/
def Invocation.ofArguments (args : List String) : Invocation := Arguments.read {} args

end ScriptLint
