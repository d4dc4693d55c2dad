import ScriptLint.Command.Run
import ScriptLint.Config.Yaml

/-!
# The program

Reads from the disk what the command asks for, runs it, and writes the outcome.
-/

namespace ScriptLint

/-- What the system says about a file that cannot be read. -/
def readErrorOf (e : IO.Error) : ReadError :=
  match e with
  | .noFileOrDirectory .. => .notFound
  | .inappropriateType _ code _ => if code = 21 then .isDirectory else .notDirectory
  | .invalidArgument _ 36 _ => .nameTooLong
  | .permissionDenied .. => .other "Permission denied (os error 13)"
  | e => .other (toString e)

/-- What an action reads, or why it cannot. -/
def tryRead (action : IO ByteArray) : IO (Except ReadError ByteArray) := do
  try
    return .ok (← action)
  catch e => return .error (readErrorOf e)

/-- Does reading show that there is a file?  A file may be there and not be readable. -/
def showsFile : Except ReadError ByteArray → Bool
  | .ok _ | .error (.other _) => true
  | .error _ => false

/-- The paths that a command may read. -/
def Command.paths (c : Command) : List String :=
  c.config.getD defaultConfigPath :: c.files.filter (· != stdinArgument)

/-- Does the command read standard input? -/
def Command.readsStdin (c : Command) : Bool := c.files.isEmpty || c.files.contains stdinArgument

/-- The machine as far as the command sees it. -/
def Command.host (c : Command) : IO Host := do
  let files ← c.paths.mapM fun (path : String) => return (path, ← tryRead (IO.FS.readBinFile path))
  let stdin ← if c.readsStdin then tryRead (do (← IO.getStdin).readBinToEnd) else pure (.ok .empty)
  let read (path : String) := (files.lookup path).getD (.error .notFound)
  return ⟨fun path => showsFile (read path), read, stdin⟩

def Invocation.host : Invocation → IO Host
  | .lint c => c.host
  | _ => return ⟨fun _ => false, fun _ => .error .notFound, .ok .empty⟩

end ScriptLint

open ScriptLint in
def main (args : List String) : IO UInt32 := do
  let call := Invocation.ofArguments args
  let outcome := call.run .yaml (← call.host)
  IO.print outcome.stdout
  IO.eprint outcome.stderr
  return outcome.status.toUInt32
