import ScriptLint.Text.Basic

/-!
# Hosts

What a run sees of the machine: which paths lead to files, what can be read there, and standard input.  A file tree
is a host whose files are all known, for runs that do not touch the disk.
-/

namespace ScriptLint

/-- Why something cannot be read. -/
inductive ReadError where
  | notFound
  | isDirectory
  | notDirectory
  | nameTooLong
  | notText
  | other (message : String)
  deriving DecidableEq

def ReadError.message : ReadError → String
  | notFound => "No such file or directory (os error 2)"
  | isDirectory => "Is a directory (os error 21)"
  | notDirectory => "Not a directory (os error 20)"
  | nameTooLong => "File name too long (os error 36)"
  | notText => "stream did not contain valid UTF-8"
  | other m => m

/-- The text that bytes encode. -/
def decodeText (bytes : ByteArray) : Except ReadError Text :=
  match String.fromUTF8? bytes with
  | some s => .ok s.toList
  | none => .error .notText

structure Host where
  /-- Is there a regular file at the path?  One that cannot be read is one nevertheless. -/
  hasFile : String → Bool
  /-- The bytes of the file at a path. -/
  read : String → Except ReadError ByteArray
  /-- All of standard input. -/
  stdin : Except ReadError ByteArray

namespace Host

def readText (h : Host) (path : String) : Except ReadError Text := h.read path >>= decodeText

end Host

/-! ### File trees -/

/-- Files and directories by their places, which are lists of names from the root down. -/
structure FileTree where
  files : List (List String × ByteArray)
  directories : List (List String)

namespace FileTree

def splitPath (path : String) : List String := (path.toList.splitOn '/').map String.ofList

/-- The place that a name leads to from a directory. -/
def walk (place : List String) (name : String) : List String :=
  if name = "" ∨ name = "." then place else if name = ".." then place.dropLast else place ++ [name]

/-- The places that names lead through, from a directory on. -/
def route (place : List String) : List String → List (List String)
  | [] => [place]
  | name :: rest => place :: route (walk place name) rest

/-- The tree with the given files and directories, in the order in which they are written; all directories on their
paths are there too. -/
def ofPaths (files : List (String × ByteArray)) (directories : List String) : FileTree where
  files := (files.map fun f => ((splitPath f.1).foldl walk [], f.2)).reverse
  directories :=
    directories.flatMap (fun d => route [] (splitPath d)) ++
      files.flatMap fun f => (route [] (splitPath f.1)).dropLast

def file? (t : FileTree) (place : List String) : Option ByteArray := t.files.lookup place

def hasDirectory (t : FileTree) (place : List String) : Bool :=
  place.isEmpty || t.directories.any (place.isPrefixOf ·) ||
    t.files.any fun f => place.isPrefixOf f.1 && place != f.1

/-- Where a path leads to. -/
inductive Target where
  | file (bytes : ByteArray)
  | directory (place : List String)
  /-- A directory that the tree is in. -/
  | outside

/-- What has the given name in a directory. -/
def child (t : FileTree) (place : List String) (name : String) : Except ReadError Target :=
  match t.file? (place ++ [name]) with
  | some bytes => .ok (.file bytes)
  | none => if t.hasDirectory (place ++ [name]) then .ok (.directory (place ++ [name])) else .error .notFound

/-- The largest number of octets of a name. -/
def maxName : Nat := 255

/-- The largest number of octets of a path. -/
def maxPath : Nat := 4095

/-- Takes one step of a path.  Outside the tree there is nothing but directories around it. -/
def step (t : FileTree) (target : Target) (name : String) : Except ReadError Target :=
  match target with
  | .file _ => .error .notDirectory
  | .outside =>
    if name = "" ∨ name = "." ∨ name = ".." then .ok .outside
    else .error (if maxName < name.utf8ByteSize then .nameTooLong else .notFound)
  | .directory place =>
    if name = "" ∨ name = "." then .ok (.directory place)
    else if name = ".." then .ok (if place.isEmpty then .outside else .directory place.dropLast)
    else if maxName < name.utf8ByteSize then .error .nameTooLong
    else t.child place name

/-- Follows a path from the root of the tree; a path that starts with a slash starts outside. -/
def find (t : FileTree) (path : String) : Except ReadError Target :=
  (splitPath path).foldlM t.step (if path.toList.head? == some '/' then .outside else .directory [])

def read (t : FileTree) (path : String) : Except ReadError ByteArray := do
  if maxPath < path.utf8ByteSize then throw .nameTooLong
  match ← t.find path with
  | .file bytes => return bytes
  | _ => .error .isDirectory

/-- The host that has these files. -/
def host (t : FileTree) (stdin : ByteArray) : Host := ⟨fun path => (t.read path).isOk, t.read, .ok stdin⟩

end FileTree

end ScriptLint
