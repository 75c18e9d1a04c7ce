import HostScript.Host.ArgVector
import HostScript.Machine.FileTree

/-!
# What processes work on

The files, a working directory, variables and standard input. Processes share the files and the
input; the working directory and the variables each process has for itself.
-/

namespace HostScript

/-- What a process works on. -/
structure System where
  tree : FileTree := .usual
  workingDir : Location := []
  /-- The serial number of the working directory. -/
  workingSerial : Nat := 0
  environment : List (String × String) := []
  /-- What has not been read of standard input. -/
  input : String := ""

/-- What a process leaves when it ends, and what it wrote. -/
structure Ending where
  outcome : ProcessOutcome
  system : System
  output : String := ""
  errors : String := ""

namespace System

/-- The system after a process that it started. -/
def after (s ended : System) : System := { s with tree := ended.tree, input := ended.input }

/-! ## Paths -/

/-- Whether the working directory still exists. -/
def workingDirExists (s : System) : Bool :=
  s.tree.node? s.workingDir = some (.directory s.workingSerial)

/-- The path of a location. -/
def pathOf (place : Location) : String := "/" ++ "/".intercalate place

/-- The file that a path leads to. Out of a removed working directory the only way is up. -/
def resolve (s : System) (path : String) : Except FileError (Location × FileNode) :=
  let parts := path.splitOn "/"
  if path = "" then .error .missing
  else if parts.head? = some "" then s.tree.walk [] parts
  else if s.workingDirExists then s.tree.walk s.workingDir parts
  else match parts.dropWhile fun part => part = "" || part = "." with
    | ".." :: rest => s.tree.walk s.workingDir.dropLast rest
    | [] => .ok (s.workingDir, .directory s.workingSerial)
    | _ => .error .missing

/-- Makes a directory the working directory. -/
def enter (s : System) (path : String) : Except FileError System :=
  match s.resolve path with
  | .ok (place, .directory serial) => .ok { s with workingDir := place, workingSerial := serial }
  | .ok _ => .error .notADirectory
  | .error e => .error e

/-- The path of the working directory. -/
def workingPath (s : System) : Except FileError String :=
  if s.workingDirExists then .ok (pathOf s.workingDir) else .error .missing

/-! ## Programs -/

/-- Where programs are looked for if no variable says so. -/
def usualSearchPath : String := "/usr/local/bin:/usr/bin:/bin"

/-- The name of the program at a path. -/
def programAt (s : System) (path : String) : Except FileError String :=
  match s.resolve path with
  | .ok (place, .program) => .ok (place.getLastD "")
  | .ok _ => .error .denied
  | .error e => .error e

/-- The program that a command's first word names: a path if it has a slash, otherwise a name to
be searched for. -/
def findProgram (s : System) (word : String) : Except FileError String :=
  if word.toList.contains '/' then s.programAt word
  else
    let dirs := ((s.environment.lookup "PATH").getD usualSearchPath).splitOn ":"
    let found := dirs.findSome? fun dir => (s.programAt (dir ++ "/" ++ word)).toOption
    match found with
    | some program => .ok program
    | none => .error .missing

end System

end HostScript
