import HostScript.Host.Error

/-!
# File trees

The files of a machine: directories, programs, devices and links, each at the list of names that
leads to it from the root. A directory has a serial number, so that a directory that was removed is
not mistaken for another one made later in the same place.
-/

namespace HostScript

/-- The names that lead from the root to a file. -/
abbrev Location := List String

/-- What is at a location. -/
inductive FileNode where
  | directory (serial : Nat)
  | program
  | device
  | link (target : Location)
deriving DecidableEq, Repr

/-- Why something cannot be done with a file. -/
inductive FileError where
  | missing
  | denied
  | busy
  | taken
  | notADirectory
  | notEmpty
deriving DecidableEq, Repr

/-- The number by which the operating system knows the error. -/
def FileError.number : FileError → Int
  | missing => 2
  | denied => 13
  | busy => 16
  | taken => 17
  | notADirectory => 20
  | notEmpty => 39

/-- How the operating system words the error. -/
def FileError.wording (e : FileError) : String := HostError.numberedMessage e.number

def FileError.hostError (e : FileError) : HostError := .ofNumber e.number

/-- The files of a machine. The root is always there. -/
structure FileTree where
  nodes : List (Location × FileNode) := []
  nextSerial : Nat := 1

namespace FileTree

/-- What is at a location. -/
def node? (t : FileTree) : Location → Option FileNode
  | [] => some (.directory 0)
  | place => t.nodes.lookup place

/-- Puts something at a location in place of what was there. -/
def put (t : FileTree) (place : Location) (node : FileNode) : FileTree :=
  { t with nodes := (place, node) :: t.nodes.filter (·.1 ≠ place) }

/-- Makes a new directory. -/
def putDirectory (t : FileTree) (place : Location) : FileTree :=
  { t.put place (.directory t.nextSerial) with nextSerial := t.nextSerial + 1 }

/-- Removes what is at a location. -/
def remove (t : FileTree) (place : Location) : FileTree :=
  { t with nodes := t.nodes.filter (·.1 ≠ place) }

/-- Whether nothing is below a location. -/
def isBare (t : FileTree) (place : Location) : Bool :=
  t.nodes.all fun (other, _) => other.length ≤ place.length || !place.isPrefixOf other

/-- Follows the parts of a path from a directory. Every part but the last must lead to a directory,
and a link is gone on from at its target. -/
def walk (t : FileTree) (place : Location) :
    List String → Except FileError (Location × FileNode)
  | [] =>
    match t.node? place with
    | some node => .ok (place, node)
    | none => .error .missing
  | part :: rest =>
    if part = "" ∨ part = "." then walk t place rest
    else if part = ".." then walk t place.dropLast rest
    else match t.node? (place ++ [part]) with
      | none => .error .missing
      | some (.directory _) => walk t (place ++ [part]) rest
      | some (.link target) => walk t target rest
      | some node => if rest.isEmpty then .ok (place ++ [part], node) else .error .notADirectory

/-! ## A usual tree -/

/-- The directories of a usual machine. -/
def usualDirectories : List Location :=
  [["dev"], ["etc"], ["home"], ["opt"], ["root"], ["tmp"], ["usr"], ["usr", "bin"], ["usr", "lib"],
    ["usr", "local"], ["usr", "local", "bin"], ["usr", "share"], ["var"], ["var", "tmp"]]

/-- The programs of a usual machine. -/
def usualPrograms : List String :=
  ["cat", "echo", "false", "mkdir", "pwd", "rmdir", "sh", "sleep", "test", "true"]

/-- The directories, programs, devices and links of a usual machine. -/
def usual : FileTree :=
  let t := usualDirectories.foldl putDirectory {}
  let t := usualPrograms.foldl (fun t name => t.put ["usr", "bin", name] .program) t
  let t := ["null", "zero"].foldl (fun t name => t.put ["dev", name] .device) t
  ["bin", "lib"].foldl (fun t name => t.put [name] (.link ["usr", name])) t

end FileTree

end HostScript
