import HostScript.Machine.System
import HostScript.Number.Literal

/-!
# Tools

The small programs of a machine. Each one takes its arguments and ends with a status: 0 for success,
1 for failure, 2 for arguments that make no sense.
-/

namespace HostScript.Tool

/-- An ending that changes and writes nothing. -/
def status (number : UInt8) (s : System) : Ending := { outcome := .exited number, system := s }

/-- Applies an operation to each argument in turn; the status is 1 if any of them failed. -/
def forEach (failure : String) (operation : System → String → Except FileError System) :
    List String → System → Ending
  | [], s => status 0 s
  | path :: rest, s =>
    match operation s path with
    | .ok s => forEach failure operation rest s
    | .error e =>
      let ending := forEach failure operation rest s
      let complaint := failure ++ " '" ++ path ++ "': " ++ e.wording ++ "\n"
      { ending with outcome := .exited 1, errors := complaint ++ ending.errors }

/-! ## Directories -/

/-- Makes a directory in a directory. -/
def makeDirectory (s : System) (path : String) : Except FileError System :=
  match s.resolve path with
  | .ok _ => .error .taken
  | .error e =>
    match (path.splitOn "/").reverse.dropWhile (· = "") with
    | [] => .error e
    | name :: before =>
      match s.resolve ("/".intercalate (before.reverse ++ ["."])) with
      | .ok (place, .directory serial) =>
        -- A removed working directory is no place to make anything.
        if s.tree.node? place = some (.directory serial) then
          .ok { s with tree := s.tree.putDirectory (place ++ [name]) }
        else .error .missing
      | .ok _ => .error .notADirectory
      | .error e => .error e

/-- Makes a directory and those before it, if they are not there. -/
def makeDirectories (s : System) (path : String) : Except FileError System :=
  let parts := path.splitOn "/"
  (List.range' 1 parts.length).foldlM (fun s count => do
    let path := "/".intercalate (parts.take count)
    match s.resolve path with
    | .ok (_, .directory _) => pure s
    | _ => if path = "" then pure s else makeDirectory s path) s

/-- Removes a directory with nothing in it. -/
def removeDirectory (s : System) (path : String) : Except FileError System :=
  match s.resolve path with
  | .ok (place, .directory _) =>
    if place.isEmpty then .error .busy
    else if s.tree.isBare place then .ok { s with tree := s.tree.remove place }
    else .error .notEmpty
  | .ok _ => .error .notADirectory
  | .error e => .error e

/-! ## Conditions -/

/-- Whether a condition holds; none if it makes no sense. -/
def holds? (s : System) : List String → Option Bool
  | [] => some false
  | [word] => some (word ≠ "")
  | ["-n", word] => some (word ≠ "")
  | ["-z", word] => some (word = "")
  | ["-e", path] => some (s.resolve path).isOk
  | ["-d", path] => some (match s.resolve path with | .ok (_, .directory _) => true | _ => false)
  | [left, "=", right] => some (left = right)
  | [left, "!=", right] => some (left ≠ right)
  | [left, "-eq", right] => do
    pure ((← Integer.ofChars? left.toList) = (← Integer.ofChars? right.toList))
  | [left, "-ne", right] => do
    pure ((← Integer.ofChars? left.toList) ≠ (← Integer.ofChars? right.toList))
  | _ => none

/-! ## All tools -/

/-- Runs the tool with a name; some only end with success. -/
def run : String → List String → System → Ending
  | "false", _, s => status 1 s
  | "echo", words, s => { status 0 s with output := " ".intercalate words ++ "\n" }
  | "cat", _, s => { status 0 { s with input := "" } with output := s.input }
  | "pwd", _, s =>
    match s.workingPath with
    | .ok path => { status 0 s with output := path ++ "\n" }
    | .error e => { status 1 s with errors := "pwd: " ++ e.wording ++ "\n" }
  | "mkdir", "-p" :: paths, s => forEach "mkdir: cannot create directory" makeDirectories paths s
  | "mkdir", paths, s => forEach "mkdir: cannot create directory" makeDirectory paths s
  | "rmdir", paths, s => forEach "rmdir: failed to remove" removeDirectory paths s
  | "test", words, s =>
    match holds? s words with
    | some true => status 0 s
    | some false => status 1 s
    | none => status 2 s
  | _, _, s => status 0 s

end HostScript.Tool
