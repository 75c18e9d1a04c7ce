/-!
# Errors of the host

A request that the host could not fulfil: the kind of obstacle and its wording. Most come from the
numbered errors of the operating system.
-/

namespace HostScript

/-- The kind of an obstacle. -/
inductive HostError.Kind where
  | notFound
  | permissionDenied
  | invalidInput
  | notADirectory
  | interrupted
  | other
deriving DecidableEq, Repr

/-- Why the host could not fulfil a request. -/
structure HostError where
  kind : HostError.Kind
  message : String
deriving DecidableEq, Repr

namespace HostError

/-- The wording of a kind where nothing more is known. -/
def Kind.message : Kind → String
  | .notFound => "entity not found"
  | .permissionDenied => "permission denied"
  | .invalidInput => "invalid input parameter"
  | .notADirectory => "not a directory"
  | .interrupted => "operation interrupted"
  | .other => "other error"

/-- The error of which only the kind is known. -/
def ofKind (kind : Kind) : HostError := ⟨kind, kind.message⟩

/-- The wordings of the operating system's errors from number 1 on. -/
def numberedMessages : List String :=
  ["Operation not permitted", "No such file or directory", "No such process",
    "Interrupted system call", "Input/output error", "No such device or address",
    "Argument list too long", "Exec format error", "Bad file descriptor", "No child processes",
    "Resource temporarily unavailable", "Cannot allocate memory", "Permission denied",
    "Bad address", "Block device required", "Device or resource busy", "File exists",
    "Invalid cross-device link", "No such device", "Not a directory", "Is a directory",
    "Invalid argument", "Too many open files in system", "Too many open files",
    "Inappropriate ioctl for device", "Text file busy", "File too large",
    "No space left on device", "Illegal seek", "Read-only file system", "Too many links",
    "Broken pipe", "Numerical argument out of domain", "Numerical result out of range",
    "Resource deadlock avoided", "File name too long", "No locks available",
    "Function not implemented", "Directory not empty", "Too many levels of symbolic links"]

/-- The wording of the operating system's error with a number. -/
def numberedMessage : Int → String
  | .ofNat (n + 1) =>
    match numberedMessages[n]? with
    | some message => message
    | none => "Unknown error " ++ toString (n + 1)
  | .ofNat 0 => "Success"
  | .negSucc n => "Unknown error -" ++ toString (n + 1)

/-- The kind of the operating system's error with a number. -/
def numberedKind (number : Int) : Kind :=
  if number = 2 then .notFound
  else if number = 1 ∨ number = 13 then .permissionDenied
  else if number = 22 then .invalidInput
  else if number = 20 then .notADirectory
  else if number = 4 then .interrupted
  else .other

/-- The operating system's error with a number. -/
def ofNumber (number : Int) : HostError :=
  ⟨numberedKind number,
    numberedMessage number ++ " (os error " ++ toString number ++ ")"⟩

/-- No such file or directory. -/
def missing : HostError := ofNumber 2

/-- Permission denied. -/
def denied : HostError := ofNumber 13

/-- Is a directory. -/
def isADirectory : HostError := ofNumber 21

/-- A NUL character in a file name. -/
def nulInName : HostError := ⟨.invalidInput, "file name contained an unexpected NUL byte"⟩

end HostError

end HostScript
