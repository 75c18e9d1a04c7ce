/-!
# Shell scripts

What a shell script is made of: commands, whose words are made of characters and expansions, and
signs between the commands. Only this much of the language is read: quotes, parameters, the output
of a script, standard output sent to standard error, and the signs `;`, `&&` and `||`. A script that
uses anything else is refused. What an expansion gives is never split.

A script is read one character after the other (`Reading.step`).
-/

namespace HostScript.Shell

/-- A part of a word. -/
inductive Piece where
  | literal (c : Char)
  | parameter (name : List Char)
  | output (script : List Char)

/-- On which status of the command before it a command is run. -/
inductive Link where
  | always | onSuccess | onFailure

/-- A command; each word is a list of pieces. -/
structure Command where
  link : Link := .always
  words : List (List Piece) := []
  /-- Whether what the command writes goes to standard error. -/
  toErrors : Bool := false

/-- What signs of several characters mean. -/
inductive Sign where
  | next (link : Link)
  | toErrors

/-- What the next character belongs to. -/
inductive Mode where
  | text
  | singleQuoted
  /-- What comes after a dollar sign. -/
  | dollar
  /-- The name of a parameter, of which a part was read. -/
  | name (read : List Char)
  /-- A script whose output is taken, of which a part was read; so many parentheses are open. -/
  | script (depth : Nat) (read : List Char)
  /-- A sign of which some characters are to come. -/
  | sign (rest : List Char) (sign : Sign)

/-- What has been read of a script: the commands before the current one, the current one, and the
word in progress, if there is one. -/
structure Reading where
  mode : Mode := .text
  /-- Whether a double quote is open. -/
  isQuoted : Bool := false
  commands : List Command := []
  command : Command := {}
  word : Option (List Piece) := none

namespace Reading

/-- Adds to the word in progress, and goes on with text. -/
def add (r : Reading) (pieces : List Piece) : Reading :=
  { r with mode := .text, word := some (r.word.getD [] ++ pieces) }

/-- Ends the word in progress, if there is one. -/
def endWord (r : Reading) : Reading :=
  match r.word with
  | some word =>
    { r with word := none, command := { r.command with words := r.command.words ++ [word] } }
  | none => r

/-- Takes a sign, and goes on with text. -/
def take (r : Reading) (sign : Sign) : Reading :=
  let r := { r.endWord with mode := .text }
  match sign with
  | .next link => { r with commands := r.commands ++ [r.command], command := { link } }
  | .toErrors => { r with command := { r.command with toErrors := true } }

/-- One more character of the text. -/
def stepText (r : Reading) (c : Char) : Option Reading :=
  match c, r.isQuoted with
  | '"', _ => some { r.add [] with isQuoted := !r.isQuoted }
  | '$', _ => some { r with mode := .dollar }
  | '\\', _ => none
  | _, true => some (r.add [.literal c])
  | ' ', false | '\t', false => some r.endWord
  | '\n', false | ';', false => some (r.take (.next .always))
  | '&', false => some { r with mode := .sign ['&'] (.next .onSuccess) }
  | '|', false => some { r with mode := .sign ['|'] (.next .onFailure) }
  | '>', false => some { r with mode := .sign ['&', '2'] .toErrors }
  | '\'', false => some { r.add [] with mode := .singleQuoted }
  | '(', false | ')', false | '<', false => none
  | _, false => some (r.add [.literal c])

/-- One more character. -/
def step (r : Reading) (c : Char) : Option Reading :=
  match r.mode with
  | .text => r.stepText c
  | .singleQuoted =>
    some { r.add (if c = '\'' then [] else [.literal c]) with
      mode := if c = '\'' then .text else .singleQuoted }
  | .dollar =>
    if c = '(' then some { r with mode := .script 0 [] }
    else if c.isAlpha || c = '_' then some { r with mode := .name [c] }
    else if c.isDigit || ['?', '#', '$'].contains c then some (r.add [.parameter [c]])
    else none
  | .name read =>
    if c.isAlphanum || c = '_' then some { r with mode := .name (read ++ [c]) }
    else (r.add [.parameter read]).stepText c
  | .script depth read =>
    match c, depth with
    | ')', 0 => some (r.add [.output read])
    | ')', depth + 1 => some { r with mode := .script depth (read ++ [c]) }
    | '(', depth => some { r with mode := .script (depth + 1) (read ++ [c]) }
    | _, depth => some { r with mode := .script depth (read ++ [c]) }
  | .sign (d :: rest) sign =>
    if c ≠ d then none
    else if rest.isEmpty then some (r.take sign)
    else some { r with mode := .sign rest sign }
  | .sign [] _ => none

end Reading

/-- The commands of a script. -/
def commands? (script : List Char) : Option (List Command) := do
  let r ← (script ++ ['\n']).foldlM Reading.step {}
  match r.mode, r.isQuoted with
  | .text, false => pure r.commands
  | _, _ => none

end HostScript.Shell
