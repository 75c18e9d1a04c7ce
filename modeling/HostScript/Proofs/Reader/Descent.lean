import HostScript.Reader.Basic

/-!
# Reading by descent

A script can also be read by functions that call each other: one reads a form, one the items of a
list up to its end, one a text, one an atom. They share a cursor, which keeps the position and
counts the forms that are being read, so a form inside too many others is refused before it is
begun. What is read carries the proof that the cursor went on, and so the calls come to an end.

Each of these functions has refusals of its own for what it does not expect: the end of the text in
the place of a form, another mark than the one that opens a list or a text, an atom without
characters.
-/

namespace HostScript.Reader

namespace Descent

/-! ## Refusals and cursors -/

/-- Why a text is refused by descent. -/
inductive Refusal where
  | fault (fault : Fault)
  | unexpectedEnd
  | expectedAtom
  | expected (c : Char)
deriving DecidableEq, Repr

def Refusal.message : Refusal → String
  | .fault f => f.message
  | .unexpectedEnd => "unexpected end of input"
  | .expectedAtom => "expected atom"
  | .expected c => "expected '" ++ String.ofList [c] ++ "'"

/-- Where the reader stands: the characters that are left, the byte at which they begin, and the
number of forms that are being read. -/
structure Cursor where
  rest : List Char
  position : Nat := 0
  depth : Nat := 0

/-- A place in the text after `cur`. -/
abbrev After (cur : Cursor) : Type := { next : Cursor // next.rest.length < cur.rest.length }

namespace Cursor

/-- The next character and the place after it. -/
def next? (cur : Cursor) : Option (Char × After cur) :=
  match h : cur.rest with
  | [] => none
  | c :: rest =>
    some (c, ⟨{ cur with rest, position := cur.position + c.utf8Size }, by simp [h]⟩)

mutual

/-- The cursor at the first character that is neither blank nor in a comment. -/
def skipFrom (depth position : Nat) : List Char → Cursor
  | [] => ⟨[], position, depth⟩
  | c :: rest =>
    if Text.isBlank c then skipFrom depth (position + c.utf8Size) rest
    else if c = ';' then skipComment depth (position + c.utf8Size) rest
    else ⟨c :: rest, position, depth⟩

/-- The same from inside a comment. -/
def skipComment (depth position : Nat) : List Char → Cursor
  | [] => ⟨[], position, depth⟩
  | c :: rest =>
    if c = '\n' then skipFrom depth (position + c.utf8Size) rest
    else skipComment depth (position + c.utf8Size) rest

end

/-- Goes past blanks and comments. -/
def skip (cur : Cursor) : Cursor := skipFrom cur.depth cur.position cur.rest

/-- `Skips cur next` says that `next` is no earlier than `cur`, with as many forms being read, and
that nothing is left to skip there. -/
structure Skips (cur next : Cursor) : Prop where
  length_le : next.rest.length ≤ cur.rest.length
  depth : next.depth = cur.depth
  head : ∀ c rest, next.rest = c :: rest → Text.isBlank c = false ∧ c ≠ ';'

mutual

theorem skips_skipFrom (depth position : Nat) (cs : List Char) :
    Skips ⟨cs, position, depth⟩ (skipFrom depth position cs) := by
  cases cs with
  | nil => exact ⟨Nat.le_refl _, rfl, by simp [skipFrom]⟩
  | cons c cs =>
    rw [skipFrom]
    split
    · have h := skips_skipFrom depth (position + c.utf8Size) cs
      exact ⟨Nat.le_succ_of_le h.length_le, h.depth, h.head⟩
    · next hblank =>
      split
      · have h := skips_skipComment depth (position + c.utf8Size) cs
        exact ⟨Nat.le_succ_of_le h.length_le, h.depth, h.head⟩
      · next hcomment =>
        refine ⟨Nat.le_refl _, rfl, fun d rest hd => ?_⟩
        obtain ⟨rfl, rfl⟩ := List.cons.inj hd
        exact ⟨by simpa using hblank, hcomment⟩

theorem skips_skipComment (depth position : Nat) (cs : List Char) :
    Skips ⟨cs, position, depth⟩ (skipComment depth position cs) := by
  cases cs with
  | nil => exact ⟨Nat.le_refl _, rfl, by simp [skipComment]⟩
  | cons c cs =>
    rw [skipComment]
    split
    · have h := skips_skipFrom depth (position + c.utf8Size) cs
      exact ⟨Nat.le_succ_of_le h.length_le, h.depth, h.head⟩
    · have h := skips_skipComment depth (position + c.utf8Size) cs
      exact ⟨Nat.le_succ_of_le h.length_le, h.depth, h.head⟩

end

theorem skips_skip (cur : Cursor) : Skips cur cur.skip :=
  skips_skipFrom cur.depth cur.position cur.rest

theorem length_skip_le (cur : Cursor) : cur.skip.rest.length ≤ cur.rest.length :=
  cur.skips_skip.length_le

end Cursor

/-! ## Results -/

/-- A refusal with its place, or what was read from `cur` on and the place after it. -/
abbrev Outcome (cur : Cursor) (α : Type) : Type := Except (Refusal × Cursor) (α × After cur)

namespace Outcome

variable {cur next : Cursor} {α β : Type}

/-- The same for a place that is no later. -/
def since (h : next.rest.length ≤ cur.rest.length) : Outcome next α → Outcome cur α
  | .error refusal => .error refusal
  | .ok (a, ⟨stop, hs⟩) => .ok (a, ⟨stop, Nat.lt_of_lt_of_le hs h⟩)

/-- Goes on from the place after what was read. -/
def bind (outcome : Outcome cur α) (f : α → (next : After cur) → Outcome next.1 β) :
    Outcome cur β :=
  match outcome with
  | .error refusal => .error refusal
  | .ok (a, next) => (f a next).since (Nat.le_of_lt next.2)

/-- Changes what was read. -/
def map (f : α → β) : Outcome cur α → Outcome cur β
  | .error refusal => .error refusal
  | .ok (a, next) => .ok (f a, next)

/-- Counts one form less, since it is no longer being read. -/
def leave (depth : Nat) : Outcome { cur with depth } α → Outcome cur α
  | .error (refusal, stop) => .error (refusal, { stop with depth := stop.depth - 1 })
  | .ok (a, ⟨next, h⟩) => .ok (a, ⟨{ next with depth := next.depth - 1 }, h⟩)

end Outcome

/-! ## Parts of scripts -/

/-- Goes past the next character, which has to be the given one. -/
def expect (c : Char) (cur : Cursor) : Outcome cur Unit :=
  match cur.next? with
  | none => .error (.expected c, cur)
  | some (d, next) => if d = c then .ok ((), next) else .error (.expected c, cur)

/-- Reads the rest of a text. Its characters so far come latest first. -/
def text (read : List Char) (cur : Cursor) : Outcome cur Expr :=
  match cur.next? with
  | none => .error (.fault .unterminatedText, cur)
  | some (c, next) =>
    if c = '"' then .ok (.text (String.ofList read.reverse), next)
    else if c = '\\' then
      match next.1.next? with
      | none => .error (.fault .unterminatedEscape, next)
      | some (d, next') =>
        (text (Text.unescape d ++ read) next').since (Nat.le_of_lt (Nat.lt_trans next'.2 next.2))
    else (text (c :: read) next).since (Nat.le_of_lt next.2)
termination_by cur.rest.length
decreasing_by
  · exact Nat.lt_trans next'.2 next.2
  · exact next.2

/-- What is left after an atom of one character or more is shorter. -/
theorem length_dropWhile_lt {p : Char → Bool} {cs : List Char} (h : cs.takeWhile p ≠ []) :
    (cs.dropWhile p).length < cs.length := by
  have hpos : 0 < (cs.takeWhile p).length := List.length_pos_iff.mpr h
  calc (cs.dropWhile p).length
      < (cs.takeWhile p).length + (cs.dropWhile p).length := Nat.lt_add_of_pos_left hpos
    _ = cs.length := by rw [← List.length_append, List.takeWhile_append_dropWhile]

/-- Reads an atom. -/
def word (cur : Cursor) : Outcome cur Expr :=
  let chars := cur.rest.takeWhile (!isDelimiter ·)
  let rest := cur.rest.dropWhile (!isDelimiter ·)
  if h : chars = [] then .error (.expectedAtom, cur)
  else
    .ok (atom chars, ⟨{ cur with rest, position := cur.position + byteLength chars },
      length_dropWhile_lt h⟩)

mutual

/-- Reads a form, unless too many forms are being read. -/
def form (cur : Cursor) : Outcome cur Expr :=
  if depthLimit ≤ cur.depth then .error (.fault .tooDeep, cur)
  else Outcome.leave (cur.depth + 1) (nested { cur with depth := cur.depth + 1 })
termination_by 3 * cur.rest.length + 1
decreasing_by exact Nat.lt_succ_self _

/-- Reads a form by its first character. -/
def nested (cur : Cursor) : Outcome cur Expr :=
  Outcome.since cur.length_skip_le <|
    match cur.skip.next? with
    | none => .error (.unexpectedEnd, cur.skip)
    | some (c, next) =>
      if c = '(' then (expect '(' cur.skip).bind fun _ next => items [] next
      else if c = ')' then .error (.fault .unexpectedClose, cur.skip)
      else if c = '\'' then
        Outcome.since (Nat.le_trans next.1.length_skip_le (Nat.le_of_lt next.2)) <|
          if next.1.skip.rest = [] then .error (.fault .nothingToQuote, next.1.skip)
          else (form next.1.skip).map Expr.quotation
      else if c = '"' then (expect '"' cur.skip).bind fun _ next => text [] next
      else word cur.skip
termination_by 3 * cur.rest.length
decreasing_by
  all_goals have hskip := cur.length_skip_le
  · have := next.2
    omega
  · have := next.1.length_skip_le
    have := next.2
    omega

/-- Reads the rest of a list. Its items so far come latest first. -/
def items (read : List Expr) (cur : Cursor) : Outcome cur Expr :=
  Outcome.since cur.length_skip_le <|
    match cur.skip.next? with
    | none => .error (.fault .unterminatedList, cur.skip)
    | some (c, next) =>
      if c = ')' then .ok (.list read.reverse, next)
      else (form cur.skip).bind fun e next => items (e :: read) next
termination_by 3 * cur.rest.length + 2
decreasing_by
  all_goals have hskip := cur.length_skip_le
  · omega
  · have := next.2
    omega

end

/-- Reads the rest of a script. Its forms so far come latest first. -/
def script (read : List Expr) (cur : Cursor) : Except (Refusal × Cursor) (List Expr) :=
  if cur.skip.rest = [] then .ok read.reverse
  else
    match form cur.skip with
    | .error refusal => .error refusal
    | .ok (e, next) => script (e :: read) next
termination_by cur.rest.length
decreasing_by exact Nat.lt_of_lt_of_le next.2 cur.length_skip_le

/-- The forms of a script, or why it is refused and at which byte. -/
def readForms (source : String) : Except (Refusal × Nat) (List Expr) :=
  (script [] { rest := source.toList }).mapError fun (refusal, stop) => (refusal, stop.position)

end Descent

end HostScript.Reader
