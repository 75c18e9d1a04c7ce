import HostScript.Proofs.Reader.Descent

/-!
# Walking through the bytes of a script

The descent once more, with a cursor that is nothing but two numbers: the byte where it stands and
how many forms are being read. To see the next character the text is cut at that byte, and the cut
fails unless a character begins there or the text ends there (`fromByte?`). The characters of an
atom are cut out between two bytes (`slice?`). A cut that fails breaks the walk off.

A walk leaves a trail of all the places it has been to. The trail plays no part in what is read.

No reason is given here why the loops come to an end. A walk is allowed some number of rounds and
calls inside each other, and has no outcome at all where it needs more. That every walk has an
outcome, the same from some number of rounds on, is shown in `HostScript.Proofs.Reader.Progress`.
-/

namespace HostScript.Reader

/-! ## Cuts -/

/-- The characters of a text from a byte on, unless that byte is inside a character or beyond the
end. -/
def fromByte? : Nat → List Char → Option (List Char)
  | 0, cs => some cs
  | _ + 1, [] => none
  | n + 1, c :: cs => if c.utf8Size ≤ n + 1 then fromByte? (n + 1 - c.utf8Size) cs else none

/-- The characters of a text before a byte, unless that byte is inside a character or beyond the
end. -/
def beforeByte? : Nat → List Char → Option (List Char)
  | 0, _ => some []
  | _ + 1, [] => none
  | n + 1, c :: cs =>
    if c.utf8Size ≤ n + 1 then (beforeByte? (n + 1 - c.utf8Size) cs).map (c :: ·) else none

/-- The characters of a text between two bytes. -/
def slice? (start stop : Nat) (cs : List Char) : Option (List Char) :=
  if start ≤ stop then (fromByte? start cs).bind (beforeByte? (stop - start)) else none

/-- Where a character begins or the text ends, the text can be cut. -/
theorem fromByte?_byteLength (before rest : List Char) :
    fromByte? (byteLength before) (before ++ rest) = some rest := by
  induction before with
  | nil => simp [fromByte?]
  | cons c before ih =>
    obtain ⟨n, hn⟩ := Nat.exists_eq_add_of_lt c.utf8Size_pos
    rw [Nat.zero_add] at hn
    rw [byteLength_cons, List.cons_append, hn, Nat.add_right_comm, fromByte?, hn,
      if_pos (by omega), Nat.add_right_comm n, Nat.add_sub_cancel_left, ih]

theorem beforeByte?_byteLength (before rest : List Char) :
    beforeByte? (byteLength before) (before ++ rest) = some before := by
  induction before with
  | nil => simp [beforeByte?]
  | cons c before ih =>
    obtain ⟨n, hn⟩ := Nat.exists_eq_add_of_lt c.utf8Size_pos
    rw [Nat.zero_add] at hn
    rw [byteLength_cons, List.cons_append, hn, Nat.add_right_comm, beforeByte?, hn,
      if_pos (by omega), Nat.add_right_comm n, Nat.add_sub_cancel_left, ih]
    rfl

theorem slice?_byteLength (before middle rest : List Char) :
    slice? (byteLength before) (byteLength before + byteLength middle) (before ++ (middle ++ rest)) =
      some middle := by
  rw [slice?, if_pos (Nat.le_add_right _ _), fromByte?_byteLength, Nat.add_sub_cancel_left]
  exact beforeByte?_byteLength middle rest

/-! ## Walks -/

namespace Walk

open Descent (Refusal)

/-- Where a walk stands: at which byte, and how many forms are being read. -/
structure Place where
  position : Nat := 0
  depth : Int := 0

/-- Where a walk stands and where it has been before, latest first. -/
structure Trail where
  here : Place := {}
  past : List Place := []

/-- All places of a trail. -/
def Trail.places (t : Trail) : List Place := t.here :: t.past

/-- The trail after one more step. -/
def Trail.goTo (t : Trail) (place : Place) : Trail := ⟨place, t.places⟩

/-- One form more is being read. -/
def Trail.enter (t : Trail) : Trail := t.goTo { t.here with depth := t.here.depth + 1 }

/-- One form less is being read. -/
def Trail.leave (t : Trail) : Trail := t.goTo { t.here with depth := t.here.depth - 1 }

/-- Why a walk stops before its end: the text is refused, at which byte, or was cut where it cannot
be cut. -/
inductive Stop where
  | refused (refusal : Refusal) (position : Nat)
  | brokenOff

end Walk

/-- A walk leads along a trail to a value or stops early. It has no outcome if it needs more rounds
than it is allowed. -/
abbrev Walk (α : Type) : Type := ExceptT Walk.Stop (StateT Walk.Trail Option) α

namespace Walk

open Descent (Refusal)

variable {α β : Type}

def here : Walk Place := fun t => some (.ok t.here, t)

def goTo (place : Place) : Walk Unit := fun t => some (.ok (), t.goTo place)

/-- Refuses the text here. -/
def refuse (refusal : Refusal) : Walk α := fun t =>
  some (.error (.refused refusal t.here.position), t)

/-- No further rounds are allowed. -/
def tooLong : Walk α := fun _ => none

/-- The outcome of a cut. -/
def cut (chars : Option (List Char)) : Walk (List Char) :=
  match chars with
  | some chars => pure chars
  | none => throw .brokenOff

section

variable (cs : List Char)

/-- The next character. -/
def current : Walk (Option Char) := do
  let rest ← cut (fromByte? (← here).position cs)
  return rest.head?

/-- Goes past the next character. -/
def bump : Walk Unit := do
  match ← current cs with
  | none => return ()
  | some c =>
    let place ← here
    goTo { place with position := place.position + c.utf8Size }

/-- Goes past the next character, which has to be the given one. -/
def expect (c : Char) : Walk Unit := do
  if (← current cs) = some c then bump cs else refuse (.expected c)

/-- Goes past the end of the line. -/
def skipLine : Nat → Walk Unit
  | 0 => tooLong
  | rounds + 1 => do
    match ← current cs with
    | none => return ()
    | some c =>
      bump cs
      if c = '\n' then return () else skipLine rounds

/-- Goes past blanks and comments. Tells whether anything is left. -/
def skip : Nat → Walk Bool
  | 0 => tooLong
  | rounds + 1 => do
    match ← current cs with
    | none => return false
    | some c =>
      if Text.isBlank c then
        bump cs
        skip rounds
      else if c = ';' then
        skipLine cs rounds
        skip rounds
      else return true

/-- Reads the rest of a text. Its characters so far come latest first. -/
def text (read : List Char) : Nat → Walk Expr
  | 0 => tooLong
  | rounds + 1 => do
    match ← current cs with
    | none => refuse (.fault .unterminatedText)
    | some c =>
      bump cs
      if c = '"' then return .text (String.ofList read.reverse)
      else if c = '\\' then
        match ← current cs with
        | none => refuse (.fault .unterminatedEscape)
        | some d =>
          bump cs
          text (Text.unescape d ++ read) rounds
      else text (c :: read) rounds

/-- Goes to the end of an atom. -/
def skipWord : Nat → Walk Unit
  | 0 => tooLong
  | rounds + 1 => do
    match ← current cs with
    | none => return ()
    | some c =>
      if isDelimiter c then return ()
      else
        bump cs
        skipWord rounds

/-- Reads an atom. -/
def word (rounds : Nat) : Walk Expr := do
  let start ← here
  skipWord cs rounds
  let stop ← here
  let chars ← cut (slice? start.position stop.position cs)
  if chars = [] then refuse .expectedAtom else return atom chars

mutual

/-- Reads a form, unless too many forms are being read. However that ends, the form is no longer
being read then. -/
def form : Nat → Walk Expr
  | 0 => tooLong
  | rounds + 1 => fun t => do
    if depthLimit ≤ t.here.depth then refuse (.fault .tooDeep) t
    else
      let (result, t) ← nested rounds t.enter
      return (result, t.leave)

/-- Reads a form by its first character. -/
def nested : Nat → Walk Expr
  | 0 => tooLong
  | rounds + 1 => do
    let _ ← skip cs rounds
    match ← current cs with
    | none => refuse .unexpectedEnd
    | some c =>
      if c = '(' then
        expect cs '('
        items [] rounds
      else if c = ')' then refuse (.fault .unexpectedClose)
      else if c = '\'' then
        bump cs
        if ← skip cs rounds then
          let e ← form rounds
          return e.quotation
        else refuse (.fault .nothingToQuote)
      else if c = '"' then
        expect cs '"'
        text cs [] rounds
      else word cs rounds

/-- Reads the rest of a list. Its items so far come latest first. -/
def items (read : List Expr) : Nat → Walk Expr
  | 0 => tooLong
  | rounds + 1 => do
    if ← skip cs rounds then
      if (← current cs) = some ')' then
        bump cs
        return .list read.reverse
      else
        let e ← form rounds
        items (e :: read) rounds
    else refuse (.fault .unterminatedList)

end

/-- Reads the rest of a script. Its forms so far come latest first. -/
def script (read : List Expr) : Nat → Walk (List Expr)
  | 0 => tooLong
  | rounds + 1 => do
    if ← skip cs rounds then
      let e ← form cs rounds
      script (e :: read) rounds
    else return read.reverse

end

/-- The walk through a whole script. -/
def readForms (source : String) (rounds : Nat) : Option (Except Stop (List Expr) × Trail) :=
  script source.toList [] rounds {}

/-! ## Walks one after the other -/

variable {x y : Walk α} {f g : α → Walk β} {t t' : Trail}

theorem bind_ok {a : α} (h : x t = some (.ok a, t')) : (x >>= f) t = f a t' := by
  show (x t).bind (fun p => ExceptT.bindCont f p.1 p.2) = _
  rw [h]
  rfl

/-- A walk that stops early goes on with nothing else. -/
theorem bind_error {stop : Stop} (h : x t = some (.error stop, t')) :
    (x >>= f) t = some (.error stop, t') := by
  show (x t).bind (fun p => ExceptT.bindCont f p.1 p.2) = _
  rw [h]
  rfl

theorem bind_none (h : x t = none) : (x >>= f) t = none := by
  show (x t).bind (fun p => ExceptT.bindCont f p.1 p.2) = _
  rw [h]
  rfl

/-! ## More rounds -/

/-- `Extends x y` says that `y` has the outcome of `x` wherever `x` has one. -/
def Extends (x y : Walk α) : Prop := ∀ t outcome, x t = some outcome → y t = some outcome

namespace Extends

theorem refl (x : Walk α) : Extends x x := fun _ _ h => h

theorem tooLong (y : Walk α) : Extends Walk.tooLong y := fun _ _ h => nomatch h

theorem bind (hx : Extends x y) (hf : ∀ a, Extends (f a) (g a)) :
    Extends (x >>= f) (y >>= g) := by
  intro t outcome h
  cases hxt : x t with
  | none =>
    rw [bind_none hxt] at h
    cases h
  | some found =>
    obtain ⟨_ | a, t'⟩ := found
    · rw [bind_error hxt] at h
      rw [bind_error (hx t _ hxt), h]
    · rw [bind_ok hxt] at h
      rw [bind_ok (hx t _ hxt)]
      exact hf a t' outcome h

/-- What is done first plays no part. -/
theorem after (x : Walk α) (hf : ∀ a, Extends (f a) (g a)) : Extends (x >>= f) (x >>= g) :=
  bind (refl x) hf

theorem ite {p : Prop} [Decidable p] {x' y' : Walk α} (hx : Extends x y) (hx' : Extends x' y') :
    Extends (if p then x else x') (if p then y else y') := by
  split
  · exact hx
  · exact hx'

variable {cs : List Char}

theorem skipLine : ∀ {n m : Nat}, n ≤ m → Extends (Walk.skipLine cs n) (Walk.skipLine cs m)
  | 0, m, _ => tooLong (Walk.skipLine cs m)
  | n + 1, m + 1, h => by
    rw [Walk.skipLine, Walk.skipLine]
    refine after _ fun next => ?_
    cases next with
    | none => exact refl _
    | some c => exact after _ fun _ => ite (refl _) (skipLine (Nat.le_of_succ_le_succ h))

theorem skip : ∀ {n m : Nat}, n ≤ m → Extends (Walk.skip cs n) (Walk.skip cs m)
  | 0, m, _ => tooLong (Walk.skip cs m)
  | n + 1, m + 1, h => by
    have h := Nat.le_of_succ_le_succ h
    rw [Walk.skip, Walk.skip]
    refine after _ fun next => ?_
    cases next with
    | none => exact refl _
    | some c =>
      refine ite (after _ fun _ => skip h) (ite ?_ (refl _))
      exact bind (skipLine h) fun _ => skip h

theorem text : ∀ {n m : Nat} (read : List Char), n ≤ m →
    Extends (Walk.text cs read n) (Walk.text cs read m)
  | 0, m, read, _ => tooLong (Walk.text cs read m)
  | n + 1, m + 1, read, h => by
    have h := Nat.le_of_succ_le_succ h
    rw [Walk.text, Walk.text]
    refine after _ fun next => ?_
    cases next with
    | none => exact refl _
    | some c =>
      refine after _ fun _ => ite (refl _) (ite (after _ fun next' => ?_) (text (c :: read) h))
      cases next' with
      | none => exact refl _
      | some d => exact after _ fun _ => text (Text.unescape d ++ read) h

theorem skipWord : ∀ {n m : Nat}, n ≤ m → Extends (Walk.skipWord cs n) (Walk.skipWord cs m)
  | 0, m, _ => tooLong (Walk.skipWord cs m)
  | n + 1, m + 1, h => by
    rw [Walk.skipWord, Walk.skipWord]
    refine after _ fun next => ?_
    cases next with
    | none => exact refl _
    | some c => exact ite (refl _) (after _ fun _ => skipWord (Nat.le_of_succ_le_succ h))

theorem word {n m : Nat} (h : n ≤ m) : Extends (Walk.word cs n) (Walk.word cs m) :=
  after _ fun _ => bind (skipWord h) fun _ => refl _

mutual

theorem form : ∀ {n m : Nat}, n ≤ m → Extends (Walk.form cs n) (Walk.form cs m)
  | 0, m, _ => by
    rw [Walk.form]
    exact tooLong (Walk.form cs m)
  | n + 1, m + 1, h => by
    intro t outcome hn
    simp only [Walk.form] at hn ⊢
    split at hn
    · next hfull =>
      rw [if_pos hfull]
      exact hn
    · next hroom =>
      rw [if_neg hroom]
      cases hnested : Walk.nested cs n t.enter with
      | none =>
        rw [hnested] at hn
        cases hn
      | some found =>
        rw [hnested] at hn
        rw [nested (Nat.le_of_succ_le_succ h) t.enter found hnested]
        exact hn

theorem nested : ∀ {n m : Nat}, n ≤ m → Extends (Walk.nested cs n) (Walk.nested cs m)
  | 0, m, _ => by
    rw [Walk.nested]
    exact tooLong (Walk.nested cs m)
  | n + 1, m + 1, h => by
    have h := Nat.le_of_succ_le_succ h
    rw [Walk.nested, Walk.nested]
    refine bind (skip h) fun _ => after _ fun next => ?_
    cases next with
    | none => exact refl _
    | some c =>
      refine ite (after _ fun _ => items [] h) (ite (refl _) (ite ?_ (ite ?_ (word h))))
      · exact after _ fun _ => bind (skip h) fun _ =>
          ite (bind (form h) fun _ => refl _) (refl _)
      · exact after _ fun _ => text [] h

theorem items : ∀ {n m : Nat} (read : List Expr), n ≤ m →
    Extends (Walk.items cs read n) (Walk.items cs read m)
  | 0, m, read, _ => by
    rw [Walk.items]
    exact tooLong (Walk.items cs read m)
  | n + 1, m + 1, read, h => by
    have h := Nat.le_of_succ_le_succ h
    rw [Walk.items, Walk.items]
    refine bind (skip h) fun _ => ite (after _ fun _ => ite (refl _) ?_) (refl _)
    exact bind (form h) fun e => items (e :: read) h

end

theorem script : ∀ {n m : Nat} (read : List Expr), n ≤ m →
    Extends (Walk.script cs read n) (Walk.script cs read m)
  | 0, m, read, _ => tooLong (Walk.script cs read m)
  | n + 1, m + 1, read, h => by
    have h := Nat.le_of_succ_le_succ h
    rw [Walk.script, Walk.script]
    refine bind (skip h) fun _ => ite ?_ (refl _)
    exact bind (form h) fun e => script (e :: read) h

end Extends

end Walk

end HostScript.Reader
