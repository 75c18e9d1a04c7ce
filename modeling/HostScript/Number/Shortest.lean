import HostScript.Number.Literal

/-!
# Writing floating numbers

A whole number is written exactly with `.0` after it. Any other finite number gets the fewest
decimal places that read back as the same number, and of the texts with that many places that
read back the one nearest to it. Exponents are never written.
-/

namespace HostScript.Binary64

/-- Whether the decimal `coefficient / 10 ^ places` reads back as the magnitude of rank `rank`. -/
def readsBack (rank places coefficient : Nat) : Bool :=
  roundRank (coefficient * unitsPerOne) (Nat.pow 10 places) == rank

/-- Of two successive numbers the one that passes a test. Where both pass it the flag says whether
the upper one is taken. -/
def passingNeighbour (passes : Nat → Bool) (lower : Nat) (preferUpper : Bool) : Option Nat :=
  match passes lower, passes (lower + 1) with
  | true, true => some (if preferUpper then lower + 1 else lower)
  | true, false => some lower
  | false, true => some (lower + 1)
  | false, false => none

/-- The coefficient with the given number of places that reads back as the magnitude of rank `rank`.
Only the magnitude's two neighbours on the decimal grid can be the nearest; where both read back
the nearer one is taken, the upper one if they are equally near. -/
def coefficient? (rank places : Nat) : Option Nat :=
  let scaled := units rank * Nat.pow 10 places
  passingNeighbour (readsBack rank places) (scaled / unitsPerOne)
    (decide (unitsPerOne ≤ 2 * (scaled % unitsPerOne)))

/-- Looks for the least number of places from `places` on that has a coefficient, at most `further`
more; with so many places the coefficient is `exact`. The pair holds the places and the
coefficient. -/
def fewestPlaces (coefficient? : Nat → Option Nat) (exact : Nat → Nat) :
    (further places : Nat) → Nat × Nat
  | 0, places => (places, exact places)
  | further + 1, places =>
    match coefficient? places with
    | some coefficient => (places, coefficient)
    | none => fewestPlaces coefficient? exact further (places + 1)

/-- The places and the coefficient of a magnitude that is no whole number. With 1074 places every
magnitude is written exactly. -/
def shortest (rank : Nat) : Nat × Nat :=
  fewestPlaces (coefficient? rank) (fun places => units rank * Nat.pow 10 places / unitsPerOne)
    1073 1

/-- The coefficient with its last `places` digits after a point, padded with zeros to have at least
one digit before it. -/
def placePoint (places coefficient : Nat) : List Char :=
  let fraction := Integer.natChars (coefficient % Nat.pow 10 places)
  Integer.natChars (coefficient / Nat.pow 10 places) ++
    '.' :: (List.replicate (places - fraction.length) '0' ++ fraction)

/-- A magnitude as it is written. -/
def magnitudeChars (rank : Nat) : List Char :=
  if units rank % unitsPerOne = 0 then
    Integer.natChars (units rank / unitsPerOne) ++ ['.', '0']
  else placePoint (shortest rank).1 (shortest rank).2

/-- A floating number as it is written. -/
def chars : Binary64 → List Char
  | nan => ['N', 'a', 'N']
  | infinite negative => (if negative then ['-'] else []) ++ ['i', 'n', 'f']
  | finite negative rank => (if negative then ['-'] else []) ++ magnitudeChars rank.val

end HostScript.Binary64
