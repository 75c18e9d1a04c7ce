import HostScript.Number.Binary64

/-!
# Numerals

Integers and decimals as they are written: digits are the ten ASCII digits, a sign is `+` or `-`.
`Integer.ofChars?` reads a signed run of digits, `Decimal.ofChars?` a decimal with an optional
point and exponent. A decimal stands for exactly one rational number, which `Binary64.ofDecimal`
rounds once.
-/

namespace HostScript

/-- Splits off one leading sign and says whether it was a minus. -/
def splitSign : List Char → Bool × List Char
  | '+' :: rest => (false, rest)
  | '-' :: rest => (true, rest)
  | rest => (false, rest)

/-! ## Integers -/

namespace Integer

/-- A non-empty run of digits. -/
def digits? (cs : List Char) : Option Nat :=
  if !cs.isEmpty && cs.all Char.isDigit then some (Nat.ofDigitChars 10 cs 0) else none

/-- An optional sign and a non-empty run of digits. -/
def ofChars? (cs : List Char) : Option Int :=
  let (negative, body) := splitSign cs
  (digits? body).map fun n => if negative then -(n : Int) else n

/-- An integer numeral that fits 64 bits with sign. -/
def int64? (cs : List Char) : Option Int64 :=
  (ofChars? cs).bind fun n =>
    if -9223372036854775808 ≤ n ∧ n ≤ 9223372036854775807 then some (Int64.ofInt n) else none

/-- A numeral without minus sign that fits 64 bits. -/
def uint64? (cs : List Char) : Option UInt64 :=
  let body := match cs with
    | '+' :: rest => rest
    | cs => cs
  (digits? body).bind fun n => if n < UInt64.size then some (UInt64.ofNat n) else none

/-- The digits of a natural number, without leading zeros. -/
def natChars (n : Nat) : List Char := Nat.toDigits 10 n

/-- An integer as it is written: a minus sign only where it is negative. -/
def chars : Int → List Char
  | .ofNat n => natChars n
  | .negSucc n => '-' :: natChars (n + 1)

end Integer

/-! ## Decimals -/

/-- The number `±coefficient * 10 ^ exponent`. -/
structure Decimal where
  negative : Bool
  coefficient : Nat
  exponent : Int
deriving DecidableEq, Repr

namespace Decimal

/-- An exponent part: nothing, or `e` or `E` and an integer. -/
def exponent? : List Char → Option Int
  | [] => some 0
  | c :: rest => if c = 'e' ∨ c = 'E' then Integer.ofChars? rest else none

/-- A fraction part: the digits after a point, if there is one, and what follows them. -/
def splitFraction : List Char → List Char × List Char
  | '.' :: rest => (rest.takeWhile Char.isDigit, rest.dropWhile Char.isDigit)
  | rest => ([], rest)

/-- A decimal numeral: an optional sign, digits with an optional point among, before or after
them, and an optional exponent part. -/
def ofChars? (cs : List Char) : Option Decimal :=
  let (negative, body) := splitSign cs
  let whole := body.takeWhile Char.isDigit
  let (fraction, tail) := splitFraction (body.dropWhile Char.isDigit)
  if whole.isEmpty && fraction.isEmpty then none
  else (exponent? tail).map fun exponent =>
    { negative
      coefficient := Nat.ofDigitChars 10 (whole ++ fraction) 0
      exponent := exponent - fraction.length }

end Decimal

namespace Binary64

/-- The number nearest to a decimal. Two tests keep the powers of ten small: a coefficient of at
least one times `10 ^ 400` is beyond every finite number, and a coefficient below `2 ^ (l + 1)`
divided by `10 ^ e` with `3 * e > l + 1076` is below half a unit. -/
def ofDecimal (d : Decimal) : Binary64 :=
  match d.exponent with
  | .ofNat e =>
    if d.coefficient = 0 then ofUnits d.negative 0 1
    else if 400 ≤ e then .infinite d.negative
    else ofUnits d.negative (d.coefficient * Nat.pow 10 e * unitsPerOne) 1
  | .negSucc e =>
    if d.coefficient.log2 + 1076 < 3 * (e + 1) then ofUnits d.negative 0 1
    else ofUnits d.negative (d.coefficient * unitsPerOne) (Nat.pow 10 (e + 1))

/-- The two spellings of infinity and the one of what is not a number, in lower case. -/
def special? : List Char → Option (Bool → Binary64)
  | ['i', 'n', 'f'] => some .infinite
  | ['i', 'n', 'f', 'i', 'n', 'i', 't', 'y'] => some .infinite
  | ['n', 'a', 'n'] => some fun _ => .nan
  | _ => none

/-- A decimal numeral, or infinity or "nan" in any mixture of cases, with an optional sign. -/
def ofChars? (cs : List Char) : Option Binary64 :=
  let (negative, body) := splitSign cs
  match special? (body.map Char.toLower) with
  | some make => some (make negative)
  | none => (Decimal.ofChars? cs).map ofDecimal

end Binary64

end HostScript
