/-!
# Floating numbers of 64 bits

A finite number is a sign and a *rank*: the place of its magnitude in the increasing list of all
finite magnitudes. The rank is also the bit pattern of the magnitude, so `toBits` and `ofBits` do
no arithmetic on it.

Every finite magnitude is a whole number of *units*, one unit being `2 ^ (-1074)`. Arithmetic is
done exactly in units and then rounded once (`roundRank`): to the nearest magnitude, a tie going
to the even rank. `roundRank_units` says that rounding a magnitude's own units gives back its rank.
-/

namespace HostScript

/-- How many magnitudes there are from a power of two up to the next one: `2 ^ 52`. -/
def Binary64.binade : Nat := Nat.pow 2 52

/-- The number of finite magnitudes: one binade for each exponent field from 0 to 2046. -/
def Binary64.rankLimit : Nat := 2047 * Binary64.binade

/-- A floating number of 64 bits. All bit patterns that are not a number are one value. -/
inductive Binary64 where
  | nan
  | infinite (negative : Bool)
  | finite (negative : Bool) (rank : Fin Binary64.rankLimit)
deriving DecidableEq, Repr

namespace Binary64

/-! ## Magnitudes in units -/

/-- The magnitude at a rank, in units. The magnitudes of the first two binades are one unit apart,
and those of each further binade are twice as far apart as those of the binade before. -/
def units (rank : Nat) : Nat :=
  let doublings := rank / binade - 1
  (rank - doublings * binade) * Nat.pow 2 doublings

/-- The whole number nearest to `num / den`; a half goes to the even neighbour. -/
def divNearestEven (num den : Nat) : Nat :=
  let quotient := num / den
  let twiceRest := 2 * (num % den)
  if twiceRest < den ∨ (twiceRest = den ∧ quotient % 2 = 0) then quotient else quotient + 1

/-- The rank of the magnitude nearest to `num / den` units, as if ranks had no limit. -/
def roundRank (num den : Nat) : Nat :=
  let doublings := (num / den).log2 - 52
  doublings * binade + divNearestEven num (den * Nat.pow 2 doublings)

/-- The number nearest to `num / den` units of the given sign; beyond the greatest finite
magnitude that is infinity. -/
def ofUnits (negative : Bool) (num den : Nat) : Binary64 :=
  let rank := roundRank num den
  if h : rank < rankLimit then .finite negative ⟨rank, h⟩ else .infinite negative

/-- How many units make one. -/
def unitsPerOne : Nat := Nat.pow 2 1074

/-- The number nearest to a natural number. -/
def ofNat (n : Nat) : Binary64 := ofUnits false (n * unitsPerOne) 1

/-- One hundred. -/
def hundred : Binary64 := ofNat 100

/-! ## Classes -/

def isFinite : Binary64 → Bool
  | finite .. => true
  | _ => false

/-- Greater than zero. -/
def isPositive : Binary64 → Bool
  | finite negative rank => !negative && rank.val != 0
  | infinite negative => !negative
  | nan => false

/-! ## Equality and multiplication -/

/-- Numerical equality: `nan` equals nothing and the two zeros equal each other. -/
def equal : Binary64 → Binary64 → Bool
  | finite s r, finite t q => r == q && (s == t || r.val == 0)
  | infinite s, infinite t => s == t
  | _, _ => false

instance : BEq Binary64 := ⟨equal⟩

/-- The product, rounded once. Infinity times zero is not a number. -/
def mul : Binary64 → Binary64 → Binary64
  | finite s r, finite t q => ofUnits (s != t) (units r * units q) unitsPerOne
  | finite s r, infinite t => if r.val = 0 then nan else infinite (s != t)
  | infinite s, finite t q => if q.val = 0 then nan else infinite (s != t)
  | infinite s, infinite t => infinite (s != t)
  | _, _ => nan

instance : Mul Binary64 := ⟨mul⟩

/-! ## Bit patterns -/

/-- The weight of the sign bit, which stands above 63 bits of magnitude. -/
def signBit : Nat := Nat.pow 2 63

/-- The number with the given bit pattern. -/
def ofBits (bits : UInt64) : Binary64 :=
  let negative := signBit ≤ bits.toNat
  let magnitude := bits.toNat % signBit
  if h : magnitude < rankLimit then .finite negative ⟨magnitude, h⟩
  else if magnitude = rankLimit then .infinite negative
  else .nan

/-- The bit pattern; for what is not a number, the quiet one without a sign. -/
def toBits : Binary64 → UInt64
  | nan => 0x7ff8000000000000
  | infinite negative => .ofNat ((if negative then signBit else 0) + rankLimit)
  | finite negative rank => .ofNat ((if negative then signBit else 0) + rank.val)

/-! ## Rounding a magnitude's own units -/

theorem divNearestEven_mul_self (m : Nat) {d : Nat} (h : 0 < d) : divNearestEven (m * d) d = m := by
  simp [divNearestEven, Nat.mul_div_cancel _ h, h]

theorem log2_mul_pow_two {n : Nat} (h : n ≠ 0) (k : Nat) :
    (n * Nat.pow 2 k).log2 = n.log2 + k := by
  induction k with
  | zero => simp
  | succ k ih =>
    have hne : n * Nat.pow 2 k ≠ 0 := Nat.mul_ne_zero h (Nat.ne_of_gt (Nat.two_pow_pos k))
    have hmul : n * Nat.pow 2 (k + 1) = 2 * (n * Nat.pow 2 k) := by
      simp only [Nat.pow_eq, Nat.pow_succ]
      rw [← Nat.mul_assoc, Nat.mul_comm]
    rw [hmul, Nat.log2_two_mul hne, ih]
    omega

/-- Every magnitude is the nearest one to itself. -/
theorem roundRank_units (rank : Nat) : roundRank (units rank) 1 = rank := by
  unfold roundRank units
  simp only [Nat.div_one, Nat.one_mul]
  have hb : binade = 2 ^ 52 := rfl
  rw [hb]
  generalize hk : rank / 2 ^ 52 - 1 = k
  have hlow : k * 2 ^ 52 ≤ rank := by omega
  have hpos : 0 < Nat.pow 2 k := Nat.two_pow_pos k
  have hlog : ((rank - k * 2 ^ 52) * Nat.pow 2 k).log2 - 52 = k := by
    by_cases h : rank < 2 ^ 53
    · have hz : k = 0 := by omega
      subst hz
      by_cases h0 : rank = 0
      · simp [h0]
      · have := (Nat.log2_lt (by omega : rank - 0 * 2 ^ 52 ≠ 0)).2
          (by omega : rank - 0 * 2 ^ 52 < 2 ^ 53)
        simp only [Nat.pow_eq, Nat.pow_zero, Nat.mul_one]
        omega
    · have hne : rank - k * 2 ^ 52 ≠ 0 := by omega
      have h1 := (Nat.log2_lt hne).2 (by omega : rank - k * 2 ^ 52 < 2 ^ 53)
      have h2 := (Nat.le_log2 hne).2 (by omega : 2 ^ 52 ≤ rank - k * 2 ^ 52)
      rw [log2_mul_pow_two hne]
      omega
  rw [hlog, divNearestEven_mul_self _ hpos]
  omega

end Binary64

end HostScript
