import HostScript.Proofs.Number.Rounding
import Mathlib.Algebra.Order.Field.Rat
import Mathlib.Tactic.FieldSimp
import Mathlib.Tactic.Linarith
import Mathlib.Tactic.Ring

/-!
# Correct rounding

What it is for a floating number to be a number correctly rounded, apart from how rounding is done:
no magnitude is nearer, and of two that are equally near the one with the even rank is taken
(`IsNearest`). There is only one such rank (`IsNearest.unique`), and rounding finds it
(`isNearest_roundRank`), so a decimal is read as the number it is correctly rounded to
(`ofDecimal_eq_iff_roundsTo`).

Magnitudes increase with their ranks, and a number lies between the magnitudes of two ranks that
follow each other. All other magnitudes lie further away than one of these two.
-/

namespace HostScript.Binary64

/-! ## Magnitudes -/

/-- The magnitude at a rank. -/
def magnitude (rank : Nat) : ℚ := units rank / unitsPerOne

/-- With a mantissa of 53 bits the magnitude is the mantissa doubled so many times. -/
theorem units_add {doublings mantissa : Nat} (hle : mantissa ≤ 2 * binade)
    (hfull : doublings = 0 ∨ binade ≤ mantissa) :
    units (doublings * binade + mantissa) = mantissa * 2 ^ doublings := by
  have hb : binade = 2 ^ 52 := rfl
  unfold units
  dsimp only
  rw [hb] at hle hfull ⊢
  rw [Nat.pow_eq]
  by_cases htop : mantissa = 2 * 2 ^ 52
  · -- The last mantissa is the first one of the next binade.
    have hk : (doublings * 2 ^ 52 + mantissa) / 2 ^ 52 - 1 = doublings + 1 := by omega
    have hmantissa : doublings * 2 ^ 52 + mantissa - (doublings + 1) * 2 ^ 52 = 2 ^ 52 := by omega
    rw [hk, hmantissa, Nat.pow_succ, htop]
    omega
  · have hk : (doublings * 2 ^ 52 + mantissa) / 2 ^ 52 - 1 = doublings := by omega
    rw [hk, Nat.add_sub_cancel_left]

theorem exists_rank_eq (rank : Nat) :
    ∃ doublings mantissa, rank = doublings * binade + mantissa ∧ mantissa < 2 * binade ∧
      (doublings = 0 ∨ binade ≤ mantissa) := by
  have hb : binade = 2 ^ 52 := rfl
  rw [hb]
  exact ⟨rank / 2 ^ 52 - 1, rank - (rank / 2 ^ 52 - 1) * 2 ^ 52, by omega, by omega, by omega⟩

theorem strictMono_units : StrictMono units := by
  refine strictMono_nat_of_lt_succ fun rank => ?_
  obtain ⟨doublings, mantissa, rfl, hlt, hfull⟩ := exists_rank_eq rank
  have hfull' : doublings = 0 ∨ binade ≤ mantissa + 1 := hfull.imp_right Nat.le_succ_of_le
  rw [units_add (Nat.le_of_lt hlt) hfull, Nat.add_assoc, units_add hlt hfull']
  exact Nat.mul_lt_mul_of_pos_right (Nat.lt_succ_self mantissa) (Nat.two_pow_pos doublings)

theorem unitsPerOne_pos : 0 < unitsPerOne := by
  unfold unitsPerOne
  generalize 1074 = doublings
  exact Nat.two_pow_pos doublings

theorem strictMono_magnitude : StrictMono magnitude := by
  intro rank other h
  have hpos : (0 : ℚ) < unitsPerOne := by exact_mod_cast unitsPerOne_pos
  have hlt : (units rank : ℚ) < units other := by exact_mod_cast strictMono_units h
  exact div_lt_div_of_pos_right hlt hpos

/-! ## The nearest magnitude -/

/-- No magnitude is nearer to the value than the one at the rank, and if another one is equally
near, the rank is even. Here there is no greatest magnitude. -/
structure IsNearest (value : ℚ) (rank : Nat) : Prop where
  le (other : Nat) : |value - magnitude rank| ≤ |value - magnitude other|
  even {other : Nat} :
    other ≠ rank → |value - magnitude other| = |value - magnitude rank| → Even rank

/-- Between two neighbours every other magnitude is further away than one of them. -/
theorem closer_of_between {value : ℚ} {rank other : Nat} (hlower : magnitude rank ≤ value)
    (hupper : value ≤ magnitude (rank + 1)) (hne : other ≠ rank) (hne' : other ≠ rank + 1) :
    |value - magnitude rank| < |value - magnitude other| ∨
      |value - magnitude (rank + 1)| < |value - magnitude other| := by
  rcases Nat.lt_or_gt_of_ne hne with hlt | hgt
  · left
    have hless := strictMono_magnitude hlt
    rw [abs_of_nonneg (sub_nonneg.mpr hlower)]
    exact (sub_lt_sub_left hless value).trans_le (le_abs_self _)
  · right
    have hless := strictMono_magnitude (show rank + 1 < other by omega)
    rw [abs_sub_comm value, abs_sub_comm value, abs_of_nonneg (sub_nonneg.mpr hupper)]
    exact (sub_lt_sub_right hless value).trans_le (le_abs_self _)

/-- Of two neighbours with the value between them the nearer one is nearest of all, and the even one
where they are equally near. -/
theorem IsNearest.of_between {value : ℚ} {lower rank : Nat} (hlower : magnitude lower ≤ value)
    (hupper : value ≤ magnitude (lower + 1)) (hrank : rank = lower ∨ rank = lower + 1)
    (hle : |value - magnitude rank| ≤ |value - magnitude lower|)
    (hle' : |value - magnitude rank| ≤ |value - magnitude (lower + 1)|)
    (heven : |value - magnitude lower| = |value - magnitude (lower + 1)| → Even rank) :
    IsNearest value rank := by
  have hcases : ∀ other, other = lower ∨ other = lower + 1 ∨
      |value - magnitude rank| < |value - magnitude other| := by
    intro other
    by_cases hne : other = lower
    · exact Or.inl hne
    · by_cases hne' : other = lower + 1
      · exact Or.inr (Or.inl hne')
      · refine Or.inr (Or.inr ?_)
        rcases closer_of_between hlower hupper hne hne' with h | h
        · exact hle.trans_lt h
        · exact hle'.trans_lt h
  refine ⟨fun other => ?_, fun {other} hne heq => ?_⟩
  · rcases hcases other with rfl | rfl | hlt
    · exact hle
    · exact hle'
    · exact hlt.le
  · rcases hcases other with rfl | rfl | hlt
    · obtain rfl := hrank.resolve_left (Ne.symm hne)
      exact heven heq
    · obtain rfl := hrank.resolve_right (Ne.symm hne)
      exact heven heq.symm
    · exact absurd heq hlt.ne'

/-- Of two ranks the lower one is not nearest if the upper one is too. -/
theorem IsNearest.not_lt {value : ℚ} {rank other : Nat} (h : IsNearest value rank)
    (hother : IsNearest value other) : ¬ rank < other := by
  intro hlt
  have heq := le_antisymm (h.le other) (hother.le rank)
  -- The value lies in the middle between the two magnitudes.
  have hmiddle : value - magnitude rank = magnitude other - value := by
    rcases abs_eq_abs.mp heq with heq | heq
    · have := strictMono_magnitude hlt
      linarith
    · linarith
  rcases Nat.lt_or_eq_of_le (Nat.succ_le_of_lt hlt) with hbetween | hnext
  · -- A magnitude between them would be nearer.
    have hlow := strictMono_magnitude (Nat.lt_succ_self rank)
    have hhigh := strictMono_magnitude hbetween
    have hle := h.le (rank + 1)
    have hle' := hother.le (rank + 1)
    rw [abs_of_nonneg (by linarith : 0 ≤ value - magnitude rank)] at hle
    rw [abs_sub_comm value, abs_of_nonneg (by linarith : 0 ≤ magnitude other - value)] at hle'
    rcases abs_cases (value - magnitude (rank + 1)) with ⟨habs, -⟩ | ⟨habs, -⟩
    · linarith
    · linarith
  · have heven := h.even (Nat.ne_of_gt hlt) heq.symm
    have heven' := hother.even (Nat.ne_of_lt hlt) heq
    rw [← hnext] at heven'
    exact (Nat.even_add_one.mp heven') heven

/-- **Only one rank is nearest.** -/
theorem IsNearest.unique {value : ℚ} {rank other : Nat} (h : IsNearest value rank)
    (hother : IsNearest value other) : rank = other :=
  Nat.le_antisymm (Nat.le_of_not_lt (hother.not_lt h)) (Nat.le_of_not_lt (h.not_lt hother))

/-! ## Rounding -/

/-- Halved so many times a number is a mantissa of 53 bits. -/
theorem mantissa_bounds (n : Nat) :
    n / 2 ^ (n.log2 - 52) < 2 * binade ∧
      (n.log2 - 52 = 0 ∨ binade ≤ n / 2 ^ (n.log2 - 52)) := by
  have hb : binade = 2 ^ 52 := rfl
  rw [hb]
  generalize hk : n.log2 - 52 = k
  have hpos : 0 < 2 ^ k := Nat.two_pow_pos k
  constructor
  · rw [Nat.div_lt_iff_lt_mul hpos]
    calc n < 2 ^ (n.log2 + 1) := Nat.lt_log2_self
      _ ≤ 2 ^ (53 + k) := Nat.pow_le_pow_right (by decide) (by omega)
      _ = 2 * 2 ^ 52 * 2 ^ k := Nat.pow_add 2 53 k
  · rcases Nat.eq_zero_or_pos k with hzero | hk'
    · exact Or.inl hzero
    · right
      have hne : n ≠ 0 := by
        rintro rfl
        rw [Nat.log2_zero] at hk
        omega
      rw [Nat.le_div_iff_mul_le hpos, ← Nat.pow_add]
      calc 2 ^ (52 + k) = 2 ^ n.log2 := by rw [show 52 + k = n.log2 by omega]
        _ ≤ n := Nat.log2_self_le hne

theorem even_rank_iff (doublings mantissa : Nat) :
    Even (doublings * binade + mantissa) ↔ mantissa % 2 = 0 := by
  have hb : binade = 2 ^ 52 := rfl
  rw [hb, Nat.even_iff]
  omega

/-- A fraction is a mantissa of 53 bits, doubled so many times, and a rest, which decides how it is
rounded. -/
theorem exists_roundRank_eq (num : Nat) {den : Nat} (hden : 0 < den) :
    ∃ doublings mantissa rest, mantissa < 2 * binade ∧ (doublings = 0 ∨ binade ≤ mantissa) ∧
      rest < den * 2 ^ doublings ∧ num = den * 2 ^ doublings * mantissa + rest ∧
      roundRank num den = doublings * binade +
        if 2 * rest < den * 2 ^ doublings ∨ 2 * rest = den * 2 ^ doublings ∧ mantissa % 2 = 0
          then mantissa else mantissa + 1 := by
  obtain ⟨hlt, hfull⟩ := mantissa_bounds (num / den)
  rw [Nat.div_div_eq_div_mul] at hlt hfull
  have hstep : 0 < den * 2 ^ ((num / den).log2 - 52) := Nat.mul_pos hden (Nat.two_pow_pos _)
  exact ⟨_, _, _, hlt, hfull, Nat.mod_lt num hstep, (Nat.div_add_mod num _).symm, rfl⟩

/-- A fraction lies between two neighbours, and the comparison of its distances from them decides
how it is rounded. The distances are counted in parts of one size. -/
theorem exists_neighbours (num : Nat) {den : Nat} (hden : 0 < den) :
    ∃ lower below above : Nat, ∃ parts : ℚ, 0 < parts ∧
      (num : ℚ) / den / unitsPerOne - magnitude lower = below / parts ∧
      magnitude (lower + 1) - (num : ℚ) / den / unitsPerOne = above / parts ∧
      roundRank num den = if below < above ∨ below = above ∧ Even lower then lower else lower + 1 := by
  obtain ⟨doublings, mantissa, rest, hlt, hfull, hrest, rfl, hround⟩ := exists_roundRank_eq num hden
  have hunits := units_add hlt.le hfull
  have hunits' := @units_add doublings (mantissa + 1) hlt (hfull.imp_right Nat.le_succ_of_le)
  rw [← Nat.add_assoc] at hunits'
  generalize hstep : den * 2 ^ doublings = step at *
  have hstep' : (den : ℚ) * 2 ^ doublings = step := by exact_mod_cast hstep
  have hdenpos : (0 : ℚ) < den := by exact_mod_cast hden
  have hpos : (0 : ℚ) < unitsPerOne := by exact_mod_cast unitsPerOne_pos
  refine ⟨doublings * binade + mantissa, rest, step - rest, den * unitsPerOne,
    mul_pos hdenpos hpos, ?_, ?_, ?_⟩
  · rw [magnitude, hunits]
    generalize (unitsPerOne : ℚ) = units at *
    push_cast
    rw [← hstep']
    field_simp
    ring
  · rw [magnitude, hunits', Nat.cast_sub hrest.le]
    generalize (unitsPerOne : ℚ) = units at *
    push_cast
    rw [← hstep']
    field_simp
    ring
  · have hless : 2 * rest < step ↔ rest < step - rest := by omega
    have hsame : 2 * rest = step ↔ rest = step - rest := by omega
    have hiff := or_congr hless (and_congr hsame (even_rank_iff doublings mantissa).symm)
    rw [hround]
    by_cases h : 2 * rest < step ∨ 2 * rest = step ∧ mantissa % 2 = 0
    · rw [if_pos h, if_pos (hiff.mp h)]
    · rw [if_neg h, if_neg (hiff.not.mp h), Nat.add_assoc]

/-- **Rounding finds the nearest magnitude.** -/
theorem isNearest_roundRank (num : Nat) {den : Nat} (hden : 0 < den) :
    IsNearest ((num : ℚ) / den / unitsPerOne) (roundRank num den) := by
  obtain ⟨lower, below, above, parts, hparts, hbelow, habove, hround⟩ := exists_neighbours num hden
  rw [hround]
  generalize (num : ℚ) / den / unitsPerOne = value at *
  have hnonneg : (0 : ℚ) ≤ below / parts := div_nonneg (Nat.cast_nonneg below) hparts.le
  have hnonneg' : (0 : ℚ) ≤ above / parts := div_nonneg (Nat.cast_nonneg above) hparts.le
  have hdistance : |value - magnitude lower| = below / parts := by
    rw [hbelow, abs_of_nonneg hnonneg]
  have hdistance' : |value - magnitude (lower + 1)| = above / parts := by
    rw [abs_sub_comm, habove, abs_of_nonneg hnonneg']
  have hlower : magnitude lower ≤ value := sub_nonneg.mp (hbelow ▸ hnonneg)
  have hupper : value ≤ magnitude (lower + 1) := sub_nonneg.mp (habove ▸ hnonneg')
  split
  · next h =>
    refine .of_between hlower hupper (Or.inl rfl) le_rfl ?_ fun heq => ?_
    · rw [hdistance, hdistance', div_le_div_iff_of_pos_right hparts, Nat.cast_le]
      omega
    · rw [hdistance, hdistance', div_left_inj' hparts.ne', Nat.cast_inj] at heq
      rcases h with h | ⟨-, heven⟩
      · omega
      · exact heven
  · next h =>
    refine .of_between hlower hupper (Or.inr rfl) ?_ le_rfl fun heq => ?_
    · rw [hdistance, hdistance', div_le_div_iff_of_pos_right hparts, Nat.cast_le]
      omega
    · rw [hdistance, hdistance', div_left_inj' hparts.ne', Nat.cast_inj] at heq
      rw [Nat.even_add_one]
      exact fun heven => h (Or.inr ⟨heq, heven⟩)

/-! ## Correctly rounded numbers -/

/-- `Rounds negative value x` says that `x` is the number of the given sign and of magnitude `value`,
correctly rounded: if the nearest magnitude is beyond the greatest finite one, `x` is infinite. -/
inductive Rounds (negative : Bool) (value : ℚ) : Binary64 → Prop
  | finite {rank : Fin rankLimit} : IsNearest value rank → Rounds negative value (.finite negative rank)
  | infinite {rank : Nat} :
    IsNearest value rank → rankLimit ≤ rank → Rounds negative value (.infinite negative)

/-- **There is only one correctly rounded number.** -/
theorem Rounds.unique {negative : Bool} {value : ℚ} {x y : Binary64} (hx : Rounds negative value x)
    (hy : Rounds negative value y) : x = y := by
  rcases hx with ⟨hx⟩ | ⟨hx, hbeyond⟩
  · rcases hy with ⟨hy⟩ | ⟨hy, hbeyond⟩
    · rw [Fin.ext (hx.unique hy)]
    · have := hx.unique hy
      omega
  · rcases hy with ⟨hy⟩ | ⟨hy, -⟩
    · have := hx.unique hy
      omega
    · rfl

theorem IsNearest.rounds {value : ℚ} {num den : Nat} (h : IsNearest value (roundRank num den))
    (negative : Bool) : Rounds negative value (ofUnits negative num den) := by
  unfold ofUnits
  dsimp only
  split
  · exact .finite h
  · next hbeyond => exact .infinite h (Nat.le_of_not_lt hbeyond)

/-- So many units are beyond the greatest finite magnitude. -/
theorem rankLimit_le_roundRank {num p : Nat} (hp : 2098 ≤ p) (h : 2 ^ p ≤ num) :
    rankLimit ≤ roundRank num 1 := by
  obtain ⟨doublings, mantissa, rest, hlt, hfull, hrest, hnum, hround⟩ :=
    exists_roundRank_eq num Nat.one_pos
  have hb : binade = 2 ^ 52 := rfl
  rw [Nat.one_mul] at hrest hnum
  have hdoublings : p < 53 + doublings := by
    refine (Nat.pow_lt_pow_iff_right (by decide : 1 < 2)).mp ?_
    calc 2 ^ p ≤ 2 ^ doublings * mantissa + rest := hnum ▸ h
      _ < 2 ^ doublings * (mantissa + 1) := by rw [Nat.mul_succ]; omega
      _ ≤ 2 ^ doublings * 2 ^ 53 := Nat.mul_le_mul_left _ (by omega)
      _ = 2 ^ (53 + doublings) := by rw [Nat.mul_comm, Nat.pow_add]
  have hmantissa := hfull.resolve_left (by omega)
  have hle : doublings * binade + mantissa ≤ roundRank num 1 := by
    rw [hround]
    split <;> omega
  unfold rankLimit
  rw [hb] at hle hmantissa ⊢
  omega

/-! ## Exact numbers -/

/-- The number that a finite floating number is. -/
def value? : Binary64 → Option ℚ
  | finite negative rank => some (if negative then -magnitude rank else magnitude rank)
  | _ => none

theorem magnitude_zero : magnitude 0 = 0 := by
  have hunits : units 0 = 0 := by simp [units]
  rw [magnitude, hunits, Nat.cast_zero, zero_div]

theorem magnitude_pos_iff {rank : Nat} : 0 < magnitude rank ↔ rank ≠ 0 := by
  rw [← magnitude_zero, strictMono_magnitude.lt_iff_lt, Nat.pos_iff_ne_zero]

theorem isFinite_and_isPositive_iff {x : Binary64} :
    (x.isFinite && x.isPositive) = true ↔ ∃ value, x.value? = some value ∧ 0 < value := by
  cases x with
  | nan => simp [isFinite, value?]
  | infinite negative => simp [isFinite, value?]
  | finite negative rank =>
    have hpos := @magnitude_pos_iff rank.val
    cases negative with
    | false => simp [isFinite, isPositive, value?, hpos]
    | true =>
      have hnonneg : 0 ≤ magnitude rank := by
        rw [← magnitude_zero]
        exact strictMono_magnitude.monotone (Nat.zero_le _)
      simp [isFinite, isPositive, value?, hnonneg]

/-- A magnitude is nearest to itself. -/
theorem isNearest_magnitude (rank : Nat) : IsNearest (magnitude rank) rank where
  le other := by
    rw [sub_self, abs_zero]
    exact abs_nonneg _
  even hne heq := by
    rw [sub_self, abs_zero, abs_eq_zero, sub_eq_zero] at heq
    exact absurd (strictMono_magnitude.injective heq).symm hne

/-- **Rounding changes a number exactly if its magnitude is not a finite one.** -/
theorem Rounds.value?_eq_some_iff {negative : Bool} {value : ℚ} {x : Binary64}
    (h : Rounds negative value x) :
    x.value? = some (if negative then -value else value) ↔
      ∃ rank : Fin rankLimit, magnitude rank = value := by
  constructor
  · intro hx
    rcases h with @⟨rank, -⟩ | -
    · refine ⟨rank, ?_⟩
      have hsame := Option.some.inj hx
      cases negative with
      | false => exact hsame
      | true => exact neg_inj.mp hsame
    · cases hx
  · rintro ⟨rank, rfl⟩
    rw [h.unique (.finite (isNearest_magnitude rank))]
    rfl

theorem Rounds.value?_eq_intCast_iff {n : Int} {x : Binary64}
    (h : Rounds (decide (n < 0)) n.natAbs x) :
    x.value? = some (n : ℚ) ↔ ∃ rank : Fin rankLimit, magnitude rank = n.natAbs := by
  have hsigned : (if decide (n < 0) then -(n.natAbs : ℚ) else n.natAbs) = n := by
    by_cases hneg : n < 0
    · rw [decide_eq_true hneg, if_pos rfl, Nat.cast_natAbs, abs_of_neg hneg, Int.cast_neg, neg_neg]
    · rw [decide_eq_false hneg, if_neg Bool.false_ne_true, Nat.cast_natAbs,
        abs_of_nonneg (not_lt.mp hneg)]
  rw [← hsigned]
  exact h.value?_eq_some_iff

/-! ## Decimals -/

/-- Rounding finds the magnitude nearest to a fraction of ones, too. -/
theorem isNearest_quotient (num : Nat) {den : Nat} (hden : 0 < den) :
    IsNearest ((num : ℚ) / den) (roundRank (num * unitsPerOne) den) := by
  have hnearest := isNearest_roundRank (num * unitsPerOne) hden
  have hvalue : ((num * unitsPerOne : Nat) : ℚ) / den / unitsPerOne = num / den := by
    have hpos : (0 : ℚ) < unitsPerOne := by exact_mod_cast unitsPerOne_pos
    rw [Nat.cast_mul]
    generalize (unitsPerOne : ℚ) = units at *
    field_simp
  rwa [hvalue] at hnearest

/-- A whole number with so many zeros is beyond every finite number. -/
theorem rankLimit_le_of_zeros {coefficient e : Nat} (hne : coefficient ≠ 0) (he : 400 ≤ e) :
    rankLimit ≤ roundRank (coefficient * 10 ^ e * unitsPerOne) 1 := by
  -- The power of two stays a variable: it must not be computed.
  obtain ⟨p, hp⟩ : ∃ p, 1074 = p := ⟨_, rfl⟩
  have hunits : unitsPerOne = 2 ^ p := by
    unfold unitsPerOne
    rw [hp, Nat.pow_eq]
  refine rankLimit_le_roundRank (p := 3 * e + p) (by omega) ?_
  rw [hunits, Nat.pow_add]
  refine Nat.mul_le_mul_right (2 ^ p) ?_
  calc 2 ^ (3 * e) = 8 ^ e := Nat.pow_mul 2 3 e
    _ ≤ 10 ^ e := Nat.pow_le_pow_left (by decide) e
    _ ≤ coefficient * 10 ^ e := Nat.le_mul_of_pos_left _ (Nat.pos_of_ne_zero hne)

end HostScript.Binary64

namespace HostScript

/-- The magnitude of a decimal. -/
def Decimal.magnitude (d : Decimal) : ℚ := d.coefficient * 10 ^ d.exponent

/-- `d.RoundsTo x` says that `x` is the decimal correctly rounded. A zero keeps its sign. -/
def Decimal.RoundsTo (d : Decimal) (x : Binary64) : Prop := x.Rounds d.negative d.magnitude

namespace Binary64

/-- A whole number is rounded from its exact value, also where it is not computed. -/
theorem rounds_ofDecimal_ofNat (negative : Bool) (coefficient e : Nat) :
    Rounds negative ((coefficient * 10 ^ e : Nat) : ℚ)
      (ofDecimal ⟨negative, coefficient, .ofNat e⟩) := by
  have hnearest := isNearest_quotient (coefficient * 10 ^ e) Nat.one_pos
  rw [Nat.cast_one, div_one] at hnearest
  simp only [ofDecimal, Nat.pow_eq]
  split
  · next hzero =>
    rw [hzero, Nat.zero_mul] at hnearest ⊢
    rw [Nat.zero_mul] at hnearest
    exact hnearest.rounds negative
  · next hne =>
    split
    · next he => exact .infinite hnearest (rankLimit_le_of_zeros hne he)
    · exact hnearest.rounds negative

/-- **A decimal is read as the number that it is correctly rounded to.** -/
theorem roundsTo_ofDecimal (d : Decimal) : d.RoundsTo (ofDecimal d) := by
  obtain ⟨negative, coefficient, exponent⟩ := d
  show Rounds negative (coefficient * 10 ^ exponent) _
  cases exponent with
  | ofNat e =>
    have hrounds := rounds_ofDecimal_ofNat negative coefficient e
    rwa [Nat.cast_mul, Nat.cast_pow, Nat.cast_ofNat, ← zpow_natCast] at hrounds
  | negSucc e =>
    have hpos : 0 < Nat.pow 10 (e + 1) := Nat.pow_pos (by decide)
    have hnearest := isNearest_quotient coefficient hpos
    rw [div_eq_mul_inv, Nat.pow_eq, Nat.cast_pow, Nat.cast_ofNat, ← zpow_negSucc] at hnearest
    rw [ofDecimal_negSucc]
    exact hnearest.rounds negative

theorem ofDecimal_eq_iff_roundsTo {d : Decimal} {x : Binary64} :
    ofDecimal d = x ↔ d.RoundsTo x := by
  constructor
  · rintro rfl
    exact roundsTo_ofDecimal d
  · exact (roundsTo_ofDecimal d).unique

end Binary64

end HostScript
