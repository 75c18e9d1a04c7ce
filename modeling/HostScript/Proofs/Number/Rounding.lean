import HostScript.Number.Literal

/-!
# Rounding decimals

What a decimal is rounded to depends on its value alone: numerator and denominator may be multiplied
by the same number (`roundRank_mul_right`), and the tests that keep the powers of ten small change
nothing (`ofDecimal_negSucc`).
-/

namespace HostScript.Binary64

theorem divNearestEven_mul_right (num den : Nat) {k : Nat} (hk : 0 < k) :
    divNearestEven (num * k) (den * k) = divNearestEven num den := by
  have hlt : 2 * (num % den * k) < den * k ↔ 2 * (num % den) < den := by
    rw [← Nat.mul_assoc, Nat.mul_lt_mul_right hk]
  have heq : 2 * (num % den * k) = den * k ↔ 2 * (num % den) = den := by
    rw [← Nat.mul_assoc, Nat.mul_right_cancel_iff hk]
  unfold divNearestEven
  simp only [Nat.mul_div_mul_right _ _ hk, Nat.mul_mod_mul_right, hlt, heq]

/-- A fraction and its multiples are rounded alike. -/
theorem roundRank_mul_right (num den : Nat) {k : Nat} (hk : 0 < k) :
    roundRank (num * k) (den * k) = roundRank num den := by
  unfold roundRank
  simp only [Nat.mul_div_mul_right _ _ hk]
  rw [Nat.mul_right_comm, divNearestEven_mul_right _ _ hk]

/-- Less than half a unit is rounded to zero. -/
theorem roundRank_eq_zero {num den : Nat} (h : 2 * num < den) : roundRank num den = 0 := by
  have hdiv : num / den = 0 := Nat.div_eq_of_lt (by omega)
  have hmod : num % den = num := Nat.mod_eq_of_lt (by omega)
  have hlog : (0 : Nat).log2 - 52 = 0 := by decide
  unfold roundRank
  simp only [hdiv, hlog, Nat.pow_eq, Nat.pow_zero, Nat.mul_one, Nat.zero_mul, Nat.zero_add]
  unfold divNearestEven
  simp only [hdiv, hmod, if_pos (Or.inl h)]

theorem ofUnits_eq_finite {num den : Nat} {rank : Fin rankLimit} (h : roundRank num den = rank)
    (negative : Bool) : ofUnits negative num den = .finite negative rank := by
  unfold ofUnits
  simp only [h, dif_pos rank.isLt]

theorem ofUnits_congr {num den num' den' : Nat} (h : roundRank num den = roundRank num' den')
    (negative : Bool) : ofUnits negative num den = ofUnits negative num' den' := by
  unfold ofUnits
  simp only [h]

/-- A coefficient that the test for small decimals lets through as zero is below half a unit. -/
theorem two_mul_units_lt {coefficient e : Nat} (h : coefficient.log2 + 1076 < 3 * e) :
    2 * (coefficient * unitsPerOne) < Nat.pow 10 e := by
  have hc : coefficient < 2 ^ (coefficient.log2 + 1) := Nat.lt_log2_self
  unfold unitsPerOne
  generalize hp : 1074 = p
  simp only [Nat.pow_eq]
  calc 2 * (coefficient * 2 ^ p) < 2 * (2 ^ (coefficient.log2 + 1) * 2 ^ p) :=
        Nat.mul_lt_mul_of_pos_left
          (Nat.mul_lt_mul_of_pos_right hc (Nat.two_pow_pos p)) (by decide)
    _ = 2 ^ (coefficient.log2 + 1 + p + 1) := by rw [← Nat.pow_add, ← Nat.pow_add_one']
    _ ≤ 2 ^ (3 * e) := Nat.pow_le_pow_right (by decide) (by omega)
    _ = 8 ^ e := by rw [Nat.pow_mul]
    _ ≤ 10 ^ e := Nat.pow_le_pow_left (by decide) e

/-- **A decimal with places is rounded once, from its exact value.** -/
theorem ofDecimal_negSucc (negative : Bool) (coefficient e : Nat) :
    ofDecimal ⟨negative, coefficient, .negSucc e⟩ =
      ofUnits negative (coefficient * unitsPerOne) (Nat.pow 10 (e + 1)) := by
  simp only [ofDecimal]
  split
  · next h =>
    refine ofUnits_congr ?_ negative
    rw [roundRank_eq_zero (by decide), roundRank_eq_zero]
    exact two_mul_units_lt h
  · rfl

theorem ofUnits_ne_nan (negative : Bool) (num den : Nat) : ofUnits negative num den ≠ .nan := by
  unfold ofUnits
  dsimp only
  split <;> simp

/-- A decimal is always a number. -/
theorem ofDecimal_ne_nan (d : Decimal) : ofDecimal d ≠ .nan := by
  simp only [ofDecimal]
  split <;> split
  · exact ofUnits_ne_nan _ _ _
  · split
    · simp
    · exact ofUnits_ne_nan _ _ _
  · exact ofUnits_ne_nan _ _ _
  · exact ofUnits_ne_nan _ _ _

end HostScript.Binary64
