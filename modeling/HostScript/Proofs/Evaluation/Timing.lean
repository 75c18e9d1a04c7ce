import HostScript.Proofs.Evaluation.NestingLimit
import HostScript.Proofs.Evaluation.Calls
import HostScript.Proofs.Settings.Lookup

/-!
# Timed expressions

A timed expression is evaluated between two samples of the processor clock and shows the time
between them, scaled (`eval_time`). Its value is dropped, and all else that it does is kept. If it
fails the failure is passed on, and there is no second sample.

The time is never negative: a clock that goes back counts as one that stands still, and with
settings that were read from variables the scale is positive and finite, so that not even an
infinite time gives what is not a number.

How a span of time becomes a number of seconds is said by `Duration.RoundsToSeconds`, apart from how
it is computed, and there is one such number (`Duration.seconds_eq_iff`). The product with the scale
is correctly rounded (`Binary64.rounds_mul`).
-/

namespace HostScript

/-! ## Numbers without a minus sign -/

namespace Binary64

/-- A number without a minus sign: it is neither negative nor a negative zero. -/
inductive IsNonneg : Binary64 → Prop
  | infinite : IsNonneg (.infinite false)
  | finite (rank : Fin rankLimit) : IsNonneg (.finite false rank)

theorem isNonneg_ofUnits (num den : Nat) : (ofUnits false num den).IsNonneg := by
  unfold ofUnits
  dsimp only
  split
  · exact .finite _
  · exact .infinite

theorem finite_mul_finite (s t : Bool) (r q : Fin rankLimit) :
    finite s r * finite t q = ofUnits (s != t) (units r * units q) unitsPerOne := by
  simp only [HMul.hMul, Mul.mul, mul]

theorem exists_finite_of_value?_pos {x : Binary64} {value : ℚ} (h : x.value? = some value)
    (hpos : 0 < value) : ∃ rank, rank.val ≠ 0 ∧ x = finite false rank := by
  have hx := isFinite_and_isPositive_iff.mpr ⟨value, h, hpos⟩
  cases x with
  | nan => cases hx
  | infinite negative => cases hx
  | finite negative rank =>
    simp only [isFinite, isPositive, Bool.true_and, Bool.and_eq_true, Bool.not_eq_true',
      bne_iff_ne, ne_eq] at hx
    exact ⟨rank, hx.2, by rw [hx.1]⟩

/-- The scale must not be zero, since infinity times zero is not a number. -/
theorem IsNonneg.mul {x y : Binary64} (hx : x.IsNonneg) {value : ℚ} (hy : y.value? = some value)
    (hpos : 0 < value) : (x * y).IsNonneg := by
  obtain ⟨scale, hscale, rfl⟩ := exists_finite_of_value?_pos hy hpos
  cases hx with
  | infinite =>
    show IsNonneg (if scale.val = 0 then nan else .infinite false)
    rw [if_neg hscale]
    exact .infinite
  | finite rank =>
    rw [finite_mul_finite, bne_self_eq_false]
    exact isNonneg_ofUnits _ _

end Binary64

/-! ## Products and sums -/

namespace Binary64

/-- **A product is correctly rounded.** -/
theorem rounds_finite_mul_finite (s t : Bool) (r q : Fin rankLimit) :
    Rounds (s != t) (magnitude r * magnitude q) (finite s r * finite t q) := by
  have hnearest := isNearest_roundRank (units r * units q) unitsPerOne_pos
  have hvalue : ((units r * units q : Nat) : ℚ) / unitsPerOne / unitsPerOne =
      magnitude r * magnitude q := by
    unfold magnitude
    rw [Nat.cast_mul, div_div, div_mul_div_comm]
  rw [hvalue] at hnearest
  rw [finite_mul_finite]
  exact hnearest.rounds _

theorem rounds_mul {x y : Binary64} {a b : ℚ} (hnonneg : x.IsNonneg) (hx : x.value? = some a)
    (hy : y.value? = some b) (hpos : 0 < b) : Rounds false (a * b) (x * y) := by
  obtain ⟨q, -, rfl⟩ := exists_finite_of_value?_pos hy hpos
  cases hnonneg with
  | infinite => cases hx
  | finite r =>
    obtain rfl := Option.some.inj hx
    obtain rfl := Option.some.inj hy
    exact rounds_finite_mul_finite false false r q

/-- The sum of two magnitudes is correctly rounded. -/
theorem rounds_ofUnits_add (r q : Nat) :
    Rounds false (magnitude r + magnitude q) (ofUnits false (units r + units q) 1) := by
  have hnearest := isNearest_roundRank (units r + units q) Nat.one_pos
  have hvalue : ((units r + units q : Nat) : ℚ) / (1 : Nat) / unitsPerOne =
      magnitude r + magnitude q := by
    unfold magnitude
    rw [Nat.cast_one, div_one, Nat.cast_add, add_div]
  rw [hvalue] at hnearest
  exact hnearest.rounds false

end Binary64

/-! ## Spans of time -/

namespace Duration

open Binary64

/-- `d.RoundsToSeconds x` says that `x` is the span in seconds: the whole seconds and the fraction
are each correctly rounded, and then their sum is. -/
def RoundsToSeconds (d : Duration) (x : Binary64) : Prop :=
  ∃ whole fraction : Nat,
    IsNearest ((d.nanoseconds / 10 ^ 9 : Nat) : ℚ) whole ∧
    IsNearest (((d.nanoseconds % 10 ^ 9 : Nat) : ℚ) / 10 ^ 9) fraction ∧
    Rounds false (magnitude whole + magnitude fraction) x

theorem roundsToSeconds_seconds (d : Duration) : d.RoundsToSeconds d.seconds := by
  have hwhole := isNearest_quotient (d.nanoseconds / perSecond) Nat.one_pos
  have hfraction := isNearest_quotient (d.nanoseconds % perSecond) (by decide : 0 < perSecond)
  rw [Nat.cast_one, div_one] at hwhole
  have hperSecond : ((perSecond : Nat) : ℚ) = 10 ^ 9 := by norm_num [perSecond]
  rw [hperSecond] at hfraction
  exact ⟨_, _, hwhole, hfraction, rounds_ofUnits_add _ _⟩

theorem RoundsToSeconds.unique {d : Duration} {x y : Binary64} (hx : d.RoundsToSeconds x)
    (hy : d.RoundsToSeconds y) : x = y := by
  obtain ⟨whole, fraction, hwhole, hfraction, hx⟩ := hx
  obtain ⟨whole', fraction', hwhole', hfraction', hy⟩ := hy
  obtain rfl := hwhole.unique hwhole'
  obtain rfl := hfraction.unique hfraction'
  exact hx.unique hy

/-- **A span is shown as the number of seconds that it is rounded to.** -/
theorem seconds_eq_iff {d : Duration} {x : Binary64} : d.seconds = x ↔ d.RoundsToSeconds x := by
  constructor
  · rintro rfl
    exact d.roundsToSeconds_seconds
  · exact d.roundsToSeconds_seconds.unique

/-- A span of time is not negative. -/
theorem isNonneg_seconds (d : Duration) : d.seconds.IsNonneg :=
  isNonneg_ofUnits _ _

/-- A clock that went back stood still. -/
theorem between_eq_max (start stop : Duration) :
    ((between start stop).nanoseconds : Int) =
      max 0 ((stop.nanoseconds : Int) - start.nanoseconds) := by
  show ((stop.nanoseconds - start.nanoseconds : Nat) : Int) = _
  omega

end Duration

variable {σ : Type}

/-! ## Samples -/

namespace Session

/-- What the processor clock reads if the host is asked now. -/
def clock (host : Host σ) (s : Session σ) : Duration := (host.answer .cpuTime s.host).1

/-- The session after the host was asked for the processor time. -/
def sampled (host : Host σ) (s : Session σ) : Session σ :=
  { s with host := (host.answer .cpuTime s.host).2, requests := s.requests ++ [.cpuTime] }

end Session

theorem Evaluation.ask_cpuTime (host : Host σ) (s : Session σ) :
    ask host .cpuTime s = (.ok (s.clock host), s.sampled host) := rfl

namespace Interpreter

open Evaluation

variable {i : Interpreter σ} {d : Nat} {e : Expr} {s u : Session σ}

theorem evalTimed_ok {w : Value} (h : i.eval d e (s.sampled i.host) = (.ok w, u)) :
    i.evalTimed d [e] s =
      (.ok (i.scaledSeconds (s.clock i.host) (u.clock i.host)), u.sampled i.host) := by
  rw [evalTimed, bind_ok (ask_cpuTime i.host s), bind_ok h, bind_ok (ask_cpuTime i.host u)]
  rfl

theorem evalTimed_error {err : Signal} (h : i.eval d e (s.sampled i.host) = (.error err, u)) :
    i.evalTimed d [e] s = (.error err, u) := by
  rw [evalTimed, bind_ok (ask_cpuTime i.host s), bind_error h]

theorem call_time (e : Expr) : i.call d (.form .time) [e] = i.evalTimed d [e] := by
  rw [call, checkArity_of_accepts (b := .form .time) rfl]
  rfl

theorem isNonneg_scaledSeconds (lookup : String → Option String) (elapsed : Duration) :
    (elapsed.seconds * (Settings.ofLookup lookup).timeScale).IsNonneg := by
  obtain ⟨value, hvalue, hpos⟩ := Settings.timeScale_pos lookup
  exact elapsed.isNonneg_seconds.mul hvalue hpos

theorem rounds_scaledSeconds (lookup : String → Option String) (elapsed : Duration) {a b : ℚ}
    (ha : elapsed.seconds.value? = some a)
    (hb : (Settings.ofLookup lookup).timeScale.value? = some b) :
    Binary64.Rounds false (a * b) (elapsed.seconds * (Settings.ofLookup lookup).timeScale) := by
  obtain ⟨value, hvalue, hpos⟩ := Settings.timeScale_pos lookup
  rw [hvalue] at hb
  obtain rfl := Option.some.inj hb
  exact Binary64.rounds_mul elapsed.isNonneg_seconds ha hvalue hpos

/-- **A timed expression shows the time between a sample before and a sample after all that its
operand does, which is no negative number, or fails as its operand fails, in the session that this
leaves.** -/
theorem eval_time (host : Host σ) (lookup : String → Option String) (d : Nat) (e : Expr)
    (s : Session σ) :
    let i : Interpreter σ := { host, settings := .ofLookup lookup }
    let time := i.eval d (.list [.symbol "time", e]) s
    let operand := i.eval (d + 1) e (s.sampled host)
    0 < i.settings.maxDepth.toNat ∧
    (∀ v t, time = (.ok v, t) →
      ∃ w u x, operand = (.ok w, u) ∧ t = u.sampled host ∧ v = .dec x ∧ x.IsNonneg ∧
        (∃ elapsed : Duration, x = elapsed.seconds * i.settings.timeScale ∧
          (elapsed.nanoseconds : Int) =
            max 0 (((u.clock host).nanoseconds : Int) - (s.clock host).nanoseconds) ∧
          elapsed.RoundsToSeconds elapsed.seconds ∧
          ∀ a b, elapsed.seconds.value? = some a → i.settings.timeScale.value? = some b →
            Binary64.Rounds false (a * b) x) ∧
        (s.sampled host).requests <+: u.requests) ∧
    (d < i.settings.maxDepth.toNat →
      (∀ w u, operand = (.ok w, u) → ∃ v, time = (.ok v, u.sampled host)) ∧
      ∀ err u, operand = (.error err, u) → time = (.error err, u)) ∧
    (¬ d < i.settings.maxDepth.toNat →
      time = (.error (.excessiveNesting i.settings.maxDepth), s)) := by
  intro i time operand
  have hcall : d < i.settings.maxDepth.toNat → time = i.evalTimed (d + 1) [e] s := by
    intro hd
    rw [← call_time]
    exact congrFun (eval_named_call hd rfl [e]) s
  refine ⟨Settings.maxDepth_pos lookup, fun v t h => ?_, fun hd => ⟨fun w u h => ?_, ?_⟩, fun hd => ?_⟩
  · have htime := hcall (lt_maxDepth_of_eval_ok h)
    rw [h] at htime
    rcases hoperand : operand with ⟨err | w, u⟩
    · rw [evalTimed_error hoperand] at htime
      cases htime
    · rw [evalTimed_ok hoperand] at htime
      cases htime
      have hcontinues := continues_eval i (d + 1) e (s.sampled host)
      rw [show i.eval (d + 1) e (s.sampled host) = (.ok w, u) from hoperand] at hcontinues
      exact ⟨w, u, _, rfl, rfl, rfl, isNonneg_scaledSeconds lookup _,
        ⟨_, rfl, Duration.between_eq_max _ _, Duration.roundsToSeconds_seconds _,
          fun _ _ => rounds_scaledSeconds lookup _⟩, hcontinues.requests⟩
  · exact ⟨_, (hcall hd).trans (evalTimed_ok h)⟩
  · intro err u h
    exact (hcall hd).trans (evalTimed_error h)
  · show i.eval d (.list [.symbol "time", e]) s = _
    rw [eval_call, within_of_not_lt hd]
    rfl

end Interpreter

end HostScript
