import Mathlib.Algebra.Order.Floor.Ring
import Mathlib.Data.Int.Log
import Mathlib.Data.Rat.Floor
import Mathlib.Tactic.Linarith
import Mathlib.Tactic.Positivity
import Mathlib.Tactic.Ring

/-!
# Rounding

An operation on floating-point numbers is the exact one, rounded. What a proof uses of a rounding is
that it is monotone and that its relative error is at most its unit, which is less than one
(`Rounding`). Such are no rounding at all (`Rounding.exact`) and the rounding to the nearest number
with so many bits behind the first, ties to even (`Rounding.nearestEven`). The exponent is unbounded:
results are neither too large nor too small for the format.
-/

namespace EdgeVision.Lib

/-! ## To the nearest integer -/

def roundHalfEven (x : Rat) : Int :=
  if x - ⌊x⌋ < 1 / 2 then ⌊x⌋
  else if 1 / 2 < x - ⌊x⌋ then ⌊x⌋ + 1
  else if ⌊x⌋ % 2 = 0 then ⌊x⌋ else ⌊x⌋ + 1

theorem floor_le_roundHalfEven (x : Rat) : ⌊x⌋ ≤ roundHalfEven x := by
  unfold roundHalfEven
  split_ifs <;> omega

theorem roundHalfEven_le_floor (x : Rat) : roundHalfEven x ≤ ⌊x⌋ + 1 := by
  unfold roundHalfEven
  split_ifs <;> omega

theorem roundHalfEven_intCast (n : Int) : roundHalfEven n = n := by
  rw [roundHalfEven, Int.floor_intCast, sub_self, if_pos (by norm_num)]

theorem roundHalfEven_mono {x y : Rat} (hle : x ≤ y) : roundHalfEven x ≤ roundHalfEven y := by
  rcases Int.lt_or_eq_of_le (Int.floor_le_floor hle) with hlt | heq
  · have hx := roundHalfEven_le_floor x
    have hy := floor_le_roundHalfEven y
    omega
  · -- Between the same integers only the fraction counts.
    unfold roundHalfEven
    rw [← heq]
    have hfraction : x - ⌊x⌋ ≤ y - ⌊x⌋ := sub_le_sub_right hle _
    by_cases hlow : x - ⌊x⌋ < 1 / 2
    · rw [if_pos hlow]
      split_ifs <;> omega
    · rw [if_neg hlow, if_neg fun h => hlow (hfraction.trans_lt h)]
      by_cases hhigh : 1 / 2 < x - ⌊x⌋
      · rw [if_pos (hhigh.trans_le hfraction)]
        split_ifs
        omega
      · rw [if_neg hhigh]
        split_ifs <;> omega

theorem abs_roundHalfEven_sub_le (x : Rat) : |roundHalfEven x - x| ≤ 1 / 2 := by
  have hlt := Int.lt_floor_add_one x
  have hle := Int.floor_le x
  rw [abs_le]
  unfold roundHalfEven
  split_ifs <;> push_cast <;> constructor <;> linarith

/-! ## Roundings -/

structure Rounding where
  round : Rat → Rat
  monotone : Monotone round
  /-- The largest relative error. -/
  unit : Rat
  unit_nonneg : 0 ≤ unit
  unit_lt_one : unit < 1
  error_le : ∀ x, |round x - x| ≤ unit * |x|

namespace Rounding

instance : CoeFun Rounding fun _ => Rat → Rat := ⟨round⟩

section Laws

variable (fl : Rounding)

theorem le_of_nonneg {x : Rat} (h : 0 ≤ x) : fl x ≤ (1 + fl.unit) * x := by
  have herror := (abs_le.mp (fl.error_le x)).2
  rw [abs_of_nonneg h] at herror
  linarith

theorem ge_of_nonneg {x : Rat} (h : 0 ≤ x) : (1 - fl.unit) * x ≤ fl x := by
  have herror := (abs_le.mp (fl.error_le x)).1
  rw [abs_of_nonneg h] at herror
  linarith

@[simp] theorem round_zero : fl 0 = 0 := by
  have herror := fl.error_le 0
  rw [abs_zero, mul_zero, sub_zero] at herror
  exact abs_nonpos_iff.mp herror

theorem pos {x : Rat} (h : 0 < x) : 0 < fl x :=
  (mul_pos (sub_pos.mpr fl.unit_lt_one) h).trans_le (fl.ge_of_nonneg h.le)

theorem nonneg {x : Rat} (h : 0 ≤ x) : 0 ≤ fl x := by
  simpa using fl.monotone h

/-- Only zero is rounded to zero. -/
theorem round_eq_zero_iff {x : Rat} (h : 0 ≤ x) : fl x = 0 ↔ x = 0 := by
  constructor
  · intro hzero
    by_contra hne
    exact (fl.pos (lt_of_le_of_ne h (Ne.symm hne))).ne' hzero
  · rintro rfl
    exact fl.round_zero

/-- The largest factor between two roundings of one number. -/
def spread : Rat := (1 + fl.unit) / (1 - fl.unit)

end Laws

/-- No rounding. -/
def exact : Rounding where
  round := id
  monotone := monotone_id
  unit := 0
  unit_nonneg := le_rfl
  unit_lt_one := zero_lt_one
  error_le x := by simp

@[simp] theorem exact_apply (x : Rat) : exact x = x := rfl

@[simp] theorem exact_unit : exact.unit = 0 := rfl

@[simp] theorem exact_spread : exact.spread = 1 := by simp [spread]

/-! ## To the nearest number of a format -/

/-- The distance of two neighbours with `p` bits behind the first, where `x` is. -/
def ulp (p : Nat) (x : Rat) : Rat := 2 ^ (Int.log 2 |x| - p)

def roundNearest (p : Nat) (x : Rat) : Rat := roundHalfEven (x / ulp p x) * ulp p x

section Nearest

variable (p : Nat) {x y : Rat}

theorem ulp_pos (x : Rat) : 0 < ulp p x := zpow_pos two_pos _

/-- A multiple of the distance is not passed, -/
theorem roundNearest_le {n : Int} (h : x ≤ n * ulp p x) : roundNearest p x ≤ n * ulp p x := by
  have hle := roundHalfEven_mono ((div_le_iff₀ (ulp_pos p x)).mpr h)
  rw [roundHalfEven_intCast] at hle
  exact mul_le_mul_of_nonneg_right (by exact_mod_cast hle) (ulp_pos p x).le

/-- from either side. -/
theorem le_roundNearest {n : Int} (h : n * ulp p x ≤ x) : n * ulp p x ≤ roundNearest p x := by
  have hle := roundHalfEven_mono ((le_div_iff₀ (ulp_pos p x)).mpr h)
  rw [roundHalfEven_intCast] at hle
  exact mul_le_mul_of_nonneg_right (by exact_mod_cast hle) (ulp_pos p x).le

theorem roundNearest_nonneg (h : 0 ≤ x) : 0 ≤ roundNearest p x := by
  simpa using le_roundNearest (n := 0) p (by simpa using h)

theorem roundNearest_nonpos (h : x ≤ 0) : roundNearest p x ≤ 0 := by
  simpa using roundNearest_le (n := 0) p (by simpa using h)

/-- Powers of two next to a number are multiples of the distance. -/
theorem zpow_log_eq (x : Rat) (k : Nat) :
    (2 : Rat) ^ (Int.log 2 |x| + k) = ((2 ^ (p + k) : Int) : Rat) * ulp p x := by
  have htwo : (2 : Rat) ≠ 0 := two_ne_zero
  rw [ulp, Int.cast_pow, Int.cast_ofNat, ← zpow_natCast, ← zpow_add₀ htwo]
  congr 1
  push_cast
  ring

theorem abs_lt_zpow (x : Rat) : |x| < 2 ^ (Int.log 2 |x| + 1) := by
  exact_mod_cast Int.lt_zpow_succ_log_self (by decide) |x|

theorem zpow_le_abs (h : x ≠ 0) : (2 : Rat) ^ Int.log 2 |x| ≤ |x| := by
  exact_mod_cast Int.zpow_log_le_self (by decide) (abs_pos.mpr h)

/-- Rounding stays between the powers of two next to a number. -/
theorem roundNearest_pos_mem (h : 0 < x) :
    2 ^ Int.log 2 |x| ≤ roundNearest p x ∧ roundNearest p x ≤ 2 ^ (Int.log 2 |x| + 1) := by
  have hlow := zpow_le_abs h.ne'
  have hhigh := (abs_lt_zpow x).le
  have hzero := zpow_log_eq p x 0
  have hone := zpow_log_eq p x 1
  rw [abs_of_pos h] at hlow hhigh hzero hone ⊢
  rw [Nat.cast_zero, add_zero] at hzero
  rw [Nat.cast_one] at hone
  rw [hzero] at hlow ⊢
  rw [hone] at hhigh ⊢
  exact ⟨le_roundNearest p hlow, roundNearest_le p hhigh⟩

theorem roundNearest_neg_mem (h : x < 0) :
    -2 ^ (Int.log 2 |x| + 1) ≤ roundNearest p x ∧ roundNearest p x ≤ -2 ^ Int.log 2 |x| := by
  have hlow := zpow_le_abs h.ne
  have hhigh := (abs_lt_zpow x).le
  have hzero := zpow_log_eq p x 0
  have hone := zpow_log_eq p x 1
  have habs : |x| = -x := abs_of_neg h
  rw [Nat.cast_zero, add_zero] at hzero
  rw [Nat.cast_one] at hone
  rw [hzero, habs] at hlow
  rw [hone, habs] at hhigh
  rw [hzero, hone, ← neg_mul, ← neg_mul, ← Int.cast_neg, ← Int.cast_neg]
  refine ⟨le_roundNearest p ?_, roundNearest_le p ?_⟩
  · push_cast at hhigh ⊢
    linarith
  · push_cast at hlow ⊢
    linarith

/-- With the same distance the multiples are compared. -/
theorem roundNearest_mono_of_log_eq (h : x ≤ y) (hlog : Int.log 2 |x| = Int.log 2 |y|) :
    roundNearest p x ≤ roundNearest p y := by
  have hulp : ulp p x = ulp p y := by rw [ulp, ulp, hlog]
  have hpos := ulp_pos p y
  have hle := roundHalfEven_mono (div_le_div_of_nonneg_right h hpos.le)
  rw [roundNearest, roundNearest, hulp]
  exact mul_le_mul_of_nonneg_right (by exact_mod_cast hle) hpos.le

theorem roundNearest_mono : Monotone (roundNearest p) := by
  have hpower {a b : Int} (h : a < b) : (2 : Rat) ^ (a + 1) ≤ 2 ^ b :=
    zpow_le_zpow_right₀ one_le_two h
  intro x y hle
  rcases le_or_gt x 0 with hx | hx
  · rcases le_or_gt 0 y with hy | hy
    · exact (roundNearest_nonpos p hx).trans (roundNearest_nonneg p hy)
    · have hxneg : x < 0 := hle.trans_lt hy
      have habs : |y| ≤ |x| := by
        rw [abs_of_neg hy, abs_of_neg hxneg]
        exact neg_le_neg hle
      rcases (Int.log_mono_right (b := 2) (abs_pos.mpr hy.ne) habs).lt_or_eq with hlt | heq
      · have hupper := (roundNearest_neg_mem p hxneg).2
        have hlower := (roundNearest_neg_mem p hy).1
        have hbetween := hpower hlt
        linarith
      · exact roundNearest_mono_of_log_eq p hle heq.symm
  · have hy : 0 < y := hx.trans_le hle
    have habs : |x| ≤ |y| := by
      rw [abs_of_pos hx, abs_of_pos hy]
      exact hle
    rcases (Int.log_mono_right (b := 2) (abs_pos.mpr hx.ne') habs).lt_or_eq with hlt | heq
    · have hupper := (roundNearest_pos_mem p hx).2
      have hlower := (roundNearest_pos_mem p hy).1
      have hbetween := hpower hlt
      linarith
    · exact roundNearest_mono_of_log_eq p hle heq

/-- The error is at most half the distance. -/
theorem abs_roundNearest_sub_le (x : Rat) : |roundNearest p x - x| ≤ 1 / 2 ^ (p + 1) * |x| := by
  rcases eq_or_ne x 0 with rfl | hne
  · simp [roundNearest, roundHalfEven]
  have hpos := ulp_pos p x
  have hdiff : roundNearest p x - x = (roundHalfEven (x / ulp p x) - x / ulp p x) * ulp p x := by
    rw [roundNearest, sub_mul, div_mul_cancel₀ _ hpos.ne']
  have hpower : (2 : Rat) ^ Int.log 2 |x| = 2 ^ p * ulp p x := by
    have hzero := zpow_log_eq p x 0
    push_cast at hzero
    simpa using hzero
  calc |roundNearest p x - x|
      = |roundHalfEven (x / ulp p x) - x / ulp p x| * ulp p x := by
        rw [hdiff, abs_mul, abs_of_pos hpos]
    _ ≤ 1 / 2 * ulp p x :=
        mul_le_mul_of_nonneg_right (abs_roundHalfEven_sub_le _) hpos.le
    _ = 1 / 2 ^ (p + 1) * 2 ^ Int.log 2 |x| := by
        rw [hpower, pow_succ]
        field_simp
    _ ≤ 1 / 2 ^ (p + 1) * |x| :=
        mul_le_mul_of_nonneg_left (zpow_le_abs hne) (by positivity)

end Nearest

/-- Rounding to the nearest number with `p` bits behind the first, ties to even. -/
def nearestEven (p : Nat) : Rounding where
  round := roundNearest p
  monotone := roundNearest_mono p
  unit := 1 / 2 ^ (p + 1)
  unit_nonneg := by positivity
  unit_lt_one := by
    rw [div_lt_one (by positivity)]
    exact one_lt_pow₀ one_lt_two (by omega)
  error_le := abs_roundNearest_sub_le p

/-- The rounding of `float`. -/
def binary32 : Rounding := nearestEven 23

/-- The rounding of `double`. -/
def binary64 : Rounding := nearestEven 52

example : binary32 (1 / 10) = 13421773 / 2 ^ 27 := by decide +kernel

end Rounding

end EdgeVision.Lib
