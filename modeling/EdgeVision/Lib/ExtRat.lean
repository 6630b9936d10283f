import Mathlib.Algebra.Order.Field.Rat
import Mathlib.Algebra.Order.Floor.Ring
import Mathlib.Data.Rat.Floor
import Mathlib.Tactic.Linarith

/-!
# Floating-point numbers without rounding

A number is a rational, an infinity or a NaN. The operations are those of IEEE 754 before rounding,
with one zero: a comparison with a NaN is false, an operation without a meaningful result gives a
NaN. `max` and `min` pick an operand by one comparison, so they too depend on the order of their
operands when one of these is a NaN.
-/

namespace EdgeVision.Lib

inductive ExtRat where
  | fin (q : Rat)
  | inf (neg : Bool)
  | nan
  deriving DecidableEq, Repr

namespace ExtRat

/-! ## The operations -/

def lt : ExtRat → ExtRat → Bool
  | fin a, fin b => decide (a < b)
  | fin _, inf neg => !neg
  | inf neg, fin _ => neg
  | inf neg, inf neg' => neg && !neg'
  | _, _ => false

def le : ExtRat → ExtRat → Bool
  | fin a, fin b => decide (a ≤ b)
  | fin _, inf neg => !neg
  | inf neg, fin _ => neg
  | inf neg, inf neg' => neg || !neg'
  | _, _ => false

instance : LT ExtRat := ⟨fun x y => lt x y = true⟩

instance : LE ExtRat := ⟨fun x y => le x y = true⟩

instance (x y : ExtRat) : Decidable (x < y) := inferInstanceAs (Decidable (lt x y = true))

instance (x y : ExtRat) : Decidable (x ≤ y) := inferInstanceAs (Decidable (le x y = true))

def add : ExtRat → ExtRat → ExtRat
  | fin a, fin b => fin (a + b)
  | fin _, inf neg => inf neg
  | inf neg, fin _ => inf neg
  | inf neg, inf neg' => if neg = neg' then inf neg else nan
  | _, _ => nan

def neg : ExtRat → ExtRat
  | fin a => fin (-a)
  | inf neg => inf (!neg)
  | nan => nan

def mul : ExtRat → ExtRat → ExtRat
  | fin a, fin b => fin (a * b)
  | fin a, inf neg => if a = 0 then nan else inf (decide (a < 0) != neg)
  | inf neg, fin b => if b = 0 then nan else inf (neg != decide (b < 0))
  | inf neg, inf neg' => inf (neg != neg')
  | _, _ => nan

def div : ExtRat → ExtRat → ExtRat
  | fin a, fin b =>
    if b = 0 then (if a = 0 then nan else inf (decide (a < 0))) else fin (a / b)
  | fin _, inf _ => fin 0
  | inf neg, fin b => inf (neg != decide (b < 0))
  | _, _ => nan

instance : Add ExtRat := ⟨add⟩

instance : Neg ExtRat := ⟨neg⟩

instance : Sub ExtRat := ⟨fun x y => add x (neg y)⟩

instance : Mul ExtRat := ⟨mul⟩

instance : Div ExtRat := ⟨div⟩

/-- The second operand if it is larger, else the first. -/
def max (x y : ExtRat) : ExtRat := if x < y then y else x

/-- The second operand if it is smaller, else the first. -/
def min (x y : ExtRat) : ExtRat := if y < x then y else x

def abs : ExtRat → ExtRat
  | fin a => fin |a|
  | inf _ => inf false
  | nan => nan

/-- Rounding to the nearest integer, halves away from zero. -/
def roundAway (q : Rat) : Int := if 0 ≤ q then ⌊q + 1 / 2⌋ else ⌈q - 1 / 2⌉

/-- Rounding towards zero. -/
def truncate (q : Rat) : Int := if 0 ≤ q then ⌊q⌋ else ⌈q⌉

/-! ## Rationals -/

section Rationals

variable (a b : Rat)

@[simp] theorem fin_lt_fin : fin a < fin b ↔ a < b := decide_eq_true_iff

@[simp] theorem fin_le_fin : fin a ≤ fin b ↔ a ≤ b := decide_eq_true_iff

@[simp] theorem fin_add_fin : fin a + fin b = fin (a + b) := rfl

@[simp] theorem fin_sub_fin : fin a - fin b = fin (a - b) :=
  congrArg fin (sub_eq_add_neg a b).symm

@[simp] theorem fin_mul_fin : fin a * fin b = fin (a * b) := rfl

theorem fin_div_fin {b : Rat} (h : b ≠ 0) : fin a / fin b = fin (a / b) := if_neg h

@[simp] theorem max_fin : max (fin a) (fin b) = fin (Max.max a b) := by
  unfold max
  by_cases h : a < b
  · rw [if_pos ((fin_lt_fin a b).mpr h), max_eq_right h.le]
  · rw [if_neg (mt (fin_lt_fin a b).mp h), max_eq_left (Rat.not_lt.mp h)]

@[simp] theorem min_fin : min (fin a) (fin b) = fin (Min.min a b) := by
  unfold min
  by_cases h : b < a
  · rw [if_pos ((fin_lt_fin b a).mpr h), min_eq_right h.le]
  · rw [if_neg (mt (fin_lt_fin b a).mp h), min_eq_left (Rat.not_lt.mp h)]

@[simp] theorem abs_fin : abs (fin a) = fin |a| := rfl

end Rationals

/-! ## Comparisons -/

section Order

variable {x y z : ExtRat}

/-- The place of a number between the infinities. -/
def rank : ExtRat → WithBot (WithTop Rat)
  | fin a => ((a : WithTop Rat) : WithBot (WithTop Rat))
  | inf neg => if neg then ⊥ else ⊤
  | nan => ⊥

theorem le_def : x ≤ y ↔ le x y = true := Iff.rfl

theorem lt_def : x < y ↔ lt x y = true := Iff.rfl

/-- Numbers are ordered by their place, and a NaN by nothing. -/
theorem le_iff : x ≤ y ↔ x ≠ nan ∧ y ≠ nan ∧ rank x ≤ rank y := by
  rw [le_def]
  cases x with
  | nan => cases y <;> simp [le]
  | inf neg =>
    cases y with
    | nan => simp [le]
    | inf neg' => cases neg <;> cases neg' <;> simp [rank, le]
    | fin b => cases neg <;> simp [rank, le]
  | fin a =>
    cases y with
    | nan => simp [le]
    | inf neg' => cases neg' <;> simp [rank, le]
    | fin b => simp [rank, le]

theorem lt_iff : x < y ↔ x ≠ nan ∧ y ≠ nan ∧ rank x < rank y := by
  rw [lt_def]
  cases x with
  | nan => cases y <;> simp [lt]
  | inf neg =>
    cases y with
    | nan => simp [lt]
    | inf neg' => cases neg <;> cases neg' <;> simp [rank, lt]
    | fin b => cases neg <;> simp [rank, lt]
  | fin a =>
    cases y with
    | nan => simp [lt]
    | inf neg' =>
      have hle : ((a : WithTop Rat) : WithBot (WithTop Rat)) < ((⊤ : WithTop Rat)) :=
        WithBot.coe_lt_coe.mpr (WithTop.coe_lt_top a)
      cases neg' <;> simp [rank, lt]
      exact hle
    | fin b => simp [rank, lt]

theorem rank_inj (hx : x ≠ nan) (hy : y ≠ nan) (h : rank x = rank y) : x = y := by
  cases x with
  | nan => exact absurd rfl hx
  | inf neg =>
    cases y with
    | nan => exact absurd rfl hy
    | inf neg' => cases neg <;> cases neg' <;> simp [rank] at h ⊢
    | fin b => cases neg <;> simp [rank] at h
  | fin a =>
    cases y with
    | nan => exact absurd rfl hy
    | inf neg' => cases neg' <;> simp [rank] at h
    | fin b => simpa [rank] using h

/-- Among numbers the order is total. -/
theorem not_lt (hx : x ≠ nan) (hy : y ≠ nan) : ¬ x < y ↔ y ≤ x := by
  rw [lt_iff, le_iff]
  simp [hx, hy]

theorem lt_irrefl : ¬ x < x := fun h => (lt_iff.mp h).2.2.ne rfl

theorem lt_trans (hxy : x < y) (hyz : y < z) : x < z := by
  obtain ⟨hx, -, hlt⟩ := lt_iff.mp hxy
  obtain ⟨-, hz, hlt'⟩ := lt_iff.mp hyz
  exact lt_iff.mpr ⟨hx, hz, hlt.trans hlt'⟩

theorem le_of_lt (h : x < y) : x ≤ y := by
  obtain ⟨hx, hy, hlt⟩ := lt_iff.mp h
  exact le_iff.mpr ⟨hx, hy, hlt.le⟩

theorem le_rfl (hx : x ≠ nan) : x ≤ x := le_iff.mpr ⟨hx, hx, Preorder.le_refl _⟩

theorem le_trans (hxy : x ≤ y) (hyz : y ≤ z) : x ≤ z := by
  obtain ⟨hx, -, hle⟩ := le_iff.mp hxy
  obtain ⟨-, hz, hle'⟩ := le_iff.mp hyz
  exact le_iff.mpr ⟨hx, hz, hle.trans hle'⟩

theorem le_antisymm (hxy : x ≤ y) (hyx : y ≤ x) : x = y := by
  obtain ⟨hx, hy, hle⟩ := le_iff.mp hxy
  obtain ⟨-, -, hle'⟩ := le_iff.mp hyx
  exact rank_inj hx hy (hle.antisymm hle')

theorem abs_ne_nan (hx : x ≠ nan) : abs x ≠ nan := by
  cases x with
  | nan => exact absurd rfl hx
  | inf neg => simp [abs]
  | fin q => simp [abs]

theorem max_ne_nan (hx : x ≠ nan) (hy : y ≠ nan) : max x y ≠ nan := by
  unfold max
  split
  · exact hy
  · exact hx

/-- Among numbers the larger one is the least bound of the two. -/
theorem max_le_iff (hx : x ≠ nan) (hy : y ≠ nan) : max x y ≤ z ↔ x ≤ z ∧ y ≤ z := by
  unfold max
  split
  · rename_i hlt
    exact ⟨fun h => ⟨le_trans (le_of_lt hlt) h, h⟩, fun h => h.2⟩
  · rename_i hle
    exact ⟨fun h => ⟨h, le_trans ((not_lt hx hy).mp hle) h⟩, fun h => h.1⟩

end Order

/-- A product with a number has no meaning when it is zero times an infinity. -/
theorem mul_eq_nan_iff {x y : ExtRat} (hy : y ≠ nan) :
    x * y = nan ↔
      x = nan ∨ (x = fin 0 ∧ ∃ neg, y = inf neg) ∨ (∃ neg, x = inf neg) ∧ y = fin 0 := by
  change mul x y = nan ↔ _
  cases x with
  | nan => simp [mul]
  | inf neg =>
    cases y with
    | nan => exact absurd rfl hy
    | inf neg' => simp [mul]
    | fin b => by_cases hb : b = 0 <;> simp [mul, hb]
  | fin a =>
    cases y with
    | nan => exact absurd rfl hy
    | inf neg' => by_cases ha : a = 0 <;> simp [mul, ha]
    | fin b => simp [mul]

end ExtRat

end EdgeVision.Lib
