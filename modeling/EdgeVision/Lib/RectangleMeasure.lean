import Mathlib.MeasureTheory.Measure.Lebesgue.Basic
import Mathlib.MeasureTheory.Measure.Real
import EdgeVision.Lib.Rectangle

/-!
# Rectangles in the plane

In the real plane the area of a rectangle is the Lebesgue measure of its inner points, and what two
rectangles cover together is the measure of their union, so that the overlap is a quotient of two
measures (`overlap_eq_measure`). Rational rectangles overlap as they do in the plane.
-/

namespace EdgeVision.Lib.Rectangle

open MeasureTheory

/-- A rational rectangle in the plane. -/
def toReal (r : Rectangle ℚ) : Rectangle ℝ := ⟨r.x1, r.y1, r.x2, r.y2⟩

theorem extent_cast (a b : ℚ) : ((extent a b : ℚ) : ℝ) = extent (a : ℝ) (b : ℝ) := by
  simp only [extent, Rat.cast_max, Rat.cast_sub, Rat.cast_zero]

theorem area_toReal (r : Rectangle ℚ) : r.toReal.area = (r.area : ℚ) := by
  simp only [area, toReal, Rat.cast_mul, extent_cast]

theorem inter_toReal (r s : Rectangle ℚ) : (r.inter s).toReal = r.toReal.inter s.toReal := by
  simp only [inter, toReal, Rat.cast_max, Rat.cast_min]

theorem overlap_toReal (r s : Rectangle ℚ) :
    ((overlap r s : ℚ) : ℝ) = overlap r.toReal s.toReal := by
  simp only [overlap_eq, unionArea, ← inter_toReal, area_toReal, Rat.cast_div, Rat.cast_sub,
    Rat.cast_add]

variable (r s : Rectangle ℝ)

theorem measurableSet_interior : MeasurableSet r.interior :=
  measurableSet_Ioo.prod measurableSet_Ioo

/-- **The area is the measure.** -/
theorem measure_interior : volume.real r.interior = r.area := by
  rw [interior, Measure.volume_eq_prod, measureReal_prod_prod, Real.volume_real_Ioo,
    Real.volume_real_Ioo, area, extent, extent, max_comm, max_comm 0 (r.y2 - r.y1)]

theorem measure_interior_ne_top : volume r.interior ≠ ⊤ := by
  rw [interior, Measure.volume_eq_prod, Measure.prod_prod, Real.volume_Ioo, Real.volume_Ioo]
  exact ENNReal.mul_ne_top ENNReal.ofReal_ne_top ENNReal.ofReal_ne_top

theorem measure_union : volume.real (r.interior ∪ s.interior) = unionArea r s := by
  have hsum := measureReal_union_add_inter s.measurableSet_interior r.measure_interior_ne_top
    s.measure_interior_ne_top
  rw [← interior_inter, measure_interior, measure_interior, measure_interior] at hsum
  rw [unionArea, ← hsum, add_sub_cancel_right]

theorem overlap_eq_measure :
    overlap r s = volume.real (r.interior ∩ s.interior) / volume.real (r.interior ∪ s.interior) := by
  rw [measure_union, ← interior_inter, measure_interior, overlap_eq]

end EdgeVision.Lib.Rectangle
