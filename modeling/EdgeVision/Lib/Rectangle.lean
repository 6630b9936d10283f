import Mathlib.Algebra.Order.Field.Basic
import Mathlib.Order.CompletePartialOrder
import Mathlib.Order.Interval.Set.Disjoint
import Mathlib.Tactic.Linarith

/-!
# Overlapping rectangles

Rectangles with sides along the axes, over any ordered field. One whose corners are the wrong way
round, or on top of each other, is empty. Two rectangles overlap by the area they share over the
area they cover together (`overlap`), a number between zero and one: zero if and only if they share
no inner point, and one if and only if they are one and the same rectangle and it is not empty.
-/

namespace EdgeVision.Lib

structure Rectangle (α : Type) where
  x1 : α
  y1 : α
  x2 : α
  y2 : α
  deriving DecidableEq, Repr

namespace Rectangle

section

variable {α : Type} [LinearOrder α]

def inter (r s : Rectangle α) : Rectangle α :=
  ⟨max r.x1 s.x1, max r.y1 s.y1, min r.x2 s.x2, min r.y2 s.y2⟩

/-- The inner points. -/
def interior (r : Rectangle α) : Set (α × α) := Set.Ioo r.x1 r.x2 ×ˢ Set.Ioo r.y1 r.y2

/-- The corners are the right way round. -/
structure Nonempty (r : Rectangle α) : Prop where
  x : r.x1 < r.x2
  y : r.y1 < r.y2

theorem inter_comm (r s : Rectangle α) : r.inter s = s.inter r := by
  simp only [inter, max_comm, min_comm]

theorem inter_self (r : Rectangle α) : r.inter r = r := by
  simp only [inter, max_self, min_self]

theorem interior_inter (r s : Rectangle α) : (r.inter s).interior = r.interior ∩ s.interior := by
  rw [interior, interior, interior, Set.prod_inter_prod, Set.Ioo_inter_Ioo, Set.Ioo_inter_Ioo]
  rfl

theorem interior_nonempty_iff [DenselyOrdered α] {r : Rectangle α} :
    r.interior.Nonempty ↔ r.Nonempty := by
  rw [interior, Set.prod_nonempty_iff, Set.nonempty_Ioo, Set.nonempty_Ioo]
  exact ⟨fun h => ⟨h.1, h.2⟩, fun h => ⟨h.x, h.y⟩⟩

end

end Rectangle

/-! ## Lengths and areas -/

section

variable {α : Type} [Field α] [LinearOrder α]

/-- The length of an interval, zero if it ends before it begins. -/
def extent (a b : α) : α := max 0 (b - a)

theorem extent_nonneg (a b : α) : 0 ≤ extent a b := le_max_left 0 (b - a)

namespace Rectangle

def area (r : Rectangle α) : α := extent r.x1 r.x2 * extent r.y1 r.y2

/-- What two rectangles cover together: what they share is counted once. -/
def unionArea (r s : Rectangle α) : α := r.area + s.area - (r.inter s).area

def overlap (r s : Rectangle α) : α :=
  if unionArea r s ≤ 0 then 0 else (r.inter s).area / unionArea r s

theorem unionArea_comm (r s : Rectangle α) : unionArea r s = unionArea s r := by
  rw [unionArea, unionArea, inter_comm, add_comm]

end Rectangle

variable [IsStrictOrderedRing α]

theorem extent_pos_iff {a b : α} : 0 < extent a b ↔ a < b := by
  rw [extent, lt_max_iff, sub_pos]
  exact or_iff_right (lt_irrefl 0)

theorem extent_inter_le (a b c d : α) : extent (max a c) (min b d) ≤ extent a b :=
  max_le_max_left 0 (sub_le_sub (min_le_left b d) (le_max_left a c))

/-- An interval that loses nothing to another one lies in it. -/
theorem within_of_extent_eq {a b c d : α} (hpos : a < b)
    (h : extent (max a c) (min b d) = extent a b) : c ≤ a ∧ b ≤ d := by
  have hab : extent a b = b - a := max_eq_right (sub_nonneg.mpr hpos.le)
  have hinter : extent (max a c) (min b d) = min b d - max a c := by
    have hextent : 0 < extent (max a c) (min b d) := h ▸ extent_pos_iff.mpr hpos
    exact max_eq_right (sub_nonneg.mpr (extent_pos_iff.mp hextent).le)
  rw [hinter, hab] at h
  constructor
  · linarith [min_le_left b d, le_max_right a c]
  · linarith [min_le_right b d, le_max_left a c]

namespace Rectangle

variable {r s : Rectangle α}

theorem area_nonneg (r : Rectangle α) : 0 ≤ r.area :=
  mul_nonneg (extent_nonneg _ _) (extent_nonneg _ _)

theorem area_pos_iff : 0 < r.area ↔ r.Nonempty := by
  constructor
  · intro h
    have hx := (extent_nonneg r.x1 r.x2).lt_of_ne fun hzero => by simp [area, ← hzero] at h
    have hy := (extent_nonneg r.y1 r.y2).lt_of_ne fun hzero => by simp [area, ← hzero] at h
    exact ⟨extent_pos_iff.mp hx, extent_pos_iff.mp hy⟩
  · intro h
    exact mul_pos (extent_pos_iff.mpr h.x) (extent_pos_iff.mpr h.y)

theorem area_eq_zero_iff : r.area = 0 ↔ ¬ r.Nonempty := by
  rw [← area_pos_iff, not_lt]
  exact ⟨fun h => h.le, fun h => h.antisymm r.area_nonneg⟩

theorem area_inter_le_left (r s : Rectangle α) : (r.inter s).area ≤ r.area :=
  mul_le_mul (extent_inter_le _ _ _ _) (extent_inter_le _ _ _ _) (extent_nonneg _ _)
    (extent_nonneg _ _)

theorem area_inter_le_right (r s : Rectangle α) : (r.inter s).area ≤ s.area := by
  rw [inter_comm]
  exact area_inter_le_left s r

/-- A rectangle that loses no area to another one lies in it. -/
theorem within_of_area_eq (hr : r.Nonempty) (h : (r.inter s).area = r.area) :
    (s.x1 ≤ r.x1 ∧ r.x2 ≤ s.x2) ∧ s.y1 ≤ r.y1 ∧ r.y2 ≤ s.y2 := by
  have hpos : 0 < (r.inter s).area := h ▸ area_pos_iff.mpr hr
  obtain ⟨hx, hy⟩ := (mul_eq_mul_iff_eq_and_eq_of_pos (extent_inter_le r.x1 r.x2 s.x1 s.x2)
    (extent_inter_le r.y1 r.y2 s.y1 s.y2) (extent_pos_iff.mpr (area_pos_iff.mp hpos).x)
    (extent_pos_iff.mpr hr.y)).mp h
  exact ⟨within_of_extent_eq hr.x hx, within_of_extent_eq hr.y hy⟩

theorem disjoint_interior_iff : Disjoint r.interior s.interior ↔ (r.inter s).area = 0 := by
  rw [Set.disjoint_iff_inter_eq_empty, ← interior_inter, area_eq_zero_iff, ← interior_nonempty_iff,
    Set.not_nonempty_iff_eq_empty]

/-! ## The overlap -/

theorem area_le_unionArea (r s : Rectangle α) : r.area ≤ unionArea r s := by
  have hle := area_inter_le_right r s
  rw [unionArea]
  linarith

theorem unionArea_nonneg (r s : Rectangle α) : 0 ≤ unionArea r s :=
  (area_nonneg r).trans (area_le_unionArea r s)

theorem area_inter_le_unionArea (r s : Rectangle α) : (r.inter s).area ≤ unionArea r s :=
  (area_inter_le_left r s).trans (area_le_unionArea r s)

/-- The quotient alone, since a quotient by zero is zero. -/
theorem overlap_eq (r s : Rectangle α) : overlap r s = (r.inter s).area / unionArea r s := by
  rw [overlap]
  split
  · rename_i hle
    rw [hle.antisymm (unionArea_nonneg r s), div_zero]
  · rfl

theorem overlap_comm (r s : Rectangle α) : overlap r s = overlap s r := by
  rw [overlap_eq, overlap_eq, inter_comm, unionArea_comm]

theorem overlap_nonneg (r s : Rectangle α) : 0 ≤ overlap r s := by
  rw [overlap_eq]
  exact div_nonneg (area_nonneg _) (unionArea_nonneg r s)

theorem overlap_le_one (r s : Rectangle α) : overlap r s ≤ 1 := by
  rw [overlap_eq]
  exact div_le_one_of_le₀ (area_inter_le_unionArea r s) (unionArea_nonneg r s)

theorem overlap_eq_zero_iff : overlap r s = 0 ↔ Disjoint r.interior s.interior := by
  rw [disjoint_interior_iff, overlap_eq, div_eq_zero_iff, or_iff_left_iff_imp]
  intro hunion
  exact (hunion ▸ area_inter_le_unionArea r s).antisymm (area_nonneg _)

/-- **Full overlap** is that of a rectangle with itself. -/
theorem overlap_eq_one_iff : overlap r s = 1 ↔ r.Nonempty ∧ r = s := by
  constructor
  · intro h
    have hne : unionArea r s ≠ 0 := by
      intro hzero
      rw [overlap_eq, hzero, div_zero] at h
      exact zero_ne_one h
    rw [overlap_eq, div_eq_one_iff_eq hne, unionArea] at h
    have hr : (r.inter s).area = r.area := by
      linarith [area_inter_le_left r s, area_inter_le_right r s]
    have hs : (s.inter r).area = s.area := by
      rw [inter_comm]
      linarith [area_inter_le_left r s, area_inter_le_right r s]
    have hpos : r.Nonempty := by
      rw [← area_pos_iff]
      refine (area_nonneg r).lt_of_ne fun hzero => hne ?_
      rw [unionArea]
      linarith
    have hpos' : s.Nonempty := by
      rw [← area_pos_iff, ← hs, inter_comm, hr]
      exact area_pos_iff.mpr hpos
    obtain ⟨⟨hx1, hx2⟩, hy1, hy2⟩ := within_of_area_eq hpos hr
    obtain ⟨⟨hx1', hx2'⟩, hy1', hy2'⟩ := within_of_area_eq hpos' hs
    refine ⟨hpos, ?_⟩
    cases r
    cases s
    rw [mk.injEq]
    exact ⟨hx1'.antisymm hx1, hy1'.antisymm hy1, hx2.antisymm hx2', hy2.antisymm hy2'⟩
  · rintro ⟨hpos, rfl⟩
    rw [overlap_eq, unionArea, inter_self, add_sub_cancel_right]
    exact div_self (area_pos_iff.mpr hpos).ne'

end Rectangle

end

end EdgeVision.Lib
