import EdgeVision.Lib.RectangleMeasure
import EdgeVision.Verify.Nms

/-!
# The overlap as a measure

`intersectionOverUnion` of boxes with rational corners, whichever way round these are, is the area
that the boxes share over the area that they cover together, in the real plane
(`iou_proper`). The bounds, the order of the boxes and the two extreme values are those of
`Rectangle.overlap`.
-/

namespace EdgeVision

open Lib MeasureTheory

/-! ## The quotient of the code -/

/-- `inter_area` of two boxes. -/
def interArea (lhs rhs : Detection) : ExtRat :=
  ExtRat.max (.fin 0) (ExtRat.min lhs.x2 rhs.x2 - ExtRat.max lhs.x1 rhs.x1) *
    ExtRat.max (.fin 0) (ExtRat.min lhs.y2 rhs.y2 - ExtRat.max lhs.y1 rhs.y1)

/-- `lhs_area` or `rhs_area`. -/
def boxArea (d : Detection) : ExtRat :=
  ExtRat.max (.fin 0) (d.x2 - d.x1) * ExtRat.max (.fin 0) (d.y2 - d.y1)

/-- `union_area`, by which the code divides. -/
def unionArea (lhs rhs : Detection) : ExtRat := boxArea lhs + boxArea rhs - interArea lhs rhs

theorem intersectionOverUnion_eq_quotient (lhs rhs : Detection) :
    intersectionOverUnion lhs rhs =
      if unionArea lhs rhs ≤ .fin 0 then .fin 0 else interArea lhs rhs / unionArea lhs rhs := rfl

section

variable {lhs rhs : Detection} {a b : Rectangle Rat}

theorem boxArea_eq (h : lhs.HasBox a) : boxArea lhs = .fin a.area := by
  simp only [boxArea, h.x1, h.y1, h.x2, h.y2, ExtRat.fin_sub_fin, ExtRat.max_fin,
    ExtRat.fin_mul_fin]
  rfl

theorem interArea_eq (hl : lhs.HasBox a) (hr : rhs.HasBox b) :
    interArea lhs rhs = .fin (a.inter b).area := by
  simp only [interArea, hl.x1, hl.y1, hl.x2, hl.y2, hr.x1, hr.y1, hr.x2, hr.y2, ExtRat.max_fin,
    ExtRat.min_fin, ExtRat.fin_sub_fin, ExtRat.fin_mul_fin]
  rfl

theorem unionArea_eq (hl : lhs.HasBox a) (hr : rhs.HasBox b) :
    unionArea lhs rhs = .fin (a.unionArea b) := by
  rw [unionArea, boxArea_eq hl, boxArea_eq hr, interArea_eq hl hr, ExtRat.fin_add_fin,
    ExtRat.fin_sub_fin]
  rfl

end

/-! ## The measure -/

/-- What makes a number the overlap of two rectangles. -/
structure ProperOverlap (a b : Rectangle Rat) (q : Rat) : Prop where
  nonneg : 0 ≤ q
  le_one : q ≤ 1
  zero_iff : q = 0 ↔
    ¬ a.Nonempty ∨ ¬ b.Nonempty ∨ Disjoint a.toReal.interior b.toReal.interior
  one_iff : q = 1 ↔ a.Nonempty ∧ b.Nonempty ∧ a = b
  measure : (q : ℝ) = volume.real (a.toReal.interior ∩ b.toReal.interior) /
    volume.real (a.toReal.interior ∪ b.toReal.interior)

theorem nonempty_toReal_iff {a : Rectangle Rat} : a.toReal.Nonempty ↔ a.Nonempty :=
  ⟨fun h => ⟨Rat.cast_lt.mp h.x, Rat.cast_lt.mp h.y⟩,
    fun h => ⟨Rat.cast_lt.mpr h.x, Rat.cast_lt.mpr h.y⟩⟩

/-- An empty rectangle has no inner points that another one could share. -/
theorem disjoint_of_not_nonempty {r s : Rectangle ℝ} (h : ¬ r.Nonempty) :
    Disjoint r.interior s.interior := by
  rw [← Rectangle.interior_nonempty_iff, Set.not_nonempty_iff_eq_empty] at h
  rw [h]
  exact Set.empty_disjoint s.interior

theorem overlap_proper (a b : Rectangle Rat) : ProperOverlap a b (a.overlap b) := by
  constructor
  case nonneg => exact a.overlap_nonneg b
  case le_one => exact a.overlap_le_one b
  case zero_iff =>
    have hreal : a.overlap b = 0 ↔ Disjoint a.toReal.interior b.toReal.interior := by
      rw [← Rectangle.overlap_eq_zero_iff, ← Rectangle.overlap_toReal, Rat.cast_eq_zero]
    rw [hreal]
    constructor
    · exact fun h => .inr (.inr h)
    · rintro (ha | hb | h)
      · exact disjoint_of_not_nonempty (mt nonempty_toReal_iff.mp ha)
      · exact (disjoint_of_not_nonempty (mt nonempty_toReal_iff.mp hb)).symm
      · exact h
  case one_iff =>
    rw [Rectangle.overlap_eq_one_iff]
    constructor
    · rintro ⟨ha, rfl⟩
      exact ⟨ha, ha, rfl⟩
    · exact fun h => ⟨h.1, h.2.2⟩
  case measure => rw [Rectangle.overlap_toReal, Rectangle.overlap_eq_measure]

/-- **`intersectionOverUnion` is a proper overlap measure** of any two rational boxes, in either
order, and what it divides by is positive. -/
theorem iou_proper {lhs rhs : Detection} {a b : Rectangle Rat} (hl : lhs.HasBox a)
    (hr : rhs.HasBox b) :
    ∃ q, intersectionOverUnion lhs rhs = .fin q ∧ intersectionOverUnion rhs lhs = .fin q ∧
      ProperOverlap a b q ∧
      ((unionArea lhs rhs ≤ .fin 0 ∧ intersectionOverUnion lhs rhs = .fin 0) ∨
        (.fin 0 < unionArea lhs rhs ∧
          intersectionOverUnion lhs rhs = interArea lhs rhs / unionArea lhs rhs)) := by
  refine ⟨a.overlap b, intersectionOverUnion_eq hl hr, ?_, overlap_proper a b, ?_⟩
  · rw [intersectionOverUnion_eq hr hl, Rectangle.overlap_comm]
  · rw [intersectionOverUnion_eq_quotient]
    by_cases hle : unionArea lhs rhs ≤ .fin 0
    · exact .inl ⟨hle, if_pos hle⟩
    · rw [if_neg hle]
      rw [unionArea_eq hl hr, ExtRat.fin_le_fin] at hle
      refine .inr ⟨?_, rfl⟩
      rw [unionArea_eq hl hr, ExtRat.fin_lt_fin]
      exact Rat.not_le.mp hle

/-- A square and its lower right quarter. -/
theorem iou_proper_quarter :
    intersectionOverUnion ⟨0, "a", .fin 1, .fin 0, .fin 0, .fin 4, .fin 4⟩
        ⟨0, "a", .fin 1, .fin 2, .fin 2, .fin 4, .fin 4⟩ = .fin (1 / 4) ∧
      ProperOverlap ⟨0, 0, 4, 4⟩ ⟨2, 2, 4, 4⟩ (1 / 4) := by
  have hvalue : intersectionOverUnion ⟨0, "a", .fin 1, .fin 0, .fin 0, .fin 4, .fin 4⟩
      ⟨0, "a", .fin 1, .fin 2, .fin 2, .fin 4, .fin 4⟩ = .fin (1 / 4) := by decide +kernel
  obtain ⟨q, hq, -, hproper, -⟩ := @iou_proper ⟨0, "a", .fin 1, .fin 0, .fin 0, .fin 4, .fin 4⟩
    ⟨0, "a", .fin 1, .fin 2, .fin 2, .fin 4, .fin 4⟩ ⟨0, 0, 4, 4⟩ ⟨2, 2, 4, 4⟩
    ⟨rfl, rfl, rfl, rfl⟩ ⟨rfl, rfl, rfl, rfl⟩
  obtain rfl := ExtRat.fin.inj (hvalue.symm.trans hq)
  exact ⟨hvalue, hproper⟩

end EdgeVision
