import Mathlib.Data.List.Basic

/-!
# Slices of a list

Slices that do not overlap, from left to right, given by their bounds (`InOrder`). A list of parts
is cut out of a list (`Cut`) if it is what lies between gaps; what is left of it when parts are
dropped still is, and the parts are slices in order (`Cut.inOrder`).
-/

namespace EdgeVision.Lib

variable {α : Type}

/-- What lies between two bounds. -/
def slice (l : List α) (bounds : Nat × Nat) : List α := (l.take bounds.2).drop bounds.1

/-- Bounds within the first `n` places, each pair behind the one before it. -/
structure InOrder (n : Nat) (slices : List (Nat × Nat)) : Prop where
  bounded : ∀ s ∈ slices, s.1 ≤ s.2 ∧ s.2 ≤ n
  disjoint : slices.Pairwise fun s t => s.2 ≤ t.1

/-- Parts of a list from left to right, with gaps before them and a rest behind them. -/
inductive Cut : List α → List (List α) → Prop where
  | nil (rest : List α) : Cut rest []
  | cons (gap part : List α) {rest : List α} {parts : List (List α)} (h : Cut rest parts) :
    Cut (gap ++ (part ++ rest)) (part :: parts)

namespace Cut

theorem append_left (gap : List α) {l : List α} {parts : List (List α)} (h : Cut l parts) :
    Cut (gap ++ l) parts := by
  cases h with
  | nil => exact .nil _
  | cons gap' part h =>
    rw [← List.append_assoc]
    exact .cons (gap ++ gap') part h

/-- Some of the parts. -/
theorem sublist {l : List α} {parts some : List (List α)} (h : Cut l parts)
    (hsome : some.Sublist parts) : Cut l some := by
  induction h generalizing some with
  | nil rest =>
    rw [List.sublist_nil.mp hsome]
    exact .nil rest
  | cons gap part h ih =>
    rcases List.sublist_cons_iff.mp hsome with hsome | ⟨others, rfl, hothers⟩
    · exact append_left gap (append_left part (ih hsome))
    · exact .cons gap part (ih hothers)

end Cut

theorem slice_append_right (before l : List α) (bounds : Nat × Nat) :
    slice (before ++ l) (before.length + bounds.1, before.length + bounds.2) = slice l bounds := by
  rw [slice, List.take_length_add_append, ← List.drop_drop, List.drop_left]
  rfl

theorem InOrder.shift {n k : Nat} {slices : List (Nat × Nat)} (h : InOrder n slices) :
    InOrder (k + n) (slices.map fun s => (k + s.1, k + s.2)) := by
  constructor
  case bounded =>
    intro s hs
    obtain ⟨t, ht, rfl⟩ := List.mem_map.mp hs
    obtain ⟨hle, hn⟩ := h.bounded t ht
    exact ⟨Nat.add_le_add_left hle k, Nat.add_le_add_left hn k⟩
  case disjoint => exact h.disjoint.map _ fun s t hle => Nat.add_le_add_left hle k

/-- **Parts that are cut out are slices in order.** -/
theorem Cut.inOrder {l : List α} {parts : List (List α)} (h : Cut l parts) :
    ∃ slices, InOrder l.length slices ∧ parts = slices.map (slice l) := by
  induction h with
  | nil rest => exact ⟨[], ⟨by simp, .nil⟩, rfl⟩
  | @cons gap part rest parts _ ih =>
    obtain ⟨slices, hslices, rfl⟩ := ih
    have hshift := hslices.shift (k := (gap ++ part).length)
    refine ⟨(gap.length, (gap ++ part).length) ::
      slices.map fun s => ((gap ++ part).length + s.1, (gap ++ part).length + s.2), ?_, ?_⟩
    · rw [← List.append_assoc, @List.length_append _ (gap ++ part) rest]
      constructor
      case bounded =>
        refine List.forall_mem_cons.mpr ⟨⟨?_, Nat.le_add_right _ _⟩, hshift.bounded⟩
        simp
      case disjoint =>
        refine List.pairwise_cons.mpr ⟨fun s hs => ?_, hshift.disjoint⟩
        obtain ⟨t, -, rfl⟩ := List.mem_map.mp hs
        exact Nat.le_add_right _ _
    · rw [← List.append_assoc, List.map_cons, List.map_map]
      congr 1
      · rw [slice, List.take_left, List.drop_left]
      · exact List.map_congr_left fun s _ => (slice_append_right (gap ++ part) rest s).symm

end EdgeVision.Lib
