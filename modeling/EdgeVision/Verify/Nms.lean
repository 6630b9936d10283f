import EdgeVision.Ai.RknnDetector
import EdgeVision.Lib.Greedy
import EdgeVision.Lib.Rectangle

/-!
# Non-maximum suppression

`applyNms` is the greedy selection of `Lib.Greedy` over the sorted detections (`applyNms_eq`), with
overlap within a class for its suppression relation. What the library says of a selection is here
said of the detections. The overlap of boxes with rational corners is that of rectangles
(`intersectionOverUnion_eq`), so it is a rational and does not depend on the order of the two.
-/

namespace EdgeVision

open Lib

/-! ## The overlap -/

namespace Detection

/-- The corners are rationals. -/
def FinBox (d : Detection) : Prop :=
  (∃ q, d.x1 = .fin q) ∧ (∃ q, d.y1 = .fin q) ∧ (∃ q, d.x2 = .fin q) ∧ ∃ q, d.y2 = .fin q

/-- A detection with a score that compares and a box with rational corners. -/
def Numeric (d : Detection) : Prop := d.score ≠ .nan ∧ d.FinBox

/-- The corners are those of a rational rectangle. -/
structure HasBox (d : Detection) (box : Rectangle Rat) : Prop where
  x1 : d.x1 = .fin box.x1
  y1 : d.y1 = .fin box.y1
  x2 : d.x2 = .fin box.x2
  y2 : d.y2 = .fin box.y2

theorem FinBox.hasBox {d : Detection} (h : d.FinBox) : ∃ box, d.HasBox box := by
  obtain ⟨⟨a, ha⟩, ⟨b, hb⟩, ⟨c, hc⟩, e, he⟩ := h
  exact ⟨⟨a, b, c, e⟩, ha, hb, hc, he⟩

end Detection

section Overlap

variable {lhs rhs : Detection}

/-- **The code computes the overlap of rectangles.** -/
theorem intersectionOverUnion_eq {a b : Rectangle Rat} (hl : lhs.HasBox a) (hr : rhs.HasBox b) :
    intersectionOverUnion lhs rhs = .fin (a.overlap b) := by
  simp only [intersectionOverUnion, hl.x1, hl.y1, hl.x2, hl.y2, hr.x1, hr.y1, hr.x2, hr.y2,
    ExtRat.max_fin, ExtRat.min_fin, ExtRat.fin_sub_fin, ExtRat.fin_mul_fin, ExtRat.fin_add_fin,
    ExtRat.fin_le_fin]
  change (if a.unionArea b ≤ 0 then ExtRat.fin 0
    else .fin (a.inter b).area / .fin (a.unionArea b)) = _
  rw [Rectangle.overlap]
  split
  · rfl
  · rename_i hpos
    exact ExtRat.fin_div_fin _ (ne_of_gt (Rat.not_le.mp hpos))

theorem intersectionOverUnion_fin (hl : lhs.FinBox) (hr : rhs.FinBox) :
    ∃ q, intersectionOverUnion lhs rhs = .fin q := by
  obtain ⟨a, ha⟩ := hl.hasBox
  obtain ⟨b, hb⟩ := hr.hasBox
  exact ⟨a.overlap b, intersectionOverUnion_eq ha hb⟩

theorem intersectionOverUnion_comm (hl : lhs.FinBox) (hr : rhs.FinBox) :
    intersectionOverUnion lhs rhs = intersectionOverUnion rhs lhs := by
  obtain ⟨a, ha⟩ := hl.hasBox
  obtain ⟨b, hb⟩ := hr.hasBox
  rw [intersectionOverUnion_eq ha hb, intersectionOverUnion_eq hb ha, a.overlap_comm]

end Overlap

/-! ## The selection -/

/-- The limit of `applyNms`: there is none unless `maxResults` is positive. -/
def nmsFull (maxResults : Int) (n : Nat) : Bool := decide (0 < maxResults ∧ maxResults ≤ n)

theorem nmsFull_eq_false {maxResults : Int} (h : maxResults ≤ 0) :
    nmsFull maxResults = fun _ => false := by
  funext n
  exact decide_eq_false fun hfull => absurd hfull.1 (Int.not_lt.mpr h)

theorem nmsFull_eq_limit {maxResults : Int} (h : 0 < maxResults) :
    nmsFull maxResults = fun n => decide (maxResults.toNat ≤ n) := by
  funext n
  exact decide_eq_decide.mpr ⟨fun hfull => by omega, fun hle => ⟨h, by omega⟩⟩

theorem nmsLoop_eq (nmsThreshold : ExtRat) (maxResults : Int) (kept detections : List Detection) :
    nmsLoop nmsThreshold maxResults kept detections =
      greedyFrom (suppressedBy nmsThreshold) (nmsFull maxResults) kept detections := by
  induction detections generalizing kept with
  | nil => rfl
  | cons candidate detections ih =>
    simp only [nmsLoop, greedyFrom, nmsFull, decide_eq_true_eq, List.length_append,
      List.length_singleton, ih]

/-- **The loop is a greedy selection.** -/
theorem applyNms_eq (sort : List Detection → List Detection) (detections : List Detection)
    (nmsThreshold : ExtRat) (maxResults : Int) :
    applyNms sort detections nmsThreshold maxResults =
      greedyFrom (suppressedBy nmsThreshold) (nmsFull maxResults) [] (sort detections) :=
  nmsLoop_eq nmsThreshold maxResults [] (sort detections)

section Selection

variable {sort : List Detection → List Detection} {detections : List Detection}
  {nmsThreshold : ExtRat} {maxResults : Int}

theorem applyNms_sublist :
    (applyNms sort detections nmsThreshold maxResults).Sublist (sort detections) := by
  rw [applyNms_eq]
  exact greedyFrom_sublist (sort detections)

/-- What is kept was there. -/
theorem applyNms_subset (hsort : SortsByScore sort) (hscores : ∀ d ∈ detections, d.score ≠ .nan)
    {d : Detection} (h : d ∈ applyNms sort detections nmsThreshold maxResults) : d ∈ detections :=
  (hsort detections hscores).1.mem_iff.mp (applyNms_sublist.subset h)

/-- A limit is a prefix of the result without one. -/
theorem applyNms_take (hpos : 0 < maxResults) {noLimit : Int} (hno : noLimit ≤ 0) :
    applyNms sort detections nmsThreshold maxResults =
      (applyNms sort detections nmsThreshold noLimit).take maxResults.toNat := by
  rw [applyNms_eq, applyNms_eq, nmsFull_eq_limit hpos, nmsFull_eq_false hno]
  exact greedyFrom_take (by rw [List.length_nil]; omega)

theorem length_applyNms_le (hpos : 0 < maxResults) :
    ((applyNms sort detections nmsThreshold maxResults).length : Int) ≤ maxResults := by
  have hlen := List.length_take_le maxResults.toNat (applyNms sort detections nmsThreshold 0)
  rw [← applyNms_take hpos (le_refl 0)] at hlen
  omega

/-- Comparable scores come out of the sort from the largest to the smallest. -/
theorem sort_pairwise (hsort : SortsByScore sort) (hscores : ∀ d ∈ detections, d.score ≠ .nan) :
    (sort detections).Pairwise fun a b => b.score ≤ a.score := by
  obtain ⟨hperm, hsorted⟩ := hsort detections hscores
  refine hsorted.imp_of_mem ?_
  intro a b ha hb hlt
  exact (ExtRat.not_lt (hscores a (hperm.mem_iff.mp ha)) (hscores b (hperm.mem_iff.mp hb))).mp hlt

/-- Different scores have a single order. -/
theorem sort_unique {sort' : List Detection → List Detection} {detections' : List Detection}
    (hsort : SortsByScore sort) (hsort' : SortsByScore sort')
    (hscores : ∀ d ∈ detections, d.score ≠ .nan) (hperm : detections'.Perm detections)
    (hnodup : (detections.map Detection.score).Nodup) : sort' detections' = sort detections := by
  have hscores' : ∀ d ∈ detections', d.score ≠ .nan :=
    fun d hd => hscores d (hperm.mem_iff.mp hd)
  have hp := (hsort detections hscores).1
  have hp' := (hsort' detections' hscores').1
  refine List.Perm.eq_of_pairwise ?_ (sort_pairwise hsort' hscores')
    (sort_pairwise hsort hscores) (hp'.trans (hperm.trans hp.symm))
  intro a b ha hb hab hba
  exact List.inj_on_of_nodup_map hnodup (hperm.mem_iff.mp (hp'.mem_iff.mp ha))
    (hp.mem_iff.mp hb) (ExtRat.le_antisymm hba hab)

/-- Two kept detections of a class do not overlap by more than the threshold. -/
theorem applyNms_apart (hnumeric : ∀ d ∈ sort detections, d.FinBox)
    (hthreshold : nmsThreshold ≠ .nan) :
    (applyNms sort detections nmsThreshold maxResults).Pairwise fun a b => a.classId = b.classId →
      intersectionOverUnion a b ≤ nmsThreshold ∧ intersectionOverUnion b a ≤ nmsThreshold := by
  have hapart : (applyNms sort detections nmsThreshold maxResults).Pairwise
      fun a b => suppressedBy nmsThreshold b a = false := by
    rw [applyNms_eq]
    exact greedyFrom_pairwise List.Pairwise.nil
  refine hapart.imp_of_mem ?_
  intro a b ha hb hnot hclass
  have hfina := hnumeric a (applyNms_sublist.subset ha)
  have hfinb := hnumeric b (applyNms_sublist.subset hb)
  have hle : intersectionOverUnion b a ≤ nmsThreshold := by
    obtain ⟨q, hq⟩ := intersectionOverUnion_fin hfinb hfina
    have hover : ¬ nmsThreshold < intersectionOverUnion b a := by
      intro hlt
      simp [suppressedBy, hclass, hlt] at hnot
    exact (ExtRat.not_lt hthreshold (by rw [hq]; nofun)).mp hover
  rw [intersectionOverUnion_comm hfina hfinb]
  exact ⟨hle, hle⟩

/-- A dropped detection overlaps a kept one, or came when enough were kept. -/
theorem applyNms_dropped (hsort : SortsByScore sort) (hscores : ∀ d ∈ detections, d.score ≠ .nan)
    {d : Detection}
    (hd : (applyNms sort detections nmsThreshold maxResults).count d < detections.count d) :
    (∃ s ∈ applyNms sort detections nmsThreshold maxResults, s.classId = d.classId ∧
        d.score ≤ s.score ∧ nmsThreshold < intersectionOverUnion d s) ∨
      (0 < maxResults ∧
        ((applyNms sort detections nmsThreshold maxResults).length : Int) = maxResults ∧
        ∀ s ∈ applyNms sort detections nmsThreshold maxResults, d.score ≤ s.score) := by
  have hcount := (hsort detections hscores).1.count_eq d
  have hdropped : (greedyFrom (suppressedBy nmsThreshold) (nmsFull maxResults) []
      (sort detections)).count d < ([] ++ sort detections).count d := by
    rw [← applyNms_eq, List.nil_append, hcount]
    exact hd
  have hcases := greedyFrom_dropped (by simp) (sort_pairwise hsort hscores) hdropped
  rw [← applyNms_eq] at hcases
  rcases hcases with ⟨s, hs, hscore, hsup⟩ | ⟨hfull, hall⟩
  · simp only [suppressedBy, Bool.and_eq_true, beq_iff_eq, decide_eq_true_eq] at hsup
    exact .inl ⟨s, hs, hsup.1.symm, hscore, hsup.2⟩
  · simp only [nmsFull, decide_eq_true_eq] at hfull
    refine .inr ⟨hfull.1, ?_, hall⟩
    have hle : ((applyNms sort detections nmsThreshold maxResults).length : Int) ≤ maxResults :=
      length_applyNms_le hfull.1
    omega

/-- With different scores a selection is its own selection. -/
theorem applyNms_idem {sort' : List Detection → List Detection} (hsort : SortsByScore sort)
    (hsort' : SortsByScore sort') (hscores : ∀ d ∈ detections, d.score ≠ .nan)
    (hnodup : (detections.map Detection.score).Nodup) :
    applyNms sort' (applyNms sort detections nmsThreshold maxResults) nmsThreshold maxResults =
      applyNms sort detections nmsThreshold maxResults := by
  have hp := (hsort detections hscores).1
  generalize hkept : applyNms sort detections nmsThreshold maxResults = kept
  have hsub : kept.Sublist (sort detections) := hkept ▸ applyNms_sublist
  have hscores' : ∀ d ∈ kept, d.score ≠ .nan :=
    fun d hd => hscores d (hp.mem_iff.mp (hsub.subset hd))
  have hsorted : sort' kept = kept := by
    refine List.Perm.eq_of_pairwise ?_ (sort_pairwise hsort' hscores')
      ((sort_pairwise hsort hscores).sublist hsub) (hsort' kept hscores').1
    intro a b ha hb hab hba
    have hmem := (hsort' kept hscores').1.mem_iff.mp ha
    exact List.inj_on_of_nodup_map hnodup (hp.mem_iff.mp (hsub.subset hmem))
      (hp.mem_iff.mp (hsub.subset hb)) (ExtRat.le_antisymm hba hab)
  rw [applyNms_eq, hsorted, greedyFrom_self]
  · rfl
  · rw [← hkept, applyNms_eq]
    exact greedyFrom_pairwise List.Pairwise.nil
  · intro n hfull
    simp only [nmsFull, decide_eq_true_eq] at hfull
    have hle : (kept.length : Int) ≤ maxResults := hkept ▸ length_applyNms_le hfull.1
    rw [List.nil_append]
    omega

end Selection

/-! ## The result -/

/-- What `kept` is to the detections it is selected from. -/
structure GreedyNms (sort : List Detection → List Detection) (detections : List Detection)
    (nmsThreshold : ExtRat) (maxResults : Int) (kept : List Detection) : Prop where
  /-- Every detection of the input is kept once at most, -/
  sublist : kept.Sublist (sort detections)
  subperm : kept.Subperm detections
  /-- in the order of the scores. -/
  ordered : kept.Pairwise fun a b => b.score ≤ a.score
  apart : kept.Pairwise fun a b => a.classId = b.classId →
    intersectionOverUnion a b ≤ nmsThreshold ∧ intersectionOverUnion b a ≤ nmsThreshold
  /-- A copy of `d` that is not kept was suppressed, or not looked at. -/
  dropped : ∀ d, kept.count d < detections.count d →
    (∃ s ∈ kept, s.classId = d.classId ∧ d.score ≤ s.score ∧
        nmsThreshold < intersectionOverUnion d s) ∨
      (0 < maxResults ∧ (kept.length : Int) = maxResults ∧ ∀ s ∈ kept, d.score ≤ s.score)
  limited : 0 < maxResults → ∀ noLimit ≤ 0,
    kept = (applyNms sort detections nmsThreshold noLimit).take maxResults.toNat
  /-- With different scores neither the sort nor the order of the input matters, -/
  unordered : (detections.map Detection.score).Nodup →
    ∀ sort' detections', SortsByScore sort' → detections'.Perm detections →
      applyNms sort' detections' nmsThreshold maxResults = kept
  /-- and a second selection changes nothing. -/
  idempotent : (detections.map Detection.score).Nodup →
    ∀ sort', SortsByScore sort' → applyNms sort' kept nmsThreshold maxResults = kept

/-- **`applyNms` is greedy class-wise suppression**, with every sort that `std::sort` may be. -/
theorem applyNms_greedy {sort : List Detection → List Detection} (hsort : SortsByScore sort)
    {detections : List Detection} (hnumeric : ∀ d ∈ detections, d.Numeric) {nmsThreshold : ExtRat}
    (hthreshold : nmsThreshold ≠ .nan) (maxResults : Int) :
    GreedyNms sort detections nmsThreshold maxResults
      (applyNms sort detections nmsThreshold maxResults) := by
  have hscores : ∀ d ∈ detections, d.score ≠ .nan := fun d hd => (hnumeric d hd).1
  have hperm := (hsort detections hscores).1
  constructor
  case sublist => exact applyNms_sublist
  case subperm => exact applyNms_sublist.subperm.trans hperm.subperm
  case ordered => exact (sort_pairwise hsort hscores).sublist applyNms_sublist
  case apart =>
    exact applyNms_apart (fun d hd => (hnumeric d (hperm.mem_iff.mp hd)).2) hthreshold
  case dropped =>
    intro d hd
    exact applyNms_dropped hsort hscores hd
  case limited =>
    intro hpos noLimit hno
    exact applyNms_take hpos hno
  case unordered =>
    intro hnodup sort' detections' hsort' hperm'
    unfold applyNms
    rw [sort_unique hsort hsort' hscores hperm' hnodup]
  case idempotent =>
    intro hnodup sort' hsort'
    exact applyNms_idem hsort hsort' hscores hnodup

/-- A sort by score. -/
def sortByScore (detections : List Detection) : List Detection :=
  detections.insertionSort fun lhs rhs => rhs.score.rank ≤ lhs.score.rank

theorem sortByScore_sorts : SortsByScore sortByScore := by
  intro l hl
  refine ⟨List.perm_insertionSort _ l, ?_⟩
  refine (List.pairwise_insertionSort _ l).imp ?_
  intro lhs rhs hle hlt
  exact absurd (ExtRat.lt_iff.mp hlt).2.2 (not_lt.mpr hle)

/-- Three detections of a class: the first overlaps the second, which has the larger score, by five
sixths, and the third touches neither. -/
theorem applyNms_greedy_three :
    let detections : List Detection :=
      [⟨0, "a", .fin 1, .fin 0, .fin 0, .fin 5, .fin 5⟩,
        ⟨0, "a", .fin 3, .fin 0, .fin 0, .fin 6, .fin 5⟩,
        ⟨0, "a", .fin 2, .fin 8, .fin 8, .fin 9, .fin 9⟩]
    (applyNms sortByScore detections (.fin (1 / 2)) 0).map Detection.score = [.fin 3, .fin 2] ∧
      GreedyNms sortByScore detections (.fin (1 / 2)) 0
        (applyNms sortByScore detections (.fin (1 / 2)) 0) := by
  intro detections
  refine ⟨by decide +kernel, applyNms_greedy sortByScore_sorts ?_ (by decide) 0⟩
  simp [detections, Detection.Numeric, Detection.FinBox]

end EdgeVision
