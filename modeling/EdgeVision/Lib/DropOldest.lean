import Mathlib.Data.List.Perm.Basic

/-!
# What has gone through a queue

Items leave a queue only at its front: a consumer takes them, or a push into a full queue drops the
oldest. `Accounts` says how the items that were ever pushed, taken and dropped go with those still
queued, and each operation keeps it. An order on the items pushed is an order on the items taken,
and puts everything that has left before everything that is queued.
-/

namespace EdgeVision.Lib

variable {α : Type} {pushed popped evicted queue : List α} {a : α} {R : α → α → Prop}

/-- The pushed items are those that have left, in order, and then the queue; those that have left
were popped or evicted. -/
def Accounts (pushed popped evicted queue : List α) : Prop :=
  ∃ left, pushed = left ++ queue ∧ popped.Sublist left ∧ evicted.Sublist left ∧
    (popped ++ evicted).Perm left

namespace Accounts

theorem empty : Accounts ([] : List α) [] [] [] :=
  ⟨[], rfl, List.Sublist.refl _, List.Sublist.refl _, List.Perm.refl _⟩

theorem push (h : Accounts pushed popped evicted queue) (a : α) :
    Accounts (pushed ++ [a]) popped evicted (queue ++ [a]) := by
  obtain ⟨left, rfl, hpopped, hevicted, hperm⟩ := h
  exact ⟨left, List.append_assoc _ _ _, hpopped, hevicted, hperm⟩

theorem pop (h : Accounts pushed popped evicted (a :: queue)) :
    Accounts pushed (popped ++ [a]) evicted queue := by
  obtain ⟨left, rfl, hpopped, hevicted, hperm⟩ := h
  refine ⟨left ++ [a], by simp, hpopped.append_right [a], ?_, ?_⟩
  · exact hevicted.trans (List.sublist_append_left left [a])
  · have hswap : ([a] ++ evicted).Perm (evicted ++ [a]) := List.perm_append_comm
    have hmove := hswap.append_left popped
    rw [← List.append_assoc, ← List.append_assoc] at hmove
    exact hmove.trans (hperm.append_right [a])

theorem evict (h : Accounts pushed popped evicted (a :: queue)) :
    Accounts pushed popped (evicted ++ [a]) queue := by
  obtain ⟨left, rfl, hpopped, hevicted, hperm⟩ := h
  refine ⟨left ++ [a], by simp, ?_, hevicted.append_right [a], ?_⟩
  · exact hpopped.trans (List.sublist_append_left left [a])
  · rw [← List.append_assoc]
    exact hperm.append_right [a]

/-- Nothing is lost and nothing is made up. -/
theorem perm (h : Accounts pushed popped evicted queue) :
    pushed.Perm (popped ++ evicted ++ queue) := by
  obtain ⟨left, rfl, -, -, hperm⟩ := h
  exact (hperm.append_right queue).symm

theorem length_eq (h : Accounts pushed popped evicted queue) :
    pushed.length = popped.length + evicted.length + queue.length := by
  simpa [Nat.add_assoc] using h.perm.length_eq

theorem popped_pairwise (h : Accounts pushed popped evicted queue) (hR : pushed.Pairwise R) :
    popped.Pairwise R := by
  obtain ⟨left, rfl, hpopped, -, -⟩ := h
  exact (List.pairwise_append.mp hR).1.sublist hpopped

theorem queue_pairwise (h : Accounts pushed popped evicted queue) (hR : pushed.Pairwise R) :
    queue.Pairwise R := by
  obtain ⟨left, rfl, -, -, -⟩ := h
  exact (List.pairwise_append.mp hR).2.1

/-- What was popped comes before what is queued. -/
theorem popped_before (h : Accounts pushed popped evicted queue) (hR : pushed.Pairwise R) :
    ∀ x ∈ popped, ∀ y ∈ queue, R x y := by
  obtain ⟨left, rfl, hpopped, -, -⟩ := h
  intro x hx y hy
  exact (List.pairwise_append.mp hR).2.2 x (hpopped.subset hx) y hy

end Accounts

end EdgeVision.Lib
