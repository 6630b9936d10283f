import Mathlib.Data.List.Basic

/-!
# Greedy selection

A scan over a list that keeps an element unless one kept before suppresses it. The relation
`sup a k` (`a` is suppressed by `k`) is arbitrary, in particular not transitive, so what is kept
depends on the order of the list. A scan may stop once it has kept enough: `full n` says that `n`
elements are.

What a scan keeps is a sublist in which no element is suppressed by an earlier one
(`greedyFrom_sublist`, `greedyFrom_pairwise`); what it drops was suppressed or came too late
(`greedyFrom_dropped`); a limit cuts off the unlimited selection (`greedyFrom_take`); and a
selection is its own selection (`greedyFrom_self`).
-/

namespace EdgeVision.Lib

variable {α : Type} {sup : α → α → Bool} {full : Nat → Bool} {kept as : List α}

/-- The scan from here on, given what it has kept. -/
def greedyFrom (sup : α → α → Bool) (full : Nat → Bool) (kept : List α) : List α → List α
  | [] => kept
  | a :: as =>
    if kept.any (sup a) then greedyFrom sup full kept as
    else if full (kept.length + 1) then kept ++ [a]
    else greedyFrom sup full (kept ++ [a]) as

/-- What is added is a part of what is scanned. -/
theorem greedyFrom_eq_append (sup : α → α → Bool) (full : Nat → Bool) (kept as : List α) :
    ∃ rest, greedyFrom sup full kept as = kept ++ rest ∧ rest.Sublist as := by
  induction as generalizing kept with
  | nil => exact ⟨[], (List.append_nil kept).symm, .slnil⟩
  | cons a as ih =>
    rw [greedyFrom]
    split
    · obtain ⟨rest, heq, hsub⟩ := ih kept
      exact ⟨rest, heq, hsub.cons a⟩
    · split
      · exact ⟨[a], rfl, (List.nil_sublist as).cons_cons a⟩
      · obtain ⟨rest, heq, hsub⟩ := ih (kept ++ [a])
        exact ⟨a :: rest, by simpa using heq, hsub.cons_cons a⟩

theorem greedyFrom_sublist (l : List α) : (greedyFrom sup full [] l).Sublist l := by
  obtain ⟨rest, heq, hsub⟩ := greedyFrom_eq_append sup full [] l
  rwa [heq]

theorem mem_greedyFrom {k : α} (h : k ∈ kept) : k ∈ greedyFrom sup full kept as := by
  obtain ⟨rest, heq, -⟩ := greedyFrom_eq_append sup full kept as
  rw [heq]
  exact List.mem_append_left rest h

/-- No kept element is suppressed by one kept before it. -/
theorem greedyFrom_pairwise (h : kept.Pairwise fun k a => sup a k = false) :
    (greedyFrom sup full kept as).Pairwise fun k a => sup a k = false := by
  induction as generalizing kept with
  | nil => exact h
  | cons a as ih =>
    rw [greedyFrom]
    split
    · exact ih h
    · rename_i hkeep
      have hnext : (kept ++ [a]).Pairwise fun k a => sup a k = false := by
        rw [List.pairwise_append]
        refine ⟨h, List.pairwise_singleton _ a, ?_⟩
        intro k hk b hb
        rw [List.mem_singleton.mp hb]
        simp only [List.any_eq_true, not_exists, not_and, Bool.not_eq_true] at hkeep
        exact hkeep k hk
      split
      · exact hnext
      · exact ih hnext

/-- What came before a scanned element in the order `R` of the list. -/
theorem greedyFrom_dropped [DecidableEq α] {R : α → α → Prop} (hkept : ∀ k ∈ kept, ∀ a ∈ as, R k a)
    (has : as.Pairwise R) {x : α}
    (hx : (greedyFrom sup full kept as).count x < (kept ++ as).count x) :
    (∃ k ∈ greedyFrom sup full kept as, R k x ∧ sup x k) ∨
      (full (greedyFrom sup full kept as).length = true ∧
        ∀ k ∈ greedyFrom sup full kept as, R k x) := by
  induction as generalizing kept with
  | nil => simp [greedyFrom] at hx
  | cons a as ih =>
    obtain ⟨ha, has⟩ := List.pairwise_cons.mp has
    rw [greedyFrom] at hx ⊢
    split at hx
    · rename_i hsup
      rw [if_pos hsup]
      by_cases hxa : x = a
      · subst hxa
        obtain ⟨k, hk, hkx⟩ := List.any_eq_true.mp hsup
        exact .inl ⟨k, mem_greedyFrom hk, hkept k hk x List.mem_cons_self, hkx⟩
      · refine ih (fun k hk b hb => hkept k hk b (List.mem_cons_of_mem a hb)) has ?_
        simpa [List.count_cons, Ne.symm hxa] using hx
    · rename_i hsup
      rw [if_neg hsup]
      split at hx
      · rename_i hfull
        rw [if_pos hfull]
        refine .inr ⟨by simpa using hfull, ?_⟩
        have hxas : x ∈ as := by
          by_contra hnot
          simp [List.count_cons, List.count_eq_zero_of_not_mem hnot] at hx
        intro k hk
        rcases List.mem_append.mp hk with hk | hk
        · exact hkept k hk x (List.mem_cons_of_mem a hxas)
        · rw [List.mem_singleton.mp hk]
          exact ha x hxas
      · rename_i hfull
        rw [if_neg hfull]
        refine ih ?_ has (by simpa using hx)
        intro k hk b hb
        rcases List.mem_append.mp hk with hk | hk
        · exact hkept k hk b (List.mem_cons_of_mem a hb)
        · rw [List.mem_singleton.mp hk]
          exact ha b hb

/-- **A limit cuts off the unlimited selection.** -/
theorem greedyFrom_take {limit : Nat} (hlimit : kept.length < limit) :
    greedyFrom sup (fun n => decide (limit ≤ n)) kept as =
      (greedyFrom sup (fun _ => false) kept as).take limit := by
  induction as generalizing kept with
  | nil => exact (List.take_of_length_le (Nat.le_of_lt hlimit)).symm
  | cons a as ih =>
    simp only [greedyFrom, Bool.false_eq_true, if_false]
    split
    · exact ih hlimit
    · split
      · rename_i hfull
        have hlen : (kept ++ [a]).length = limit := by
          simp only [decide_eq_true_eq] at hfull
          rw [List.length_append, List.length_singleton]
          omega
        obtain ⟨rest, heq, -⟩ := greedyFrom_eq_append sup (fun _ => false) (kept ++ [a]) as
        rw [heq, ← hlen, List.take_left']
        rfl
      · rename_i hfull
        apply ih
        simp only [decide_eq_true_eq] at hfull
        rw [List.length_append, List.length_singleton]
        omega

/-- **A selection is its own selection**, as long as the limit does not cut it. -/
theorem greedyFrom_self (h : (kept ++ as).Pairwise fun k a => sup a k = false)
    (hfull : ∀ n, full n = true → (kept ++ as).length ≤ n) :
    greedyFrom sup full kept as = kept ++ as := by
  induction as generalizing kept with
  | nil => exact (List.append_nil kept).symm
  | cons a as ih =>
    have hkeep : kept.any (sup a) = false := by
      rw [List.any_eq_false]
      intro k hk
      have := (List.pairwise_append.mp h).2.2 k hk a List.mem_cons_self
      simp [this]
    have happend : kept ++ [a] ++ as = kept ++ a :: as := by simp
    simp only [greedyFrom, hkeep, Bool.false_eq_true, if_false]
    split
    · rename_i hlast
      have hlen := hfull _ hlast
      simp only [List.length_append, List.length_cons] at hlen
      have hnil : as = [] := List.eq_nil_of_length_eq_zero (by omega)
      rw [hnil]
    · rw [ih (by rwa [happend]) (by rwa [happend]), happend]

end EdgeVision.Lib
