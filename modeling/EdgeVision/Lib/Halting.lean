import EdgeVision.Lib.Reach

/-!
# Runs that come to an end

A run with its length (`Steps`), and the rule for systems whose work runs out: where an invariant
is kept and every step does some of the work that is left, a run is no longer than its work
(`Steps.length_le`); where moreover something can be done until all is done, every state comes to
the end (`exists_done`). Steps that do nothing may lie between those that work: then the latter are
counted (`CountedSteps`).
-/

namespace EdgeVision.Lib

variable {σ α : Type}

/-- A run of `n` steps that all meet the guard. -/
inductive Steps (step : σ → α → Option σ) (ok : σ → α → Prop) : Nat → σ → σ → Prop where
  | refl (s : σ) : Steps step ok 0 s s
  | tail {n : Nat} {s t u : σ} {a : α} (h : Steps step ok n s t) (hok : ok t a)
      (hstep : step t a = some u) : Steps step ok (n + 1) s u

/-- A run of steps that all meet the guard, with `n` steps that count. -/
inductive CountedSteps (step : σ → α → Option σ) (ok counts : σ → α → Prop) :
    Nat → σ → σ → Prop where
  | refl (s : σ) : CountedSteps step ok counts 0 s s
  | idle {n : Nat} {s t u : σ} {a : α} (h : CountedSteps step ok counts n s t) (hok : ok t a)
      (hidle : ¬ counts t a) (hstep : step t a = some u) : CountedSteps step ok counts n s u
  | tail {n : Nat} {s t u : σ} {a : α} (h : CountedSteps step ok counts n s t) (hok : ok t a)
      (hcounts : counts t a) (hstep : step t a = some u) : CountedSteps step ok counts (n + 1) s u

variable {step : σ → α → Option σ} {ok counts : σ → α → Prop}

/-- **No more steps count than there is work**, where the others do not add to it. -/
theorem CountedSteps.count_le {I : σ → Prop} {work : σ → Nat}
    (hkept : ∀ s a t, I s → ok s a → step s a = some t → I t)
    (hless : ∀ s a t, I s → ok s a → counts s a → step s a = some t → work t < work s)
    (hidle : ∀ s a t, I s → ok s a → ¬ counts s a → step s a = some t → work t ≤ work s)
    {n : Nat} {s t : σ} (h : CountedSteps step ok counts n s t) (hs : I s) :
    n + work t ≤ work s ∧ I t := by
  induction h with
  | refl s => exact ⟨Nat.le_of_eq (Nat.zero_add _), hs⟩
  | idle h hok hnot hstep ih =>
    obtain ⟨hle, ht⟩ := ih hs
    have hmore := hidle _ _ _ ht hok hnot hstep
    exact ⟨by omega, hkept _ _ _ ht hok hstep⟩
  | tail h hok hcounts hstep ih =>
    obtain ⟨hle, ht⟩ := ih hs
    have hlt := hless _ _ _ ht hok hcounts hstep
    exact ⟨by omega, hkept _ _ _ ht hok hstep⟩

/-- In a run all steps may count. -/
theorem Steps.counted {n : Nat} {s t : σ} (h : Steps step ok n s t) :
    CountedSteps step ok (fun _ _ => True) n s t := by
  induction h with
  | refl s => exact .refl s
  | tail h hok hstep ih => exact ih.tail hok trivial hstep

section Work

variable {I : σ → Prop} {work : σ → Nat}
  (hkept : ∀ s a t, I s → ok s a → step s a = some t → I t)
  (hless : ∀ s a t, I s → ok s a → step s a = some t → work t < work s)
include hkept hless

/-- **A run is no longer than the work that there is.** -/
theorem Steps.length_le {n : Nat} {s t : σ} (h : Steps step ok n s t) (hs : I s) :
    n + work t ≤ work s ∧ I t :=
  h.counted.count_le hkept (fun s a t hs hok _ => hless s a t hs hok)
    (fun _ _ _ _ _ hnot => absurd trivial hnot) hs

/-- **Where something can be done until all is done, it gets done.** -/
theorem exists_done {Done : σ → Prop}
    (hprogress : ∀ s, I s → ¬ Done s → ∃ a t, ok s a ∧ step s a = some t) {s : σ} (hs : I s) :
    ∃ t, Reaches step ok s t ∧ Done t := by
  induction hn : work s using Nat.strongRecOn generalizing s with
  | _ n ih =>
    by_cases hdone : Done s
    · exact ⟨s, Reaches.refl s, hdone⟩
    · obtain ⟨a, t, hok, hstep⟩ := hprogress s hs hdone
      have hlt := hless s a t hs hok hstep
      obtain ⟨u, hu, hdone⟩ := ih (work t) (by omega) (hkept s a t hs hok hstep) rfl
      exact ⟨u, ((Reaches.refl s).tail hok hstep).trans hu, hdone⟩

end Work

end EdgeVision.Lib
