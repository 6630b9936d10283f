import Mathlib.Logic.Relation

/-!
# Guarded runs of a transition function

A system is a partial step function `step : σ → α → Option σ`: a label picks one of the moves the
state allows, and `none` says the state does not allow it. `Reaches step ok s t` is a run from `s`
to `t` every step of which meets the guard `ok`; the unguarded runs are those of
`anyStep`. An invariant is proved once per step (`Reaches.invariant`), and a concrete run is a list
of labels evaluated by `runLabels` (`Reaches.of_runLabels`).
-/

namespace EdgeVision.Lib

variable {σ α : Type}

/-- One step whose label meets the guard in the state it is taken from. -/
def Moves (step : σ → α → Option σ) (ok : σ → α → Prop) (s t : σ) : Prop :=
  ∃ a, ok s a ∧ step s a = some t

/-- A run whose steps all meet the guard. -/
def Reaches (step : σ → α → Option σ) (ok : σ → α → Prop) : σ → σ → Prop :=
  Relation.ReflTransGen (Moves step ok)

/-- The guard of the unrestricted runs. -/
def anyStep (_ : σ) (_ : α) : Prop := True

instance (s : σ) (a : α) : Decidable (anyStep s a) := .isTrue trivial

/-- Take the steps named by a list of labels, in order, as long as they meet the guard. -/
def runLabels (step : σ → α → Option σ) (ok : σ → α → Prop) [∀ s a, Decidable (ok s a)] :
    σ → List α → Option σ
  | s, [] => some s
  | s, a :: as => if ok s a then (step s a).bind fun t => runLabels step ok t as else none

namespace Reaches

variable {step : σ → α → Option σ} {ok : σ → α → Prop} {s t u : σ}

theorem refl (s : σ) : Reaches step ok s s := Relation.ReflTransGen.refl

theorem tail {a : α} (h : Reaches step ok s t) (hok : ok t a) (hstep : step t a = some u) :
    Reaches step ok s u :=
  Relation.ReflTransGen.tail h ⟨a, hok, hstep⟩

theorem trans (h₁ : Reaches step ok s t) (h₂ : Reaches step ok t u) : Reaches step ok s u :=
  Relation.ReflTransGen.trans h₁ h₂

/-- **The invariant rule.** What holds at the start and survives every guarded step holds of every
state of every guarded run. -/
theorem invariant {I : σ → Prop} (hinit : I s)
    (hstep : ∀ s a t, I s → ok s a → step s a = some t → I t)
    (h : Reaches step ok s t) : I t := by
  induction h with
  | refl => exact hinit
  | tail _ hmove ih =>
    obtain ⟨a, hok, hs⟩ := hmove
    exact hstep _ a _ ih hok hs

/-- A list of labels that can all be taken is a run. -/
theorem of_runLabels [∀ s a, Decidable (ok s a)] (as : List α)
    (h : runLabels step ok s as = some t) : Reaches step ok s t := by
  induction as generalizing s with
  | nil =>
    simp only [runLabels, Option.some.injEq] at h
    exact h ▸ refl s
  | cons a as ih =>
    simp only [runLabels] at h
    split at h
    · rename_i hok
      obtain ⟨m, hm, hrest⟩ := Option.bind_eq_some_iff.mp h
      exact ((refl s).tail hok hm).trans (ih hrest)
    · cases h

/-- What is seen of the last state of a run is seen of a reachable state. -/
theorem exists_of_runLabels {β : Type} {f : σ → β} {b : β} [∀ s a, Decidable (ok s a)]
    {as : List α} (h : (runLabels step ok s as).map f = some b) :
    ∃ t, Reaches step ok s t ∧ f t = b := by
  obtain ⟨t, ht, hf⟩ := Option.map_eq_some_iff.mp h
  exact ⟨t, of_runLabels as ht, hf⟩

/-- So it is where the guard admits each label in every state. -/
theorem exists_of_runLabels_all {β : Type} {f : σ → β} {b : β} {as : List α}
    (hok : ∀ a ∈ as, ∀ s, ok s a) (h : (runLabels step anyStep s as).map f = some b) :
    ∃ t, Reaches step ok s t ∧ f t = b := by
  induction as generalizing s with
  | nil => exact ⟨s, refl s, Option.some.inj h⟩
  | cons a as ih =>
    obtain ⟨t, ht, hf⟩ := Option.map_eq_some_iff.mp h
    obtain ⟨m, hm, hrest⟩ := Option.bind_eq_some_iff.mp ((if_pos trivial).symm.trans ht)
    obtain ⟨u, hu, hfu⟩ := ih (fun b hb => hok b (List.mem_cons_of_mem a hb))
      (Option.map_eq_some_iff.mpr ⟨t, hrest, hf⟩)
    exact ⟨u, ((refl s).tail (hok a List.mem_cons_self s) hm).trans hu, hfu⟩

end Reaches

end EdgeVision.Lib
