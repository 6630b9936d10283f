import Mathlib.Logic.Basic

/-!
# Lock-step simulation

A machine takes an input, or waits (`none`), and gives an output. Two machines on the same inputs
wait at the same inputs and give the same outputs for a whole run if a relation of their states is
kept by every step that gives the same output on both sides.
-/

namespace EdgeVision.Lib

variable {σ τ ι ο : Type}

/-- The outputs of a list of inputs and the last state, `none` if one of the inputs has to wait. -/
def runOutputs (step : σ → ι → Option (ο × σ)) : σ → List ι → Option (List ο × σ)
  | s, [] => some ([], s)
  | s, i :: inputs =>
    (step s i).bind fun out =>
      (runOutputs step out.2 inputs).map fun rest => (out.1 :: rest.1, rest.2)

/-- Both wait, or both give the same output and related states. -/
inductive Matches (R : σ → τ → Prop) : Option (ο × σ) → Option (ο × τ) → Prop where
  | waits : Matches R none none
  | moves {s : σ} {t : τ} (out : ο) (h : R s t) : Matches R (some (out, s)) (some (out, t))

/-- **The simulation rule**, for inputs that meet a condition. -/
theorem runOutputs_matches {step : σ → ι → Option (ο × σ)} {step' : τ → ι → Option (ο × τ)}
    {R : σ → τ → Prop} {ok : ι → Prop}
    (hstep : ∀ s t i, R s t → ok i → Matches R (step s i) (step' t i))
    {s : σ} {t : τ} (hinit : R s t) {inputs : List ι} (hok : ∀ i ∈ inputs, ok i) :
    Matches R (runOutputs step s inputs) (runOutputs step' t inputs) := by
  induction inputs generalizing s t with
  | nil => exact .moves [] hinit
  | cons i inputs ih =>
    have hfirst := hstep s t i hinit (hok i List.mem_cons_self)
    unfold runOutputs
    generalize step s i = first, step' t i = first' at hfirst ⊢
    cases hfirst with
    | waits => exact .waits
    | @moves s t out hnext =>
      have hrest := ih hnext fun j hj => hok j (List.mem_cons_of_mem i hj)
      simp only [Option.bind_some]
      generalize runOutputs step s inputs = rest, runOutputs step' t inputs = rest' at hrest ⊢
      cases hrest with
      | waits => exact .waits
      | moves outs hlast => exact .moves (out :: outs) hlast

end EdgeVision.Lib
