import Mathlib.Data.List.Basic

/-!
# Calls into libraries

A program that calls libraries, as the list of its calls: a `Traced α β` has made some calls of type
`α` and returned a `β`, or has ended the process. What may be called when is a partial automaton
`rules : σ → α → Option σ`, and calls that the rules allow one after the other are a `foldlM`.

`Traced.Obeys` is a triple over the state of the automaton, with a rule for each way to put programs
together. The rules for handles (`handles`) say that what a library hands out is used only until it
is given back. Two libraries side by side have their states and rules side by side (`beside`), and
calls of both in any order are allowed if those of each are (`foldlM_beside`).
-/

namespace EdgeVision.Lib

/-- The calls that were made, and the result unless the process has ended. -/
structure Traced (α β : Type) where
  calls : List α
  result : Option β
  deriving DecidableEq, Repr

namespace Traced

variable {α β γ : Type}

def pure (b : β) : Traced α β := ⟨[], some b⟩

def bind (x : Traced α β) (f : β → Traced α γ) : Traced α γ :=
  match x.result with
  | none => ⟨x.calls, none⟩
  | some b => ⟨x.calls ++ (f b).calls, (f b).result⟩

instance : Monad (Traced α) where
  pure := Traced.pure
  bind := Traced.bind

/-- Calls whose results are known. -/
def call (calls : List α) : Traced α Unit := ⟨calls, some ()⟩

/-- `std::exit`. -/
def exit : Traced α β := ⟨[], none⟩

/-- Go on only if all is well. -/
def require (ok : Bool) : Traced α Unit := if ok then pure () else exit

/-- The same program with its calls among those of several libraries. -/
def lift {α' : Type} (inject : α → α') (x : Traced α β) : Traced α' β :=
  ⟨x.calls.map inject, x.result⟩

/-! ## Results -/

/-- The process has not ended. -/
def returns (x : Traced α β) : Bool := x.result.isSome

@[simp] theorem returns_pure (b : β) : (Pure.pure b : Traced α β).returns = true := rfl

variable {σ : Type} {rules : σ → α → Option σ} {s : σ} {Q : β → σ → Prop}

/-- Every call from `s` on is allowed, and if the program returns, the library is left as `Q` says.
-/
def Obeys (rules : σ → α → Option σ) (s : σ) (x : Traced α β) (Q : β → σ → Prop) : Prop :=
  ∃ t, x.calls.foldlM rules s = some t ∧ ∀ b, x.result = some b → Q b t

theorem obeys_pure {b : β} (h : Q b s) : Obeys rules s (Pure.pure b) Q :=
  ⟨s, rfl, fun _ hb => Option.some.inj hb ▸ h⟩

theorem obeys_exit : Obeys rules s (exit : Traced α β) Q := ⟨s, rfl, fun _ hb => nomatch hb⟩

theorem obeys_call {R : Unit → σ → Prop} {calls : List α} {t : σ}
    (h : calls.foldlM rules s = some t) (ht : R () t) : Obeys rules s (call calls) R :=
  ⟨t, h, fun _ _ => ht⟩

theorem obeys_bind {x : Traced α γ} {f : γ → Traced α β} {R : γ → σ → Prop}
    (hx : Obeys rules s x R) (hf : ∀ c t, R c t → Obeys rules t (f c) Q) :
    Obeys rules s (x >>= f) Q := by
  obtain ⟨t, ht, hR⟩ := hx
  show Obeys rules s (x.bind f) Q
  cases hresult : x.result with
  | none =>
    refine ⟨t, ?_, fun b hb => ?_⟩
    · simpa [bind, hresult] using ht
    · simp [bind, hresult] at hb
  | some c =>
    obtain ⟨u, hu, hQ⟩ := hf c t (hR c hresult)
    refine ⟨u, ?_, fun b hb => hQ b ?_⟩
    · simp [bind, hresult, List.foldlM_append, ht, hu]
    · simpa [bind, hresult] using hb

/-- The calls come first. -/
theorem obeys_call_bind {calls : List α} {f : Unit → Traced α β} {t : σ}
    (h : calls.foldlM rules s = some t) (hf : Obeys rules t (f ()) Q) :
    Obeys rules s (call calls >>= f) Q :=
  obeys_bind (obeys_call (R := fun _ u => u = t) h rfl) fun _ _ hu => hu ▸ hf

theorem Obeys.weaken {x : Traced α β} {R : β → σ → Prop} (h : Obeys rules s x Q)
    (hR : ∀ b t, Q b t → R b t) : Obeys rules s x R :=
  let ⟨t, ht, hQ⟩ := h
  ⟨t, ht, fun b hb => hR b t (hQ b hb)⟩

/-- The result that the program returns may be spoken of. -/
theorem Obeys.result {x : Traced α β} (h : Obeys rules s x Q) :
    Obeys rules s x fun b t => x.result = some b ∧ Q b t :=
  let ⟨t, ht, hQ⟩ := h
  ⟨t, ht, fun b hb => ⟨hb, hQ b hb⟩⟩

end Traced

/-! ## Handles -/

/-- What a call has to do with handles: those that must be held for it, the one that it gives back,
and the one that it takes. -/
structure Effect (η : Type) where
  needs : List η
  gives : List η
  takes : List η
  deriving DecidableEq, Repr

/-- A handle is needed and given back only while it is held, and taken only while it is not. -/
def handles {η α : Type} [DecidableEq η] (effect : α → Effect η) (held : List η) (a : α) :
    Option (List η) :=
  if (∀ h ∈ (effect a).needs ++ (effect a).gives, h ∈ held) ∧ ∀ h ∈ (effect a).takes, h ∉ held then
    some (held.diff (effect a).gives ++ (effect a).takes)
  else none

/-! ## Libraries side by side -/

section Beside

variable {σ τ α β : Type}

/-- The rules of two libraries, for calls of both. -/
def beside (rules : σ → α → Option σ) (rules' : τ → β → Option τ) (s : σ × τ) :
    α ⊕ β → Option (σ × τ)
  | .inl a => (rules s.1 a).map fun t => (t, s.2)
  | .inr b => (rules' s.2 b).map fun t => (s.1, t)

variable {rules : σ → α → Option σ} {rules' : τ → β → Option τ}

/-- **Libraries side by side do not interfere**: calls of both, in any order, are allowed if and only
if those of each are. -/
theorem foldlM_beside {calls : List (α ⊕ β)} {s t : σ × τ} :
    calls.foldlM (beside rules rules') s = some t ↔
      (calls.filterMap Sum.getLeft?).foldlM rules s.1 = some t.1 ∧
        (calls.filterMap Sum.getRight?).foldlM rules' s.2 = some t.2 := by
  induction calls generalizing s with
  | nil => simp [Prod.ext_iff]
  | cons call calls ih =>
    rw [List.foldlM_cons]
    cases call with
    | inl a => cases h : rules s.1 a <;> simp [beside, List.filterMap_cons, h, ih]
    | inr b => cases h : rules' s.2 b <;> simp [beside, List.filterMap_cons, h, ih]

variable {γ : Type} {x : Traced α γ} {y : Traced β γ} {Q : γ → σ → Prop} {R : γ → τ → Prop}

/-- The frame rule: the other library is left alone. -/
theorem Traced.Obeys.inl {s : σ} (h : Obeys rules s x Q) (t : τ) :
    Obeys (beside rules rules') (s, t) (lift Sum.inl x) fun c u => Q c u.1 ∧ u.2 = t := by
  obtain ⟨s', hs', hQ⟩ := h
  refine ⟨(s', t), foldlM_beside.mpr ⟨?_, ?_⟩, fun c hc => ⟨hQ c hc, rfl⟩⟩
  · simpa [lift, List.filterMap_map, Function.comp_def] using hs'
  · simp [lift, List.filterMap_map, Function.comp_def]

theorem Traced.Obeys.inr {t : τ} (h : Obeys rules' t y R) (s : σ) :
    Obeys (beside rules rules') (s, t) (lift Sum.inr y) fun c u => u.1 = s ∧ R c u.2 := by
  obtain ⟨t', ht', hR⟩ := h
  refine ⟨(s, t'), foldlM_beside.mpr ⟨?_, ?_⟩, fun c hc => ⟨rfl, hR c hc⟩⟩
  · simp [lift, List.filterMap_map, Function.comp_def]
  · simpa [lift, List.filterMap_map, Function.comp_def] using ht'

end Beside

end EdgeVision.Lib
