import Mathlib.Order.Lattice

/-!
# Strict weak orderings on a list

What a sorting function asks of its comparator on the items it is given: it is irreflexive and
transitive, and incomparable items form classes. A comparator that compares keys of a linear order
meets it (`StrictWeakOn.of_key`).
-/

namespace EdgeVision.Lib

variable {α β : Type}

structure StrictWeakOn (r : α → α → Prop) (l : List α) : Prop where
  irrefl : ∀ a ∈ l, ¬ r a a
  trans : ∀ a ∈ l, ∀ b ∈ l, ∀ c ∈ l, r a b → r b c → r a c
  incomparable : ∀ a ∈ l, ∀ b ∈ l, ∀ c ∈ l, ¬ r a b → ¬ r b a → ¬ r b c → ¬ r c b →
    ¬ r a c ∧ ¬ r c a

theorem StrictWeakOn.of_key [LinearOrder β] {r : α → α → Prop} {l : List α} (key : α → β)
    (h : ∀ a ∈ l, ∀ b ∈ l, r a b ↔ key a < key b) : StrictWeakOn r l := by
  constructor
  case irrefl =>
    intro a ha hr
    exact lt_irrefl _ ((h a ha a ha).mp hr)
  case trans =>
    intro a ha b hb c hc hab hbc
    exact (h a ha c hc).mpr (((h a ha b hb).mp hab).trans ((h b hb c hc).mp hbc))
  case incomparable =>
    intro a ha b hb c hc hab hba hbc hcb
    rw [h a ha b hb, not_lt] at hab
    rw [h b hb a ha, not_lt] at hba
    rw [h b hb c hc, not_lt] at hbc
    rw [h c hc b hb, not_lt] at hcb
    rw [h a ha c hc, h c hc a ha, not_lt, not_lt]
    exact ⟨hbc.trans hab, hba.trans hcb⟩

end EdgeVision.Lib
