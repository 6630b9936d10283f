import Mathlib.Data.List.Rotate
import Mathlib.Data.Nat.ModEq

/-!
# A queue in a circular array

A queue of `count` items begins at the slot `start` of an array and wraps around its end. Its items
are the array rotated to `start`, cut off behind them; the slot behind the last item is
`(start + count) % slots.length`. Writing there appends an item, in a full array at the cost of the
first one, and moving `start` on takes the first item.
-/

namespace EdgeVision.Lib

variable {α : Type}

/-- The items of the queue of `count` items that begins at the slot `start`. -/
def ringItems (slots : List α) (start count : Nat) : List α := (slots.rotate start).take count

namespace Ring

variable {slots : List α} {start count : Nat}

theorem length_items (h : count ≤ slots.length) : (ringItems slots start count).length = count := by
  rw [ringItems, List.length_take, List.length_rotate]
  exact Nat.min_eq_left h

/-- A slot that lies `k` behind the start is item `k`. -/
theorem rotate_set (a : α) {k : Nat} (hk : k < slots.length) :
    (slots.set ((start + k) % slots.length) a).rotate start = (slots.rotate start).set k a := by
  apply List.ext_getElem
  · simp
  · intro i hi _
    have hlt : i < slots.length := by simpa using hi
    rw [List.getElem_rotate, List.getElem_set, List.getElem_set, List.getElem_rotate]
    simp only [List.length_set]
    by_cases hik : k = i
    · simp [hik, Nat.add_comm]
    · have hne : (start + k) % slots.length ≠ (i + start) % slots.length := by
        intro hmod
        rw [Nat.add_comm i] at hmod
        have hcancel : Nat.ModEq slots.length k i := Nat.ModEq.add_left_cancel' start hmod
        exact hik (Nat.ModEq.eq_of_lt_of_lt hcancel hk hlt)
      rw [if_neg hne, if_neg hik]

/-- Rotating once more moves the first item behind the last. -/
theorem items_rotate_one (l : List α) (h : 0 < count) (hcount : count ≤ l.length) :
    (l.rotate 1).take (count - 1) = (l.take count).tail := by
  cases l with
  | nil => simp
  | cons x l =>
    obtain ⟨n, rfl⟩ := Nat.exists_eq_add_of_lt h
    have hn : n ≤ l.length := by simpa using hcount
    simp [List.take_append_of_le_length hn]

/-- Writing behind the last item appends. -/
theorem items_append (a : α) (h : count < slots.length) :
    ringItems (slots.set ((start + count) % slots.length) a) start (count + 1) =
      ringItems slots start count ++ [a] := by
  have hlen : count < (slots.rotate start).length := by simpa using h
  rw [ringItems, rotate_set a h, List.take_add_one, List.take_set_of_le le_rfl]
  simp [ringItems, List.getElem?_set_self hlen]

theorem items_pop (h : 0 < count) (hcount : count ≤ slots.length) :
    ringItems slots ((start + 1) % slots.length) (count - 1) =
      (ringItems slots start count).tail := by
  rw [ringItems, List.rotate_mod, ← List.rotate_rotate]
  exact items_rotate_one _ h (by simpa using hcount)

/-- Writing into a full array takes the place of the first item. -/
theorem items_overwrite (a : α) (hstart : start < slots.length) :
    ringItems (slots.set start a) ((start + 1) % slots.length) slots.length =
      (ringItems slots start slots.length).tail ++ [a] := by
  have hset : (slots.set start a).rotate start = (slots.rotate start).set 0 a := by
    rw [← rotate_set a (Nat.zero_lt_of_lt hstart), Nat.add_zero, Nat.mod_eq_of_lt hstart]
  have hlen : (slots.rotate start).length = slots.length := List.length_rotate _ _
  have hmod : (start + 1) % slots.length = (start + 1) % (slots.set start a).length := by simp
  rw [ringItems, hmod, List.rotate_mod, ← List.rotate_rotate, hset, ringItems, ← hlen]
  cases hsplit : slots.rotate start with
  | nil => simp [hsplit] at hlen; omega
  | cons x l => simp

/-- The slot at the start is the first item. -/
theorem head?_items (h : 0 < count) (hstart : start < slots.length) :
    (ringItems slots start count).head? = slots[start]? := by
  rw [ringItems, ← List.head?_rotate hstart]
  cases slots.rotate start with
  | nil => simp
  | cons x l =>
    obtain ⟨n, rfl⟩ := Nat.exists_eq_add_of_lt h
    simp

end Ring

end EdgeVision.Lib
