import Mathlib.Data.List.Basic

/-!
# Writes to a buffer

A buffer is a list of bytes, a write an index and a value, and `store` does the writes in order; one
past the end does nothing. What a byte is afterwards depends on the last write to it only. Two cases
need no order: writes that all write one value (`getElem?_store_const`) and writes to different
indices (`getElem?_store_of_mem`).
-/

namespace EdgeVision.Lib

variable {α : Type} {buf : List α} {writes : List (Nat × α)} {i : Nat} {v : α}

/-- Do the writes, in order. -/
def store (buf : List α) (writes : List (Nat × α)) : List α :=
  writes.foldl (fun buf w => buf.set w.1 w.2) buf

@[simp] theorem store_nil : store buf [] = buf := rfl

@[simp] theorem store_cons (w : Nat × α) : store buf (w :: writes) = store (buf.set w.1 w.2) writes :=
  rfl

theorem store_append (writes' : List (Nat × α)) :
    store buf (writes ++ writes') = store (store buf writes) writes' :=
  List.foldl_append

@[simp] theorem length_store : (store buf writes).length = buf.length := by
  induction writes generalizing buf with
  | nil => rfl
  | cons w writes ih => rw [store_cons, ih, List.length_set]

/-- An index that is not written keeps its value. -/
theorem getElem?_store_of_notMem (h : ∀ w ∈ writes, w.1 ≠ i) : (store buf writes)[i]? = buf[i]? := by
  induction writes generalizing buf with
  | nil => rfl
  | cons w writes ih =>
    rw [store_cons, ih fun w' hw' => h w' (List.mem_cons_of_mem w hw')]
    exact List.getElem?_set_ne (h w List.mem_cons_self)

/-- Writes of a single value leave it wherever they write. -/
theorem getElem?_store_const (hv : ∀ w ∈ writes, w.2 = v) (hi : i < buf.length)
    (h : ∃ w ∈ writes, w.1 = i) : (store buf writes)[i]? = some v := by
  induction writes generalizing buf with
  | nil => simp at h
  | cons w writes ih =>
    rw [store_cons]
    by_cases hlater : ∃ w' ∈ writes, w'.1 = i
    · exact ih (fun w' hw' => hv w' (List.mem_cons_of_mem w hw')) (by simpa using hi) hlater
    · push Not at hlater
      obtain ⟨w', hw', rfl⟩ := h
      rcases List.mem_cons.mp hw' with rfl | hmem
      · rw [getElem?_store_of_notMem hlater, List.getElem?_set_self hi, hv w' List.mem_cons_self]
      · exact absurd rfl (hlater w' hmem)

/-- Writes to different indices are all there at the end. -/
theorem getElem?_store_of_mem (hnodup : (writes.map Prod.fst).Nodup) (hi : i < buf.length)
    (h : (i, v) ∈ writes) : (store buf writes)[i]? = some v := by
  induction writes generalizing buf with
  | nil => simp at h
  | cons w writes ih =>
    rw [List.map_cons, List.nodup_cons] at hnodup
    rw [store_cons]
    rcases List.mem_cons.mp h with rfl | hmem
    · rw [getElem?_store_of_notMem, List.getElem?_set_self hi]
      intro w hw heq
      exact hnodup.1 (List.mem_map.mpr ⟨w, hw, heq⟩)
    · exact ih hnodup.2 (by simpa using hi) hmem

end EdgeVision.Lib
