import EdgeVision.Ai.RknnDetector
import EdgeVision.Lib.Rows

/-!
# Tensor layouts

Which tensors `inferTensorLayout` and `readTensorValue` decode to the matrix that is stored in them.
The layout is guessed from the dimensions. A tensor with one row per candidate is read as stored as
long as its last index is an `int`; the layout `[1, 84, N]`, which stores one row per attribute, is
taken for 84 candidates of `N` attributes as soon as `N` is at least 6.
-/

namespace EdgeVision

open Lib

/-! ## Reading an element -/

/-- Where an element is stored. -/
def elementIndex (rows attrs : Nat) (attrMajor : Bool) (row attr : Nat) : Nat :=
  if attrMajor then attr * rows + row else row * attrs + attr

/-- The last index of a tensor is below its number of elements. -/
theorem elementIndex_lt {rows attrs row attr : Nat} (attrMajor : Bool) (hrow : row < rows)
    (hattr : attr < attrs) : elementIndex rows attrs attrMajor row attr < rows * attrs := by
  unfold elementIndex
  cases attrMajor with
  | true =>
    rw [Nat.mul_comm rows]
    exact index_lt hrow hattr
  | false => exact index_lt hattr hrow

theorem checkedInt_natCast {n : Nat} (h : n ≤ 2147483647) : checkedInt n = some (n : Int) :=
  if_pos (by omega)

theorem checkedInt_eq_none {x : Int} (h : 2147483647 < x) : checkedInt x = none :=
  if_neg (by omega)

/-- A read from a layout with sizes that are no negative numbers: the element at its index, unless
the index overflows. -/
theorem readTensorValue_nat (data : List ExtRat) (rows attrs : Nat) (attrMajor : Bool)
    (row attr : Nat) :
    readTensorValue data ⟨rows, attrs, attrMajor⟩ row attr =
      if elementIndex rows attrs attrMajor row attr ≤ 2147483647 then
        data[elementIndex rows attrs attrMajor row attr]?
      else none := by
  have hread (start offset : Nat) :
      ((checkedInt (start : Int)).bind fun s => (checkedInt (s + (offset : Int))).bind fun index =>
        if index < 0 then none else data[index.toNat]?) =
      if start + offset ≤ 2147483647 then data[start + offset]? else none := by
    by_cases hle : start + offset ≤ 2147483647
    · have hstart : checkedInt (start : Int) = some (start : Int) :=
        checkedInt_natCast (by omega)
      have hindex : checkedInt ((start : Int) + offset) = some ((start + offset : Nat) : Int) := by
        rw [← Int.natCast_add]
        exact checkedInt_natCast hle
      rw [hstart, Option.bind_some, hindex, Option.bind_some, if_pos hle,
        if_neg (by omega), Int.toNat_natCast]
    · rw [if_neg hle]
      cases hstart : checkedInt (start : Int) with
      | none => rfl
      | some s =>
        have hs : s = start := (checkedInt_eq_some_iff.mp hstart).2.symm
        rw [Option.bind_some, hs, checkedInt_eq_none (by omega)]
        rfl
  cases attrMajor with
  | true => simpa [readTensorValue, elementIndex, bind] using hread (attr * rows) row
  | false => simpa [readTensorValue, elementIndex, bind] using hread (row * attrs) attr

/-! ## The documented layouts -/

/-- The output layouts that the documentation lists. -/
inductive DocumentedLayout where
  | rowsBy6
  | batchRowsBy6
  | batchRowsBy85
  | batch84ByRows
  deriving DecidableEq, Repr

namespace DocumentedLayout

def dims : DocumentedLayout → UInt32 → List UInt32
  | rowsBy6, n => [n, 6]
  | batchRowsBy6, n => [1, n, 6]
  | batchRowsBy85, n => [1, n, 85]
  | batch84ByRows, n => [1, 84, n]

def attrs : DocumentedLayout → Nat
  | rowsBy6 => 6
  | batchRowsBy6 => 6
  | batchRowsBy85 => 85
  | batch84ByRows => 84

/-- Whether a row of the tensor is an attribute. -/
def attrMajor : DocumentedLayout → Bool
  | batch84ByRows => true
  | _ => false

/-- The buffer of a tensor that stores a matrix of `rows` candidates. -/
def stored (layout : DocumentedLayout) (rows : Nat) (entry : Nat → Nat → ExtRat) : List ExtRat :=
  (List.range (rows * layout.attrs)).map fun i =>
    if layout.attrMajor then entry (i % rows) (i / rows)
    else entry (i / layout.attrs) (i % layout.attrs)

/-- The tensor decodes to the matrix stored in it, whatever the matrix. -/
def Decodes (layout : DocumentedLayout) (n : UInt32) : Prop :=
  ∀ entry : Nat → Nat → ExtRat, ∃ l, inferTensorLayout (layout.dims n) = some l ∧
    l.rows = n.toNat ∧ l.attrs = layout.attrs ∧ l.attrMajor = layout.attrMajor ∧
      ∀ row < n.toNat, ∀ attr < layout.attrs,
        readTensorValue (layout.stored n.toNat entry) l row attr = some (entry row attr)

/-- Every element is stored at its index. -/
theorem getElem?_stored {layout : DocumentedLayout} {rows row attr : Nat}
    (entry : Nat → Nat → ExtRat) (hrow : row < rows) (hattr : attr < layout.attrs) :
    (layout.stored rows entry)[elementIndex rows layout.attrs layout.attrMajor row attr]? =
      some (entry row attr) := by
  have hlt := elementIndex_lt layout.attrMajor hrow hattr
  unfold stored
  unfold elementIndex at hlt ⊢
  cases hmajor : layout.attrMajor with
  | true =>
    simp only [hmajor, if_true] at hlt
    simp [List.getElem?_range hlt, index_mod _ hrow, index_div _ hrow]
  | false =>
    simp only [hmajor, Bool.false_eq_true, if_false] at hlt
    simp [List.getElem?_range hlt, index_mod _ hattr, index_div _ hattr]

theorem dimToInt_of_lt {n : UInt32} (h : n.toNat < 2147483648) : dimToInt n = n.toNat := by
  rw [dimToInt, BitVec.toInt_eq_toNat_of_lt, UInt32.toNat_toBitVec]
  rw [UInt32.toNat_toBitVec]
  omega

/-- A layout with one row per candidate is recognised. -/
theorem infer_rowMajor {layout : DocumentedLayout} (n : UInt32) (h : layout.attrMajor = false) :
    inferTensorLayout (layout.dims n) = some ⟨dimToInt n, layout.attrs, layout.attrMajor⟩ := by
  cases layout with
  | batch84ByRows => cases h
  | _ => rfl

/-- A tensor with one row per attribute is recognised by its small number of candidates. -/
theorem infer_attrMajor {n : UInt32} (h : n.toNat < 6) :
    inferTensorLayout (batch84ByRows.dims n) = some ⟨dimToInt n, 84, true⟩ := by
  have hlast : ¬ 6 ≤ n := by
    rw [UInt32.le_iff_toNat_le]
    exact Nat.not_le.mpr h
  simp only [dims, inferTensorLayout, if_neg hlast]
  rfl

/-- With at least six candidates it is taken for 84 of them. -/
theorem infer_attrMajor_wrong {n : UInt32} (h : 6 ≤ n.toNat) :
    inferTensorLayout (batch84ByRows.dims n) = some ⟨84, dimToInt n, false⟩ := by
  have hlast : 6 ≤ n := UInt32.le_iff_toNat_le.mpr h
  simp only [dims, inferTensorLayout, if_pos hlast]
  rfl

/-- Every element of a matrix that fits in the indices of `int` is read. -/
theorem readTensorValue_stored {layout : DocumentedLayout} {rows row attr : Nat}
    (entry : Nat → Nat → ExtRat) (hfits : rows * layout.attrs ≤ 2147483648) (hrow : row < rows)
    (hattr : attr < layout.attrs) :
    readTensorValue (layout.stored rows entry) ⟨rows, layout.attrs, layout.attrMajor⟩ row attr =
      some (entry row attr) := by
  have hget := getElem?_stored entry hrow hattr
  have hlt : elementIndex rows layout.attrs layout.attrMajor row attr < rows * layout.attrs := by
    have hlen : (layout.stored rows entry).length = rows * layout.attrs := by simp [stored]
    rw [← hlen]
    exact (List.getElem?_eq_some_iff.mp hget).1
  rw [readTensorValue_nat, if_pos (by omega), hget]

/-- The last element of a larger matrix with one row per candidate is not. -/
theorem readTensorValue_last {rows attrs : Nat} (data : List ExtRat) (hrows : 0 < rows)
    (hattrs : 0 < attrs) (hlarge : 2147483648 < rows * attrs) :
    readTensorValue data ⟨rows, attrs, false⟩ (rows - 1 : Nat) (attrs - 1 : Nat) = none := by
  have hindex : elementIndex rows attrs false (rows - 1) (attrs - 1) = rows * attrs - 1 := by
    have hsplit : rows * attrs = (rows - 1) * attrs + attrs := by
      rw [← Nat.succ_mul, Nat.succ_eq_add_one, Nat.sub_add_cancel hrows]
    simp only [elementIndex, Bool.false_eq_true, if_false]
    omega
  rw [readTensorValue_nat, hindex, if_neg (by omega)]

end DocumentedLayout

open DocumentedLayout in
/-- **When a documented tensor decodes to the matrix stored in it**: when its last index is an `int`
and, with one row per attribute, when there are fewer than six candidates. -/
theorem documented_layout_decodes_iff (layout : DocumentedLayout) (n : UInt32) :
    layout.Decodes n ↔
      (layout.attrMajor = true → n.toNat < 6) ∧ n.toNat * layout.attrs ≤ 2147483648 := by
  constructor
  · intro h
    obtain ⟨l, hinfer, hrows, hattrs, hmajor, hread⟩ := h fun _ _ => .nan
    cases hlayout : layout.attrMajor with
    | true =>
      have hbatch : layout = batch84ByRows := by
        cases layout with
        | batch84ByRows => rfl
        | _ => cases hlayout
      subst hbatch
      have hsmall : n.toNat < 6 := by
        by_contra hlarge
        rw [infer_attrMajor_wrong (by omega)] at hinfer
        cases hinfer
        cases hmajor
      refine ⟨fun _ => hsmall, ?_⟩
      simp only [attrs]
      omega
    | false =>
      refine ⟨nofun, ?_⟩
      rw [infer_rowMajor n hlayout, Option.some.injEq] at hinfer
      subst hinfer
      by_contra hlarge
      have hpos : 0 < n.toNat := by
        by_contra hzero
        rw [Nat.eq_zero_of_not_pos hzero, Nat.zero_mul] at hlarge
        omega
      have hattrs : 0 < layout.attrs := by cases layout <;> exact Nat.succ_pos _
      have hlast := hread (n.toNat - 1) (by omega) (layout.attrs - 1) (by omega)
      have hdim : dimToInt n = n.toNat := hrows
      rw [hdim, hlayout, readTensorValue_last _ hpos hattrs (by omega)] at hlast
      cases hlast
  · intro h entry
    have hlt : n.toNat < 2147483648 := by
      have hattrs : 2 ≤ layout.attrs := by cases layout <;> simp [attrs]
      have hmul := Nat.mul_le_mul_left n.toNat hattrs
      omega
    have hinfer : inferTensorLayout (layout.dims n) =
        some ⟨n.toNat, layout.attrs, layout.attrMajor⟩ := by
      cases hlayout : layout.attrMajor with
      | false => rw [infer_rowMajor n hlayout, dimToInt_of_lt hlt, hlayout]
      | true =>
        have hbatch : layout = batch84ByRows := by
          cases layout with
          | batch84ByRows => rfl
          | _ => cases hlayout
        subst hbatch
        rw [infer_attrMajor (h.1 hlayout), dimToInt_of_lt hlt]
        rfl
    refine ⟨_, hinfer, rfl, rfl, rfl, ?_⟩
    intro row hrow attr hattr
    exact readTensorValue_stored entry h.2 hrow hattr

open DocumentedLayout in
/-- A model with 84 attributes and 8400 candidates: the tensor is read as 84 candidates. -/
theorem documented_layout_misread :
    ¬ ∀ (layout : DocumentedLayout) (n : UInt32), 1 ≤ n → layout.Decodes n := by
  intro h
  obtain ⟨l, hinfer, hrows, -⟩ := h batch84ByRows 8400 (by decide) fun _ _ => .nan
  rw [infer_attrMajor_wrong (by decide)] at hinfer
  cases hinfer
  cases hrows

end EdgeVision
