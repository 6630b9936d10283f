import EdgeVision.Verify.Nms
import EdgeVision.Verify.TensorLayout

/-!
# Post-processing

What `infer` makes of the outputs of a model. On tensors of rationals whose dimensions fit in an
`int` every element read lies inside its tensor, so the post-processing goes through, and what it
returns are boxes inside the frame with a score of at least the threshold, each from a row of one of
the tensors (`postprocess_well_formed`).
-/

namespace EdgeVision

open Lib

/-! ## Reading a tensor -/

/-- The number of elements of a tensor. -/
def elementCount : List UInt32 → Nat
  | [] => 1
  | dim :: dims => dim.toNat * elementCount dims

/-- Positive dimensions whose product is an `int`, over a buffer of as many rationals. -/
structure OutputTensor.Sound (output : OutputTensor) : Prop where
  pos : ∀ dim ∈ output.dims, 1 ≤ dim.toNat
  count_lt : elementCount output.dims < 2147483648
  length : ∀ data, output.buf = some data → data.length = elementCount output.dims
  rational : ∀ data, output.buf = some data → ∀ value ∈ data, ∃ q, value = .fin q

/-- The layout of a tensor is recognised. -/
def OutputTensor.supported (output : OutputTensor) : Bool :=
  (inferTensorLayout output.dims).isSome

/-- The attributes of a row, as the element reads give them. -/
def Reads (read : Int → Option ExtRat) (attrs : Nat) (m : Nat → Rat) : Prop :=
  ∀ attr < attrs, read attr = some (.fin (m attr))

/-- A recognised layout has sizes within the tensor. -/
theorem layout_within {dims : List UInt32} {layout : TensorLayout}
    (hpos : ∀ dim ∈ dims, 1 ≤ dim.toNat) (hcount : elementCount dims < 2147483648)
    (h : inferTensorLayout dims = some layout) :
    ∃ rows attrs : Nat, layout = ⟨rows, attrs, layout.attrMajor⟩ ∧ 6 ≤ attrs ∧
      rows * attrs ≤ elementCount dims := by
  have hpair (a b : UInt32) (attrMajor : Bool) (hb : 6 ≤ b) (ha : 1 ≤ a.toNat)
      (hab : a.toNat * b.toNat ≤ elementCount dims) :
      ∃ rows attrs : Nat,
        (⟨dimToInt a, dimToInt b, attrMajor⟩ : TensorLayout) = ⟨rows, attrs, attrMajor⟩ ∧
          6 ≤ attrs ∧ rows * attrs ≤ elementCount dims := by
    have hb' : 6 ≤ b.toNat := UInt32.le_iff_toNat_le.mp hb
    have hltb : b.toNat ≤ a.toNat * b.toNat := Nat.le_mul_of_pos_left _ ha
    have hlta : a.toNat ≤ a.toNat * b.toNat := Nat.le_mul_of_pos_right _ (by omega)
    refine ⟨a.toNat, b.toNat, ?_, hb', hab⟩
    rw [DocumentedLayout.dimToInt_of_lt (by omega), DocumentedLayout.dimToInt_of_lt (by omega)]
  unfold inferTensorLayout at h
  split at h
  · rename_i a b
    have ha := hpos a (by simp)
    have hb := hpos b (by simp)
    have hcounts : a.toNat * b.toNat ≤ elementCount [a, b] := by simp [elementCount]
    split at h
    · rename_i hlast
      cases h
      exact hpair a b false hlast ha hcounts
    · split at h
      · rename_i hlast
        cases h
        exact hpair b a true hlast hb (Nat.mul_comm _ _ ▸ hcounts)
      · cases h
  · rename_i batch a b
    have ha := hpos a (by simp)
    have hb := hpos b (by simp)
    have hcounts : a.toNat * b.toNat ≤ elementCount [batch, a, b] := by
      simpa [elementCount] using Nat.le_mul_of_pos_left (a.toNat * b.toNat) (hpos batch (by simp))
    split at h
    · rename_i hlast
      cases h
      exact hpair a b false hlast ha hcounts
    · split at h
      · rename_i hlast
        cases h
        exact hpair b a true hlast hb (Nat.mul_comm _ _ ▸ hcounts)
      · cases h
  · cases h

/-- **Every read of a row lies inside the tensor.** -/
theorem reads_row {data : List ExtRat} {rows attrs row : Nat} (attrMajor : Bool)
    (hlen : rows * attrs ≤ data.length) (hfits : rows * attrs ≤ 2147483648)
    (hrational : ∀ value ∈ data, ∃ q, value = .fin q) (hrow : row < rows) :
    ∃ m, Reads (readTensorValue data ⟨rows, attrs, attrMajor⟩ row) attrs m := by
  have hread : ∀ attr, ∃ q, attr < attrs →
      readTensorValue data ⟨rows, attrs, attrMajor⟩ row attr = some (.fin q) := by
    intro attr
    by_cases hattr : attr < attrs
    · have hindex := elementIndex_lt attrMajor hrow hattr
      have hbound : elementIndex rows attrs attrMajor row attr < data.length := by omega
      obtain ⟨q, hq⟩ := hrational _ (List.getElem_mem hbound)
      refine ⟨q, fun _ => ?_⟩
      rw [readTensorValue_nat, if_pos (by omega), List.getElem?_eq_getElem hbound, hq]
    · exact ⟨0, fun h => absurd h hattr⟩
  exact Classical.skolem.mp hread

/-! ## The score of a row -/

/-- `best` is the least class with the largest of the `n` scores that start at `first`. -/
structure LeastMax (m : Nat → Rat) (first n best : Nat) : Prop where
  lt : best < n
  max : ∀ c < n, m (first + c) ≤ m (first + best)
  least : ∀ c < best, m (first + c) < m (first + best)

/-- The loop over the class scores keeps the least class with the largest score. -/
theorem foldlM_bestClass {read : Int → Option ExtRat} {m : Nat → Rat} {attrs : Nat} (first : Nat)
    (hread : Reads read attrs m) (n : Nat) (hn : first + (n + 1) ≤ attrs) :
    ∃ best, LeastMax m first (n + 1) best ∧
      (List.range (n + 1)).foldlM
        (fun best (classId : Nat) => do
          let classScore ← read ((first : Int) + classId)
          some (if best.1 < classScore then (classScore, classId) else best))
        (ExtRat.inf true, 0) = some (.fin (m (first + best)), best) := by
  induction n with
  | zero =>
    have h0 := hread first (by omega)
    refine ⟨0, ⟨Nat.one_pos, ?_, nofun⟩, ?_⟩
    · intro c hc
      rw [Nat.lt_one_iff.mp hc]
    · simp only [Nat.zero_add, List.range_one, List.foldlM_cons, List.foldlM_nil, Nat.cast_zero,
        add_zero, h0]
      rfl
  | succ n ih =>
    obtain ⟨best, hbest, hfold⟩ := ih (by omega)
    have hnext := hread (first + (n + 1)) (by omega)
    rw [List.range_succ, List.foldlM_append, hfold]
    simp only [Nat.cast_add] at hnext
    simp only [List.foldlM_cons, List.foldlM_nil, Option.bind_eq_bind, Option.bind_some,
      Nat.cast_add, hnext, ExtRat.fin_lt_fin, Option.pure_def]
    by_cases hlt : m (first + best) < m (first + (n + 1))
    · refine ⟨n + 1, ⟨by omega, ?_, ?_⟩, by rw [if_pos hlt]⟩
      · intro c hc
        rcases Nat.lt_succ_iff_lt_or_eq.mp hc with hc | rfl
        · exact ((hbest.max c hc).trans_lt hlt).le
        · exact le_rfl
      · intro c hc
        exact (hbest.max c hc).trans_lt hlt
    · refine ⟨best, ⟨Nat.lt_succ_of_lt hbest.lt, ?_, hbest.least⟩, by rw [if_neg hlt]⟩
      intro c hc
      rcases Nat.lt_succ_iff_lt_or_eq.mp hc with hc | rfl
      · exact hbest.max c hc
      · exact not_lt.mp hlt

theorem bestClass_eq {read : Int → Option ExtRat} {m : Nat → Rat} {attrs : Nat} (first : Nat)
    (hread : Reads read attrs m) (hfirst : first < attrs) :
    ∃ best, LeastMax m first (attrs - first) best ∧
      bestClass read first attrs = some (.fin (m (first + best)), best) := by
  obtain ⟨best, hbest, hfold⟩ := foldlM_bestClass first hread (attrs - first - 1) (by omega)
  have hcount : attrs - first - 1 + 1 = attrs - first := by omega
  rw [hcount] at hbest hfold
  refine ⟨best, hbest, ?_⟩
  rw [bestClass, ← hfold]
  congr 2
  omega

/-- The score and the class that a row is given, by the number of its attributes. -/
structure Scored (config : AiConfig) (outOfRangeCast : ExtRat → Int) (attrs : Nat) (m : Nat → Rat)
    (score : Rat) (classId : Int) : Prop where
  columns : attrs = 6 → score = m 4 ∧ classId = roundToInt outOfRangeCast (.fin (m 5))
  objectness : attrs ≠ 6 → config.hasObjectness = true →
    ∃ best : Nat, LeastMax m 5 (attrs - 5) best ∧ classId = best ∧ score = m 4 * m (5 + best)
  classes : attrs ≠ 6 → config.hasObjectness = false →
    ∃ best : Nat, LeastMax m 4 (attrs - 4) best ∧ classId = best ∧ score = m (4 + best)

theorem scoreRow_eq (config : AiConfig) (outOfRangeCast : ExtRat → Int)
    {read : Int → Option ExtRat} {m : Nat → Rat} {attrs : Nat} (hread : Reads read attrs m)
    (hattrs : 6 ≤ attrs) :
    ∃ score classId, Scored config outOfRangeCast attrs m score classId ∧
      scoreRow config outOfRangeCast attrs read = some (.fin score, classId) := by
  have h4 : read 4 = some (.fin (m 4)) := hread 4 (by omega)
  by_cases hsix : attrs = 6
  · have h5 : read 5 = some (.fin (m 5)) := hread 5 (by omega)
    refine ⟨m 4, roundToInt outOfRangeCast (.fin (m 5)), ?_, ?_⟩
    · exact ⟨fun _ => ⟨rfl, rfl⟩, fun h => absurd hsix h, fun h => absurd hsix h⟩
    · simp only [scoreRow, hsix, Nat.cast_ofNat, if_true, h4, h5, Option.bind_eq_bind,
        Option.bind_some]
      rfl
  · have hfive : (attrs : Int) ≠ 5 := by omega
    have hsix' : (attrs : Int) ≠ 6 := by omega
    cases hobj : config.hasObjectness with
    | true =>
      obtain ⟨best, hbest, hclass⟩ := bestClass_eq 5 hread (by omega)
      have hlt : (5 : Int) < attrs := by omega
      refine ⟨m 4 * m (5 + best), best, ?_, ?_⟩
      · refine ⟨fun h => absurd h hsix, fun _ _ => ⟨best, hbest, rfl, rfl⟩, fun _ h => ?_⟩
        rw [hobj] at h
        cases h
      · simp only [Nat.cast_ofNat] at hclass
        simp only [scoreRow, if_neg hfive, if_neg hsix', hobj, hlt, and_self, if_true, h4, hclass,
          Option.bind_eq_bind, Option.bind_some, ExtRat.fin_mul_fin]
    | false =>
      obtain ⟨best, hbest, hclass⟩ := bestClass_eq 4 hread (by omega)
      refine ⟨m (4 + best), best, ?_, ?_⟩
      · refine ⟨fun h => absurd h hsix, fun _ h => ?_, fun _ _ => ⟨best, hbest, rfl, rfl⟩⟩
        rw [hobj] at h
        cases h
      · simp only [Nat.cast_ofNat] at hclass
        simp only [scoreRow, if_neg hfive, if_neg hsix', hobj, Bool.false_eq_true, false_and,
          if_false, hclass, Option.bind_eq_bind, Option.bind_some]

/-! ## The box of a row -/

/-- A rational coordinate comes back to the frame as a rational inside it. -/
theorem toFrame_fin (pad : Int) {scale : Rat} (hscale : 0 < scale) {size : Nat} (hsize : 1 ≤ size)
    (value : Rat) :
    ∃ q : Rat, toFrame pad scale size (.fin value) = .fin q ∧ 0 ≤ q ∧ q ≤ size - 1 := by
  have hupper : (0 : Rat) ≤ size - 1 := by
    have : (1 : Rat) ≤ size := by exact_mod_cast hsize
    linarith
  refine ⟨max 0 (min ((value - pad) / scale) (size - 1)), ?_, le_max_left _ _,
    max_le hupper (min_le_right _ _)⟩
  rw [toFrame, ExtRat.fin_sub_fin, ExtRat.fin_div_fin _ (ne_of_gt hscale), clampFloat,
    ExtRat.min_fin, ExtRat.max_fin]

/-- The corners of a box are rationals. -/
def Box.Fin (box : Box) : Prop :=
  (∃ q, box.x1 = .fin q) ∧ (∃ q, box.y1 = .fin q) ∧ (∃ q, box.x2 = .fin q) ∧ ∃ q, box.y2 = .fin q

theorem modelBox_fin (boxFormat : String) (inputWidth inputHeight : Nat) (b0 b1 b2 b3 : Rat) :
    (modelBox boxFormat inputWidth inputHeight (.fin b0) (.fin b1) (.fin b2) (.fin b3)).Fin := by
  have hscaled (b s : Rat) (normalized : Bool) :
      ∃ q, (if normalized then ExtRat.fin b * .fin s else .fin b) = .fin q := by
    cases normalized with
    | true => exact ⟨b * s, rfl⟩
    | false => exact ⟨b, rfl⟩
  unfold modelBox
  generalize looksNormalized (.fin b0) (.fin b1) (.fin b2) (.fin b3) = normalized
  obtain ⟨q0, h0⟩ := hscaled b0 inputWidth normalized
  obtain ⟨q1, h1⟩ := hscaled b1 inputHeight normalized
  obtain ⟨q2, h2⟩ := hscaled b2 inputWidth normalized
  obtain ⟨q3, h3⟩ := hscaled b3 inputHeight normalized
  simp only [h0, h1, h2, h3]
  split
  · exact ⟨⟨q0, rfl⟩, ⟨q1, rfl⟩, ⟨q2, rfl⟩, q3, rfl⟩
  · exact ⟨⟨_, ExtRat.fin_sub_fin _ _⟩, ⟨_, ExtRat.fin_sub_fin _ _⟩, ⟨_, rfl⟩, _, rfl⟩

/-- A box with an inside, inside the frame. -/
structure Detection.InFrame (width height : Nat) (d : Detection) : Prop where
  x : .fin 0 ≤ d.x1 ∧ d.x1 < d.x2 ∧ d.x2 ≤ .fin ((width : Rat) - 1)
  y : .fin 0 ≤ d.y1 ∧ d.y1 < d.y2 ∧ d.y2 ≤ .fin ((height : Rat) - 1)

/-! ## The detections -/

namespace Decoding

/-- What a row of attributes `m` may be turned into. -/
structure FromRow (dec : Decoding) (attrs : Nat) (m : Nat → Rat) (d : Detection) : Prop where
  inFrame : d.InFrame dec.frameWidth dec.frameHeight
  confident : dec.config.scoreThreshold ≤ d.score
  scored : ∃ score, d.score = .fin score ∧
    Scored dec.config dec.outOfRangeCast attrs m score d.classId

/-- A detection comes from a row of one of the outputs. -/
def FromOutput (dec : Decoding) (output : OutputTensor) (d : Detection) : Prop :=
  ∃ layout data row m, inferTensorLayout output.dims = some layout ∧ output.buf = some data ∧
    row < layout.rows.toNat ∧ Reads (readTensorValue data layout row) layout.attrs.toNat m ∧
    dec.FromRow layout.attrs.toNat m d

section

variable {dec : Decoding} (hscale : 0 < dec.letterbox.scale) (hwidth : 1 ≤ dec.frameWidth)
  (hheight : 1 ≤ dec.frameHeight) (hthreshold : dec.config.scoreThreshold ≠ .nan)

include hscale hwidth hheight hthreshold

/-- A row of rationals is turned into a detection or passed over. -/
theorem decodeRow_spec {read : Int → Option ExtRat} {m : Nat → Rat} {attrs : Nat}
    (hread : Reads read attrs m) (hattrs : 6 ≤ attrs) :
    ∃ detection, dec.decodeRow attrs read = some detection ∧
      ∀ d ∈ detection, dec.FromRow attrs m d := by
  have h0 : read 0 = some (.fin (m 0)) := hread 0 (by omega)
  have h1 : read 1 = some (.fin (m 1)) := hread 1 (by omega)
  have h2 : read 2 = some (.fin (m 2)) := hread 2 (by omega)
  have h3 : read 3 = some (.fin (m 3)) := hread 3 (by omega)
  obtain ⟨score, classId, hscored, hscore⟩ :=
    scoreRow_eq dec.config dec.outOfRangeCast hread hattrs
  obtain ⟨⟨c1, hc1⟩, ⟨c2, hc2⟩, ⟨c3, hc3⟩, c4, hc4⟩ := modelBox_fin dec.config.boxFormat
    dec.inputWidth dec.inputHeight (m 0) (m 1) (m 2) (m 3)
  obtain ⟨x1, hx1, hx1lo, -⟩ := toFrame_fin dec.letterbox.padX hscale hwidth c1
  obtain ⟨y1, hy1, hy1lo, -⟩ := toFrame_fin dec.letterbox.padY hscale hheight c2
  obtain ⟨x2, hx2, -, hx2hi⟩ := toFrame_fin dec.letterbox.padX hscale hwidth c3
  obtain ⟨y2, hy2, -, hy2hi⟩ := toFrame_fin dec.letterbox.padY hscale hheight c4
  simp only [decodeRow, h0, h1, h2, h3, hscore, Option.bind_eq_bind, Option.bind_some, frameBox,
    hc1, hc2, hc3, hc4, hx1, hy1, hx2, hy2, ExtRat.fin_le_fin]
  split
  · exact ⟨none, rfl, by simp⟩
  · rename_i hlow
    split
    · exact ⟨none, rfl, by simp⟩
    · rename_i hinside
      rw [not_or, not_le, not_le] at hinside
      refine ⟨_, rfl, ?_⟩
      intro d hd
      cases hd
      constructor
      case inFrame =>
        refine ⟨⟨?_, ?_, ?_⟩, ?_, ?_, ?_⟩
        · exact (ExtRat.fin_le_fin _ _).mpr hx1lo
        · exact (ExtRat.fin_lt_fin _ _).mpr hinside.1
        · exact (ExtRat.fin_le_fin _ _).mpr hx2hi
        · exact (ExtRat.fin_le_fin _ _).mpr hy1lo
        · exact (ExtRat.fin_lt_fin _ _).mpr hinside.2
        · exact (ExtRat.fin_le_fin _ _).mpr hy2hi
      case confident =>
        have hnumber : ExtRat.fin score ≠ .nan := by simp
        exact (ExtRat.not_lt hnumber hthreshold).mp hlow
      case scored => exact ⟨score, rfl, hscored⟩

theorem decodeRows_spec {data : List ExtRat} {layout : TensorLayout} {attrs : Nat}
    (hlayout : layout.attrs = attrs) (hattrs : 6 ≤ attrs) (rows : List Nat)
    (hread : ∀ row ∈ rows, ∃ m, Reads (readTensorValue data layout row) attrs m) :
    ∃ detections, dec.decodeRows layout data rows = some detections ∧
      ∀ d ∈ detections, ∃ row ∈ rows, ∃ m, Reads (readTensorValue data layout row) attrs m ∧
        dec.FromRow attrs m d := by
  induction rows with
  | nil => exact ⟨[], rfl, by simp⟩
  | cons row rows ih =>
    obtain ⟨rest, hrest, hall⟩ := ih fun r hr => hread r (List.mem_cons_of_mem row hr)
    obtain ⟨m, hm⟩ := hread row List.mem_cons_self
    obtain ⟨detection, hrow, hfrom⟩ := decodeRow_spec hscale hwidth hheight hthreshold hm hattrs
    refine ⟨detection.toList ++ rest, ?_, ?_⟩
    · simp only [decodeRows, hlayout, hrow, hrest, Option.bind_eq_bind, Option.bind_some]
    · intro d hd
      rcases List.mem_append.mp hd with hd | hd
      · exact ⟨row, List.mem_cons_self, m, hm, hfrom d (Option.mem_toList.mp hd)⟩
      · obtain ⟨r, hr, h⟩ := hall d hd
        exact ⟨r, List.mem_cons_of_mem row hr, h⟩

/-- The rows of a tensor are read inside it. -/
theorem decodeOutput_spec {output : OutputTensor} (hsound : output.Sound) :
    ∃ detections, dec.decodeOutput output = some detections ∧
      ∀ d ∈ detections, dec.FromOutput output d := by
  unfold decodeOutput
  cases hinfer : inferTensorLayout output.dims with
  | none => exact ⟨[], rfl, by simp⟩
  | some layout =>
    cases hbuf : output.buf with
    | none => exact ⟨[], rfl, by simp⟩
    | some data =>
      obtain ⟨rows, attrs, hlayout, hattrs, hcount⟩ :=
        layout_within hsound.pos hsound.count_lt hinfer
      have hlen : rows * attrs ≤ data.length := by
        rw [hsound.length data hbuf]
        exact hcount
      have hfits := hsound.count_lt
      have hread : ∀ row ∈ List.range layout.rows.toNat,
          ∃ m, Reads (readTensorValue data layout row) attrs m := by
        intro row hrow
        rw [hlayout] at hrow ⊢
        exact reads_row layout.attrMajor hlen (by omega) (hsound.rational data hbuf)
          (by simpa using hrow)
      have hattrs' : layout.attrs = attrs := congrArg TensorLayout.attrs hlayout
      obtain ⟨detections, hrows, hall⟩ :=
        decodeRows_spec hscale hwidth hheight hthreshold hattrs' hattrs _ hread
      refine ⟨detections, hrows, ?_⟩
      intro d hd
      obtain ⟨row, hrow, m, hm, hfrom⟩ := hall d hd
      have htoNat : layout.attrs.toNat = attrs := by rw [hattrs', Int.toNat_natCast]
      refine ⟨layout, data, row, m, hinfer, hbuf, List.mem_range.mp hrow, ?_, ?_⟩
      · rw [htoNat]
        exact hm
      · rw [htoNat]
        exact hfrom

theorem decodeOutputs_spec (outputs : List OutputTensor) (hsound : ∀ o ∈ outputs, o.Sound) :
    ∃ detections, dec.decodeOutputs outputs = some detections ∧
      ∀ d ∈ detections, ∃ output ∈ outputs, dec.FromOutput output d := by
  induction outputs with
  | nil => exact ⟨[], rfl, by simp⟩
  | cons output outputs ih =>
    obtain ⟨rest, hrest, hall⟩ := ih fun o ho => hsound o (List.mem_cons_of_mem output ho)
    obtain ⟨detections, hout, hfrom⟩ := decodeOutput_spec hscale hwidth hheight hthreshold
      (hsound output List.mem_cons_self)
    refine ⟨detections ++ rest, ?_, ?_⟩
    · simp only [decodeOutputs, hout, hrest, Option.bind_eq_bind, Option.bind_some]
    · intro d hd
      rcases List.mem_append.mp hd with hd | hd
      · exact ⟨output, List.mem_cons_self, hfrom d hd⟩
      · obtain ⟨o, ho, h⟩ := hall d hd
        exact ⟨o, List.mem_cons_of_mem output ho, h⟩

end

/-- A tensor without a layout adds nothing. -/
theorem decodeOutputs_supported (dec : Decoding) (outputs : List OutputTensor) :
    dec.decodeOutputs (outputs.filter OutputTensor.supported) = dec.decodeOutputs outputs := by
  induction outputs with
  | nil => rfl
  | cons output outputs ih =>
    rw [List.filter_cons]
    split
    · simp only [decodeOutputs, ih]
    · rename_i hno
      have hnone : inferTensorLayout output.dims = none := by
        simpa [OutputTensor.supported] using hno
      rw [ih, decodeOutputs, decodeOutput, hnone]
      cases dec.decodeOutputs outputs <;> rfl

end Decoding

/-! ## The result -/

/-- The result is selected from what the outputs decode to. -/
theorem postprocess_eq (sort : List Detection → List Detection) {dec : Decoding}
    {outputs : List OutputTensor} {candidates : List Detection}
    (h : dec.decodeOutputs outputs = some candidates) :
    ∃ note, postprocess sort dec outputs =
      some (applyNms sort candidates dec.config.nmsThreshold dec.config.maxResults, note) := by
  simp only [postprocess, h, Option.bind_eq_bind, Option.bind_some]
  exact ⟨_, rfl⟩

/-- What the post-processing returns for the outputs of a call. -/
structure WellFormed (dec : Decoding) (outputs : List OutputTensor) (detections : List Detection) :
    Prop where
  inFrame : ∀ d ∈ detections, d.InFrame dec.frameWidth dec.frameHeight
  confident : ∀ d ∈ detections, dec.config.scoreThreshold ≤ d.score
  /-- Each comes from a row, whose score and class it has. -/
  decoded : ∀ d ∈ detections, ∃ output ∈ outputs, dec.FromOutput output d
  limited : 0 < dec.config.maxResults → (detections.length : Int) ≤ dec.config.maxResults

/-- **Post-processing is safe and its result well formed**, for all outputs of rationals: it reads
inside the tensors only, and tensors without a layout add nothing to what it returns. -/
theorem postprocess_well_formed {sort : List Detection → List Detection}
    (hsort : SortsByScore sort) (det : RknnDetector) (outOfRangeCast : ExtRat → Int)
    (frame : CapturedFrame) (hwidth : 1 ≤ frame.width) (hheight : 1 ≤ frame.height)
    (hinputWidth : 1 ≤ det.inputWidth) (hinputHeight : 1 ≤ det.inputHeight)
    (hthreshold : det.config.scoreThreshold ≠ .nan) (outputs : List OutputTensor)
    (hsound : ∀ o ∈ outputs, o.Sound) :
    let letterbox := letterboxInfo frame.width frame.height det.inputWidth det.inputHeight
    let dec := det.decoding outOfRangeCast letterbox frame
    ∃ detections note, postprocess sort dec outputs = some (detections, note) ∧
      WellFormed dec outputs detections ∧
      (postprocess sort dec (outputs.filter OutputTensor.supported)).map Prod.fst =
        some detections := by
  intro letterbox dec
  have hscale : 0 < dec.letterbox.scale :=
    letterboxInfo_scale_pos hwidth hheight hinputWidth hinputHeight
  obtain ⟨candidates, hdecode, hall⟩ : ∃ candidates, dec.decodeOutputs outputs = some candidates ∧
      ∀ d ∈ candidates, ∃ output ∈ outputs, dec.FromOutput output d :=
    Decoding.decodeOutputs_spec hscale hwidth hheight hthreshold outputs hsound
  have hscores : ∀ d ∈ candidates, d.score ≠ .nan := by
    intro d hd
    obtain ⟨_, _, _, _, _, _, _, _, _, _, hfrom⟩ := hall d hd
    obtain ⟨score, hscore, -⟩ := hfrom.scored
    rw [hscore]
    nofun
  have hkept : ∀ d ∈ applyNms sort candidates dec.config.nmsThreshold dec.config.maxResults,
      ∃ output ∈ outputs, dec.FromOutput output d :=
    fun d hd => hall d (applyNms_subset hsort hscores hd)
  obtain ⟨note, hpost⟩ := postprocess_eq sort hdecode
  obtain ⟨note', hpost'⟩ := postprocess_eq sort
    ((dec.decodeOutputs_supported outputs).trans hdecode)
  refine ⟨_, note, hpost, ?_, by rw [hpost', Option.map_some]⟩
  · constructor
    case inFrame =>
      intro d hd
      obtain ⟨_, _, _, _, _, _, _, _, _, _, hfrom⟩ := hkept d hd
      exact hfrom.inFrame
    case confident =>
      intro d hd
      obtain ⟨_, _, _, _, _, _, _, _, _, _, hfrom⟩ := hkept d hd
      exact hfrom.confident
    case decoded => exact hkept
    case limited => exact length_applyNms_le

/-- A frame and a model of eight by eight pixels, and a tensor of one row. -/
theorem postprocess_well_formed_one_row :
    let config : AiConfig := ⟨.fin (7 / 20), .fin (9 / 20), 20, true, "xyxy"⟩
    let det : RknnDetector := ⟨config, true, "", 8, 8, [[1, 6]], []⟩
    let frame : CapturedFrame := ⟨0, 0, 8, 8, []⟩
    let dec := det.decoding (fun _ => 0) (letterboxInfo 8 8 8 8) frame
    let outputs : List OutputTensor :=
      [⟨[1, 6], some [.fin 3, .fin 3, .fin 9, .fin 5, .fin (9 / 10), .fin 2]⟩]
    (postprocess sortByScore dec outputs).map
        (fun result => result.1.map fun d => (d.classId, d.score, d.x1, d.x2)) =
      some [(2, .fin (9 / 10), .fin 3, .fin 7)] ∧
    ∃ detections note, postprocess sortByScore dec outputs = some (detections, note) ∧
      WellFormed dec outputs detections ∧
      (postprocess sortByScore dec (outputs.filter OutputTensor.supported)).map Prod.fst =
        some detections := by
  intro config det frame dec outputs
  refine ⟨by decide +kernel, ?_⟩
  apply postprocess_well_formed sortByScore_sorts det (fun _ => 0) frame (by decide) (by decide)
    (by decide) (by decide) (by decide)
  intro o ho
  cases List.mem_singleton.mp ho
  constructor
  case pos => simp
  case count_lt => simp [elementCount]
  case length =>
    intro data hdata
    cases hdata
    rfl
  case rational =>
    intro data hdata
    cases hdata
    simp

end EdgeVision
