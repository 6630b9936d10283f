import EdgeVision.Lib.StrictWeak
import EdgeVision.Verify.Detections

/-!
# The rows of a tensor, whatever it holds

Here the entries of a tensor are any floats, infinities and NaNs included. A row is taken to the
frame by a map of its own four coordinates: they are multiplied by the input size when they look
normalised, which is decided for each row from these four (`row_scaling`). A row becomes a candidate
unless its score is below the threshold or its box has no inside; the candidates are what the sort
may be given exactly when no row with an inside has a score that compares with nothing
(`candidates_ordered_iff`).
-/

namespace EdgeVision

open Lib

/-! ## The box of a row -/

/-- The four box coordinates of a row. -/
structure Coords where
  b0 : ExtRat
  b1 : ExtRat
  b2 : ExtRat
  b3 : ExtRat
  deriving DecidableEq, Repr

namespace Coords

/-- The coordinates that the element reads of a row give. -/
def read (read : Int → Option ExtRat) : Option Coords := do
  let b0 ← read 0
  let b1 ← read 1
  let b2 ← read 2
  let b3 ← read 3
  some ⟨b0, b1, b2, b3⟩

variable (c : Coords)

def normalized : Bool := looksNormalized c.b0 c.b1 c.b2 c.b3

/-- Normalised coordinates in model-input pixels. -/
def scaled (inputWidth inputHeight : Nat) : Coords where
  b0 := c.b0 * .fin inputWidth
  b1 := c.b1 * .fin inputHeight
  b2 := c.b2 * .fin inputWidth
  b3 := c.b3 * .fin inputHeight

/-- No coordinate is a NaN. -/
def Numbers : Prop := c.b0 ≠ .nan ∧ c.b1 ≠ .nan ∧ c.b2 ≠ .nan ∧ c.b3 ≠ .nan

/-- Every coordinate is at most two away from zero. -/
def Small : Prop :=
  c.b0.abs ≤ .fin 2 ∧ c.b1.abs ≤ .fin 2 ∧ c.b2.abs ≤ .fin 2 ∧ c.b3.abs ≤ .fin 2

/-- Some coordinate is more than two away from zero. -/
def Large : Prop :=
  .fin 2 < c.b0.abs ∨ .fin 2 < c.b1.abs ∨ .fin 2 < c.b2.abs ∨ .fin 2 < c.b3.abs

instance : Decidable c.Large := inferInstanceAs (Decidable (_ ∨ _))

end Coords

namespace Decoding

variable (dec : Decoding)

/-- The map of a row to the frame: what the decoding makes of its coordinates. -/
def rowBox (c : Coords) : Box :=
  frameBox dec.letterbox dec.frameWidth dec.frameHeight
    (modelBox dec.config.boxFormat dec.inputWidth dec.inputHeight c.b0 c.b1 c.b2 c.b3)

/-- The map of coordinates in model-input pixels: the conversion to corners, then the letterbox and
the clamp. -/
def pixelMap (c : Coords) : Box :=
  frameBox dec.letterbox dec.frameWidth dec.frameHeight
    (if dec.config.boxFormat = "xyxy" then ⟨c.b0, c.b1, c.b2, c.b3⟩
    else
      let half := ExtRat.fin (1 / 2)
      ⟨c.b0 - c.b2 * half, c.b1 - c.b3 * half, c.b0 + c.b2 * half, c.b1 + c.b3 * half⟩)

/-- What a row with this score and box becomes. -/
def rowDetection (scored : ExtRat × Int) (box : Box) : Option Detection :=
  if scored.1 < dec.config.scoreThreshold then none
  else if box.x2 ≤ box.x1 ∨ box.y2 ≤ box.y1 then none
  else
    some
      { classId := scored.2, score := scored.1, label := labelOf dec.labels scored.2
        x1 := box.x1, y1 := box.y1, x2 := box.x2, y2 := box.y2 }

theorem decodeRow_eq (attrs : Int) (read : Int → Option ExtRat) :
    dec.decodeRow attrs read =
      (Coords.read read).bind fun c =>
        (scoreRow dec.config dec.outOfRangeCast attrs read).map fun scored =>
          dec.rowDetection scored (dec.rowBox c) := by
  simp only [decodeRow, Coords.read, Option.bind_eq_bind, Option.bind_assoc, Option.bind_some]
  refine congrArg _ (funext fun b0 => congrArg _ (funext fun b1 => congrArg _ (funext fun b2 =>
    congrArg _ (funext fun b3 => ?_))))
  rw [Option.map_eq_bind]
  refine congrArg _ (funext fun scored => ?_)
  unfold rowDetection rowBox
  simp only [Function.comp_apply]
  split
  · rfl
  · split <;> rfl

theorem rowBox_eq (c : Coords) :
    dec.rowBox c =
      dec.pixelMap (if c.normalized then c.scaled dec.inputWidth dec.inputHeight else c) := by
  unfold rowBox pixelMap modelBox Coords.normalized
  cases looksNormalized c.b0 c.b1 c.b2 c.b3 <;> rfl

end Decoding

/-- Among numbers, a row looks normalised when all its coordinates are small. -/
theorem Coords.normalized_iff {c : Coords} (h : c.Numbers) : c.normalized = true ↔ c.Small := by
  obtain ⟨h0, h1, h2, h3⟩ := h
  have hleft := ExtRat.max_ne_nan (ExtRat.abs_ne_nan h0) (ExtRat.abs_ne_nan h1)
  have hright := ExtRat.max_ne_nan (ExtRat.abs_ne_nan h2) (ExtRat.abs_ne_nan h3)
  unfold normalized looksNormalized Small
  rw [decide_eq_true_iff, ExtRat.max_le_iff hleft hright,
    ExtRat.max_le_iff (ExtRat.abs_ne_nan h0) (ExtRat.abs_ne_nan h1),
    ExtRat.max_le_iff (ExtRat.abs_ne_nan h2) (ExtRat.abs_ne_nan h3), and_assoc]

theorem Coords.not_normalized_iff {c : Coords} (h : c.Numbers) :
    c.normalized = false ↔ c.Large := by
  obtain ⟨h0, h1, h2, h3⟩ := h
  have hlarge {b : ExtRat} (hb : b ≠ .nan) : ¬ b.abs ≤ .fin 2 ↔ .fin 2 < b.abs := by
    rw [← ExtRat.not_lt (by simp) (ExtRat.abs_ne_nan hb), not_not]
  rw [← Bool.not_eq_true, normalized_iff ⟨h0, h1, h2, h3⟩, Small, Large, not_and_or, not_and_or,
    not_and_or, hlarge h0, hlarge h1, hlarge h2, hlarge h3]

namespace Decoding

/-- If a row of the tensor has a large coordinate, no row is multiplied. -/
def UniformScaling (dec : Decoding) (layout : TensorLayout) (data : List ExtRat) : Prop :=
  (∃ row < layout.rows.toNat, ∃ c, Coords.read (readTensorValue data layout row) = some c ∧
    c.Large) →
  ∀ row < layout.rows.toNat, ∀ c, Coords.read (readTensorValue data layout row) = some c →
    dec.rowBox c = dec.pixelMap c

/-- What a row with these coordinates goes through: a map that is the same for all rows, behind a
multiplication by the input size for coordinates that look normalised. -/
structure ScaledAlone (dec : Decoding) (c : Coords) : Prop where
  decision : dec.rowBox c =
    dec.pixelMap (if c.normalized then c.scaled dec.inputWidth dec.inputHeight else c)
  large : c.Numbers → c.Large → dec.rowBox c = dec.pixelMap c
  small : c.Numbers → c.Small →
    dec.rowBox c = dec.pixelMap (c.scaled dec.inputWidth dec.inputHeight)

theorem scaledAlone (dec : Decoding) (c : Coords) : dec.ScaledAlone c := by
  constructor
  case decision => exact dec.rowBox_eq c
  case large =>
    intro hnumbers hlarge
    rw [rowBox_eq, (Coords.not_normalized_iff hnumbers).mpr hlarge, if_neg Bool.false_ne_true]
  case small =>
    intro hnumbers hsmall
    rw [rowBox_eq, (Coords.normalized_iff hnumbers).mpr hsmall, if_pos rfl]

/-- **Every row is scaled by its own coordinates.** All rows of a tensor go through one map, and
whether a row is multiplied by the input size is seen from its four coordinates alone. -/
theorem row_scaling (dec : Decoding) {output : OutputTensor} {layout : TensorLayout}
    {data : List ExtRat} (hlayout : inferTensorLayout output.dims = some layout)
    (hdata : output.buf = some data) :
    dec.decodeOutput output = dec.decodeRows layout data (List.range layout.rows.toNat) ∧
      ∀ row < layout.rows.toNat, ∀ c, Coords.read (readTensorValue data layout row) = some c →
        dec.ScaledAlone c ∧
          dec.decodeRow layout.attrs (readTensorValue data layout row) =
            (scoreRow dec.config dec.outOfRangeCast layout.attrs
              (readTensorValue data layout row)).map fun scored =>
                dec.rowDetection scored (dec.rowBox c) := by
  constructor
  · rw [decodeOutput, hlayout, hdata]
  · intro row _ c hc
    refine ⟨dec.scaledAlone c, ?_⟩
    rw [decodeRow_eq, hc, Option.bind_some]

/-- A model and a frame of 640 by 640 pixels. -/
def squareDecoding : Decoding where
  config := ⟨.fin (7 / 20), .fin (9 / 20), 20, true, "xyxy"⟩
  outOfRangeCast := fun _ => 0
  labels := []
  inputWidth := 640
  inputHeight := 640
  letterbox := letterboxInfo 640 640 640 640
  frameWidth := 640
  frameHeight := 640

/-- A box of a hundred pixels, and one of two. -/
def twoBoxes : OutputTensor where
  dims := [2, 6]
  buf := some [.fin 10, .fin 10, .fin 100, .fin 100, .fin (9 / 10), .fin 0,
    .fin 0, .fin 0, .fin 2, .fin 2, .fin (9 / 10), .fin 0]

/-- The first is mapped as it is, the second is multiplied before. -/
theorem row_scaling_two_boxes :
    let large : Coords := ⟨.fin 10, .fin 10, .fin 100, .fin 100⟩
    let small : Coords := ⟨.fin 0, .fin 0, .fin 2, .fin 2⟩
    squareDecoding.decodeOutput twoBoxes =
        squareDecoding.decodeRows ⟨2, 6, false⟩ (twoBoxes.buf.getD []) (List.range 2) ∧
      squareDecoding.rowBox large = squareDecoding.pixelMap large ∧
      squareDecoding.rowBox small = squareDecoding.pixelMap (small.scaled 640 640) := by
  intro large small
  obtain ⟨hrows, hscaled⟩ :=
    @row_scaling squareDecoding twoBoxes _ _ rfl rfl
  have hlarge : squareDecoding.ScaledAlone large := (hscaled 0 (by decide) large rfl).1
  have hsmall : squareDecoding.ScaledAlone small := (hscaled 1 (by decide) small rfl).1
  exact ⟨hrows, hlarge.large (by unfold Coords.Numbers; decide) (by decide +kernel),
    hsmall.small (by unfold Coords.Numbers; decide) (by unfold Coords.Small; decide +kernel)⟩

/-- In a tensor of pixel coordinates the small box is taken for a normalised one, and comes out as
large as the frame. -/
theorem small_box_fills_frame :
    (squareDecoding.decodeOutput twoBoxes).map (fun detections =>
        detections.map fun d => (d.x1, d.y1, d.x2, d.y2)) =
      some [(.fin 10, .fin 10, .fin 100, .fin 100), (.fin 0, .fin 0, .fin 639, .fin 639)] ∧
    ¬ squareDecoding.UniformScaling ⟨2, 6, false⟩ (twoBoxes.buf.getD []) := by
  refine ⟨by decide +kernel, ?_⟩
  intro huniform
  have hpixels : (Coords.mk (.fin 10) (.fin 10) (.fin 100) (.fin 100)).Large := by decide +kernel
  have hsmall := huniform ⟨0, by decide, _, rfl, hpixels⟩ 1 (by decide)
    ⟨.fin 0, .fin 0, .fin 2, .fin 2⟩ rfl
  revert hsmall
  decide +kernel

end Decoding

/-! ## The score of a row -/

/-- Some class score is positive infinity, or there is none but NaNs and negative infinities. -/
def BestInfinite (read : Int → Option ExtRat) (first attrs : Int) : Prop :=
  (∃ attr, first ≤ attr ∧ attr < attrs ∧ read attr = some (.inf false)) ∨
    ∀ attr, first ≤ attr → attr < attrs → read attr = some .nan ∨ read attr = some (.inf true)

/-- Some class score is zero, and none is larger. -/
def BestZero (read : Int → Option ExtRat) (first attrs : Int) : Prop :=
  (∃ attr, first ≤ attr ∧ attr < attrs ∧ read attr = some (.fin 0)) ∧
    ∀ attr value, first ≤ attr → attr < attrs → read attr = some value → ¬ .fin 0 < value

/-- A row whose score compares with nothing, by the number of its attributes. -/
def UnorderedScore (config : AiConfig) (attrs : Int) (read : Int → Option ExtRat) : Prop :=
  if attrs = 5 ∨ attrs = 6 then read 4 = some .nan
  else if config.hasObjectness ∧ 5 < attrs then
    read 4 = some .nan ∨ (read 4 = some (.fin 0) ∧ BestInfinite read 5 attrs) ∨
      ((∃ neg, read 4 = some (.inf neg)) ∧ BestZero read 5 attrs)
  else False

/-- What the scan over the class scores ends with: a number, no class score larger, which is the
start value or one of the scores. -/
structure Best (read : Int → Option ExtRat) (first attrs : Int) (best : ExtRat) : Prop where
  number : best ≠ .nan
  within : ∀ attr, first ≤ attr → attr < attrs → ∃ value, read attr = some value ∧ ¬ best < value
  attained : best = .inf true ∨ ∃ attr, first ≤ attr ∧ attr < attrs ∧ read attr = some best

/-- The scan over the first `n` class scores. -/
theorem foldlM_best {read : Int → Option ExtRat} {first : Int} (n : Nat) {best : ExtRat × Nat}
    (h : (List.range n).foldlM
      (fun best (classId : Nat) => do
        let classScore ← read (first + classId)
        some (if best.1 < classScore then (classScore, classId) else best))
      (ExtRat.inf true, 0) = some best) : Best read first (first + n) best.1 := by
  induction n generalizing best with
  | zero =>
    cases h
    exact ⟨by simp, fun attr _ _ => by omega, .inl rfl⟩
  | succ n ih =>
    rw [List.range_succ, List.foldlM_append] at h
    obtain ⟨prev, hprev, h⟩ := Option.bind_eq_some_iff.mp h
    simp only [List.foldlM_cons, List.foldlM_nil, Option.bind_eq_bind, Option.pure_def,
      Option.bind_eq_some_iff] at h
    obtain ⟨next, ⟨value, hvalue, hnext⟩, hbest⟩ := h
    cases hnext
    cases hbest
    have hold := ih hprev
    have hlast : first + (n : Int) < first + ((n + 1 : Nat) : Int) := by omega
    have hsplit {attr : Int} (hattr : attr < first + ((n + 1 : Nat) : Int)) :
        attr < first + n ∨ attr = first + n := by omega
    split
    · rename_i hlt
      have hnumber := (ExtRat.lt_iff.mp hlt).2.1
      refine ⟨hnumber, ?_, .inr ⟨_, by omega, hlast, hvalue⟩⟩
      intro attr hfirst hattr
      rcases hsplit hattr with hattr | rfl
      · obtain ⟨v, hv, hle⟩ := hold.within attr hfirst hattr
        refine ⟨v, hv, fun hlt' => hle ?_⟩
        exact ExtRat.lt_trans hlt hlt'
      · exact ⟨value, hvalue, ExtRat.lt_irrefl⟩
    · rename_i hle
      refine ⟨hold.number, ?_, ?_⟩
      · intro attr hfirst hattr
        rcases hsplit hattr with hattr | rfl
        · exact hold.within attr hfirst hattr
        · exact ⟨value, hvalue, hle⟩
      · rcases hold.attained with hstart | ⟨attr, hfirst, hattr, hread⟩
        · exact .inl hstart
        · exact .inr ⟨attr, hfirst, by omega, hread⟩

theorem bestClass_best {read : Int → Option ExtRat} {first attrs : Int} {best : ExtRat × Nat}
    (h : bestClass read first attrs = some best) : Best read first attrs best.1 := by
  have hbest := foldlM_best _ h
  by_cases hle : first ≤ attrs
  · have hcount : first + ((attrs - first).toNat : Int) = attrs := by omega
    rwa [hcount] at hbest
  · have hnone : (attrs - first).toNat = 0 := by omega
    rw [bestClass, hnone] at h
    cases h
    exact ⟨by simp, fun attr _ _ => by omega, .inl rfl⟩

namespace Best

variable {read : Int → Option ExtRat} {first attrs : Int} {best : ExtRat}

theorem infinite_iff (h : Best read first attrs best) :
    (∃ neg, best = .inf neg) ↔ BestInfinite read first attrs := by
  constructor
  · rintro ⟨neg, rfl⟩
    cases neg with
    | false =>
      rcases h.attained with hstart | hread
      · cases hstart
      · exact .inl hread
    | true =>
      refine .inr fun attr hfirst hattr => ?_
      obtain ⟨value, hvalue, hle⟩ := h.within attr hfirst hattr
      rw [hvalue]
      cases value with
      | nan => exact .inl rfl
      | inf neg =>
        cases neg with
        | true => exact .inr rfl
        | false => exact absurd rfl hle
      | fin q => exact absurd rfl hle
  · rintro (⟨attr, hfirst, hattr, hread⟩ | hnone)
    · obtain ⟨value, hvalue, hle⟩ := h.within attr hfirst hattr
      cases hread.symm.trans hvalue
      cases best with
      | nan => exact absurd rfl h.number
      | inf neg => exact ⟨neg, rfl⟩
      | fin q => exact absurd rfl hle
    · rcases h.attained with rfl | ⟨attr, hfirst, hattr, hread⟩
      · exact ⟨true, rfl⟩
      · rcases hnone attr hfirst hattr with hnan | hinf
        · cases hread.symm.trans hnan
          exact absurd rfl h.number
        · cases hread.symm.trans hinf
          exact ⟨true, rfl⟩

theorem zero_iff (h : Best read first attrs best) :
    best = .fin 0 ↔ BestZero read first attrs := by
  constructor
  · rintro rfl
    constructor
    · rcases h.attained with hstart | hread
      · cases hstart
      · exact hread
    · intro attr value hfirst hattr hread
      obtain ⟨value', hvalue, hle⟩ := h.within attr hfirst hattr
      cases hread.symm.trans hvalue
      exact hle
  · rintro ⟨⟨zero, hfirst, hattr, hzero⟩, hnone⟩
    obtain ⟨value, hvalue, hle⟩ := h.within zero hfirst hattr
    cases hzero.symm.trans hvalue
    have hnonneg : .fin 0 ≤ best := (ExtRat.not_lt h.number (by simp)).mp hle
    rcases h.attained with rfl | ⟨attr, hfirst, hattr, hread⟩
    · cases hnonneg
    · have hnonpos := (ExtRat.not_lt (by simp) h.number).mp (hnone attr best hfirst hattr hread)
      exact ExtRat.le_antisymm hnonpos hnonneg

end Best

/-- The score of a row is a NaN exactly when its entries say so. -/
theorem score_eq_nan_iff {config : AiConfig} {outOfRangeCast : ExtRat → Int} {attrs : Int}
    {read : Int → Option ExtRat} {scored : ExtRat × Int}
    (h : scoreRow config outOfRangeCast attrs read = some scored) :
    scored.1 = .nan ↔ UnorderedScore config attrs read := by
  unfold scoreRow at h
  unfold UnorderedScore
  split at h
  · rename_i hfive
    obtain ⟨score, hscore, h⟩ := Option.bind_eq_some_iff.mp h
    cases h
    rw [if_pos (.inl hfive), hscore, Option.some_inj]
  · rename_i hfive
    split at h
    · rename_i hsix
      obtain ⟨score, hscore, h⟩ := Option.bind_eq_some_iff.mp h
      obtain ⟨value, hvalue, h⟩ := Option.bind_eq_some_iff.mp h
      cases h
      rw [if_pos (.inr hsix), hscore, Option.some_inj]
    · rename_i hsix
      rw [if_neg (not_or.mpr ⟨hfive, hsix⟩)]
      split at h
      · rename_i hobj
        obtain ⟨objectness, hread, h⟩ := Option.bind_eq_some_iff.mp h
        obtain ⟨best, hbest, h⟩ := Option.bind_eq_some_iff.mp h
        cases h
        have hscan := bestClass_best hbest
        rw [if_pos hobj, hread, Option.some_inj, Option.some_inj, ← hscan.infinite_iff,
          ← hscan.zero_iff, ExtRat.mul_eq_nan_iff hscan.number]
        simp only [Option.some_inj]
      · rename_i hobj
        obtain ⟨best, hbest, h⟩ := Option.bind_eq_some_iff.mp h
        cases h
        rw [if_neg hobj]
        exact iff_false_intro (bestClass_best hbest).number

/-! ## The candidates -/

namespace Decoding

variable {dec : Decoding}

/-- The rows of a tensor decode one by one. -/
theorem decodeRows_iff {layout : TensorLayout} {data : List ExtRat} {rows : List Nat}
    {detections : List Detection} (h : dec.decodeRows layout data rows = some detections) :
    (∀ row ∈ rows, ∃ found,
      dec.decodeRow layout.attrs (readTensorValue data layout row) = some found) ∧
    ∀ d, d ∈ detections ↔ ∃ row ∈ rows,
      dec.decodeRow layout.attrs (readTensorValue data layout row) = some (some d) := by
  induction rows generalizing detections with
  | nil =>
    cases h
    simp
  | cons row rows ih =>
    obtain ⟨found, hfound, h⟩ := Option.bind_eq_some_iff.mp h
    obtain ⟨rest, hrest, h⟩ := Option.bind_eq_some_iff.mp h
    cases h
    obtain ⟨hall, hmem⟩ := ih hrest
    refine ⟨List.forall_mem_cons.mpr ⟨⟨found, hfound⟩, hall⟩, fun d => ?_⟩
    rw [List.mem_append, hmem d, List.exists_mem_cons_iff, hfound, Option.mem_toList,
      Option.some_inj]

/-- The rows that the loop over the outputs decodes: those of the tensors with a layout and a
buffer. -/
def IsRow (outputs : List OutputTensor) (layout : TensorLayout) (read : Int → Option ExtRat) :
    Prop :=
  ∃ output ∈ outputs, ∃ data, inferTensorLayout output.dims = some layout ∧
    output.buf = some data ∧ ∃ row < layout.rows.toNat, read = readTensorValue data layout row

theorem decodeOutput_iff {output : OutputTensor} {detections : List Detection}
    (h : dec.decodeOutput output = some detections) :
    (∀ layout read, IsRow [output] layout read →
      ∃ found, dec.decodeRow layout.attrs read = some found) ∧
    ∀ d, d ∈ detections ↔ ∃ layout read, IsRow [output] layout read ∧
      dec.decodeRow layout.attrs read = some (some d) := by
  simp only [IsRow, List.mem_singleton, exists_eq_left]
  unfold decodeOutput at h
  split at h
  · rename_i layout data hlayout hdata
    obtain ⟨hrows, hrow⟩ := decodeRows_iff h
    simp only [List.mem_range] at hrows hrow
    constructor
    · rintro layout' read ⟨data', hlayout', hdata', row, hlt, rfl⟩
      cases hlayout.symm.trans hlayout'
      cases hdata.symm.trans hdata'
      exact hrows row hlt
    · intro d
      rw [hrow d]
      constructor
      · rintro ⟨row, hlt, hd⟩
        exact ⟨layout, _, ⟨data, hlayout, hdata, row, hlt, rfl⟩, hd⟩
      · rintro ⟨layout', read, ⟨data', hlayout', hdata', row, hlt, rfl⟩, hd⟩
        cases hlayout.symm.trans hlayout'
        cases hdata.symm.trans hdata'
        exact ⟨row, hlt, hd⟩
  · rename_i hno
    cases h
    constructor
    · rintro layout read ⟨data, hlayout, hdata, -⟩
      exact absurd hdata (hno layout data hlayout)
    · intro d
      refine iff_of_false (List.not_mem_nil) ?_
      rintro ⟨layout, read, ⟨data, hlayout, hdata, -⟩, -⟩
      exact absurd hdata (hno layout data hlayout)

theorem decodeOutputs_iff {outputs : List OutputTensor} {candidates : List Detection}
    (h : dec.decodeOutputs outputs = some candidates) :
    (∀ layout read, IsRow outputs layout read →
      ∃ found, dec.decodeRow layout.attrs read = some found) ∧
    ∀ d, d ∈ candidates ↔ ∃ layout read, IsRow outputs layout read ∧
      dec.decodeRow layout.attrs read = some (some d) := by
  induction outputs generalizing candidates with
  | nil =>
    cases h
    simp [IsRow]
  | cons output outputs ih =>
    obtain ⟨here, hhere, h⟩ := Option.bind_eq_some_iff.mp h
    obtain ⟨rest, hrest, h⟩ := Option.bind_eq_some_iff.mp h
    cases h
    obtain ⟨hone, hmemOne⟩ := decodeOutput_iff hhere
    obtain ⟨hall, hmem⟩ := ih hrest
    have hsplit (layout : TensorLayout) (read : Int → Option ExtRat) :
        IsRow (output :: outputs) layout read ↔
          IsRow [output] layout read ∨ IsRow outputs layout read := by
      simp only [IsRow, List.exists_mem_cons_iff, List.not_mem_nil, false_and, exists_false,
        or_false]
    constructor
    · intro layout read hrow
      rcases (hsplit layout read).mp hrow with hrow | hrow
      · exact hone layout read hrow
      · exact hall layout read hrow
    · intro d
      simp only [List.mem_append, hmem d, hmemOne d, hsplit, or_and_right, exists_or]

/-- The box of the row has an inside within the frame. -/
def HasInside (dec : Decoding) (read : Int → Option ExtRat) : Prop :=
  ∃ c, Coords.read read = some c ∧
    ¬ ((dec.rowBox c).x2 ≤ (dec.rowBox c).x1 ∨ (dec.rowBox c).y2 ≤ (dec.rowBox c).y1)

/-- Rows with an inside have a score that compares, to a threshold that compares. -/
def OrderedRows (dec : Decoding) (outputs : List OutputTensor) : Prop :=
  ∀ layout read, IsRow outputs layout read → dec.HasInside read →
    dec.config.scoreThreshold ≠ .nan ∧ ¬ UnorderedScore dec.config layout.attrs read

/-- A row becomes a candidate if it has an inside and its score is not below the threshold. -/
theorem decodeRow_some_iff {attrs : Int} {read : Int → Option ExtRat} {found : Option Detection}
    (h : dec.decodeRow attrs read = some found) :
    ∃ scored, scoreRow dec.config dec.outOfRangeCast attrs read = some scored ∧
      (∀ d ∈ found, d.score = scored.1) ∧
      (found.isSome = true ↔
        dec.HasInside read ∧ ¬ scored.1 < dec.config.scoreThreshold) := by
  rw [decodeRow_eq] at h
  obtain ⟨c, hc, h⟩ := Option.bind_eq_some_iff.mp h
  obtain ⟨scored, hscored, rfl⟩ := Option.map_eq_some_iff.mp h
  refine ⟨scored, hscored, ?_, ?_⟩
  · unfold rowDetection
    split
    · simp
    · split <;> simp
  · simp only [HasInside, hc, Option.some_inj, exists_eq_left']
    unfold rowDetection
    split
    · rename_i hlow
      simp [hlow]
    · rename_i hlow
      split
      · rename_i hempty
        simp [hempty]
      · rename_i hinside
        exact iff_of_true rfl ⟨hinside, hlow⟩

/-- **When the filter protects the sort**: every candidate reaches the threshold, and the comparator
orders the candidates, exactly if no row with an inside has a score that compares with nothing. -/
theorem candidates_ordered_iff {outputs : List OutputTensor} {candidates : List Detection}
    (h : dec.decodeOutputs outputs = some candidates) :
    (∀ d ∈ candidates, dec.config.scoreThreshold ≤ d.score) ∧
        StrictWeakOn (fun lhs rhs : Detection => rhs.score < lhs.score) candidates ↔
      dec.OrderedRows outputs := by
  obtain ⟨hall, hmem⟩ := decodeOutputs_iff h
  constructor
  · rintro ⟨hscores, -⟩ layout read hrow hinside
    obtain ⟨found, hfound⟩ := hall layout read hrow
    obtain ⟨scored, hscored, hscore, hsome⟩ := decodeRow_some_iff hfound
    rw [← score_eq_nan_iff hscored]
    by_cases hlow : scored.1 < dec.config.scoreThreshold
    · obtain ⟨hnumber, hthreshold, -⟩ := ExtRat.lt_iff.mp hlow
      exact ⟨hthreshold, hnumber⟩
    · obtain ⟨d, rfl⟩ := Option.isSome_iff_exists.mp (hsome.mpr ⟨hinside, hlow⟩)
      have hle := hscores d ((hmem d).mpr ⟨layout, read, hrow, hfound⟩)
      rw [hscore d rfl] at hle
      obtain ⟨hthreshold, hnumber, -⟩ := ExtRat.le_iff.mp hle
      exact ⟨hthreshold, hnumber⟩
  · intro hordered
    have hreached : ∀ d ∈ candidates, dec.config.scoreThreshold ≤ d.score := by
      intro d hd
      obtain ⟨layout, read, hrow, hfound⟩ := (hmem d).mp hd
      obtain ⟨scored, hscored, hscore, hsome⟩ := decodeRow_some_iff hfound
      obtain ⟨hinside, hlow⟩ := hsome.mp rfl
      obtain ⟨hthreshold, hnumber⟩ := hordered layout read hrow hinside
      rw [← score_eq_nan_iff hscored] at hnumber
      rw [hscore d rfl]
      exact (ExtRat.not_lt hnumber hthreshold).mp hlow
    refine ⟨hreached, StrictWeakOn.of_key (fun d => OrderDual.toDual d.score.rank) ?_⟩
    intro a ha b hb
    have hanumber := (ExtRat.le_iff.mp (hreached a ha)).2.1
    have hbnumber := (ExtRat.le_iff.mp (hreached b hb)).2.1
    rw [OrderDual.toDual_lt_toDual, ExtRat.lt_iff]
    exact ⟨fun h => h.2.2, fun h => ⟨hbnumber, hanumber, h⟩⟩

theorem candidates_ordered_two_boxes :
    ∃ candidates, squareDecoding.decodeOutputs [twoBoxes] = some candidates ∧
      candidates.length = 2 ∧
      (∀ d ∈ candidates, squareDecoding.config.scoreThreshold ≤ d.score) ∧
      StrictWeakOn (fun lhs rhs : Detection => rhs.score < lhs.score) candidates := by
  have hdecode : (squareDecoding.decodeOutputs [twoBoxes]).isSome = true := by decide +kernel
  obtain ⟨candidates, h⟩ := Option.isSome_iff_exists.mp hdecode
  have hlength : (squareDecoding.decodeOutputs [twoBoxes]).map List.length = some 2 := by
    decide +kernel
  refine ⟨candidates, h, by simpa [h] using hlength, (candidates_ordered_iff h).mpr ?_⟩
  rintro layout read ⟨output, hmem, data, hlayout, hdata, row, hrow, rfl⟩ -
  cases List.mem_singleton.mp hmem
  cases hlayout
  cases hdata
  refine ⟨by decide, ?_⟩
  rw [UnorderedScore, if_pos (.inr rfl)]
  have hlt : row < 2 := hrow
  obtain rfl | rfl : row = 0 ∨ row = 1 := by omega
  · decide +kernel
  · decide +kernel

/-- Three boxes, the second with a NaN for its score. -/
def unorderedScore : OutputTensor where
  dims := [3, 6]
  buf := some [.fin 10, .fin 10, .fin 100, .fin 100, .fin (9 / 10), .fin 0,
    .fin 10, .fin 10, .fin 100, .fin 100, .nan, .fin 0,
    .fin 10, .fin 10, .fin 100, .fin 100, .fin (1 / 2), .fin 0]

/-- The row is a candidate, and the comparator finds it equivalent to both others, which it tells
apart. -/
theorem nan_score_passes :
    ∃ candidates, squareDecoding.decodeOutputs [unorderedScore] = some candidates ∧
      candidates.map Detection.score = [.fin (9 / 10), .nan, .fin (1 / 2)] ∧
      ¬ (∀ d ∈ candidates, squareDecoding.config.scoreThreshold ≤ d.score) ∧
      ¬ StrictWeakOn (fun lhs rhs : Detection => rhs.score < lhs.score) candidates := by
  let d (score : ExtRat) : Detection := ⟨0, "class_0", score, .fin 10, .fin 10, .fin 100, .fin 100⟩
  refine ⟨[d (.fin (9 / 10)), d .nan, d (.fin (1 / 2))], by decide +kernel, rfl, ?_, ?_⟩
  · intro hall
    have hnan := hall (d .nan) (by simp)
    revert hnan
    decide
  · intro hweak
    have hclass := hweak.incomparable (d (.fin (9 / 10))) (by simp) (d .nan) (by simp)
      (d (.fin (1 / 2))) (by simp) (by decide) (by decide) (by decide) (by decide)
    exact absurd hclass.1 (by decide +kernel)

end Decoding

end EdgeVision
