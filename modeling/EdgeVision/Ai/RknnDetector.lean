import EdgeVision.Ai.Letterbox
import Mathlib.Data.List.Sort

/-!
# The detector

`RknnDetector`: what `infer` does with the outputs of the model, and the call around it. A float is
an `ExtRat`; an `int` is an integer, with its overflow where the source indexes a tensor. A `none`
is a step the language gives no meaning: an index outside a tensor or outside the range of `int`.

The runtime library is not part of the repository: `RknnRun` is what its calls return for an input.
`std::sort` is a parameter too, any function that sorts lists of comparable scores.
-/

namespace EdgeVision

open Lib

/-- A conversion to `int` in its range, or the result of `int` arithmetic that does not overflow. -/
def checkedInt (x : Int) : Option Int :=
  if -2147483648 ≤ x ∧ x ≤ 2147483647 then some x else none

theorem checkedInt_eq_some_iff {x y : Int} :
    checkedInt x = some y ↔ (-2147483648 ≤ x ∧ x ≤ 2147483647) ∧ x = y := by
  unfold checkedInt
  split
  · rename_i hint
    simp [hint]
  · rename_i hint
    simp [hint]

structure Detection where
  classId : Int
  label : String
  score : ExtRat
  x1 : ExtRat
  y1 : ExtRat
  x2 : ExtRat
  y2 : ExtRat
  deriving DecidableEq, Repr

structure AiResult where
  valid : Bool
  frameSequence : Nat
  captureTimeUs : Nat
  backend : String
  note : String
  detections : List Detection
  deriving DecidableEq, Repr

/-- The settings that the detector reads after its initialisation. -/
structure AiConfig where
  scoreThreshold : ExtRat
  nmsThreshold : ExtRat
  maxResults : Int
  hasObjectness : Bool
  boxFormat : String
  deriving DecidableEq, Repr

/-! ## Non-maximum suppression -/

def intersectionOverUnion (lhs rhs : Detection) : ExtRat :=
  let interX1 := ExtRat.max lhs.x1 rhs.x1
  let interY1 := ExtRat.max lhs.y1 rhs.y1
  let interX2 := ExtRat.min lhs.x2 rhs.x2
  let interY2 := ExtRat.min lhs.y2 rhs.y2
  let interW := ExtRat.max (.fin 0) (interX2 - interX1)
  let interH := ExtRat.max (.fin 0) (interY2 - interY1)
  let interArea := interW * interH
  let lhsArea := ExtRat.max (.fin 0) (lhs.x2 - lhs.x1) * ExtRat.max (.fin 0) (lhs.y2 - lhs.y1)
  let rhsArea := ExtRat.max (.fin 0) (rhs.x2 - rhs.x1) * ExtRat.max (.fin 0) (rhs.y2 - rhs.y1)
  let unionArea := lhsArea + rhsArea - interArea
  if unionArea ≤ .fin 0 then .fin 0 else interArea / unionArea

/-- What `std::sort` promises with the comparator of `applyNms`, on scores that it orders: a
permutation in which no score stands before a larger one. -/
def SortsByScore (sort : List Detection → List Detection) : Prop :=
  ∀ l, (∀ d ∈ l, d.score ≠ .nan) →
    (sort l).Perm l ∧ (sort l).Pairwise fun lhs rhs => ¬ lhs.score < rhs.score

/-- The test of the inner loop, which ends at the first kept detection that meets it. -/
def suppressedBy (nmsThreshold : ExtRat) (candidate selected : Detection) : Bool :=
  candidate.classId == selected.classId &&
    decide (nmsThreshold < intersectionOverUnion candidate selected)

/-- The loop of `applyNms` from here on, with the detections kept so far. -/
def nmsLoop (nmsThreshold : ExtRat) (maxResults : Int) (kept : List Detection) :
    List Detection → List Detection
  | [] => kept
  | candidate :: detections =>
    if kept.any (suppressedBy nmsThreshold candidate) then
      nmsLoop nmsThreshold maxResults kept detections
    else
      let kept := kept ++ [candidate]
      if 0 < maxResults ∧ maxResults ≤ kept.length then kept
      else nmsLoop nmsThreshold maxResults kept detections

def applyNms (sort : List Detection → List Detection) (detections : List Detection)
    (nmsThreshold : ExtRat) (maxResults : Int) : List Detection :=
  nmsLoop nmsThreshold maxResults [] (sort detections)

/-! ## Tensors -/

structure TensorLayout where
  rows : Int
  attrs : Int
  attrMajor : Bool
  deriving DecidableEq, Repr

/-- `static_cast<int>` of a dimension. -/
def dimToInt (dim : UInt32) : Int := dim.toBitVec.toInt

def inferTensorLayout : List UInt32 → Option TensorLayout
  | [dim0, dim1] =>
    if 6 ≤ dim1 then some ⟨dimToInt dim0, dimToInt dim1, false⟩
    else if 6 ≤ dim0 then some ⟨dimToInt dim1, dimToInt dim0, true⟩
    else none
  | [_, secondLast, last] =>
    if 6 ≤ last then some ⟨dimToInt secondLast, dimToInt last, false⟩
    else if 6 ≤ secondLast then some ⟨dimToInt last, dimToInt secondLast, true⟩
    else none
  | _ => none

/-- An element of a tensor, through an index computed in `int`. -/
def readTensorValue (data : List ExtRat) (layout : TensorLayout) (row attr : Int) :
    Option ExtRat := do
  let start ← checkedInt (if layout.attrMajor then attr * layout.rows else row * layout.attrs)
  let index ← checkedInt (start + if layout.attrMajor then row else attr)
  if index < 0 then none else data[index.toNat]?

/-! ## Rows -/

def looksNormalized (a b c d : ExtRat) : Bool :=
  let maxValue := ExtRat.max (ExtRat.max a.abs b.abs) (ExtRat.max c.abs d.abs)
  decide (maxValue ≤ .fin 2)

def clampFloat (value lower upper : ExtRat) : ExtRat :=
  ExtRat.max lower (ExtRat.min value upper)

/-- `static_cast<int>(std::round(value))`. The language leaves open what a value outside the range
of `int` becomes; here `outOfRangeCast` says it. -/
def roundToInt (outOfRangeCast : ExtRat → Int) : ExtRat → Int
  | .fin q => (checkedInt (ExtRat.roundAway q)).getD (outOfRangeCast (.fin q))
  | value => outOfRangeCast value

/-- The loop over the class scores that start at attribute `first`: the best score, with its class. -/
def bestClass (read : Int → Option ExtRat) (first attrs : Int) : Option (ExtRat × Nat) :=
  (List.range (attrs - first).toNat).foldlM
    (fun best (classId : Nat) => do
      let classScore ← read (first + classId)
      some (if best.1 < classScore then (classScore, classId) else best))
    (.inf true, 0)

/-- The score and class of a row, by the number of its attributes. -/
def scoreRow (config : AiConfig) (outOfRangeCast : ExtRat → Int) (attrs : Int)
    (read : Int → Option ExtRat) : Option (ExtRat × Int) :=
  if attrs = 5 then do
    let score ← read 4
    some (score, 0)
  else if attrs = 6 then do
    let score ← read 4
    let value ← read 5
    some (score, roundToInt outOfRangeCast value)
  else if config.hasObjectness ∧ 5 < attrs then do
    let objectness ← read 4
    let best ← bestClass read 5 attrs
    some (objectness * best.1, best.2)
  else do
    let best ← bestClass read 4 attrs
    some (best.1, best.2)

structure Box where
  x1 : ExtRat
  y1 : ExtRat
  x2 : ExtRat
  y2 : ExtRat
  deriving DecidableEq, Repr

/-- The box in model-input pixels. -/
def modelBox (boxFormat : String) (inputWidth inputHeight : Nat) (b0 b1 b2 b3 : ExtRat) : Box :=
  let w := ExtRat.fin inputWidth
  let h := ExtRat.fin inputHeight
  let normalized := looksNormalized b0 b1 b2 b3
  let box0 := if normalized then b0 * w else b0
  let box1 := if normalized then b1 * h else b1
  let box2 := if normalized then b2 * w else b2
  let box3 := if normalized then b3 * h else b3
  if boxFormat = "xyxy" then ⟨box0, box1, box2, box3⟩
  else
    let half := ExtRat.fin (1 / 2)
    ⟨box0 - box2 * half, box1 - box3 * half, box0 + box2 * half, box1 + box3 * half⟩

/-- A coordinate taken back through the letterbox and clamped to the frame. -/
def toFrame (pad : Int) (scale : Rat) (size : Nat) (value : ExtRat) : ExtRat :=
  clampFloat ((value - .fin pad) / .fin scale) (.fin 0) (.fin ((size : Rat) - 1))

def frameBox (letterbox : LetterboxInfo) (width height : Nat) (box : Box) : Box where
  x1 := toFrame letterbox.padX letterbox.scale width box.x1
  y1 := toFrame letterbox.padY letterbox.scale height box.y1
  x2 := toFrame letterbox.padX letterbox.scale width box.x2
  y2 := toFrame letterbox.padY letterbox.scale height box.y2

def labelOf (labels : List String) (classId : Int) : String :=
  if 0 ≤ classId ∧ classId < labels.length then labels.getD classId.toNat ""
  else "class_" ++ toString classId

/-- What the rows of the outputs are decoded with. -/
structure Decoding where
  config : AiConfig
  outOfRangeCast : ExtRat → Int
  labels : List String
  inputWidth : Nat
  inputHeight : Nat
  letterbox : LetterboxInfo
  frameWidth : Nat
  frameHeight : Nat

namespace Decoding

variable (dec : Decoding)

/-- The body of the loop over the rows, with the element reads of the row. -/
def decodeRow (attrs : Int) (read : Int → Option ExtRat) : Option (Option Detection) := do
  let b0 ← read 0
  let b1 ← read 1
  let b2 ← read 2
  let b3 ← read 3
  let scored ← scoreRow dec.config dec.outOfRangeCast attrs read
  if scored.1 < dec.config.scoreThreshold then some none
  else
    let box := frameBox dec.letterbox dec.frameWidth dec.frameHeight
      (modelBox dec.config.boxFormat dec.inputWidth dec.inputHeight b0 b1 b2 b3)
    if box.x2 ≤ box.x1 ∨ box.y2 ≤ box.y1 then some none
    else
      some (some
        { classId := scored.2, score := scored.1, label := labelOf dec.labels scored.2
          x1 := box.x1, y1 := box.y1, x2 := box.x2, y2 := box.y2 })

/-- The loop over the rows of a tensor. -/
def decodeRows (layout : TensorLayout) (data : List ExtRat) : List Nat → Option (List Detection)
  | [] => some []
  | row :: rows => do
    let detection ← dec.decodeRow layout.attrs (readTensorValue data layout row)
    let rest ← decodeRows layout data rows
    some (detection.toList ++ rest)

end Decoding

/-! ## Outputs -/

/-- An output tensor, with no buffer for a null pointer. -/
structure OutputTensor where
  dims : List UInt32
  buf : Option (List ExtRat)
  deriving DecidableEq, Repr

namespace Decoding

variable (dec : Decoding)

/-- The body of the loop over the outputs. -/
def decodeOutput (output : OutputTensor) : Option (List Detection) :=
  match inferTensorLayout output.dims, output.buf with
  | some layout, some tensor => dec.decodeRows layout tensor (List.range layout.rows.toNat)
  | _, _ => some []

/-- The loop over the outputs. -/
def decodeOutputs : List OutputTensor → Option (List Detection)
  | [] => some []
  | output :: outputs => do
    let detections ← dec.decodeOutput output
    let rest ← decodeOutputs outputs
    some (detections ++ rest)

end Decoding

def layoutNote (outputIndex : Nat) (dims : List UInt32) : String :=
  "output " ++ toString outputIndex ++ " layout unsupported, dims=" ++
    String.intercalate "x" (dims.map fun dim => toString dim.toNat)

/-- `parse_note` after the loop: the note of the last output without a layout. -/
def parseNote (outputs : List OutputTensor) : String :=
  outputs.zipIdx.foldl
    (fun note output =>
      if (inferTensorLayout output.1.dims).isNone then layoutNote output.2 output.1.dims else note) ""

/-- The post-processing part of `infer`: the detections, and the note. -/
def postprocess (sort : List Detection → List Detection) (dec : Decoding)
    (outputs : List OutputTensor) : Option (List Detection × String) := do
  let detections ← dec.decodeOutputs outputs
  let kept := applyNms sort detections dec.config.nmsThreshold dec.config.maxResults
  some (kept, if kept.isEmpty then parseNote outputs else "")

/-! ## The call -/

/-- What the runtime makes of an input. -/
inductive RknnRun where
  | inputsSetFailed
  | runFailed
  | outputsGetFailed
  | outputs (bufs : List (Option (List ExtRat)))

/-- The members that `infer` reads; `outputDims` are the dimensions of the output attributes. -/
structure RknnDetector where
  config : AiConfig
  initialized : Bool
  disabledReason : String
  inputWidth : Nat
  inputHeight : Nat
  outputDims : List (List UInt32)
  labels : List String

namespace RknnDetector

variable (det : RknnDetector)

def backendName : String := if det.initialized then "rknn" else "disabled"

/-- The settings of a call. -/
def decoding (outOfRangeCast : ExtRat → Int) (letterbox : LetterboxInfo) (frame : CapturedFrame) :
    Decoding where
  config := det.config
  outOfRangeCast
  labels := det.labels
  inputWidth := det.inputWidth
  inputHeight := det.inputHeight
  letterbox
  frameWidth := frame.width
  frameHeight := frame.height

def infer (rknn : Bytes → RknnRun) (sort : List Detection → List Detection)
    (outOfRangeCast : ExtRat → Int) (frame : CapturedFrame) : Option AiResult :=
  let result : AiResult :=
    { valid := false, frameSequence := frame.sequence, captureTimeUs := frame.captureTimeUs
      backend := det.backendName, note := det.disabledReason, detections := [] }
  if !det.initialized then some result
  else do
    let (rgbInput, letterbox) ← fillLetterboxedRgb frame det.inputWidth det.inputHeight
    match rknn rgbInput with
    | .inputsSetFailed => some { result with note := "rknn_inputs_set failed" }
    | .runFailed => some { result with note := "rknn_run failed" }
    | .outputsGetFailed => some { result with note := "rknn_outputs_get failed" }
    | .outputs bufs => do
      let outputs := List.zipWith OutputTensor.mk det.outputDims bufs
      let (detections, note) ← postprocess sort (det.decoding outOfRangeCast letterbox frame) outputs
      some { result with valid := true, note, detections }

section

variable {det : RknnDetector} {rknn : Bytes → RknnRun} {sort : List Detection → List Detection}
  {outOfRangeCast : ExtRat → Int} {frame : CapturedFrame} {result : AiResult}

/-- A result is a result for its frame. -/
theorem infer_frameSequence (h : det.infer rknn sort outOfRangeCast frame = some result) :
    result.frameSequence = frame.sequence := by
  unfold infer at h
  split at h
  · cases h
    rfl
  · obtain ⟨⟨rgb, letterbox⟩, -, h⟩ := Option.bind_eq_some_iff.mp h
    simp only at h
    split at h
    · cases h
      rfl
    · cases h
      rfl
    · cases h
      rfl
    · obtain ⟨⟨detections, note⟩, -, h⟩ := Option.bind_eq_some_iff.mp h
      cases h
      rfl

end

end RknnDetector

end EdgeVision
