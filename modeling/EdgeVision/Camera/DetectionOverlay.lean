import EdgeVision.Ai.RknnDetector

/-!
# The overlay

`DetectionOverlay`: the snapshot of the latest detections, and the boxes drawn from it into the luma
plane of a frame. What a drawing function does to the plane is the list of its writes, in order.
Coordinates are integers, as the `int`s of the source, which do not overflow in sizes of a frame.
-/

namespace EdgeVision

open Lib

def overlayOutlineLuma : UInt8 := 24

def overlayBoxLuma : UInt8 := 235

def clampCoordinate (value lower upper : Int) : Int :=
  if upper < lower then lower else max lower (min value upper)

/-! ## Drawing -/

/-- `std::fill_n`. -/
def fillN (start : Nat) (count : Int) (value : UInt8) : List (Nat × UInt8) :=
  (List.range count.toNat).map fun i => (start + i, value)

def planeIndex (width : Nat) (row col : Int) : Nat := row.toNat * width + col.toNat

/-- The body of the loop of `drawRectangleY`: the top row, the bottom row, and the two columns. -/
def ringWrites (width : Nat) (leftCol rightCol topRow bottomRow : Int) (lumaValue : UInt8) :
    List (Nat × UInt8) :=
  fillN (planeIndex width topRow leftCol) (rightCol - leftCol + 1) lumaValue ++
    (if bottomRow ≠ topRow then
      fillN (planeIndex width bottomRow leftCol) (rightCol - leftCol + 1) lumaValue
    else []) ++
    (List.range (bottomRow - topRow + 1).toNat).flatMap fun (i : Nat) =>
      [(planeIndex width (topRow + i) leftCol, lumaValue),
        (planeIndex width (topRow + i) rightCol, lumaValue)]

/-- The loop from an offset on, which ends early when the ring is empty. -/
def ringLoop (width : Nat) (left right top bottom : Int) (lumaValue : UInt8) :
    Nat → Int → List (Nat × UInt8)
  | 0, _ => []
  | rounds + 1, offset =>
    let topRow := top + offset
    let bottomRow := bottom - offset
    let leftCol := left + offset
    let rightCol := right - offset
    if bottomRow < topRow ∨ rightCol < leftCol then []
    else
      ringWrites width leftCol rightCol topRow bottomRow lumaValue ++
        ringLoop width left right top bottom lumaValue rounds (offset + 1)

def drawRectangleY (width height : Nat) (x1 y1 x2 y2 thickness : Int) (lumaValue : UInt8) :
    List (Nat × UInt8) :=
  if width = 0 ∨ height = 0 ∨ thickness ≤ 0 then []
  else
    let left := clampCoordinate (min x1 x2) 0 (width - 1)
    let right := clampCoordinate (max x1 x2) 0 (width - 1)
    let top := clampCoordinate (min y1 y2) 0 (height - 1)
    let bottom := clampCoordinate (max y1 y2) 0 (height - 1)
    if right ≤ left ∨ bottom ≤ top then []
    else ringLoop width left right top bottom lumaValue thickness.toNat 0

/-- The corners of a detection in pixels. -/
structure Corners where
  x1 : Int
  y1 : Int
  x2 : Int
  y2 : Int
  deriving DecidableEq, Repr

/-- The corners, rounded by `std::lround` and clamped to the frame. -/
def cornersOf (outOfRangeCast : ExtRat → Int) (width height : Nat) (d : Detection) : Corners where
  x1 := clampCoordinate (roundToInt outOfRangeCast d.x1) 0 (width - 1)
  y1 := clampCoordinate (roundToInt outOfRangeCast d.y1) 0 (height - 1)
  x2 := clampCoordinate (roundToInt outOfRangeCast d.x2) 0 (width - 1)
  y2 := clampCoordinate (roundToInt outOfRangeCast d.y2) 0 (height - 1)

/-! ## The class -/

structure Snapshot where
  valid : Bool
  frameSequence : Nat
  detections : List Detection
  deriving DecidableEq, Repr

structure DetectionOverlay where
  enabled : Bool
  boxThickness : Int
  staleFrameWindow : Int
  snapshot : Snapshot
  deriving DecidableEq, Repr

namespace DetectionOverlay

/-- The constructor. -/
def init (enabled : Bool) (boxThickness staleFrameWindow : Int) : DetectionOverlay where
  enabled
  boxThickness := max 1 boxThickness
  staleFrameWindow := max 1 staleFrameWindow
  snapshot := ⟨false, 0, []⟩

variable (overlay : DetectionOverlay)

/-- The body of the loop of `drawDetections`. -/
def detectionWrites (width height : Nat) (c : Corners) : List (Nat × UInt8) :=
  let thickness := max 1 (min overlay.boxThickness (min (width : Int) height))
  let outlineThickness := min (thickness + 1) (min (width : Int) height)
  if c.x2 ≤ c.x1 ∨ c.y2 ≤ c.y1 then []
  else
    drawRectangleY width height (c.x1 - 1) (c.y1 - 1) (c.x2 + 1) (c.y2 + 1) outlineThickness
        overlayOutlineLuma ++
      drawRectangleY width height c.x1 c.y1 c.x2 c.y2 thickness overlayBoxLuma

def drawDetections (outOfRangeCast : ExtRat → Int) (nv12 : Bytes) (width height : Nat)
    (detections : List Detection) : Bytes :=
  if detections.isEmpty then nv12
  else if nv12.length < width * height then nv12
  else
    detections.foldl
      (fun nv12 d =>
        store nv12 (overlay.detectionWrites width height (cornersOf outOfRangeCast width height d)))
      nv12

def update (result : AiResult) : DetectionOverlay :=
  if !overlay.enabled || !result.valid then overlay
  else { overlay with snapshot := ⟨true, result.frameSequence, result.detections⟩ }

/-- What `apply` does with the snapshot it has copied. The first comparison comes before the
subtraction, so the subtraction is the one of natural numbers. -/
def applySnapshot (outOfRangeCast : ExtRat → Int) (snapshot : Snapshot) (frame : CapturedFrame) :
    CapturedFrame :=
  if !snapshot.valid then frame
  else if frame.sequence < snapshot.frameSequence then frame
  else if overlay.staleFrameWindow < (frame.sequence - snapshot.frameSequence : Nat) then frame
  else
    { frame with
      nv12 := overlay.drawDetections outOfRangeCast frame.nv12 frame.width frame.height
        snapshot.detections }

/-- The test that `apply` starts with. -/
def applies (frame : CapturedFrame) : Bool :=
  overlay.enabled && !frame.nv12.isEmpty && decide (0 < frame.width) && decide (0 < frame.height)

def apply (outOfRangeCast : ExtRat → Int) (frame : CapturedFrame) : CapturedFrame :=
  if overlay.applies frame then overlay.applySnapshot outOfRangeCast overlay.snapshot frame
  else frame

end DetectionOverlay

end EdgeVision
