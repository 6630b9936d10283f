import EdgeVision.Capture.FrameQueue
import EdgeVision.Lib.ExtRat
import EdgeVision.Lib.Writes

/-!
# Preprocessing

`fillLetterboxedRgb`: a compact NV12 frame is scaled to fit the model input, converted to RGB and
centred on a grey ground. The scale is the exact quotient, for sizes of at least one. The function
reads the frame through checked indices, `none` being a read outside the vector, and its writes are
a list of indices and values that the RGB vector then takes in order.
-/

namespace EdgeVision

open Lib

structure LetterboxInfo where
  scale : Rat
  padX : Int
  padY : Int
  resizedWidth : Int
  resizedHeight : Int
  deriving DecidableEq, Repr

/-- A colour, red, green and blue. -/
structure Rgb where
  r : UInt8
  g : UInt8
  b : UInt8
  deriving DecidableEq, Repr

def clampToByte (value : Int) : UInt8 :=
  if value < 0 then 0 else if 255 < value then 255 else UInt8.ofNat value.toNat

/-- The part of `fillLetterboxedRgb` before its loops. -/
def letterboxInfo (width height dstWidth dstHeight : Nat) : LetterboxInfo :=
  let scaleX : Rat := dstWidth / width
  let scaleY : Rat := dstHeight / height
  let scale := min scaleX scaleY
  let resizedWidth := max 1 (ExtRat.roundAway (width * scale))
  let resizedHeight := max 1 (ExtRat.roundAway (height * scale))
  { scale, resizedWidth, resizedHeight
    padX := ((dstWidth : Int) - resizedWidth).tdiv 2
    padY := ((dstHeight : Int) - resizedHeight).tdiv 2 }

/-- `src_x` and `src_y`: the source column of a window column, and the row of a row. -/
def sourceIndex (size : Nat) (scale : Rat) (x : Nat) : Nat :=
  min (size - 1) (ExtRat.truncate (x / scale)).toNat

def yIndex (width srcX srcY : Nat) : Nat := srcY * width + srcX

/-- `src_x & ~1` is the column without its last bit. -/
def uvIndex (width height srcX srcY : Nat) : Nat :=
  width * height + srcY / 2 * width + srcX / 2 * 2

/-- The colour of a luma and two chroma bytes. A shift of an `int` by eight rounds down. -/
def toRgb (yByte uByte vByte : UInt8) : Rgb :=
  let c := max 0 ((yByte.toNat : Int) - 16)
  let d := (uByte.toNat : Int) - 128
  let e := (vByte.toNat : Int) - 128
  { r := clampToByte ((298 * c + 409 * e + 128) / 256)
    g := clampToByte ((298 * c - 100 * d - 208 * e + 128) / 256)
    b := clampToByte ((298 * c + 516 * d + 128) / 256) }

/-- The colour of a source pixel, from the three bytes that the loop body reads. -/
def sampleRgb (frame : CapturedFrame) (srcX srcY : Nat) : Option Rgb := do
  let uv := uvIndex frame.width frame.height srcX srcY
  let yByte ← frame.nv12[yIndex frame.width srcX srcY]?
  let uByte ← frame.nv12[uv]?
  let vByte ← frame.nv12[uv + 1]?
  some (toRgb yByte uByte vByte)

/-- The pixels of the window, in the order of the loops. -/
def windowPixels (info : LetterboxInfo) : List (Nat × Nat) :=
  (List.range info.resizedHeight.toNat).flatMap fun y =>
    (List.range info.resizedWidth.toNat).map fun x => (x, y)

def dstIndex (info : LetterboxInfo) (dstWidth x y : Nat) : Nat :=
  ((info.padY + y).toNat * dstWidth + (info.padX + x).toNat) * 3

/-- The three writes of the loop body. -/
def rgbWrites (index : Nat) (colour : Rgb) : List (Nat × UInt8) :=
  [(index + 0, colour.r), (index + 1, colour.g), (index + 2, colour.b)]

/-- The loop body: the colour it reads for a window pixel, written there. -/
def pixelWrites (frame : CapturedFrame) (info : LetterboxInfo) (dstWidth x y : Nat) :
    Option (List (Nat × UInt8)) :=
  let srcX := sourceIndex frame.width info.scale x
  let srcY := sourceIndex frame.height info.scale y
  (sampleRgb frame srcX srcY).map (rgbWrites (dstIndex info dstWidth x y))

/-- The loops over the window. -/
def letterboxWrites (frame : CapturedFrame) (info : LetterboxInfo) (dstWidth : Nat) :
    List (Nat × Nat) → Option (List (Nat × UInt8))
  | [] => some []
  | (x, y) :: pixels => do
    let writes ← pixelWrites frame info dstWidth x y
    let rest ← letterboxWrites frame info dstWidth pixels
    some (writes ++ rest)

def fillLetterboxedRgb (frame : CapturedFrame) (dstWidth dstHeight : Nat) :
    Option (Bytes × LetterboxInfo) :=
  let info := letterboxInfo frame.width frame.height dstWidth dstHeight
  let rgb := List.replicate (dstWidth * dstHeight * 3) 114
  (letterboxWrites frame info dstWidth (windowPixels info)).map fun writes =>
    (store rgb writes, info)

/-- Sizes of at least one have a positive scale. -/
theorem letterboxInfo_scale_pos {width height dstWidth dstHeight : Nat} (hwidth : 1 ≤ width)
    (hheight : 1 ≤ height) (hdstWidth : 1 ≤ dstWidth) (hdstHeight : 1 ≤ dstHeight) :
    0 < (letterboxInfo width height dstWidth dstHeight).scale := by
  have hpos {n : Nat} (h : 1 ≤ n) : (0 : Rat) < n := by exact_mod_cast h
  exact lt_min (div_pos (hpos hdstWidth) (hpos hwidth)) (div_pos (hpos hdstHeight) (hpos hheight))

end EdgeVision
