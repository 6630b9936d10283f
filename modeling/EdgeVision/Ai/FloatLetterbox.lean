import EdgeVision.Ai.RknnDetector
import EdgeVision.Lib.Rounding

/-!
# Preprocessing in `float`

`fillLetterboxedRgb` with the rounding `fl` of the operations of `float` and of the conversions to
it: the scale, the products that give the size of the window and the quotients that give the source
pixels are rounded. A conversion to `int` of a number that is out of its range is undefined, and the
result is `none`. With exact operations and sizes in range this is the function without rounding
(`fillLetterboxedRgb_exact`).
-/

namespace EdgeVision.FloatLetterbox

open Lib

/-- `info.scale`. -/
def scale (fl : Rounding) (width height dstWidth dstHeight : Nat) : Rat :=
  min (fl (fl dstWidth / fl width)) (fl (fl dstHeight / fl height))

/-- `resized_width` and `resized_height`: the size of the window on an axis. -/
def resizedSize (fl : Rounding) (size : Nat) (scale : Rat) : Option Int :=
  (checkedInt (ExtRat.roundAway (fl (fl size * scale)))).map (max 1)

/-- `src_x` and `src_y`: the source column of a window column, and the row of a row. -/
def sourceIndex (fl : Rounding) (size : Nat) (scale : Rat) (x : Nat) : Option Nat :=
  (checkedInt (ExtRat.truncate (fl (fl x / scale)))).map fun i => (min ((size : Int) - 1) i).toNat

/-- The part of the function before its loops. -/
def letterboxInfo (fl : Rounding) (width height dstWidth dstHeight : Nat) :
    Option LetterboxInfo := do
  let scale := scale fl width height dstWidth dstHeight
  let resizedWidth ← resizedSize fl width scale
  let resizedHeight ← resizedSize fl height scale
  some
    { scale, resizedWidth, resizedHeight
      padX := ((dstWidth : Int) - resizedWidth).tdiv 2
      padY := ((dstHeight : Int) - resizedHeight).tdiv 2 }

/-- The loop body: the colour it reads for a window pixel, written there. -/
def pixelWrites (fl : Rounding) (frame : CapturedFrame) (info : LetterboxInfo) (dstWidth x y : Nat) :
    Option (List (Nat × UInt8)) := do
  let srcY ← sourceIndex fl frame.height info.scale y
  let srcX ← sourceIndex fl frame.width info.scale x
  (sampleRgb frame srcX srcY).map (rgbWrites (dstIndex info dstWidth x y))

/-- The loops over the window. -/
def letterboxWrites (fl : Rounding) (frame : CapturedFrame) (info : LetterboxInfo)
    (dstWidth : Nat) : List (Nat × Nat) → Option (List (Nat × UInt8))
  | [] => some []
  | (x, y) :: pixels => do
    let writes ← pixelWrites fl frame info dstWidth x y
    let rest ← letterboxWrites fl frame info dstWidth pixels
    some (writes ++ rest)

def fillLetterboxedRgb (fl : Rounding) (frame : CapturedFrame) (dstWidth dstHeight : Nat) :
    Option (Bytes × LetterboxInfo) := do
  let info ← letterboxInfo fl frame.width frame.height dstWidth dstHeight
  let rgb := List.replicate (dstWidth * dstHeight * 3) 114
  let writes ← letterboxWrites fl frame info dstWidth (windowPixels info)
  some (store rgb writes, info)

end EdgeVision.FloatLetterbox
