import EdgeVision.Camera.H264Encoder

/-!
# The camera

`CameraDevice::captureFrame`: one frame of the driver, brought into compact NV12. What the system
calls return is a parameter. Sizes are natural numbers; the driver's are 32-bit numbers, and the one
conversion to 32 bits that the code makes is written out.
-/

namespace EdgeVision

/-- A buffer as `VIDIOC_DQBUF` returns it. -/
structure DequeuedBuffer where
  index : Nat
  bytesUsed : Nat
  deriving DecidableEq, Repr

/-- What the calls of a capture return: whether `select` finds a frame, the buffer if there is one,
and whether `VIDIOC_QBUF` succeeds. -/
structure CaptureCalls where
  ready : Bool
  dequeued : Option DequeuedBuffer
  requeued : Bool
  deriving DecidableEq, Repr

/-- The members that `captureFrame` uses, with the content of the mapped buffers. -/
structure CameraDevice where
  width : Nat
  height : Nat
  bytesPerLine : Nat
  sizeImage : Nat
  buffers : List Bytes
  deriving DecidableEq, Repr

def deriveVirHeight (sizeImage bytesPerLine visibleHeight : Nat) : Nat :=
  if sizeImage = 0 ∨ bytesPerLine = 0 then visibleHeight
  else
    let numerator := sizeImage * 2
    let denominator := bytesPerLine * 3
    if denominator = 0 then visibleHeight
    else
      let derived := numerator / denominator % 4294967296
      max derived visibleHeight

namespace CameraDevice

variable (cam : CameraDevice)

/-- The size that the virtual height is derived from. -/
def frameBytes (bytesUsed : Nat) : Nat := if bytesUsed = 0 then cam.sizeImage else bytesUsed

def sourceStride : Nat := if cam.bytesPerLine = 0 then cam.width else cam.bytesPerLine

def runtimeVirHeight (bytesUsed : Nat) : Nat :=
  deriveVirHeight (cam.frameBytes bytesUsed) cam.sourceStride cam.height

def getPackedFrameSize : Nat := cam.width * cam.height * 3 / 2

/-- One capture: its result, and `out_yuv`. -/
def captureFrame (calls : CaptureCalls) (outYuv : Bytes) : Bool × Bytes :=
  if !calls.ready then (false, outYuv)
  else
    match calls.dequeued with
    | none => (false, outYuv)
    | some buf =>
      let src := cam.buffers.getD buf.index []
      let packedYSize := cam.width * cam.height
      let srcUv := cam.sourceStride * cam.runtimeVirHeight buf.bytesUsed
      let outYuv := copyRows outYuv 0 cam.width src 0 cam.sourceStride cam.height cam.width
      let outYuv := copyRows outYuv packedYSize cam.width src srcUv cam.sourceStride
        (cam.height / 2) cam.width
      (calls.requeued, outYuv)

end CameraDevice

end EdgeVision
