import EdgeVision.Verify.CompactNv12

/-!
# The exchange of the mapped buffers

`captureFrame` called over and over beside the driver, which may complete a frame between any two
system calls and between any two `memcpy`s. The driver fills the buffer that it has been given first
and hands the filled ones out in order; a buffer that `captureFrame` has taken comes back to it with
`VIDIOC_QBUF`. What the system calls return is part of the label.
-/

namespace EdgeVision

/-- A frame as the driver leaves it in a buffer. -/
structure DriverFrame where
  content : Bytes
  bytesUsed : Nat
  deriving DecidableEq, Repr

/-- Where `captureFrame` stands: before `select`, before `VIDIOC_DQBUF`, or in front of the rest of
its copies and of `VIDIOC_QBUF`. -/
inductive CapturePoint where
  | select
  | dequeue
  | copying (buf : DequeuedBuffer) (rest : List Copy)
  deriving DecidableEq, Repr

structure BufferExchange where
  /-- The mapped buffers. -/
  memory : List Bytes
  /-- The queues of the driver, `outgoing` of the filled buffers. -/
  incoming : List Nat
  outgoing : List DequeuedBuffer
  point : CapturePoint
  /-- The vector that the calls of `captureFrame` fill. -/
  scratch : Bytes
  /-- The vector after each call that returned `true`. -/
  images : List Bytes
  /-- The frames of the driver, and the buffers that `VIDIOC_QBUF` has not brought back. -/
  completed : List DriverFrame
  lost : List Nat
  deriving DecidableEq, Repr

inductive ExchangeLabel where
  /-- The driver completes a frame. -/
  | complete (frame : DriverFrame)
  /-- The next call of `captureFrame` and whether it succeeds; a `memcpy` does. -/
  | capture (ok : Bool)
  deriving DecidableEq, Repr

namespace BufferExchange

/-- After `initCamera`, which queues the buffers in order, and `startStream`. -/
def initial (cam : CameraDevice) (scratch : Bytes) : BufferExchange where
  memory := cam.buffers
  incoming := List.range cam.buffers.length
  outgoing := []
  point := .select
  scratch := scratch
  images := []
  completed := []
  lost := []

variable (cam : CameraDevice) (s : BufferExchange)

/-- A frame fills the whole buffer. -/
def complete (frame : DriverFrame) : Option BufferExchange :=
  match s.incoming with
  | [] => none
  | i :: incoming =>
    if frame.content.length = (s.memory.getD i []).length then
      some { s with
        memory := s.memory.set i frame.content
        incoming := incoming
        outgoing := s.outgoing ++ [⟨i, frame.bytesUsed⟩]
        completed := s.completed ++ [frame] }
    else none

/-- `VIDIOC_DQBUF` waits for a filled buffer. -/
def capture (ok : Bool) : Option BufferExchange :=
  match s.point with
  | .select => some { s with point := if ok then .dequeue else .select }
  | .dequeue =>
    if ok then
      match s.outgoing with
      | [] => none
      | buf :: outgoing =>
        some { s with
          outgoing := outgoing
          point := .copying buf (cam.captureCopies buf.bytesUsed) }
    else some { s with point := .select }
  | .copying buf (c :: rest) =>
    some { s with
      scratch := memcpy s.scratch c.dstAt (s.memory.getD buf.index []) c.srcAt c.size
      point := .copying buf rest }
  | .copying buf [] =>
    if ok then
      some { s with
        incoming := s.incoming ++ [buf.index]
        point := .select
        images := s.images ++ [s.scratch] }
    else some { s with point := .select, lost := s.lost ++ [buf.index] }

def step : ExchangeLabel → Option BufferExchange
  | .complete frame => s.complete frame
  | .capture ok => s.capture cam ok

end BufferExchange

end EdgeVision
