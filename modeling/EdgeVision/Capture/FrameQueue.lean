import EdgeVision.Stream.Wire

/-!
# Frames and their queues

`CapturedFrame` and the methods of `FrameQueue`, each a function on the queue: they run under its
mutex. Frame sequences and the drop counter are natural numbers: those of the source have 64 bits and
are the same up to 2^64 frames, which no camera delivers.
-/

namespace EdgeVision

/-- A frame with its compact NV12 image. -/
structure CapturedFrame where
  sequence : Nat
  captureTimeUs : Nat
  width : Nat
  height : Nat
  nv12 : Bytes
  deriving DecidableEq, Repr

structure FrameQueue where
  capacity : Nat
  stopped : Bool
  droppedFrames : Nat
  queue : List CapturedFrame
  deriving DecidableEq, Repr

namespace FrameQueue

def init (capacity : Nat) : FrameQueue := ⟨capacity, false, 0, []⟩

variable (q : FrameQueue)

/-- A push drops the oldest frame of a full queue, and reports it. With a capacity of zero the source
takes one off an empty deque, which is undefined; the configuration has none (`AppConfig.repair`). -/
def push (frame : CapturedFrame) : Bool × FrameQueue :=
  if q.capacity ≤ q.queue.length then
    (true,
      { q with droppedFrames := q.droppedFrames + 1, queue := q.queue.tail ++ [frame] })
  else (false, { q with queue := q.queue ++ [frame] })

/-- The frame that a push drops, if it drops one. -/
def evicted : Option CapturedFrame :=
  if q.capacity ≤ q.queue.length then q.queue.head? else none

/-- A pop: `none` while it waits, else what it returns, no frame standing for false. -/
def waitAndPop : Option (Option CapturedFrame × FrameQueue) :=
  if q.stopped || !q.queue.isEmpty then
    some (q.queue.head?, { q with queue := q.queue.tail })
  else none

def stop : FrameQueue := { q with stopped := true }

end FrameQueue

end EdgeVision
