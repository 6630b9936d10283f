import EdgeVision.Camera.DetectionOverlay
import EdgeVision.Lib.Reach

/-!
# The threads of the camera

The capture, encode and AI threads of `main`, `main` itself and the signal handler take their steps
in any order. A step is a test of `g_running`, a method of a queue or of the overlay, one increment
of a counter, or a call whose result is up to the environment; a thread that waits takes none. The
copy of the snapshot and the drawing that follows it are two steps of `apply`, since its lock is
held for the copy only.

Beside what the program knows, a queue remembers what has gone through it, `updates` the results
that were passed to `update`, each with its frame, and `applied` the finished calls of `apply`. The
metrics thread, which changes nothing here, and the clocks are left out.
-/

namespace EdgeVision

open Lib

/-! ## Queues with their past -/

/-- A queue with the frames that were pushed, popped and evicted, and the number of pushes that
returned true. -/
structure LoggedQueue where
  queue : FrameQueue
  pushed : List CapturedFrame
  popped : List CapturedFrame
  evicted : List CapturedFrame
  pushesTrue : Nat
  deriving DecidableEq, Repr

namespace LoggedQueue

def init (capacity : Nat) : LoggedQueue := ⟨.init capacity, [], [], [], 0⟩

variable (q : LoggedQueue)

def push (frame : CapturedFrame) : Bool × LoggedQueue :=
  ((q.queue.push frame).1,
    { q with
      queue := (q.queue.push frame).2
      pushed := q.pushed ++ [frame]
      evicted := q.evicted ++ q.queue.evicted.toList
      pushesTrue := q.pushesTrue + (q.queue.push frame).1.toNat })

def waitAndPop : Option (Option CapturedFrame × LoggedQueue) :=
  q.queue.waitAndPop.map fun r =>
    (r.1, { q with queue := r.2, popped := q.popped ++ r.1.toList })

def stop : LoggedQueue := { q with queue := q.queue.stop }

end LoggedQueue

/-! ## Settings and state -/

/-- What the threads read: the configuration, whose capacities and interval are positive, the size
of the camera's frames, and the detector with its parameters. -/
structure Settings where
  width : Nat
  height : Nat
  encodeQueueCapacity : Nat
  aiQueueCapacity : Nat
  inferEveryNFrames : Nat
  aiReady : Bool
  aiEnabled : Bool
  overlayEnable : Bool
  overlayBoxThickness : Int
  overlayStaleFrames : Int
  detector : RknnDetector
  sort : List Detection → List Detection
  outOfRangeCast : ExtRat → Int
  encodeQueueCapacity_pos : 1 ≤ encodeQueueCapacity
  aiQueueCapacity_pos : 1 ≤ aiQueueCapacity
  inferEveryNFrames_pos : 1 ≤ inferEveryNFrames

/-- The counters of `MetricsCollector` that are no times. -/
structure MetricsCollector where
  capturedFrames : Nat
  encodedFrames : Nat
  aiFrames : Nat
  bytesSent : Nat
  eventsWritten : Nat
  encodeQueueDrops : Nat
  aiQueueDrops : Nat
  deriving DecidableEq, Repr

/-- A result passed to `update`, with the frame it was inferred from. -/
abbrev Update := CapturedFrame × AiResult

/-- A finished call of `apply`: the frame before and after it, and what had been passed to `update`
when it copied the snapshot. -/
structure Applied where
  before : CapturedFrame
  after : CapturedFrame
  updates : List Update
  deriving DecidableEq, Repr

inductive CapturePc where
  | test
  | captureFrame
  | pushEncode (frame : CapturedFrame)
  | recordEncodeQueueDrop (frame : CapturedFrame)
  | pushAi (frame : CapturedFrame)
  | recordAiQueueDrop
  | recordCapture
  | exited
  deriving DecidableEq, Repr

/-- Where the encode thread stands; the first four are the way to a failed connection. -/
inductive EncodePc where
  | connectOnce
  | giveUp
  | stopEncode
  | stopAi
  | test
  | pop
  | apply (frame : CapturedFrame)
  | draw (frame : CapturedFrame) (snapshot : Snapshot) (updates : List Update)
  | encode (frame : CapturedFrame)
  | recordEncode (h264Packet : Bytes)
  | sendPacket (h264Packet : Bytes)
  | sendFailed
  | recordBytesSent (h264Packet : Bytes)
  | exited
  deriving DecidableEq, Repr

inductive AiPc where
  | test
  | pop
  | infer (frame : CapturedFrame)
  | update (frame : CapturedFrame) (result : AiResult)
  | recordAi (result : AiResult)
  | recordEventWritten
  | exited
  deriving DecidableEq, Repr

inductive MainPc where
  | wait
  | stopEncode
  | stopAi
  | join
  deriving DecidableEq, Repr

structure Pipeline where
  running : Bool
  sequence : Nat
  capture : CapturePc
  encode : EncodePc
  ai : AiPc
  main : MainPc
  encodeQueue : LoggedQueue
  aiQueue : LoggedQueue
  overlay : DetectionOverlay
  metrics : MetricsCollector
  updates : List Update
  applied : List Applied
  deriving DecidableEq, Repr

/-- The thread that moves, with what its call returns: `captureFrame` no image or a time and an
image, `connectOnce` and `sendPacket` whether they succeed, `encode` no packet or a packet, and the
runtime library what it does for the input of `infer`. -/
inductive PipelineLabel where
  | signal
  | main
  | capture (image : Option (Nat × Bytes))
  | encode (ok : Bool) (packet : Option Bytes)
  | ai (rknn : Bytes → RknnRun)

namespace Settings

variable (c : Settings)

/-- The overlay that `main` constructs. -/
def overlay : DetectionOverlay := .init c.overlayEnable c.overlayBoxThickness c.overlayStaleFrames

/-- `infer_this_frame`. -/
def infersFrame (frame : CapturedFrame) : Bool :=
  c.aiReady && c.aiEnabled && frame.sequence % c.inferEveryNFrames == 0

/-- Where the capture thread goes on after the encode queue. -/
def afterEncodeQueue (frame : CapturedFrame) : CapturePc :=
  if c.infersFrame frame then .pushAi frame else .recordCapture

end Settings

/-! ## Steps -/

namespace Pipeline

def initial (c : Settings) : Pipeline where
  running := true
  sequence := 0
  capture := .test
  encode := .connectOnce
  ai := if c.aiReady then .test else .exited
  main := .wait
  encodeQueue := .init c.encodeQueueCapacity
  aiQueue := .init c.aiQueueCapacity
  overlay := c.overlay
  metrics := ⟨0, 0, 0, 0, 0, 0, 0⟩
  updates := []
  applied := []

variable (c : Settings) (s : Pipeline)

def captureStep (image : Option (Nat × Bytes)) : Option Pipeline :=
  match s.capture with
  | .test => some { s with capture := if s.running then .captureFrame else .exited }
  | .captureFrame =>
    match image with
    | none => some { s with capture := .test }
    | some (captureTimeUs, nv12) =>
      some { s with
        sequence := s.sequence + 1
        capture := .pushEncode ⟨s.sequence, captureTimeUs, c.width, c.height, nv12⟩ }
  | .pushEncode frame =>
    some { s with
      encodeQueue := (s.encodeQueue.push frame).2
      capture :=
        if (s.encodeQueue.push frame).1 then .recordEncodeQueueDrop frame
        else c.afterEncodeQueue frame }
  | .recordEncodeQueueDrop frame =>
    some { s with
      metrics := { s.metrics with encodeQueueDrops := s.metrics.encodeQueueDrops + 1 }
      capture := c.afterEncodeQueue frame }
  | .pushAi frame =>
    some { s with
      aiQueue := (s.aiQueue.push frame).2
      capture := if (s.aiQueue.push frame).1 then .recordAiQueueDrop else .recordCapture }
  | .recordAiQueueDrop =>
    some { s with
      metrics := { s.metrics with aiQueueDrops := s.metrics.aiQueueDrops + 1 }
      capture := .recordCapture }
  | .recordCapture =>
    some { s with
      metrics := { s.metrics with capturedFrames := s.metrics.capturedFrames + 1 }
      capture := .test }
  | .exited => none

/-- A call of `apply` that is over. -/
def finishApply (before after : CapturedFrame) (updates : List Update) : Pipeline :=
  { s with encode := .encode after, applied := s.applied ++ [⟨before, after, updates⟩] }

def encodeStep (ok : Bool) (packet : Option Bytes) : Option Pipeline :=
  match s.encode with
  | .connectOnce => some { s with encode := if ok then .test else .giveUp }
  | .giveUp => some { s with running := false, encode := .stopEncode }
  | .stopEncode => some { s with encodeQueue := s.encodeQueue.stop, encode := .stopAi }
  | .stopAi => some { s with aiQueue := s.aiQueue.stop, encode := .exited }
  | .test => some { s with encode := if s.running then .pop else .exited }
  | .pop =>
    s.encodeQueue.waitAndPop.map fun r =>
      { s with
        encodeQueue := r.2
        encode := r.1.elim .exited .apply }
  | .apply frame =>
    if s.overlay.applies frame then
      some { s with encode := .draw frame s.overlay.snapshot s.updates }
    else some (s.finishApply frame frame s.updates)
  | .draw frame snapshot updates =>
    some (s.finishApply frame (s.overlay.applySnapshot c.outOfRangeCast snapshot frame) updates)
  | .encode _ => some { s with encode := packet.elim .test .recordEncode }
  | .recordEncode h264Packet =>
    some { s with
      metrics := { s.metrics with encodedFrames := s.metrics.encodedFrames + 1 }
      encode := .sendPacket h264Packet }
  | .sendPacket h264Packet =>
    some { s with encode := if ok then .recordBytesSent h264Packet else .sendFailed }
  | .sendFailed => some { s with running := false, encode := .exited }
  | .recordBytesSent h264Packet =>
    some { s with
      metrics := { s.metrics with bytesSent := s.metrics.bytesSent + h264Packet.length }
      encode := .test }
  | .exited => none

def aiStep (rknn : Bytes → RknnRun) : Option Pipeline :=
  match s.ai with
  | .test => some { s with ai := if s.running then .pop else .exited }
  | .pop =>
    s.aiQueue.waitAndPop.map fun r =>
      { s with
        aiQueue := r.2
        ai := r.1.elim .exited .infer }
  | .infer frame =>
    (c.detector.infer rknn c.sort c.outOfRangeCast frame).map fun result =>
      { s with ai := if result.valid then .update frame result else .test }
  | .update frame result =>
    some { s with
      overlay := s.overlay.update result
      updates := s.updates ++ [(frame, result)]
      ai := .recordAi result }
  | .recordAi result =>
    some { s with
      metrics := { s.metrics with aiFrames := s.metrics.aiFrames + 1 }
      ai := if result.detections.isEmpty then .test else .recordEventWritten }
  | .recordEventWritten =>
    some { s with
      metrics := { s.metrics with eventsWritten := s.metrics.eventsWritten + 1 }
      ai := .test }
  | .exited => none

def mainStep : Option Pipeline :=
  match s.main with
  | .wait => some { s with main := if s.running then .wait else .stopEncode }
  | .stopEncode => some { s with encodeQueue := s.encodeQueue.stop, main := .stopAi }
  | .stopAi => some { s with aiQueue := s.aiQueue.stop, main := .join }
  | .join => none

def step : PipelineLabel → Option Pipeline
  | .signal => some { s with running := false }
  | .main => s.mainStep
  | .capture image => s.captureStep c image
  | .encode ok packet => s.encodeStep c ok packet
  | .ai rknn => s.aiStep c rknn

end Pipeline

/-- A run of the threads. -/
def Runs (c : Settings) : Pipeline → Pipeline → Prop :=
  Reaches (Pipeline.step c) anyStep

end EdgeVision
