import EdgeVision.Camera.AppConfig
import EdgeVision.Camera.Pipeline

/-!
# What is made of the configuration

The arithmetic on the configuration in `main`, in its threads and in `initEncoder`. A conversion to
an unsigned type wraps around (`UInt64.ofInt`, `UInt32.ofInt`); `size_t` has 64 bits. A `none` is a
division by zero or an overflow of `int`.

`AppConfig.settings` are the settings of the threads under a configuration; only one whose
capacities and interval are positive has some.
-/

namespace EdgeVision

/-! ## Calls of a queue -/

inductive FrameQueueCall where
  | push (frame : CapturedFrame)
  | waitAndPop
  | stop
  deriving DecidableEq, Repr

namespace FrameQueue

variable (q : FrameQueue)

/-- A call of some method; a pop that waits has no result yet. -/
def step : FrameQueueCall → Option FrameQueue
  | .push frame => some (q.push frame).2
  | .waitAndPop => q.waitAndPop.map Prod.snd
  | .stop => some q.stop

/-- The next push calls `pop_front` on an empty deque. -/
def PopsEmpty : Prop := q.capacity ≤ q.queue.length ∧ q.queue = []

end FrameQueue

/-! ## The rate control -/

/-- `VENC_H264_CBR_S`. -/
structure H264Cbr where
  u32Gop : UInt32
  u32BitRate : UInt32
  fr32DstFrameRateDen : UInt32
  fr32DstFrameRateNum : UInt32
  u32SrcFrameRateDen : UInt32
  u32SrcFrameRateNum : UInt32
  deriving DecidableEq, Repr

/-- The rate control that `initEncoder` asks for, with the bit rate `kDefaultBitrateKbps`. -/
def H264Cbr.init (fps : Int) : H264Cbr where
  u32Gop := UInt32.ofInt fps
  u32BitRate := 4096
  fr32DstFrameRateDen := 1
  fr32DstFrameRateNum := UInt32.ofInt fps
  u32SrcFrameRateDen := 1
  u32SrcFrameRateNum := UInt32.ofInt fps

namespace AppConfig

variable (config : AppConfig)

def h264Cbr : H264Cbr := .init config.fps

/-! ## `main` and its threads -/

def encodeQueue : FrameQueue := .init (UInt64.ofInt config.encodeQueueCapacity).toNat

def aiQueue : FrameQueue := .init (UInt64.ofInt config.aiQueueCapacity).toNat

def overlay : DetectionOverlay :=
  .init config.overlayEnable config.overlayBoxThickness config.overlayStaleFrames

/-- `infer_this_frame` of the capture thread; without a detector there is no division. -/
def inferThisFrame (aiReady : Bool) (sequence : UInt64) : Option Bool :=
  if aiReady && config.ai.enabled then
    let interval := UInt64.ofInt config.ai.inferEveryNFrames
    if interval = 0 then none else some (sequence % interval == 0)
  else some false

/-- The bound of the loop in which the metrics thread waits. -/
def metricsRounds : Option Int := checkedInt (config.metricsIntervalSec * 10)

/-! ## Settings of the threads -/

/-- The values that are repaired are positive. -/
structure Positive : Prop where
  metricsIntervalSec : 1 ≤ config.metricsIntervalSec
  encodeQueueCapacity : 1 ≤ config.encodeQueueCapacity
  aiQueueCapacity : 1 ≤ config.aiQueueCapacity
  overlayBoxThickness : 1 ≤ config.overlayBoxThickness
  overlayStaleFrames : 1 ≤ config.overlayStaleFrames
  inferEveryNFrames : 1 ≤ config.ai.inferEveryNFrames

variable {config}

/-- The settings of the threads; what does not come from the configuration is that of `c`. -/
def settings (h : config.Positive) (c : Settings) : Settings :=
  { c with
    encodeQueueCapacity := config.encodeQueueCapacity.toNat
    aiQueueCapacity := config.aiQueueCapacity.toNat
    inferEveryNFrames := config.ai.inferEveryNFrames.toNat
    aiEnabled := config.ai.enabled
    overlayEnable := config.overlayEnable
    overlayBoxThickness := config.overlayBoxThickness
    overlayStaleFrames := config.overlayStaleFrames
    detector := { c.detector with config := config.ai.toAiConfig }
    encodeQueueCapacity_pos := by have := h.encodeQueueCapacity; omega
    aiQueueCapacity_pos := by have := h.aiQueueCapacity; omega
    inferEveryNFrames_pos := by have := h.inferEveryNFrames; omega }

end AppConfig

end EdgeVision
