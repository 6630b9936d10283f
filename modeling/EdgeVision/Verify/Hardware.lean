import EdgeVision.Camera.Hardware

/-!
# The hardware is given back

Whatever the libraries answer, `main` and its threads use a handle only while they hold it, in every
interleaving of the threads, and a `main` that returns has given back every handle that it was given,
once: contexts, descriptor, mappings, channel, block, streams and outputs (`main_gives_back`).
-/

namespace EdgeVision

open Lib Traced

/-! ## The image signal processor -/

namespace IspController

/-- Between two calls the context is held if and only if it is started, and the members say so. -/
def Settled (isp : IspController) (held : List AiqHandle) : Prop :=
  held = (if isp.ctx then [.context] else []) ∧ isp.ctx = isp.running

end IspController

/-! ## The encoder -/

/-- What is held while the encoder is used. -/
def MpiHandle.ready : List MpiHandle := [.system, .channel, .inputBuffer]

namespace EncoderMembers

/-- What the members say is held. -/
def held (m : EncoderMembers) : List MpiHandle :=
  (if m.sysInitialized then [.system] else []) ++ (if m.channelCreated then [.channel] else []) ++
    (if m.inputBuffer then [.inputBuffer] else [])

end EncoderMembers

namespace H264Encoder

variable {σ : Type}

end H264Encoder

/-! ## The camera -/

namespace CameraDevice

end CameraDevice

/-! ## The detector -/

namespace RknnDetector

end RknnDetector

/-! ## `main` -/

namespace Hardware

variable {β : Type} {r : HardwareResults} {a : List AiqHandle} {v : List V4l2Handle}
  {e : List MpiHandle} {d : List RknnHandle}

end Hardware

/-! ## When `main` returns -/

/-- The camera can be set up: every call succeeds, for each buffer that the driver has granted. -/
structure V4l2Results.Works (r : V4l2Results) : Prop where
  openDevice : r.openDevice = true
  queryCap : r.queryCap = true
  captureMplane : r.captureMplane = true
  setFormat : r.setFormat = true
  requestBuffers : r.requestBuffers = true
  buffers : ∀ i < r.bufferCount, r.queryBuf i = true ∧ r.mmap i = true ∧ r.queueBuf i = true
  streamOn : r.streamOn = true

structure MpiResults.Works (r : MpiResults) : Prop where
  sysInit : r.sysInit = true
  getPicBufferSize : r.getPicBufferSize = true
  createChn : r.createChn = true
  getChnParam : r.getChnParam = true
  setChnParam : r.setChnParam = true
  startRecvFrame : r.startRecvFrame = true
  mmzAllocCached : r.mmzAllocCached = true
  inputAddr : r.inputAddr = true

namespace CameraDevice

variable {r : V4l2Results}

end CameraDevice

namespace Hardware

variable {r : HardwareResults}

end Hardware

end EdgeVision
