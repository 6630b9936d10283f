import EdgeVision.Ai.RknnDetector
import EdgeVision.Camera.CameraDevice
import EdgeVision.Camera.H264Encoder
import EdgeVision.Lib.CallTrace

/-!
# Hardware and its libraries

The calls that `IspController`, `CameraDevice`, `H264Encoder` and `RknnDetector` make into the
libraries of the hardware, from their constructors to their destructors, and `main` from the first
of them to its return. What the calls return is a parameter, a `true` for each that succeeds.

Beside each call stand the handles that it has to do with: the context, descriptor, channel or block
that is passed to it, the one that it hands out if it succeeds, and the one that it gives back. The
calls of `RK_MPI` need the system, between `RK_MPI_SYS_Init` and `RK_MPI_SYS_Exit`. Nothing else is
said of the libraries.
-/

namespace EdgeVision

open Lib Traced

/-! ## The image signal processor -/

inductive AiqCall where
  | enumStaticMetas
  | init (ok : Bool)
  | prepare
  | start
  | setWBMode
  | setFrameRate
  | stop
  | deinit
  deriving DecidableEq, Repr

/-- The context that `sysctl_init` returns. -/
inductive AiqHandle where
  | context
  deriving DecidableEq, Repr

def AiqCall.effect : AiqCall → Effect AiqHandle
  | enumStaticMetas => ⟨[], [], []⟩
  | init ok => ⟨[], [], if ok then [.context] else []⟩
  | prepare => ⟨[.context], [], []⟩
  | start => ⟨[.context], [], []⟩
  | setWBMode => ⟨[.context], [], []⟩
  | setFrameRate => ⟨[.context], [], []⟩
  | stop => ⟨[.context], [], []⟩
  | deinit => ⟨[], [.context], []⟩

/-- What the calls of `start` return; `sensorName` says that there is one. -/
structure AiqResults where
  enumStaticMetas : Bool
  sensorName : Bool
  init : Bool
  prepare : Bool
  start : Bool
  deriving DecidableEq, Repr

/-- The members `ctx` (not null) and `running`. -/
structure IspController where
  ctx : Bool
  running : Bool
  deriving DecidableEq, Repr

namespace IspController

def stop (isp : IspController) : Traced AiqCall IspController := do
  if isp.ctx then
    if isp.running then call [.stop]
    call [.deinit]
  return ⟨false, false⟩

def start (r : AiqResults) (isp : IspController) : Traced AiqCall (Bool × IspController) := do
  if isp.running then return (true, isp)
  call [.enumStaticMetas]
  if !r.enumStaticMetas then return (false, isp)
  if !r.sensorName then return (false, isp)
  call [.init r.init]
  let isp := { isp with ctx := r.init }
  if !r.init then return (false, isp)
  call [.prepare]
  if !r.prepare then
    let isp ← isp.stop
    return (false, isp)
  call [.start]
  if !r.start then
    let isp ← isp.stop
    return (false, isp)
  -- a failure of these two is only reported
  call [.setWBMode, .setFrameRate]
  return (true, { isp with running := true })

end IspController

/-! ## The camera -/

inductive V4l2Call where
  | openDevice (ok : Bool)
  | queryCap
  | setFormat
  | requestBuffers
  | queryBuf (i : Nat)
  | mmap (i : Nat) (ok : Bool)
  | queueBuf (i : Nat)
  | streamOn
  | select
  | dequeueBuf
  | munmap (i : Nat)
  | close
  deriving DecidableEq, Repr

/-- The descriptor, and the mappings of the buffers. -/
inductive V4l2Handle where
  | device
  | mapping (i : Nat)
  deriving DecidableEq, Repr

def V4l2Call.effect : V4l2Call → Effect V4l2Handle
  | openDevice ok => ⟨[], [], if ok then [.device] else []⟩
  | queryCap => ⟨[.device], [], []⟩
  | setFormat => ⟨[.device], [], []⟩
  | requestBuffers => ⟨[.device], [], []⟩
  | queryBuf _ => ⟨[.device], [], []⟩
  | mmap i ok => ⟨[.device], [], if ok then [.mapping i] else []⟩
  | queueBuf _ => ⟨[.device], [], []⟩
  | streamOn => ⟨[.device], [], []⟩
  | select => ⟨[.device], [], []⟩
  | dequeueBuf => ⟨[.device], [], []⟩
  | munmap i => ⟨[], [.mapping i], []⟩
  | close => ⟨[], [.device], []⟩

/-- What the calls return until the stream runs; `bufferCount` is the driver's answer to
`VIDIOC_REQBUFS`. -/
structure V4l2Results where
  openDevice : Bool
  queryCap : Bool
  captureMplane : Bool
  setFormat : Bool
  requestBuffers : Bool
  bufferCount : Nat
  queryBuf : Nat → Bool
  mmap : Nat → Bool
  queueBuf : Nat → Bool
  streamOn : Bool

namespace CameraDevice

/-- Without success the device is closed and the process ends. -/
def closeUnless (ok : Bool) : Traced V4l2Call Unit := do
  if ok then return ()
  call [.close]
  Traced.exit

/-- The constructor. -/
def construct (r : V4l2Results) : Traced V4l2Call Unit := do
  call [.openDevice r.openDevice]
  require r.openDevice
  call [.queryCap]
  closeUnless r.queryCap
  closeUnless r.captureMplane

/-- The body of the loop over the buffers. -/
def initBuffer (r : V4l2Results) (i : Nat) : Traced V4l2Call Unit := do
  call [.queryBuf i]
  closeUnless (r.queryBuf i)
  call [.mmap i (r.mmap i)]
  closeUnless (r.mmap i)
  call [.queueBuf i]
  closeUnless (r.queueBuf i)

/-- The loop, `n` rounds of it from buffer `i` on. -/
def initBuffers (r : V4l2Results) : Nat → Nat → Traced V4l2Call Unit
  | 0, _ => return ()
  | n + 1, i => do
    initBuffer r i
    initBuffers r n (i + 1)

def initCamera (r : V4l2Results) : Traced V4l2Call Unit := do
  call [.setFormat]
  closeUnless r.setFormat
  call [.requestBuffers]
  closeUnless r.requestBuffers
  initBuffers r r.bufferCount 0

def startStream (r : V4l2Results) : Traced V4l2Call Unit := do
  call [.streamOn]
  require r.streamOn

/-- The destructor, of a camera whose buffers are all mapped. -/
def destroy (bufferCount : Nat) : Traced V4l2Call Unit := do
  call ((List.range bufferCount).map .munmap)
  call [.close]

end CameraDevice

/-! ## The encoder -/

/-- The calls into `RK_MPI`; `inputAddr` is `RK_MPI_MB_Handle2VirAddr` of the input buffer. -/
inductive MpiCall where
  | sysInit (ok : Bool)
  | getPicBufferSize
  | createChn (ok : Bool)
  | getChnParam
  | setChnParam
  | startRecvFrame
  | mmzAllocCached (ok : Bool)
  | inputAddr
  | requestIDR
  | mmzFlushCache
  | sendFrame
  | getStream (ok : Bool)
  | releaseStream
  | stopRecvFrame
  | destroyChn
  | mmzFree
  | waitFreeMB
  | sysExit
  deriving DecidableEq, Repr

/-- The system, the channel, the input buffer, and a stream that `GetStream` has handed out. -/
inductive MpiHandle where
  | system
  | channel
  | inputBuffer
  | stream
  deriving DecidableEq, Repr

def MpiCall.effect : MpiCall → Effect MpiHandle
  | sysInit ok => ⟨[], [], if ok then [.system] else []⟩
  | getPicBufferSize => ⟨[.system], [], []⟩
  | createChn ok => ⟨[.system], [], if ok then [.channel] else []⟩
  | getChnParam => ⟨[.system, .channel], [], []⟩
  | setChnParam => ⟨[.system, .channel], [], []⟩
  | startRecvFrame => ⟨[.system, .channel], [], []⟩
  | mmzAllocCached ok => ⟨[.system], [], if ok then [.inputBuffer] else []⟩
  | inputAddr => ⟨[.system, .inputBuffer], [], []⟩
  | requestIDR => ⟨[.system, .channel], [], []⟩
  | mmzFlushCache => ⟨[.system, .inputBuffer], [], []⟩
  | sendFrame => ⟨[.system, .channel, .inputBuffer], [], []⟩
  | getStream ok => ⟨[.system, .channel], [], if ok then [.stream] else []⟩
  | releaseStream => ⟨[.system, .channel], [.stream], []⟩
  | stopRecvFrame => ⟨[.system, .channel], [], []⟩
  | destroyChn => ⟨[.system], [.channel], []⟩
  | mmzFree => ⟨[.system], [.inputBuffer], []⟩
  | waitFreeMB => ⟨[.system], [], []⟩
  | sysExit => ⟨[], [.system], []⟩

/-- What the calls of `initEncoder` return; `inputAddr` says that the address is not null. -/
structure MpiResults where
  sysInit : Bool
  getPicBufferSize : Bool
  createChn : Bool
  getChnParam : Bool
  setChnParam : Bool
  startRecvFrame : Bool
  mmzAllocCached : Bool
  inputAddr : Bool
  deriving DecidableEq, Repr

/-- The members that say what `destroyEncoder` has to give back. -/
structure EncoderMembers where
  sysInitialized : Bool
  channelCreated : Bool
  inputBuffer : Bool
  deriving DecidableEq, Repr

namespace EncoderMembers

def initEncoder (r : MpiResults) (m : EncoderMembers) : Traced MpiCall (Bool × EncoderMembers) := do
  call [.sysInit r.sysInit]
  if !r.sysInit then return (false, m)
  let m := { m with sysInitialized := true }
  call [.getPicBufferSize]
  if !r.getPicBufferSize then return (false, m)
  call [.createChn r.createChn]
  if !r.createChn then return (false, m)
  let m := { m with channelCreated := true }
  call [.getChnParam]
  if !r.getChnParam then return (false, m)
  call [.setChnParam]
  if !r.setChnParam then return (false, m)
  call [.startRecvFrame]
  if !r.startRecvFrame then return (false, m)
  call [.mmzAllocCached r.mmzAllocCached]
  let m := { m with inputBuffer := r.mmzAllocCached }
  if !r.mmzAllocCached then return (false, m)
  call [.inputAddr]
  if !r.inputAddr then return (false, m)
  call [.requestIDR]
  return (true, m)

/-- The constructor. -/
def construct (r : MpiResults) : Traced MpiCall EncoderMembers := do
  let made ← initEncoder r ⟨false, false, false⟩
  require made.1
  return made.2

def destroyEncoder (m : EncoderMembers) : Traced MpiCall EncoderMembers := do
  if m.channelCreated then call [.stopRecvFrame, .destroyChn]
  if m.inputBuffer then call [.mmzFree]
  if m.sysInitialized then call [.waitFreeMB, .sysExit]
  return ⟨false, false, false⟩

end EncoderMembers

inductive RknnCall where
  | init (ok : Bool)
  | query
  | inputsSet
  | run
  | outputsGet (ok : Bool)
  | outputsRelease
  | destroy
  deriving DecidableEq, Repr

/-- The context, and the outputs of a run. -/
inductive RknnHandle where
  | context
  | outputs
  deriving DecidableEq, Repr

def RknnCall.effect : RknnCall → Effect RknnHandle
  | init ok => ⟨[], [], if ok then [.context] else []⟩
  | query => ⟨[.context], [], []⟩
  | inputsSet => ⟨[.context], [], []⟩
  | run => ⟨[.context], [], []⟩
  | outputsGet ok => ⟨[.context], [], if ok then [.outputs] else []⟩
  | outputsRelease => ⟨[.context], [.outputs], []⟩
  | destroy => ⟨[], [.context], []⟩

/-- What `initialize` finds: the configuration, what the calls return, and the input tensor. -/
structure RknnResults where
  enabled : Bool
  modelPath : Bool
  init : Bool
  queryInOutNum : Bool
  queryInputAttr : Bool
  queryOutputAttrs : List Bool
  inputDims : Nat
  inputChannels : Int
  deriving DecidableEq, Repr

namespace RknnDetector

/-- The loop over the output attributes. -/
def queryOutputs : List Bool → Traced RknnCall Bool
  | [] => return true
  | ok :: oks => do
    call [.query]
    if !ok then return false
    queryOutputs oks

/-- `initialize`: whether the detector is ready, and whether there is a context. -/
def initializeDetector (r : RknnResults) : Traced RknnCall (Bool × Bool) := do
  if !r.enabled then return (false, false)
  if !r.modelPath then return (false, false)
  call [.init r.init]
  if !r.init then return (false, false)
  call [.query]
  if !r.queryInOutNum then return (false, true)
  call [.query]
  if !r.queryInputAttr then return (false, true)
  let ok ← queryOutputs r.queryOutputAttrs
  if !ok then return (false, true)
  if r.inputDims < 4 then return (false, true)
  if r.inputChannels ≠ 3 then return (false, true)
  return (true, true)

/-- The destructor. -/
def destroy (context : Bool) : Traced RknnCall Unit := do
  if context then call [.destroy]

end RknnDetector

/-! ## `main` -/

abbrev HardwareCall := (AiqCall ⊕ V4l2Call) ⊕ (MpiCall ⊕ RknnCall)

/-- The handles that the process holds. -/
abbrev Hardware := (List AiqHandle × List V4l2Handle) × (List MpiHandle × List RknnHandle)

structure HardwareResults where
  aiq : AiqResults
  v4l2 : V4l2Results
  mpi : MpiResults
  rknn : RknnResults

namespace Hardware

def nothing : Hardware := (([], []), ([], []))

def rules : Hardware → HardwareCall → Option Hardware :=
  beside (beside (handles AiqCall.effect) (handles V4l2Call.effect))
    (beside (handles MpiCall.effect) (handles RknnCall.effect))

variable {β : Type}

def isp (x : Traced AiqCall β) : Traced HardwareCall β := lift .inl (lift .inl x)

def camera (x : Traced V4l2Call β) : Traced HardwareCall β := lift .inl (lift .inr x)

def encoder (x : Traced MpiCall β) : Traced HardwareCall β := lift .inr (lift .inl x)

def detector (x : Traced RknnCall β) : Traced HardwareCall β := lift .inr (lift .inr x)

/-- `main`, with the calls that its threads make. The objects are destroyed in the reverse order of
their construction. -/
def main (r : HardwareResults) (threads : List HardwareCall) : Traced HardwareCall Unit := do
  -- `main` goes on whether or not the processor has started
  let started ← isp (IspController.start r.aiq ⟨false, false⟩)
  camera (CameraDevice.construct r.v4l2)
  camera (CameraDevice.initCamera r.v4l2)
  camera (CameraDevice.startStream r.v4l2)
  let members ← encoder (EncoderMembers.construct r.mpi)
  let made ← detector (RknnDetector.initializeDetector r.rknn)
  call threads
  detector (RknnDetector.destroy made.2)
  let _ ← encoder members.destroyEncoder
  camera (CameraDevice.destroy r.v4l2.bufferCount)
  let _ ← isp started.2.stop

end Hardware

end EdgeVision
