import EdgeVision.Camera.H264Encoder
import EdgeVision.Lib.Reach

/-!
# The encoder channel as a queue

What a VENC channel does with the frames it is sent: a frame that is accepted is coded and its
stream queued, `GetStream` takes the oldest stream, and a call that fails leaves the channel as it
is. `Coder.venc` is the library of `encode` over such a channel for one call, whose outcomes are
given; a run is any sequence of calls of `encode`, each with an image and outcomes of its own.
-/

namespace EdgeVision

/-- What the library returns within one call of `encode`; `unmapped` are the packs of the stream
whose block has no address. -/
structure CallOutcomes where
  flush : RkStatus
  send : RkStatus
  get : RkStatus
  unmapped : List Nat
  deriving DecidableEq, Repr

/-- What `GetStream` returns when there is no stream to take. -/
def vencTimeout : RkStatus := -1

/-- A stream, as the contents of its packs. -/
abbrev PackedStream := List Bytes

/-- The coder's state, the streams that were not taken yet, and the stream taken last, which the
addresses of its blocks point into. -/
structure VencChannel (κ : Type) where
  coderState : κ
  streams : List PackedStream
  current : PackedStream

/-- The stream of a frame, after what was coded before it. -/
abbrev Coder (κ : Type) := κ → VideoFrame → PackedStream × κ

def packsOf (stream : PackedStream) : List Pack :=
  stream.zipIdx.map fun pack => ⟨pack.2, 0, pack.1.length⟩

def Coder.venc {κ : Type} (coder : Coder κ) (outcomes : CallOutcomes) : Venc (VencChannel κ) where
  flushCache channel := (outcomes.flush, channel)
  sendFrame channel frame :=
    if outcomes.send = rkSuccess then
      let coded := coder channel.coderState frame
      (rkSuccess, { channel with coderState := coded.2, streams := channel.streams ++ [coded.1] })
    else (outcomes.send, channel)
  getStream channel :=
    if outcomes.get = rkSuccess then
      match channel.streams with
      | [] => (vencTimeout, [], channel)
      | stream :: streams => (rkSuccess, packsOf stream, { channel with streams, current := stream })
    else (outcomes.get, [], channel)
  virAddr channel mbBlk :=
    if mbBlk ∈ outcomes.unmapped then none else channel.current[mbBlk]?
  releaseStream channel _ := { channel with current := [] }

/-- The frame that `encode` sends for an image. -/
def H264Encoder.videoFrame (enc : H264Encoder) (yuvData : Bytes) : VideoFrame where
  picture := copyCompactNv12ToAlignedBuffer yuvData (List.replicate enc.inputBufferSize 0) enc.width
    enc.height enc.virWidth enc.virHeight
  width := enc.width
  height := enc.height
  virWidth := enc.virWidth
  virHeight := enc.virHeight
  pixelFormat := enc.inputPixelFormat
  pts := enc.pts

/-- A call of `encode` that has returned: its result and `out_h264`, the bitstream of the frame that
it was given, and the streams in the channel when it returned. -/
structure EncodeCall where
  ok : Bool
  outH264 : Bytes
  bitstream : Bytes
  left : List PackedStream
  deriving DecidableEq, Repr

structure EncodeRun (κ : Type) where
  encoder : H264Encoder
  channel : VencChannel κ
  calls : List EncodeCall

namespace EncodeRun

variable {κ : Type}

def start (encoder : H264Encoder) (coderState : κ) : EncodeRun κ :=
  ⟨encoder, ⟨coderState, [], []⟩, []⟩

/-- One call of `encode`, with an image and what the library returns. -/
def step (coder : Coder κ) (run : EncodeRun κ) (call : Bytes × CallOutcomes) :
    Option (EncodeRun κ) :=
  let returned := run.encoder.encode (coder.venc call.2) run.channel call.1
  some
    { encoder := returned.2.1
      channel := returned.2.2
      calls := run.calls ++
        [{ ok := returned.1.1
           outH264 := returned.1.2
           bitstream := (coder run.channel.coderState (run.encoder.videoFrame call.1)).1.flatten
           left := returned.2.2.streams }] }

end EncodeRun

end EdgeVision
