import EdgeVision.Stream.Wire

/-!
# The hardware encoder

`H264Encoder::encode`: the repacking of a compact NV12 image into the aligned input buffer, the
calls into the Rockchip library, and the packet put together from the packs of a stream. The library
is not part of the repository; it is a parameter `Venc σ` over a library state `σ`.
-/

namespace EdgeVision

/-- `memcpy(dst + dstAt, src + srcAt, n)`. -/
def memcpy (dst : Bytes) (dstAt : Nat) (src : Bytes) (srcAt n : Nat) : Bytes :=
  dst.take dstAt ++ (src.drop srcAt).take n ++ dst.drop (dstAt + n)

/-- Copy `rows` rows of `n` bytes between two buffers with strides of their own. -/
def copyRows (dst : Bytes) (dstAt dstStride : Nat) (src : Bytes) (srcAt srcStride rows n : Nat) :
    Bytes :=
  (List.range rows).foldl
    (fun dst row => memcpy dst (dstAt + row * dstStride) src (srcAt + row * srcStride) n) dst

def copyCompactNv12ToAlignedBuffer (src dst : Bytes) (width height virWidth virHeight : Nat) :
    Bytes :=
  let compactYSize := width * height
  let dst := copyRows dst 0 virWidth src 0 width height width
  copyRows dst (virWidth * virHeight) virWidth src compactYSize width (height / 2) width

/-- An `RK_S32` result. -/
abbrev RkStatus := Int

def rkSuccess : RkStatus := 0

inductive PixelFormat where
  | yuv420sp
  | yuv420spVu
  deriving DecidableEq, Repr

/-- The fields of `VIDEO_FRAME_INFO_S` that differ between encoders or frames; `picture` is the
content of the buffer behind `pMbBlk`. -/
structure VideoFrame where
  picture : Bytes
  width : Nat
  height : Nat
  virWidth : Nat
  virHeight : Nat
  pixelFormat : PixelFormat
  pts : UInt64
  deriving DecidableEq, Repr

/-- One `VENC_PACK_S`. -/
structure Pack where
  mbBlk : Nat
  offset : Nat
  len : Nat
  deriving DecidableEq, Repr

/-- The library calls of `encode`. `virAddr` is the memory behind a block, `none` for a null
address. -/
structure Venc (σ : Type) where
  flushCache : σ → RkStatus × σ
  sendFrame : σ → VideoFrame → RkStatus × σ
  getStream : σ → RkStatus × List Pack × σ
  virAddr : σ → Nat → Option Bytes
  releaseStream : σ → List Pack → σ

/-- The members that `encode` uses. `inputBuffer` is the mapped input buffer, `none` when there is
no block or no address; its size comes from a 32-bit field of the library. -/
structure H264Encoder where
  width : Nat
  height : Nat
  pts : UInt64
  inputBufferSize : Nat
  inputBufferSize_lt : inputBufferSize < 4294967296
  virWidth : Nat
  virHeight : Nat
  inputPixelFormat : PixelFormat
  inputBuffer : Option Bytes

namespace Venc

variable {σ : Type}

/-- The loop over the packs of a stream, which appends them to `out_h264`. -/
def assemble (venc : Venc σ) (s : σ) (packs : List Pack) : Bytes :=
  packs.flatMap fun pack =>
    match venc.virAddr s pack.mbBlk with
    | none => []
    | some memory => (memory.drop pack.offset).take pack.len

/-- The bytes of all packs of a stream. -/
def packsLength : List Pack → Nat
  | [] => 0
  | pack :: packs => pack.len + packsLength packs

/-- A stream fits in the stream buffer, which the channel is created with. -/
def StreamFits (venc : Venc σ) (bufSize : Nat) : Prop :=
  ∀ s packs s', venc.getStream s = (rkSuccess, packs, s') → packsLength packs ≤ bufSize

/-- A packet is no longer than the packs it is put together from. -/
theorem length_assemble (venc : Venc σ) (s : σ) (packs : List Pack) :
    (venc.assemble s packs).length ≤ packsLength packs := by
  induction packs with
  | nil => simp [assemble]
  | cons pack packs ih =>
    simp only [assemble, List.flatMap_cons, List.length_append, packsLength] at ih ⊢
    apply Nat.add_le_add _ ih
    cases venc.virAddr s pack.mbBlk with
    | none => exact Nat.zero_le _
    | some memory =>
      simp only [List.length_take]
      omega

end Venc

namespace H264Encoder

variable {σ : Type}

/-- One call of `encode`: its result and `out_h264`, the encoder, and the library's state. -/
def encode (enc : H264Encoder) (venc : Venc σ) (s : σ) (yuvData : Bytes) :
    (Bool × Bytes) × H264Encoder × σ :=
  if enc.inputBuffer.isNone then ((false, []), enc, s)
  else
    let cleared := List.replicate enc.inputBufferSize 0
    let picture := copyCompactNv12ToAlignedBuffer yuvData cleared enc.width enc.height
      enc.virWidth enc.virHeight
    let enc := { enc with inputBuffer := some picture }
    let flushed := venc.flushCache s
    if flushed.1 ≠ rkSuccess then ((false, []), enc, flushed.2)
    else
      let frame : VideoFrame :=
        { picture, width := enc.width, height := enc.height, virWidth := enc.virWidth,
          virHeight := enc.virHeight, pixelFormat := enc.inputPixelFormat, pts := enc.pts }
      -- `pts++` has happened when the frame is sent, whether or not the call succeeds
      let enc := { enc with pts := enc.pts + 1 }
      let sent := venc.sendFrame flushed.2 frame
      if sent.1 ≠ rkSuccess then ((false, []), enc, sent.2)
      else
        let got := venc.getStream sent.2
        if got.1 ≠ rkSuccess then ((false, []), enc, got.2.2)
        else
          let outH264 := venc.assemble got.2.2 got.2.1
          ((!outH264.isEmpty, outH264), enc, venc.releaseStream got.2.2 got.2.1)

/-- **What an encoded packet is**: the packs of a stream that the library returned, not all of them
empty. -/
theorem encode_true {enc : H264Encoder} {venc : Venc σ} {s : σ} {yuvData packet : Bytes}
    (h : (enc.encode venc s yuvData).1 = (true, packet)) :
    packet ≠ [] ∧ ∃ s' packs s'', venc.getStream s' = (rkSuccess, packs, s'') ∧
      packet = venc.assemble s'' packs := by
  unfold encode at h
  split at h
  · cases h
  · simp only at h
    split at h
    · cases h
    · split at h
      · cases h
      · split at h
        · cases h
        · rename_i hgot
          simp only [Prod.mk.injEq, Bool.not_eq_true', List.isEmpty_eq_false_iff] at h
          obtain ⟨hne, rfl⟩ := h
          refine ⟨hne, _, _, _, Prod.ext ?_ rfl, rfl⟩
          simpa using hgot

/-- An encoded packet is bounded by the stream buffer only. -/
theorem length_encode_le {enc : H264Encoder} {venc : Venc σ} {s : σ} {yuvData packet : Bytes}
    {bufSize : Nat} (hfits : venc.StreamFits bufSize)
    (h : (enc.encode venc s yuvData).1 = (true, packet)) : packet.length ≤ bufSize := by
  obtain ⟨-, s', packs, s'', hgot, rfl⟩ := encode_true h
  exact Nat.le_trans (venc.length_assemble s'' packs) (hfits s' packs s'' hgot)

end H264Encoder

end EdgeVision
