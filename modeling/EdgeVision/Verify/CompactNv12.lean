import EdgeVision.Camera.CameraDevice
import EdgeVision.Lib.Rows

/-!
# The two repackings

`captureFrame` takes a frame of the driver into compact NV12, `encode` takes compact NV12 into the
aligned buffer of the encoder. Both copy rows of `width` bytes, `height` rows of luma and half as
many of chroma, between two buffers with strides of their own. The copies are data here (`Copy`):
where each reads and writes is stated of the list, and what a byte is afterwards follows from the
copies being disjoint (`getElem?_runCopies`, `getElem?_runCopies_of_notMem`).
-/

namespace EdgeVision

open Lib

/-! ## Copies -/

section Memcpy

variable {dst src : Bytes} {dstAt srcAt n : Nat}

theorem length_memcpy (hdst : dstAt + n ≤ dst.length) (hsrc : srcAt + n ≤ src.length) :
    (memcpy dst dstAt src srcAt n).length = dst.length := by
  simp only [memcpy, List.length_append, List.length_take, List.length_drop]
  omega

theorem getElem?_memcpy (hdst : dstAt + n ≤ dst.length) (hsrc : srcAt + n ≤ src.length) {k : Nat}
    (hk : k < n) : (memcpy dst dstAt src srcAt n)[dstAt + k]? = src[srcAt + k]? := by
  have htake : (dst.take dstAt).length = dstAt := by
    rw [List.length_take]
    omega
  have hslice : k < ((src.drop srcAt).take n).length := by
    simp only [List.length_take, List.length_drop]
    omega
  rw [memcpy, List.append_assoc, List.getElem?_append_right (by omega), htake,
    Nat.add_sub_cancel_left, List.getElem?_append_left hslice, List.getElem?_take_of_lt hk,
    List.getElem?_drop]

theorem getElem?_memcpy_of_outside (hdst : dstAt + n ≤ dst.length) (hsrc : srcAt + n ≤ src.length)
    {i : Nat} (hi : i < dstAt ∨ dstAt + n ≤ i) : (memcpy dst dstAt src srcAt n)[i]? = dst[i]? := by
  have htake : (dst.take dstAt).length = dstAt := by
    rw [List.length_take]
    omega
  have hslice : ((src.drop srcAt).take n).length = n := by
    simp only [List.length_take, List.length_drop]
    omega
  rw [memcpy]
  rcases hi with hi | hi
  · rw [List.append_assoc, List.getElem?_append_left (by omega), List.getElem?_take_of_lt hi]
  · rw [List.getElem?_append_right (by rw [List.length_append]; omega), List.length_append, htake,
      hslice, List.getElem?_drop]
    congr 1
    omega

end Memcpy

/-- A `memcpy` of `size` bytes between two buffers. -/
structure Copy where
  dstAt : Nat
  srcAt : Nat
  size : Nat
  deriving DecidableEq, Repr

namespace Copy

/-- The copy reads below `srcSize` and writes below `dstSize`. -/
def Within (c : Copy) (dstSize srcSize : Nat) : Prop :=
  c.dstAt + c.size ≤ dstSize ∧ c.srcAt + c.size ≤ srcSize

/-- The index is written by the copy. -/
def Writes (c : Copy) (i : Nat) : Prop := c.dstAt ≤ i ∧ i < c.dstAt + c.size

end Copy

def runCopies (dst src : Bytes) (copies : List Copy) : Bytes :=
  copies.foldl (fun dst c => memcpy dst c.dstAt src c.srcAt c.size) dst

/-- The copies of `copyRows`. -/
def rowCopies (dstAt dstStride srcAt srcStride rows n : Nat) : List Copy :=
  (List.range rows).map fun row => ⟨dstAt + row * dstStride, srcAt + row * srcStride, n⟩

theorem copyRows_eq (dst : Bytes) (dstAt dstStride : Nat) (src : Bytes)
    (srcAt srcStride rows n : Nat) :
    copyRows dst dstAt dstStride src srcAt srcStride rows n =
      runCopies dst src (rowCopies dstAt dstStride srcAt srcStride rows n) := by
  rw [copyRows, runCopies, rowCopies, List.foldl_map]

section RunCopies

variable {dst src : Bytes} {copies : List Copy}

theorem length_runCopies (hwithin : ∀ c ∈ copies, c.Within dst.length src.length) :
    (runCopies dst src copies).length = dst.length := by
  induction copies generalizing dst with
  | nil => rfl
  | cons c copies ih =>
    obtain ⟨hdst, hsrc⟩ := hwithin c List.mem_cons_self
    have hlen := length_memcpy hdst hsrc
    rw [runCopies, List.foldl_cons, ← runCopies, ih, hlen]
    intro c' hc'
    rw [hlen]
    exact hwithin c' (List.mem_cons_of_mem c hc')

/-- A byte that no copy writes stays. -/
theorem getElem?_runCopies_of_notMem (hwithin : ∀ c ∈ copies, c.Within dst.length src.length)
    {i : Nat} (hi : ∀ c ∈ copies, ¬ c.Writes i) : (runCopies dst src copies)[i]? = dst[i]? := by
  induction copies generalizing dst with
  | nil => rfl
  | cons c copies ih =>
    obtain ⟨hdst, hsrc⟩ := hwithin c List.mem_cons_self
    have hlen := length_memcpy hdst hsrc
    have hout : i < c.dstAt ∨ c.dstAt + c.size ≤ i := by
      have hnot := hi c List.mem_cons_self
      unfold Copy.Writes at hnot
      omega
    rw [runCopies, List.foldl_cons, ← runCopies, ih, getElem?_memcpy_of_outside hdst hsrc hout]
    · intro c' hc'
      rw [hlen]
      exact hwithin c' (List.mem_cons_of_mem c hc')
    · exact fun c' hc' => hi c' (List.mem_cons_of_mem c hc')

/-- A byte of disjoint copies is the byte that its copy reads. -/
theorem getElem?_runCopies (hwithin : ∀ c ∈ copies, c.Within dst.length src.length)
    (hdisjoint : copies.Pairwise fun a b => ∀ i, a.Writes i → ¬ b.Writes i) {c : Copy}
    (hc : c ∈ copies) {k : Nat} (hk : k < c.size) :
    (runCopies dst src copies)[c.dstAt + k]? = src[c.srcAt + k]? := by
  induction copies generalizing dst with
  | nil => cases hc
  | cons c' copies ih =>
    obtain ⟨hdst, hsrc⟩ := hwithin c' List.mem_cons_self
    have hlen := length_memcpy hdst hsrc
    have hrest : ∀ c'' ∈ copies,
        c''.Within (memcpy dst c'.dstAt src c'.srcAt c'.size).length src.length := by
      intro c'' hc''
      rw [hlen]
      exact hwithin c'' (List.mem_cons_of_mem c' hc'')
    obtain ⟨hhead, htail⟩ := List.pairwise_cons.mp hdisjoint
    rw [runCopies, List.foldl_cons, ← runCopies]
    rcases List.mem_cons.mp hc with rfl | hmem
    · rw [getElem?_runCopies_of_notMem hrest, getElem?_memcpy hdst hsrc hk]
      intro c'' hc''
      exact hhead c'' hc'' (c.dstAt + k) ⟨Nat.le_add_right _ _, by omega⟩
    · exact ih hrest htail hmem

end RunCopies

/-! ## Rows -/

section Rows

variable {dstAt dstStride srcAt srcStride rows n : Nat}

theorem mem_rowCopies {c : Copy} :
    c ∈ rowCopies dstAt dstStride srcAt srcStride rows n ↔
      ∃ row < rows, c = ⟨dstAt + row * dstStride, srcAt + row * srcStride, n⟩ := by
  simp only [rowCopies, List.mem_map, List.mem_range, eq_comm]

theorem rowCopies_within (hdst : n ≤ dstStride) (hsrc : n ≤ srcStride) {c : Copy}
    (hc : c ∈ rowCopies dstAt dstStride srcAt srcStride rows n) :
    dstAt ≤ c.dstAt ∧ c.Within (dstAt + rows * dstStride) (srcAt + rows * srcStride) := by
  obtain ⟨row, hrow, rfl⟩ := mem_rowCopies.mp hc
  have hd := row_end_le hdst hrow
  have hs := row_end_le hsrc hrow
  simp only [Copy.Within]
  omega

theorem rowCopies_disjoint (hdst : n ≤ dstStride) :
    (rowCopies dstAt dstStride srcAt srcStride rows n).Pairwise
      fun a b => ∀ i, a.Writes i → ¬ b.Writes i := by
  rw [rowCopies, List.pairwise_map]
  refine List.pairwise_lt_range.imp ?_
  intro row row' hlt i ha hb
  have hend := row_end_le hdst hlt
  simp only [Copy.Writes] at ha hb
  omega

end Rows

/-! ## A repacking -/

/-- The copies of a repacking, luma rows before chroma rows. -/
def nv12Copies (width height dstStride dstUv srcStride srcUv : Nat) : List Copy :=
  rowCopies 0 dstStride 0 srcStride height width ++
    rowCopies dstUv dstStride srcUv srcStride (height / 2) width

/-- A byte of the image in a buffer with the given stride and chroma plane. -/
def InImage (width height stride uv i : Nat) : Prop :=
  (∃ r < height, ∃ c < width, i = r * stride + c) ∨
    ∃ r < height / 2, ∃ c < width, i = uv + r * stride + c

theorem copyRows_nv12 (dst src : Bytes) (width height dstStride dstUv srcStride srcUv : Nat) :
    copyRows (copyRows dst 0 dstStride src 0 srcStride height width) dstUv dstStride src srcUv
        srcStride (height / 2) width =
      runCopies dst src (nv12Copies width height dstStride dstUv srcStride srcUv) := by
  rw [copyRows_eq, copyRows_eq, nv12Copies]
  exact List.foldl_append.symm

/-- The planes fit in both buffers, and the luma plane ends before the chroma plane starts. -/
structure Fits (width height dstStride dstUv srcStride srcUv dstSize srcSize : Nat) : Prop where
  dstRow : width ≤ dstStride
  srcRow : width ≤ srcStride
  lumaDst : height * dstStride ≤ dstUv
  chromaDst : dstUv + height / 2 * dstStride ≤ dstSize
  lumaSrc : height * srcStride ≤ srcSize
  chromaSrc : srcUv + height / 2 * srcStride ≤ srcSize

namespace Fits

variable {width height dstStride dstUv srcStride srcUv dstSize srcSize : Nat}
  (h : Fits width height dstStride dstUv srcStride srcUv dstSize srcSize)

include h

/-- Every copy stays inside both buffers. -/
theorem within {c : Copy} (hc : c ∈ nv12Copies width height dstStride dstUv srcStride srcUv) :
    c.Within dstSize srcSize := by
  obtain ⟨hdstRow, hsrcRow, hlumaDst, hchromaDst, hlumaSrc, hchromaSrc⟩ := h
  rcases List.mem_append.mp hc with hc | hc
  · obtain ⟨-, hdst, hsrc⟩ := rowCopies_within hdstRow hsrcRow hc
    exact ⟨by omega, by omega⟩
  · obtain ⟨-, hdst, hsrc⟩ := rowCopies_within hdstRow hsrcRow hc
    exact ⟨by omega, by omega⟩

/-- No two copies write the same byte. -/
theorem disjoint : (nv12Copies width height dstStride dstUv srcStride srcUv).Pairwise
    fun a b => ∀ i, a.Writes i → ¬ b.Writes i := by
  rw [nv12Copies, List.pairwise_append]
  refine ⟨rowCopies_disjoint h.dstRow, rowCopies_disjoint h.dstRow, ?_⟩
  intro a ha b hb i hai hbi
  obtain ⟨-, hluma, -⟩ := rowCopies_within h.dstRow h.srcRow ha
  obtain ⟨hchroma, -⟩ := rowCopies_within h.dstRow h.srcRow hb
  have hend := h.lumaDst
  simp only [Copy.Writes] at hai hbi
  omega

variable {dst src : Bytes} (hdst : dst.length = dstSize) (hsrc : srcSize ≤ src.length)

include hdst hsrc

theorem within_lengths :
    ∀ c ∈ nv12Copies width height dstStride dstUv srcStride srcUv,
      c.Within dst.length src.length := by
  intro c hc
  obtain ⟨hd, hs⟩ := h.within hc
  exact ⟨by omega, by omega⟩

theorem length_run :
    (runCopies dst src (nv12Copies width height dstStride dstUv srcStride srcUv)).length =
      dstSize :=
  (length_runCopies (h.within_lengths hdst hsrc)).trans hdst

theorem luma {r c : Nat} (hr : r < height) (hc : c < width) :
    (runCopies dst src (nv12Copies width height dstStride dstUv srcStride srcUv))[r * dstStride + c]? =
      src[r * srcStride + c]? := by
  have hmem : (⟨0 + r * dstStride, 0 + r * srcStride, width⟩ : Copy) ∈
      nv12Copies width height dstStride dstUv srcStride srcUv :=
    List.mem_append_left _ (mem_rowCopies.mpr ⟨r, hr, rfl⟩)
  have hget := getElem?_runCopies (h.within_lengths hdst hsrc) h.disjoint hmem hc
  simpa using hget

theorem chroma {r c : Nat} (hr : r < height / 2) (hc : c < width) :
    (runCopies dst src (nv12Copies width height dstStride dstUv srcStride srcUv))[
        dstUv + r * dstStride + c]? = src[srcUv + r * srcStride + c]? := by
  have hmem : (⟨dstUv + r * dstStride, srcUv + r * srcStride, width⟩ : Copy) ∈
      nv12Copies width height dstStride dstUv srcStride srcUv :=
    List.mem_append_right _ (mem_rowCopies.mpr ⟨r, hr, rfl⟩)
  exact getElem?_runCopies (h.within_lengths hdst hsrc) h.disjoint hmem hc

theorem elsewhere {i : Nat} (hi : ¬ InImage width height dstStride dstUv i) :
    (runCopies dst src (nv12Copies width height dstStride dstUv srcStride srcUv))[i]? = dst[i]? := by
  apply getElem?_runCopies_of_notMem (h.within_lengths hdst hsrc)
  intro c hc hwrites
  apply hi
  rcases List.mem_append.mp hc with hc | hc
  · obtain ⟨r, hr, rfl⟩ := mem_rowCopies.mp hc
    simp only [Copy.Writes] at hwrites
    exact .inl ⟨r, hr, i - r * dstStride, by omega, by omega⟩
  · obtain ⟨r, hr, rfl⟩ := mem_rowCopies.mp hc
    simp only [Copy.Writes] at hwrites
    exact .inr ⟨r, hr, i - (dstUv + r * dstStride), by omega, by omega⟩

end Fits

/-! ## The camera's repacking -/

namespace CameraDevice

variable {cam : CameraDevice}

/-- The copies of a capture. -/
def captureCopies (cam : CameraDevice) (bytesUsed : Nat) : List Copy :=
  nv12Copies cam.width cam.height cam.width (cam.width * cam.height) cam.sourceStride
    (cam.sourceStride * cam.runtimeVirHeight bytesUsed)

theorem captureFrame_eq {calls : CaptureCalls} {buf : DequeuedBuffer} (outYuv : Bytes)
    (hready : calls.ready = true) (hbuf : calls.dequeued = some buf) :
    cam.captureFrame calls outYuv = (calls.requeued,
      runCopies outYuv (cam.buffers.getD buf.index []) (cam.captureCopies buf.bytesUsed)) := by
  simp only [captureFrame, hready, hbuf, Bool.not_true, Bool.false_eq_true, if_false,
    copyRows_nv12, captureCopies]

/-- The virtual height is at least the visible one, and one and a half planes of it fit in the bytes
of the frame. -/
theorem deriveVirHeight_spec {sizeImage stride height : Nat} (hstride : 1 ≤ stride)
    (hsize : sizeImage < 4294967296) (hplanes : 3 * stride * height ≤ 2 * sizeImage) :
    height ≤ deriveVirHeight sizeImage stride height ∧
      3 * (stride * deriveVirHeight sizeImage stride height) ≤ 2 * sizeImage := by
  unfold deriveVirHeight
  split
  · exact ⟨Nat.le_refl _, by rwa [← Nat.mul_assoc]⟩
  · simp only [show stride * 3 ≠ 0 by omega, if_false]
    have hle : sizeImage * 2 / (stride * 3) ≤ sizeImage * 2 / 3 :=
      Nat.div_le_div_left (by omega) (by omega)
    have hmod : sizeImage * 2 / (stride * 3) % 4294967296 = sizeImage * 2 / (stride * 3) :=
      Nat.mod_eq_of_lt (by omega)
    rw [hmod]
    refine ⟨Nat.le_max_right _ _, ?_⟩
    rcases Nat.le_total (sizeImage * 2 / (stride * 3)) height with h | h
    · rw [Nat.max_eq_right h, ← Nat.mul_assoc]
      exact hplanes
    · rw [Nat.max_eq_left h]
      have hdiv := Nat.mul_div_le (sizeImage * 2) (stride * 3)
      calc 3 * (stride * (sizeImage * 2 / (stride * 3)))
          = stride * 3 * (sizeImage * 2 / (stride * 3)) := by
            rw [← Nat.mul_assoc, Nat.mul_comm 3 stride]
        _ ≤ 2 * sizeImage := by omega

/-- Half the rows are no more than half a plane. -/
theorem half_rows_le (height stride : Nat) : 2 * (height / 2 * stride) ≤ height * stride := by
  rw [← Nat.mul_assoc]
  exact Nat.mul_le_mul_right stride (Nat.mul_div_le height 2)

/-- The compact image fits in the packed size. -/
theorem packed_le (cam : CameraDevice) :
    cam.width * cam.height + cam.height / 2 * cam.width ≤ cam.getPackedFrameSize := by
  have hhalf := half_rows_le cam.height cam.width
  rw [Nat.mul_comm cam.height cam.width] at hhalf
  unfold getPackedFrameSize
  omega

theorem captureFits {bytesUsed : Nat} (hwidth : 1 ≤ cam.width)
    (hstride : cam.width ≤ cam.sourceStride) (hlimit : cam.frameBytes bytesUsed < 4294967296)
    (hplanes : 3 * cam.sourceStride * cam.height ≤ 2 * cam.frameBytes bytesUsed) :
    Fits cam.width cam.height cam.width (cam.width * cam.height) cam.sourceStride
      (cam.sourceStride * cam.runtimeVirHeight bytesUsed) cam.getPackedFrameSize
      (cam.frameBytes bytesUsed) := by
  obtain ⟨hheight, hvir⟩ := deriveVirHeight_spec (by omega) hlimit hplanes
  have hhalf := half_rows_le cam.height cam.sourceStride
  rw [Nat.mul_comm cam.height cam.sourceStride] at hhalf
  rw [Nat.mul_assoc] at hplanes
  have hmono := Nat.mul_le_mul_left cam.sourceStride hheight
  constructor
  case dstRow => exact Nat.le_refl _
  case srcRow => exact hstride
  case lumaDst => exact Nat.le_of_eq (Nat.mul_comm _ _)
  case chromaDst => exact packed_le cam
  case lumaSrc =>
    rw [Nat.mul_comm]
    omega
  case chromaSrc =>
    unfold runtimeVirHeight
    omega

end CameraDevice

/-! ## The encoder's repacking -/

namespace H264Encoder

variable {σ : Type}

/-- The copies into the input buffer. -/
def inputCopies (enc : H264Encoder) : List Copy :=
  nv12Copies enc.width enc.height enc.virWidth (enc.virWidth * enc.virHeight) enc.width
    (enc.width * enc.height)

/-- The input buffer after a call, which clears it before it copies. -/
theorem encode_inputBuffer {enc : H264Encoder} (venc : Venc σ) (s : σ) (yuvData : Bytes)
    (hmapped : enc.inputBuffer.isSome) :
    (enc.encode venc s yuvData).2.1.inputBuffer =
      some (runCopies (List.replicate enc.inputBufferSize 0) yuvData enc.inputCopies) := by
  have hnone : enc.inputBuffer.isNone = false := by
    rw [Option.isNone_eq_false_iff]
    exact hmapped
  simp only [encode, hnone, Bool.false_eq_true, if_false, copyCompactNv12ToAlignedBuffer,
    copyRows_nv12, inputCopies]
  repeat' split
  all_goals rfl

theorem inputFits {enc : H264Encoder} {packedSize : Nat} (hwidth : enc.width ≤ enc.virWidth)
    (hheight : enc.height ≤ enc.virHeight)
    (hsize : enc.virWidth * enc.virHeight * 3 / 2 ≤ enc.inputBufferSize)
    (hpacked : enc.width * enc.height + enc.height / 2 * enc.width ≤ packedSize) :
    Fits enc.width enc.height enc.virWidth (enc.virWidth * enc.virHeight) enc.width
      (enc.width * enc.height) enc.inputBufferSize packedSize := by
  have hplane : enc.height * enc.virWidth ≤ enc.virWidth * enc.virHeight := by
    rw [Nat.mul_comm]
    exact Nat.mul_le_mul_left _ hheight
  have hhalf := CameraDevice.half_rows_le enc.height enc.virWidth
  constructor
  case dstRow => exact hwidth
  case srcRow => exact Nat.le_refl _
  case lumaDst => exact hplane
  case chromaDst => omega
  case lumaSrc =>
    rw [Nat.mul_comm]
    omega
  case chromaSrc => exact hpacked

end H264Encoder

/-! ## Both -/

/-- What the two repackings do together. `src` is the driver's buffer with `frameBytes` bytes of a
frame in it, `picture` the encoder's input buffer afterwards. -/
structure Repacked (cam : CameraDevice) (enc : H264Encoder) (bytesUsed : Nat) (src picture : Bytes) :
    Prop where
  size : picture.length = enc.inputBufferSize
  luma : ∀ r < cam.height, ∀ c < cam.width,
    picture[r * enc.virWidth + c]? = src[r * cam.sourceStride + c]?
  chroma : ∀ r < cam.height / 2, ∀ c < cam.width,
    picture[enc.virWidth * enc.virHeight + r * enc.virWidth + c]? =
      src[cam.sourceStride *
        deriveVirHeight (cam.frameBytes bytesUsed) cam.sourceStride cam.height +
          r * cam.sourceStride + c]?
  zero : ∀ i < enc.inputBufferSize,
    ¬ InImage cam.width cam.height enc.virWidth (enc.virWidth * enc.virHeight) i →
      picture[i]? = some 0
  /-- Reads of the source and writes of the compact image stay inside, -/
  capture : ∀ c ∈ cam.captureCopies bytesUsed,
    c.Within cam.getPackedFrameSize (cam.frameBytes bytesUsed)
  /-- reads of the compact image and writes of the input buffer too. -/
  input : ∀ c ∈ enc.inputCopies, c.Within enc.inputBufferSize cam.getPackedFrameSize
  captureDisjoint : (cam.captureCopies bytesUsed).Pairwise
    fun a b => ∀ i, a.Writes i → ¬ b.Writes i
  inputDisjoint : enc.inputCopies.Pairwise fun a b => ∀ i, a.Writes i → ¬ b.Writes i

/-- **Pixels survive both repackings**, and nothing else gets into the encoder's buffer. -/
theorem pixels_survive {σ : Type} {cam : CameraDevice} {enc : H264Encoder} (venc : Venc σ) (s : σ)
    {calls : CaptureCalls} {buf : DequeuedBuffer} {scratch : Bytes}
    (hready : calls.ready = true) (hbuf : calls.dequeued = some buf)
    (hwidth : 1 ≤ cam.width) (hstride : cam.width ≤ cam.sourceStride)
    (hlimit : cam.frameBytes buf.bytesUsed < 4294967296)
    (hplanes : 3 * cam.sourceStride * cam.height ≤ 2 * cam.frameBytes buf.bytesUsed)
    (hsrc : cam.frameBytes buf.bytesUsed ≤ (cam.buffers.getD buf.index []).length)
    (hscratch : scratch.length = cam.getPackedFrameSize)
    (hsameWidth : enc.width = cam.width) (hsameHeight : enc.height = cam.height)
    (hvirWidth : cam.width ≤ enc.virWidth) (hvirHeight : cam.height ≤ enc.virHeight)
    (hinput : enc.virWidth * enc.virHeight * 3 / 2 ≤ enc.inputBufferSize)
    (hmapped : enc.inputBuffer.isSome) :
    ∃ picture,
      (enc.encode venc s (cam.captureFrame calls scratch).2).2.1.inputBuffer = some picture ∧
        Repacked cam enc buf.bytesUsed (cam.buffers.getD buf.index []) picture := by
  have hcapture := CameraDevice.captureFits hwidth hstride hlimit hplanes
  have hfits : Fits enc.width enc.height enc.virWidth (enc.virWidth * enc.virHeight) enc.width
      (enc.width * enc.height) enc.inputBufferSize cam.getPackedFrameSize := by
    apply H264Encoder.inputFits (by omega) (by omega) hinput
    rw [hsameWidth, hsameHeight]
    exact CameraDevice.packed_le cam
  have hcleared : (List.replicate enc.inputBufferSize (0 : UInt8)).length = enc.inputBufferSize :=
    List.length_replicate
  rw [CameraDevice.captureFrame_eq scratch hready hbuf]
  generalize hpacked : runCopies scratch (cam.buffers.getD buf.index [])
    (cam.captureCopies buf.bytesUsed) = packed
  have hlen : cam.getPackedFrameSize ≤ packed.length := by
    rw [← hpacked]
    exact Nat.le_of_eq (hcapture.length_run hscratch hsrc).symm
  refine ⟨_, H264Encoder.encode_inputBuffer venc s packed hmapped, ?_⟩
  constructor
  case size => exact hfits.length_run hcleared hlen
  case luma =>
    intro r hr c hc
    calc _ = packed[r * enc.width + c]? :=
          hfits.luma hcleared hlen (hsameHeight ▸ hr) (hsameWidth ▸ hc)
      _ = packed[r * cam.width + c]? := by rw [hsameWidth]
      _ = _ := by
          rw [← hpacked]
          exact hcapture.luma hscratch hsrc hr hc
  case chroma =>
    intro r hr c hc
    calc _ = packed[enc.width * enc.height + r * enc.width + c]? :=
          hfits.chroma hcleared hlen (hsameHeight ▸ hr) (hsameWidth ▸ hc)
      _ = packed[cam.width * cam.height + r * cam.width + c]? := by rw [hsameWidth, hsameHeight]
      _ = _ := by
          rw [← hpacked]
          exact hcapture.chroma hscratch hsrc hr hc
  case zero =>
    intro i hi hout
    have helse := hfits.elsewhere hcleared hlen (i := i) (by rwa [hsameWidth, hsameHeight])
    rw [H264Encoder.inputCopies, helse, List.getElem?_replicate, if_pos hi]
  case capture => exact fun c hc => hcapture.within hc
  case input => exact fun c hc => hfits.within hc
  case captureDisjoint => exact hcapture.disjoint
  case inputDisjoint => exact hfits.disjoint

/-- A frame of two by two pixels in rows of four bytes, for an encoder with rows of four bytes. -/
theorem pixels_survive_two_by_two :
    let cam : CameraDevice := ⟨2, 2, 4, 12, [[1, 2, 9, 9, 3, 4, 9, 9, 5, 6, 9, 9]]⟩
    let enc : H264Encoder := ⟨2, 2, 0, 12, by decide, 4, 2, .yuv420sp, some []⟩
    let calls : CaptureCalls := ⟨true, some ⟨0, 12⟩, true⟩
    let venc : Venc Unit := ⟨fun s => (0, s), fun s _ => (0, s), fun s => (0, [], s),
      fun _ _ => none, fun s _ => s⟩
    (enc.encode venc () (cam.captureFrame calls [7, 7, 7, 7, 7, 7]).2).2.1.inputBuffer =
        some [1, 2, 0, 0, 3, 4, 0, 0, 5, 6, 0, 0] ∧
      ∃ picture,
        (enc.encode venc () (cam.captureFrame calls [7, 7, 7, 7, 7, 7]).2).2.1.inputBuffer =
          some picture ∧ Repacked cam enc 12 [1, 2, 9, 9, 3, 4, 9, 9, 5, 6, 9, 9] picture := by
  intro cam enc calls venc
  refine ⟨by decide +kernel, ?_⟩
  have hbuf : calls.dequeued = some ⟨0, 12⟩ := rfl
  have hscratch : [7, 7, 7, 7, 7, 7].length = cam.getPackedFrameSize := by decide
  exact pixels_survive venc () rfl hbuf (by decide) (by decide) (by decide) (by decide) (by decide)
    hscratch rfl rfl (by decide) (by decide) (by decide) rfl

end EdgeVision
