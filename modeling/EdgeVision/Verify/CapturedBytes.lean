import EdgeVision.Verify.CompactNv12

/-!
# The bytes that a capture reads

A capture copies whole planes out of a mapped buffer whatever the driver has put there. What it reads
was delivered exactly if the bytes of the frame hold the planes up to the last pixel of the last row
(`captured_bytes_iff`); the buffer goes back to the driver in any case.
-/

namespace EdgeVision

open Lib

/-- What a capture does with the driver and its memory. -/
inductive CaptureStep where
  | select
  | dequeue
  | copy (c : Copy)
  | requeue (index : Nat)
  deriving DecidableEq, Repr

namespace CaptureStep

def copied : CaptureStep → Option Copy
  | .copy c => some c
  | .select | .dequeue | .requeue _ => none

end CaptureStep

namespace CameraDevice

variable (cam : CameraDevice)

/-- The steps of a capture, in order. -/
def captureSteps (calls : CaptureCalls) : List CaptureStep :=
  .select ::
    if !calls.ready then []
    else
      .dequeue ::
        match calls.dequeued with
        | none => []
        | some buf => (cam.captureCopies buf.bytesUsed).map .copy ++ [.requeue buf.index]

/-- The buffer that a capture takes from the driver. -/
def taken (calls : CaptureCalls) : Option DequeuedBuffer :=
  if calls.ready then calls.dequeued else none

variable {cam} {calls : CaptureCalls} {buf : DequeuedBuffer}

theorem captureSteps_of_taken (h : taken calls = some buf) :
    cam.captureSteps calls = .select :: .dequeue ::
      ((cam.captureCopies buf.bytesUsed).map .copy ++ [.requeue buf.index]) := by
  unfold taken at h
  split at h
  · rename_i hready
    simp only [captureSteps, hready, h, Bool.not_true, Bool.false_eq_true, if_false]
  · cases h

/-- The copies among the steps make the captured frame. -/
theorem captureFrame_of_taken (outYuv : Bytes) (h : taken calls = some buf) :
    cam.captureFrame calls outYuv = (calls.requeued, runCopies outYuv
      (cam.buffers.getD buf.index []) ((cam.captureSteps calls).filterMap CaptureStep.copied)) := by
  have hcopies : (cam.captureSteps calls).filterMap CaptureStep.copied =
      cam.captureCopies buf.bytesUsed := by
    have hcopy : CaptureStep.copied ∘ CaptureStep.copy = some := rfl
    rw [captureSteps_of_taken h, List.filterMap_cons_none rfl, List.filterMap_cons_none rfl,
      List.filterMap_append, List.filterMap_map, hcopy, List.filterMap_some]
    exact List.append_nil _
  unfold taken at h
  split at h
  · rename_i hready
    rw [captureFrame_eq outYuv hready h, hcopies]
  · cases h

end CameraDevice

/-! ## What rows read -/

section Rows

variable {dstAt dstStride srcAt srcStride rows n limit : Nat}

/-- The bytes that a copy reads lie below a limit. -/
def Copy.ReadsBelow (c : Copy) (limit : Nat) : Prop := ∀ k < c.size, c.srcAt + k < limit

theorem Copy.readsBelow_iff {c : Copy} : c.ReadsBelow limit ↔ c.size = 0 ∨ c.srcAt + c.size ≤ limit := by
  constructor
  · intro h
    rcases Nat.eq_zero_or_pos c.size with hzero | hpos
    · exact .inl hzero
    · have hlast := h (c.size - 1) (by omega)
      omega
  · intro h k hk
    omega

/-- Rows read up to the end of the last one. -/
theorem rowCopies_below_iff :
    (∀ c ∈ rowCopies dstAt dstStride srcAt srcStride rows n, c.ReadsBelow limit) ↔
      rows = 0 ∨ n = 0 ∨ srcAt + (rows - 1) * srcStride + n ≤ limit := by
  constructor
  · intro h
    rcases Nat.eq_zero_or_pos rows with hzero | hpos
    · exact .inl hzero
    · have hlast := h _ (mem_rowCopies.mpr ⟨rows - 1, by omega, rfl⟩)
      exact .inr (Copy.readsBelow_iff.mp hlast)
  · intro h c hc
    obtain ⟨row, hrow, rfl⟩ := mem_rowCopies.mp hc
    have hmono : row * srcStride ≤ (rows - 1) * srcStride := Nat.mul_le_mul_right _ (by omega)
    rw [Copy.readsBelow_iff]
    simp only
    omega

end Rows

/-! ## Whole frames -/

namespace CameraDevice

variable (cam : CameraDevice)

/-- A capture that reports a frame has read delivered bytes only. -/
def ReadsDelivered (calls : CaptureCalls) (outYuv : Bytes) : Prop :=
  (cam.captureFrame calls outYuv).1 = true →
    ∀ buf, taken calls = some buf → ∀ c, CaptureStep.copy c ∈ cam.captureSteps calls →
      c.ReadsBelow (cam.frameBytes buf.bytesUsed)

/-- The buffer that a capture has taken is handed back in its last step. -/
def Requeues (calls : CaptureCalls) : Prop :=
  ∀ buf, taken calls = some buf →
    (cam.captureSteps calls).getLast? = some (.requeue buf.index)

/-- The bytes of a frame hold its planes. The chroma plane begins two thirds into the bytes, or
behind the visible rows if these end later. -/
def HoldsFrame (bytesUsed : Nat) : Prop :=
  cam.width = 0 ∨ cam.height = 0 ∨
    cam.sourceStride * (cam.height + cam.height / 2 - 1) + cam.width ≤ cam.frameBytes bytesUsed ∧
      (cam.height = 1 ∨
        cam.sourceStride * (cam.frameBytes bytesUsed * 2 / (cam.sourceStride * 3) +
          cam.height / 2 - 1) + cam.width ≤ cam.frameBytes bytesUsed)

instance (bytesUsed : Nat) : Decidable (cam.HoldsFrame bytesUsed) := by
  unfold HoldsFrame
  infer_instance

variable {cam}

theorem deriveVirHeight_eq {sizeImage stride : Nat} (height : Nat) (hstride : 0 < stride)
    (hsize : sizeImage < 4294967296) :
    deriveVirHeight sizeImage stride height = max (sizeImage * 2 / (stride * 3)) height := by
  have hle : sizeImage * 2 / (stride * 3) ≤ sizeImage * 2 / 3 :=
    Nat.div_le_div_left (by omega) (by omega)
  have hmod : sizeImage * 2 / (stride * 3) % 4294967296 = sizeImage * 2 / (stride * 3) :=
    Nat.mod_eq_of_lt (by omega)
  unfold deriveVirHeight
  split
  · rename_i hzero
    obtain rfl : sizeImage = 0 := by omega
    simp
  · simp only [show stride * 3 ≠ 0 by omega, if_false, hmod]

/-- The last of some rows behind the first `start`. -/
theorem last_row (stride start : Nat) {rows : Nat} (h : 1 ≤ rows) :
    stride * (start + rows - 1) = stride * start + (rows - 1) * stride := by
  rw [Nat.add_sub_assoc h, Nat.mul_add, Nat.mul_comm stride (rows - 1)]

theorem captureCopies_below_iff {bytesUsed : Nat} (hlimit : cam.frameBytes bytesUsed < 4294967296) :
    (∀ c ∈ cam.captureCopies bytesUsed, c.ReadsBelow (cam.frameBytes bytesUsed)) ↔
      cam.HoldsFrame bytesUsed := by
  rw [captureCopies, nv12Copies]
  simp only [List.forall_mem_append, rowCopies_below_iff, HoldsFrame]
  by_cases hwidth : cam.width = 0
  · simp [hwidth]
  have hstride : 0 < cam.sourceStride := by
    unfold sourceStride
    split <;> omega
  have hluma : (cam.height - 1) * cam.sourceStride ≤ cam.sourceStride * cam.height := by
    rw [Nat.mul_comm]
    exact Nat.mul_le_mul_left _ (Nat.sub_le _ _)
  rw [runtimeVirHeight, deriveVirHeight_eq cam.height hstride hlimit]
  obtain hsmall | hone | htwo : cam.height = 0 ∨ cam.height = 1 ∨ 1 ≤ cam.height / 2 := by omega
  · simp [hsmall]
  · simp [hone]
  · rw [last_row _ _ htwo, last_row _ _ htwo, ← Nat.mul_max_mul_left]
    omega

/-- With rows of at least the width, it is enough that the visible rows fit. -/
theorem holdsFrame_iff_of_stride {bytesUsed : Nat} (hstride : cam.width ≤ cam.sourceStride) :
    cam.HoldsFrame bytesUsed ↔ cam.width = 0 ∨ cam.height = 0 ∨
      cam.sourceStride * (cam.height + cam.height / 2 - 1) + cam.width ≤
        cam.frameBytes bytesUsed := by
  unfold HoldsFrame
  obtain hsmall | hone | htwo : cam.height = 0 ∨ cam.height = 1 ∨ 1 ≤ cam.height / 2 := by omega
  · simp [hsmall]
  · simp [hone]
  · rw [last_row _ _ htwo, last_row _ _ htwo]
    have hbegin := Nat.mul_div_le (cam.frameBytes bytesUsed * 2) (cam.sourceStride * 3)
    generalize cam.frameBytes bytesUsed * 2 / (cam.sourceStride * 3) = begins at hbegin ⊢
    refine or_congr_right (or_congr_right (and_iff_left_of_imp fun hvisible => .inr ?_))
    rcases Nat.le_total begins cam.height with hle | hge
    · have hmono := Nat.mul_le_mul_left cam.sourceStride hle
      omega
    · -- two thirds of the bytes lie before the chroma plane, and its rows are half as many
      have hmono := Nat.mul_le_mul_left cam.sourceStride hge
      have hhalf := half_rows_le cam.height cam.sourceStride
      have hrow : (cam.height / 2 - 1) * cam.sourceStride + cam.sourceStride =
          cam.height / 2 * cam.sourceStride := by
        rw [← Nat.succ_mul]
        congr 1
        omega
      rw [Nat.mul_right_comm] at hbegin
      rw [Nat.mul_comm cam.height] at hhalf
      omega

theorem requeues (cam : CameraDevice) (calls : CaptureCalls) : cam.Requeues calls := by
  intro buf hbuf
  rw [captureSteps_of_taken hbuf, ← List.cons_append, ← List.cons_append]
  exact List.getLast?_concat

/-- **The bytes of a capture**: it reads delivered bytes only, and hands the buffer back, exactly if
it takes no buffer, fails to hand it back, or has a frame in it whose bytes hold the planes. -/
theorem captured_bytes_iff {calls : CaptureCalls} (outYuv : Bytes)
    (hsize : cam.sizeImage < 4294967296)
    (hused : ∀ buf, calls.dequeued = some buf → buf.bytesUsed < 4294967296) :
    (cam.ReadsDelivered calls outYuv ∧ cam.Requeues calls) ↔
      ∀ buf, taken calls = some buf → calls.requeued = true → cam.HoldsFrame buf.bytesUsed := by
  have hcopies {buf : DequeuedBuffer} (hbuf : taken calls = some buf) :
      (∀ c, CaptureStep.copy c ∈ cam.captureSteps calls →
        c.ReadsBelow (cam.frameBytes buf.bytesUsed)) ↔ cam.HoldsFrame buf.bytesUsed := by
    have hlimit : cam.frameBytes buf.bytesUsed < 4294967296 := by
      have hdequeued : calls.dequeued = some buf := by
        unfold taken at hbuf
        split at hbuf
        · exact hbuf
        · cases hbuf
      have hbytes := hused buf hdequeued
      unfold frameBytes
      split <;> omega
    rw [captureSteps_of_taken hbuf, ← captureCopies_below_iff hlimit]
    simp
  rw [and_iff_left (requeues cam calls)]
  constructor
  · intro h buf hbuf hrequeued
    have hreported : (cam.captureFrame calls outYuv).1 = true := by
      rw [captureFrame_of_taken outYuv hbuf]
      exact hrequeued
    exact (hcopies hbuf).mp (h hreported buf hbuf)
  · intro h hreported buf hbuf
    rw [captureFrame_of_taken outYuv hbuf] at hreported
    exact (hcopies hbuf).mpr (h buf hbuf hreported)

/-- A frame of two by two pixels that is whole, and the same one cut after its first row. -/
theorem captured_bytes_two_by_two :
    let cam : CameraDevice := ⟨2, 2, 4, 12, [List.replicate 12 0]⟩
    (cam.ReadsDelivered ⟨true, some ⟨0, 12⟩, true⟩ [] ∧ cam.Requeues ⟨true, some ⟨0, 12⟩, true⟩) ∧
      ¬ (cam.ReadsDelivered ⟨true, some ⟨0, 4⟩, true⟩ [] ∧
        cam.Requeues ⟨true, some ⟨0, 4⟩, true⟩) := by
  intro cam
  have hsize : cam.sizeImage < 4294967296 := by decide
  have hwhole : cam.HoldsFrame 12 := by decide
  have hcut : ¬ cam.HoldsFrame 4 := by decide
  refine ⟨(captured_bytes_iff [] hsize ?_).mpr ?_, fun h => hcut ?_⟩
  · rintro buf ⟨⟩
    decide
  · rintro buf ⟨⟩ -
    exact hwhole
  · refine (captured_bytes_iff [] hsize ?_).mp h ⟨0, 4⟩ rfl rfl
    rintro buf ⟨⟩
    decide

/-- A short frame: a thousand bytes of a full-HD picture are reported, and all of it is copied. -/
theorem short_frame_is_copied :
    ¬ ∀ (cam : CameraDevice) (calls : CaptureCalls) (outYuv : Bytes),
      (∀ buf, calls.dequeued = some buf →
        buf.bytesUsed ≤ (cam.buffers.getD buf.index []).length) →
      cam.ReadsDelivered calls outYuv ∧ cam.Requeues calls := by
  intro hclaim
  let cam : CameraDevice := ⟨1920, 1080, 1920, 3110400, [List.replicate 3110400 0]⟩
  let calls : CaptureCalls := ⟨true, some ⟨0, 1000⟩, true⟩
  have hmapped : ∀ buf, calls.dequeued = some buf →
      buf.bytesUsed ≤ (cam.buffers.getD buf.index []).length := by
    rintro buf ⟨⟩
    have hlength : (cam.buffers.getD 0 []).length = 3110400 := List.length_replicate
    rw [hlength]
    decide
  have htaken : taken calls = some ⟨0, 1000⟩ := rfl
  have hreported : (cam.captureFrame calls []).1 = true := by
    rw [captureFrame_of_taken [] htaken]
  -- the second row of the picture
  have hcopy : CaptureStep.copy ⟨1920, 1920, 1920⟩ ∈ cam.captureSteps calls := by
    have hrow : (⟨1920, 1920, 1920⟩ : Copy) ∈ cam.captureCopies 1000 :=
      List.mem_append_left _ (mem_rowCopies.mpr ⟨1, by decide, rfl⟩)
    rw [captureSteps_of_taken htaken]
    exact List.mem_cons_of_mem _ (List.mem_cons_of_mem _
      (List.mem_append_left _ (List.mem_map_of_mem hrow)))
  have hread := (hclaim cam calls [] hmapped).1 hreported _ htaken _ hcopy 0 (by decide)
  exact absurd hread (by decide)

end CameraDevice

end EdgeVision
