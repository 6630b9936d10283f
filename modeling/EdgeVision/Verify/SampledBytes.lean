import EdgeVision.Ai.FloatLetterbox
import EdgeVision.Verify.Letterbox

/-!
# The bytes that the letterbox reads

The bytes that `fillLetterboxedRgb` reads are those that `captureFrame` wrote exactly when the last
pixel it samples has its chroma among them (`samples_captured_iff`). Which pixel that is depends on the
rounding of `float`; that no other lies behind it follows from its monotonicity alone. Without
rounding the function is that of the exact letterbox (`fillLetterboxedRgb_exact`).
-/

namespace EdgeVision

open Lib

/-! ## The bytes of a capture -/

/-- The index is written by a capture. -/
def CameraDevice.Captured (cam : CameraDevice) (bytesUsed i : Nat) : Prop :=
  ∃ c ∈ cam.captureCopies bytesUsed, c.Writes i

/-- Rows without a gap write everything. -/
theorem exists_rowCopies_writes {start width rows i : Nat} (srcAt srcStride : Nat)
    (hwidth : 1 ≤ width) (hi : start ≤ i) (hlt : i < start + rows * width) :
    ∃ c ∈ rowCopies start width srcAt srcStride rows width, c.Writes i := by
  have hrow : (i - start) / width < rows := (Nat.div_lt_iff_lt_mul (by omega)).mpr (by omega)
  refine ⟨_, mem_rowCopies.mpr ⟨(i - start) / width, hrow, rfl⟩, ?_⟩
  have hdiv := Nat.div_mul_le_self (i - start) width
  have hmod := Nat.lt_div_mul_add (a := i - start) (b := width) (by omega)
  simp only [Copy.Writes]
  omega

/-- A capture writes the compact image. -/
theorem CameraDevice.captured_iff {cam : CameraDevice} (bytesUsed : Nat) {i : Nat}
    (hwidth : 1 ≤ cam.width) :
    cam.Captured bytesUsed i ↔ i < cam.width * cam.height + cam.height / 2 * cam.width := by
  unfold Captured captureCopies nv12Copies
  constructor
  · rintro ⟨c, hc, hwrites⟩
    simp only [Copy.Writes] at hwrites
    rcases List.mem_append.mp hc with hc | hc
    · obtain ⟨r, hr, rfl⟩ := mem_rowCopies.mp hc
      have hend := row_end_le (Nat.le_refl cam.width) hr
      rw [Nat.mul_comm cam.height] at hend
      simp only at hwrites
      omega
    · obtain ⟨r, hr, rfl⟩ := mem_rowCopies.mp hc
      have hend := row_end_le (Nat.le_refl cam.width) hr
      simp only at hwrites
      omega
  · intro hlt
    by_cases hluma : i < cam.width * cam.height
    · have hrows : i < 0 + cam.height * cam.width := by
        rw [Nat.zero_add, Nat.mul_comm]
        exact hluma
      obtain ⟨c, hc, hwrites⟩ :=
        exists_rowCopies_writes 0 cam.sourceStride hwidth (Nat.zero_le i) hrows
      exact ⟨c, List.mem_append_left _ hc, hwrites⟩
    · obtain ⟨c, hc, hwrites⟩ := exists_rowCopies_writes
        (cam.sourceStride * cam.runtimeVirHeight bytesUsed) cam.sourceStride hwidth
        (Nat.le_of_not_lt hluma) hlt
      exact ⟨c, List.mem_append_right _ hc, hwrites⟩

namespace FloatLetterbox

/-! ## One axis -/

theorem scale_pos (fl : Rounding) {width height dstWidth dstHeight : Nat} (hwidth : 1 ≤ width)
    (hheight : 1 ≤ height) (hdstWidth : 1 ≤ dstWidth) (hdstHeight : 1 ≤ dstHeight) :
    0 < scale fl width height dstWidth dstHeight := by
  have hpos {n : Nat} (h : 1 ≤ n) : 0 < fl n := fl.pos (by exact_mod_cast h)
  exact lt_min (fl.pos (div_pos (hpos hdstWidth) (hpos hwidth)))
    (fl.pos (div_pos (hpos hdstHeight) (hpos hheight)))

section Axis

variable {fl : Rounding} {size : Nat} {scale : Rat}

theorem resizedSize_pos {resized : Int} (h : resizedSize fl size scale = some resized) :
    1 ≤ resized := by
  obtain ⟨_, -, rfl⟩ := Option.map_eq_some_iff.mp h
  exact le_max_left _ _

/-- The quotient before the conversion. -/
theorem quotient_nonneg (hscale : 0 < scale) (x : Nat) : 0 ≤ fl (fl x / scale) :=
  fl.nonneg (div_nonneg (fl.nonneg (Nat.cast_nonneg x)) hscale.le)

/-- The source index of a window index, as a floor. -/
theorem sourceIndex_eq_some_iff (hscale : 0 < scale) {x j : Nat} :
    sourceIndex fl size scale x = some j ↔
      ⌊fl (fl x / scale)⌋ ≤ 2147483647 ∧ j = min (size - 1) ⌊fl (fl x / scale)⌋.toNat := by
  have hfloor : 0 ≤ ⌊fl (fl x / scale)⌋ := Int.floor_nonneg.mpr (quotient_nonneg hscale x)
  rw [sourceIndex, ExtRat.truncate_of_nonneg (quotient_nonneg hscale x), Option.map_eq_some_iff]
  constructor
  · rintro ⟨i, hi, rfl⟩
    obtain ⟨⟨-, hle⟩, rfl⟩ := checkedInt_eq_some_iff.mp hi
    exact ⟨hle, by omega⟩
  · rintro ⟨hle, rfl⟩
    exact ⟨_, checkedInt_eq_some_iff.mpr ⟨⟨by omega, hle⟩, rfl⟩, by omega⟩

theorem sourceIndex_lt (hsize : 1 ≤ size) (hscale : 0 < scale) {x j : Nat}
    (h : sourceIndex fl size scale x = some j) : j < size := by
  obtain ⟨-, rfl⟩ := (sourceIndex_eq_some_iff hscale).mp h
  omega

/-- A rounding keeps the order of the window in the source, and the range of the conversion. -/
theorem sourceIndex_mono (hscale : 0 < scale) {x x' j' : Nat} (hle : x ≤ x')
    (h : sourceIndex fl size scale x' = some j') :
    ∃ j, sourceIndex fl size scale x = some j ∧ j ≤ j' := by
  obtain ⟨hrange, rfl⟩ := (sourceIndex_eq_some_iff hscale).mp h
  have hcast : (x : Rat) ≤ x' := by exact_mod_cast hle
  have hfloor : ⌊fl (fl x / scale)⌋ ≤ ⌊fl (fl x' / scale)⌋ :=
    Int.floor_le_floor (fl.monotone (div_le_div_of_nonneg_right (fl.monotone hcast) hscale.le))
  exact ⟨_, (sourceIndex_eq_some_iff hscale).mpr ⟨hfloor.trans hrange, rfl⟩, by omega⟩

end Axis

/-! ## The bytes of the window -/

/-- The bytes that the loop body reads. -/
def pixelReads (fl : Rounding) (width height : Nat) (scale : Rat) (p : Nat × Nat) :
    Option (List Nat) := do
  let srcY ← sourceIndex fl height scale p.2
  let srcX ← sourceIndex fl width scale p.1
  some (sampleReads width height srcX srcY)

def windowReads (fl : Rounding) (width height : Nat) (scale : Rat) :
    List (Nat × Nat) → Option (List Nat)
  | [] => some []
  | p :: pixels => do
    let reads ← pixelReads fl width height scale p
    let rest ← windowReads fl width height scale pixels
    some (reads ++ rest)

/-- The bytes that `fillLetterboxedRgb` reads. -/
def letterboxReads (fl : Rounding) (width height dstWidth dstHeight : Nat) : Option (List Nat) := do
  let info ← letterboxInfo fl width height dstWidth dstHeight
  windowReads fl width height info.scale (windowPixels info)

/-- What holds of all bytes holds of those of each pixel. -/
theorem windowReads_iff {fl : Rounding} {width height : Nat} {scale : Rat} (P : Nat → Prop)
    (pixels : List (Nat × Nat)) :
    (∃ reads, windowReads fl width height scale pixels = some reads ∧ ∀ i ∈ reads, P i) ↔
      ∀ p ∈ pixels, ∃ reads, pixelReads fl width height scale p = some reads ∧
        ∀ i ∈ reads, P i := by
  induction pixels with
  | nil => simp [windowReads]
  | cons p pixels ih =>
    rw [List.forall_mem_cons, ← ih]
    simp only [windowReads, Option.bind_eq_bind, Option.bind_eq_some_iff, Option.some.injEq]
    constructor
    · rintro ⟨_, ⟨reads, hreads, rest, hrest, rfl⟩, hall⟩
      obtain ⟨hhead, htail⟩ := List.forall_mem_append.mp hall
      exact ⟨⟨reads, hreads, hhead⟩, rest, hrest, htail⟩
    · rintro ⟨⟨reads, hreads, hhead⟩, rest, hrest, htail⟩
      exact ⟨_, ⟨reads, hreads, rest, hrest, rfl⟩, List.forall_mem_append.mpr ⟨hhead, htail⟩⟩

theorem pixelWrites_isSome_iff (fl : Rounding) (frame : CapturedFrame) (info : LetterboxInfo)
    (dstWidth x y : Nat) :
    (pixelWrites fl frame info dstWidth x y).isSome ↔
      ∃ reads, pixelReads fl frame.width frame.height info.scale (x, y) = some reads ∧
        ∀ i ∈ reads, i < frame.nv12.length := by
  unfold pixelWrites pixelReads
  cases sourceIndex fl frame.height info.scale y with
  | none => simp
  | some srcY =>
    cases sourceIndex fl frame.width info.scale x with
    | none => simp
    | some srcX => simp [sampleRgb_isSome_iff]

theorem letterboxWrites_isSome_iff (fl : Rounding) (frame : CapturedFrame) (info : LetterboxInfo)
    (dstWidth : Nat) (pixels : List (Nat × Nat)) :
    (letterboxWrites fl frame info dstWidth pixels).isSome ↔
      ∀ p ∈ pixels, (pixelWrites fl frame info dstWidth p.1 p.2).isSome := by
  induction pixels with
  | nil => simp [letterboxWrites]
  | cons p pixels ih =>
    obtain ⟨x, y⟩ := p
    rw [List.forall_mem_cons, ← ih]
    simp only [letterboxWrites, Option.bind_eq_bind]
    cases pixelWrites fl frame info dstWidth x y with
    | none => simp
    | some writes => cases letterboxWrites fl frame info dstWidth pixels <;> simp

/-- These are the bytes it reads: it goes through exactly when they are all in the vector. -/
theorem fillLetterboxedRgb_isSome_iff (fl : Rounding) (frame : CapturedFrame)
    (dstWidth dstHeight : Nat) :
    (fillLetterboxedRgb fl frame dstWidth dstHeight).isSome ↔
      ∃ reads, letterboxReads fl frame.width frame.height dstWidth dstHeight = some reads ∧
        ∀ i ∈ reads, i < frame.nv12.length := by
  unfold fillLetterboxedRgb letterboxReads
  cases letterboxInfo fl frame.width frame.height dstWidth dstHeight with
  | none => simp
  | some info =>
    have hwrites := letterboxWrites_isSome_iff fl frame info dstWidth (windowPixels info)
    simp only [pixelWrites_isSome_iff] at hwrites
    simp only [Option.bind_eq_bind, Option.bind_some, windowReads_iff, ← hwrites]
    cases letterboxWrites fl frame info dstWidth (windowPixels info) <;> simp

/-! ## The last sample -/

/-- The last index sampled on an axis of `size` pixels: the sample of the last window index. -/
def lastSample (fl : Rounding) (size : Nat) (scale : Rat) : Option Nat := do
  let resized ← resizedSize fl size scale
  sourceIndex fl size scale (resized.toNat - 1)

section Window

variable {fl : Rounding} {width height dstWidth dstHeight : Nat}

/-- Both axes have a last sample when the window has a size and its last pixel a source. -/
theorem letterboxInfo_of_lastSample {lx ly : Nat}
    (hx : lastSample fl width (scale fl width height dstWidth dstHeight) = some lx)
    (hy : lastSample fl height (scale fl width height dstWidth dstHeight) = some ly) :
    ∃ info, letterboxInfo fl width height dstWidth dstHeight = some info ∧
      info.scale = scale fl width height dstWidth dstHeight ∧
      sourceIndex fl width info.scale (info.resizedWidth.toNat - 1) = some lx ∧
      sourceIndex fl height info.scale (info.resizedHeight.toNat - 1) = some ly := by
  obtain ⟨resizedWidth, hwidth, hsourceX⟩ := Option.bind_eq_some_iff.mp hx
  obtain ⟨resizedHeight, hheight, hsourceY⟩ := Option.bind_eq_some_iff.mp hy
  simp only [letterboxInfo, hwidth, hheight, Option.bind_eq_bind, Option.bind_some,
    Option.some.injEq, exists_eq_left', true_and]
  exact ⟨hsourceX, hsourceY⟩

/-- The parts of the geometry. -/
theorem letterboxInfo_eq_some {info : LetterboxInfo}
    (h : letterboxInfo fl width height dstWidth dstHeight = some info) :
    info.scale = scale fl width height dstWidth dstHeight ∧
      resizedSize fl width info.scale = some info.resizedWidth ∧
      resizedSize fl height info.scale = some info.resizedHeight := by
  simp only [letterboxInfo, Option.bind_eq_bind, Option.bind_eq_some_iff, Option.some.injEq] at h
  obtain ⟨resizedWidth, hwidth, resizedHeight, hheight, rfl⟩ := h
  exact ⟨rfl, hwidth, hheight⟩

end Window

/-! ## Reads and captured bytes -/

section Captured

variable {fl : Rounding} {cam : CameraDevice} {dstWidth dstHeight : Nat}

/-- A byte that a capture for this camera gives the frame. -/
def Given (cam : CameraDevice) (bytesUsed i : Nat) : Prop :=
  i < cam.getPackedFrameSize ∧ cam.Captured bytesUsed i

/-- The last pixel of the window is one of those whose bytes are read. -/
theorem lastSample_of_reads (bytesUsed : Nat) (hwidth : 1 ≤ cam.width) (hheight : 1 ≤ cam.height)
    (hdstWidth : 1 ≤ dstWidth) (hdstHeight : 1 ≤ dstHeight) {reads : List Nat}
    (hreads : letterboxReads fl cam.width cam.height dstWidth dstHeight = some reads)
    (hgiven : ∀ i ∈ reads, Given cam bytesUsed i) :
    ∃ lx ly, lastSample fl cam.width (scale fl cam.width cam.height dstWidth dstHeight) = some lx ∧
      lastSample fl cam.height (scale fl cam.width cam.height dstWidth dstHeight) = some ly ∧
      ly / 2 < cam.height / 2 ∧
      ¬ (cam.width % 2 = 1 ∧ lx + 1 = cam.width ∧ ly / 2 + 1 = cam.height / 2) := by
  obtain ⟨info, hinfo, hwindow⟩ := Option.bind_eq_some_iff.mp hreads
  obtain ⟨hscale, hresizedX, hresizedY⟩ := letterboxInfo_eq_some hinfo
  have hpos : 0 < info.scale := hscale ▸ scale_pos fl hwidth hheight hdstWidth hdstHeight
  have hlast : (info.resizedWidth.toNat - 1, info.resizedHeight.toNat - 1) ∈ windowPixels info := by
    have hposX := resizedSize_pos hresizedX
    have hposY := resizedSize_pos hresizedY
    exact mem_windowPixels.mpr ⟨by omega, by omega⟩
  obtain ⟨own, hown, hall⟩ :=
    (windowReads_iff (Given cam bytesUsed) _).mp ⟨reads, hwindow, hgiven⟩ _ hlast
  simp only [pixelReads, Option.bind_eq_bind, Option.bind_eq_some_iff, Option.some.injEq] at hown
  obtain ⟨ly, hly, lx, hlx, rfl⟩ := hown
  have hchroma := (hall (uvIndex cam.width cam.height lx ly + 1) (by simp [sampleReads])).2
  refine ⟨lx, ly, ?_, ?_, ?_⟩
  · rw [← hscale, lastSample, hresizedX]
    exact hlx
  · rw [← hscale, lastSample, hresizedY]
    exact hly
  · rw [CameraDevice.captured_iff bytesUsed hwidth] at hchroma
    exact (uvIndex_lt_iff (sourceIndex_lt hwidth hpos hlx) cam.height ly).mp hchroma

/-- No pixel of the window lies behind its last one. -/
theorem reads_of_lastSample (bytesUsed : Nat) (hwidth : 1 ≤ cam.width) (hheight : 1 ≤ cam.height)
    (hdstWidth : 1 ≤ dstWidth) (hdstHeight : 1 ≤ dstHeight) {lx ly : Nat}
    (hx : lastSample fl cam.width (scale fl cam.width cam.height dstWidth dstHeight) = some lx)
    (hy : lastSample fl cam.height (scale fl cam.width cam.height dstWidth dstHeight) = some ly)
    (hrow : ly / 2 < cam.height / 2)
    (hcolumn : ¬ (cam.width % 2 = 1 ∧ lx + 1 = cam.width ∧ ly / 2 + 1 = cam.height / 2)) :
    ∃ reads, letterboxReads fl cam.width cam.height dstWidth dstHeight = some reads ∧
      ∀ i ∈ reads, Given cam bytesUsed i := by
  obtain ⟨info, hinfo, hscale, hlastX, hlastY⟩ := letterboxInfo_of_lastSample hx hy
  have hpos : 0 < info.scale := hscale ▸ scale_pos fl hwidth hheight hdstWidth hdstHeight
  simp only [letterboxReads, hinfo, Option.bind_eq_bind, Option.bind_some, windowReads_iff]
  intro p hp
  obtain ⟨hp1, hp2⟩ := mem_windowPixels.mp hp
  obtain ⟨srcX, hsrcX, hleX⟩ :=
    sourceIndex_mono hpos (show p.1 ≤ info.resizedWidth.toNat - 1 by omega) hlastX
  obtain ⟨srcY, hsrcY, hleY⟩ :=
    sourceIndex_mono hpos (show p.2 ≤ info.resizedHeight.toNat - 1 by omega) hlastY
  have hlastLt := sourceIndex_lt hwidth hpos hlastX
  have hltX := sourceIndex_lt hwidth hpos hsrcX
  have hltY := sourceIndex_lt hheight hpos hsrcY
  have hluma := yIndex_lt hltX hltY
  have hchroma := (uvIndex_lt_iff hltX cam.height srcY).mpr ⟨by omega, by omega⟩
  have hpacked := CameraDevice.packed_le cam
  refine ⟨sampleReads cam.width cam.height srcX srcY, ?_, ?_⟩
  · simp only [pixelReads, hsrcX, hsrcY, Option.bind_eq_bind, Option.bind_some]
  · intro i hi
    simp only [Given, CameraDevice.captured_iff bytesUsed hwidth]
    simp only [sampleReads, List.mem_cons, List.not_mem_nil, or_false] at hi
    omega

end Captured

/-- **When the letterbox reads captured bytes only.** For every rounding, every byte it reads is
inside the packed size and written by the capture exactly when the last row it samples has chroma,
and, when the last column of an odd width is sampled, the last row it samples is above the last row
of chroma. -/
theorem samples_captured_iff (fl : Rounding) (cam : CameraDevice) (bytesUsed : Nat)
    {dstWidth dstHeight : Nat} (hwidth : 1 ≤ cam.width) (hheight : 1 ≤ cam.height)
    (hdstWidth : 1 ≤ dstWidth) (hdstHeight : 1 ≤ dstHeight) :
    (∃ reads, letterboxReads fl cam.width cam.height dstWidth dstHeight = some reads ∧
      ∀ i ∈ reads, i < cam.getPackedFrameSize ∧ cam.Captured bytesUsed i) ↔
    ∃ lx ly, lastSample fl cam.width (scale fl cam.width cam.height dstWidth dstHeight) = some lx ∧
      lastSample fl cam.height (scale fl cam.width cam.height dstWidth dstHeight) = some ly ∧
      ly / 2 < cam.height / 2 ∧
      ¬ (cam.width % 2 = 1 ∧ lx + 1 = cam.width ∧ ly / 2 + 1 = cam.height / 2) := by
  constructor
  · rintro ⟨reads, hreads, hgiven⟩
    exact lastSample_of_reads bytesUsed hwidth hheight hdstWidth hdstHeight hreads hgiven
  · rintro ⟨lx, ly, hx, hy, hrow, hcolumn⟩
    exact reads_of_lastSample bytesUsed hwidth hheight hdstWidth hdstHeight hx hy hrow hcolumn

/-- In `float` the way back from a frame of five by thirty-one pixels ends one row earlier than
without rounding, at the last row that has chroma. -/
theorem samples_captured_iff_five_by_thirty_one :
    let cam : CameraDevice := ⟨5, 31, 8, 400, []⟩
    lastSample .exact 31 (scale .exact 5 31 3 19) = some 30 ∧
      ∃ reads, letterboxReads .binary32 cam.width cam.height 3 19 = some reads ∧
        ∀ i ∈ reads, i < cam.getPackedFrameSize ∧ cam.Captured 400 i := by
  intro cam
  refine ⟨by decide +kernel, ?_⟩
  exact (samples_captured_iff .binary32 cam 400 (by decide) (by decide) (by decide)
    (by decide)).mpr ⟨3, 29, by decide +kernel, by decide +kernel, by decide, by decide⟩

/-- A frame of three by three pixels: the chroma of its last pixel is behind its bytes. -/
theorem samples_not_captured :
    ¬ ∀ (cam : CameraDevice) (bytesUsed dstWidth dstHeight : Nat), 1 ≤ cam.width → 1 ≤ cam.height →
      1 ≤ dstWidth → 1 ≤ dstHeight →
        ∃ reads, letterboxReads .binary32 cam.width cam.height dstWidth dstHeight = some reads ∧
          ∀ i ∈ reads, i < cam.getPackedFrameSize ∧ cam.Captured bytesUsed i := by
  intro h
  obtain ⟨reads, hreads, hall⟩ :=
    h ⟨3, 3, 3, 13, []⟩ 13 3 3 (by decide) (by decide) (by decide) (by decide)
  have hread : (letterboxReads .binary32 3 3 3 3).map (decide <| 14 ∈ ·) = some true := by
    decide +kernel
  change letterboxReads .binary32 3 3 3 3 = some reads at hreads
  rw [hreads, Option.map_some, Option.some.injEq, decide_eq_true_eq] at hread
  exact absurd (hall 14 hread).1 (by decide)

/-! ## Conversions in range -/

section Range

variable {fl : Rounding}

/-- A few roundings change a number by less than a half. -/
theorem pow_unit_le (hunit : fl.unit ≤ 1 / 16) {n : Nat} (hn : n ≤ 4) :
    (1 + fl.unit) ^ n ≤ 3 / 2 := by
  have hone : 1 ≤ 1 + fl.unit := le_add_of_nonneg_right fl.unit_nonneg
  calc (1 + fl.unit) ^ n ≤ (1 + fl.unit) ^ 4 := pow_le_pow_right₀ hone hn
    _ ≤ (1 + 1 / 16) ^ 4 := pow_le_pow_left₀ (zero_le_one.trans hone) (by linarith) 4
    _ ≤ 3 / 2 := by norm_num

variable (hunit : fl.unit ≤ 1 / 16) {size dst : Nat} {scale : Rat} (hsize : 1 ≤ size)
  (hscale : 0 < scale) (hle : scale ≤ fl (fl dst / fl size)) (hdst : dst ≤ 2 ^ 30)

include hsize hle in
/-- The product that gives the size of the window. -/
theorem product_le : fl (fl size * scale) ≤ (1 + fl.unit) ^ 3 * dst := by
  have habove : 0 ≤ 1 + fl.unit := add_nonneg zero_le_one fl.unit_nonneg
  have hpos : 0 < fl size := fl.pos (by exact_mod_cast hsize)
  have hquot : 0 ≤ fl dst / fl size := div_nonneg (fl.nonneg (Nat.cast_nonneg dst)) hpos.le
  have hprod : fl size * scale ≤ fl size * fl (fl dst / fl size) :=
    mul_le_mul_of_nonneg_left hle hpos.le
  calc fl (fl size * scale) ≤ fl (fl size * fl (fl dst / fl size)) := fl.monotone hprod
    _ ≤ (1 + fl.unit) * (fl size * fl (fl dst / fl size)) :=
        fl.le_of_nonneg (mul_nonneg hpos.le (fl.nonneg hquot))
    _ ≤ (1 + fl.unit) * (fl size * ((1 + fl.unit) * (fl dst / fl size))) := by
        have hround := fl.le_of_nonneg hquot
        gcongr
    _ = (1 + fl.unit) ^ 2 * fl dst := by field_simp
    _ ≤ (1 + fl.unit) ^ 2 * ((1 + fl.unit) * dst) := by
        have hround := fl.le_of_nonneg (Nat.cast_nonneg (α := Rat) dst)
        gcongr
    _ = (1 + fl.unit) ^ 3 * dst := by ring

include hunit hsize hscale hle hdst in
/-- The window has a size. -/
theorem resizedSize_eq : resizedSize fl size scale =
    some (max 1 ⌊fl (fl size * scale) + 1 / 2⌋) := by
  have hnonneg : 0 ≤ fl (fl size * scale) :=
    fl.nonneg (mul_nonneg (fl.nonneg (Nat.cast_nonneg size)) hscale.le)
  have hcast : (dst : Rat) ≤ 2 ^ 30 := by exact_mod_cast hdst
  have hprod : fl (fl size * scale) ≤ 3 / 2 * 2 ^ 30 :=
    (product_le hsize hle).trans
      (mul_le_mul (pow_unit_le hunit (by omega)) hcast (Nat.cast_nonneg dst) (by norm_num))
  have hrange : checkedInt ⌊fl (fl size * scale) + 1 / 2⌋ =
      some ⌊fl (fl size * scale) + 1 / 2⌋ := by
    refine checkedInt_eq_some_iff.mpr ⟨⟨?_, ?_⟩, rfl⟩
    · have hfloor : 0 ≤ ⌊fl (fl size * scale) + 1 / 2⌋ := Int.floor_nonneg.mpr (by linarith)
      omega
    · rw [← Int.lt_add_one_iff, Int.floor_lt]
      norm_num at hprod ⊢
      linarith
  rw [resizedSize, ExtRat.roundAway_of_nonneg hnonneg, hrange, Option.map_some]

include hunit hscale in
/-- Every pixel of the window has a source. -/
theorem sourceIndex_eq (hfits : size ≤ 2 ^ 30) {x : Nat}
    (hx : x < (max 1 ⌊fl (fl size * scale) + 1 / 2⌋).toNat) :
    sourceIndex fl size scale x = some (min (size - 1) ⌊fl (fl x / scale)⌋.toNat) := by
  have habove : 0 ≤ 1 + fl.unit := add_nonneg zero_le_one fl.unit_nonneg
  have hsizeNonneg := fl.nonneg (Nat.cast_nonneg (α := Rat) size)
  have hprodNonneg : 0 ≤ fl size * scale := mul_nonneg hsizeNonneg hscale.le
  have hbelow : (x : Rat) ≤ fl (fl size * scale) := by
    rcases Nat.eq_zero_or_pos x with rfl | hpos
    · exact_mod_cast fl.nonneg hprodNonneg
    · have hfloor : (x : Int) + 1 ≤ ⌊fl (fl size * scale) + 1 / 2⌋ := by omega
      have hcast := Int.le_floor.mp hfloor
      push_cast at hcast
      linarith
  have hquot : fl (fl x / scale) ≤ (1 + fl.unit) ^ 4 * size := by
    calc fl (fl x / scale) ≤ (1 + fl.unit) * (fl x / scale) :=
          fl.le_of_nonneg (div_nonneg (fl.nonneg (Nat.cast_nonneg x)) hscale.le)
      _ ≤ (1 + fl.unit) * ((1 + fl.unit) * ((1 + fl.unit) * (fl size * scale)) / scale) := by
          have hround := fl.le_of_nonneg (Nat.cast_nonneg (α := Rat) x)
          have hprod := hbelow.trans (fl.le_of_nonneg hprodNonneg)
          have hchain := hround.trans (mul_le_mul_of_nonneg_left hprod habove)
          gcongr
      _ = (1 + fl.unit) ^ 3 * fl size := by field_simp
      _ ≤ (1 + fl.unit) ^ 3 * ((1 + fl.unit) * size) := by
          have hround := fl.le_of_nonneg (Nat.cast_nonneg (α := Rat) size)
          gcongr
      _ = (1 + fl.unit) ^ 4 * size := by ring
  have hcast : (size : Rat) ≤ 2 ^ 30 := by exact_mod_cast hfits
  have hlimit := hquot.trans
    (mul_le_mul (pow_unit_le hunit le_rfl) hcast (Nat.cast_nonneg size) (by norm_num))
  refine (sourceIndex_eq_some_iff hscale).mpr ⟨?_, rfl⟩
  rw [← Int.lt_add_one_iff, Int.floor_lt]
  norm_num at hlimit ⊢
  linarith

include hunit hsize hscale hle hdst in
theorem exists_lastSample (hfits : size ≤ 2 ^ 30) : ∃ last, lastSample fl size scale = some last := by
  have hresized := resizedSize_eq hunit hsize hscale hle hdst
  simp only [lastSample, hresized, Option.bind_eq_bind, Option.bind_some]
  exact ⟨_, sourceIndex_eq hunit hscale hfits (by omega)⟩

end Range

section Sizes

variable {dstWidth dstHeight : Nat} (hdstWidth : 1 ≤ dstWidth) (hdstHeight : 1 ≤ dstHeight)
  (hdstWidthFits : dstWidth ≤ 2 ^ 30) (hdstHeightFits : dstHeight ≤ 2 ^ 30)

include hdstWidth hdstHeight hdstWidthFits hdstHeightFits

/-- Frames of even sizes are read as captured, for every model and every rounding to some bits. -/
theorem samples_captured_of_even {fl : Rounding} (hunit : fl.unit ≤ 1 / 16) (cam : CameraDevice)
    (bytesUsed : Nat) (hwidth : 1 ≤ cam.width)
    (hheight : 1 ≤ cam.height) (hevenWidth : cam.width % 2 = 0) (hevenHeight : cam.height % 2 = 0)
    (hwidthFits : cam.width ≤ 2 ^ 30) (hheightFits : cam.height ≤ 2 ^ 30) :
    ∃ reads, letterboxReads fl cam.width cam.height dstWidth dstHeight = some reads ∧
      ∀ i ∈ reads, i < cam.getPackedFrameSize ∧ cam.Captured bytesUsed i := by
  have hscale := scale_pos fl hwidth hheight hdstWidth hdstHeight
  obtain ⟨lx, hx⟩ :=
    exists_lastSample hunit hwidth hscale (min_le_left _ _) hdstWidthFits hwidthFits
  obtain ⟨ly, hy⟩ :=
    exists_lastSample hunit hheight hscale (min_le_right _ _) hdstHeightFits hheightFits
  obtain ⟨resized, -, hlast⟩ := Option.bind_eq_some_iff.mp hy
  have hlt := sourceIndex_lt hheight hscale hlast
  exact reads_of_lastSample bytesUsed hwidth hheight hdstWidth hdstHeight hx hy (by omega) (by omega)

section Exact

variable {frame : CapturedFrame} (hwidth : 1 ≤ frame.width) (hheight : 1 ≤ frame.height)
  (hwidthFits : frame.width ≤ 2 ^ 30) (hheightFits : frame.height ≤ 2 ^ 30)

include hwidth hheight

theorem resizedSize_exact :
    let info := EdgeVision.letterboxInfo frame.width frame.height dstWidth dstHeight
    resizedSize .exact frame.width info.scale = some info.resizedWidth ∧
      resizedSize .exact frame.height info.scale = some info.resizedHeight := by
  intro info
  have hunit : Rounding.exact.unit ≤ 1 / 16 := by norm_num
  have hscale : 0 < info.scale := letterboxInfo_scale_pos hwidth hheight hdstWidth hdstHeight
  have hround (size : Nat) : ExtRat.roundAway (size * info.scale) = ⌊size * info.scale + 1 / 2⌋ :=
    ExtRat.roundAway_of_nonneg (mul_nonneg (Nat.cast_nonneg size) hscale.le)
  have hle : info.scale ≤ dstWidth / frame.width ∧ info.scale ≤ dstHeight / frame.height :=
    ⟨min_le_left _ _, min_le_right _ _⟩
  rw [resizedSize_eq hunit hwidth hscale hle.1 hdstWidthFits,
    resizedSize_eq hunit hheight hscale hle.2 hdstHeightFits]
  exact ⟨congrArg (some <| max 1 ·) (hround _).symm, congrArg (some <| max 1 ·) (hround _).symm⟩

theorem letterboxInfo_exact : letterboxInfo .exact frame.width frame.height dstWidth dstHeight =
    some (EdgeVision.letterboxInfo frame.width frame.height dstWidth dstHeight) := by
  obtain ⟨hresizedX, hresizedY⟩ :=
    resizedSize_exact hdstWidth hdstHeight hdstWidthFits hdstHeightFits hwidth hheight
  change resizedSize .exact frame.width (scale .exact frame.width frame.height dstWidth dstHeight) =
    _ at hresizedX
  change resizedSize .exact frame.height (scale .exact frame.width frame.height dstWidth dstHeight) =
    _ at hresizedY
  simp only [letterboxInfo, hresizedX, hresizedY, Option.bind_eq_bind, Option.bind_some]
  rfl

include hwidthFits hheightFits

/-- The window is read and written as without rounding. -/
theorem pixelWrites_exact {p : Nat × Nat}
    (hp : p ∈ windowPixels (EdgeVision.letterboxInfo frame.width frame.height dstWidth dstHeight)) :
    let info := EdgeVision.letterboxInfo frame.width frame.height dstWidth dstHeight
    pixelWrites .exact frame info dstWidth p.1 p.2 =
      EdgeVision.pixelWrites frame info dstWidth p.1 p.2 := by
  intro info
  have hunit : Rounding.exact.unit ≤ 1 / 16 := by norm_num
  have hscale : 0 < info.scale := letterboxInfo_scale_pos hwidth hheight hdstWidth hdstHeight
  obtain ⟨hresizedX, hresizedY⟩ :=
    resizedSize_exact hdstWidth hdstHeight hdstWidthFits hdstHeightFits hwidth hheight
  rw [resizedSize_eq hunit hwidth hscale (min_le_left _ _) hdstWidthFits,
    Option.some.injEq] at hresizedX
  rw [resizedSize_eq hunit hheight hscale (min_le_right _ _) hdstHeightFits,
    Option.some.injEq] at hresizedY
  obtain ⟨hp1, hp2⟩ := mem_windowPixels.mp hp
  rw [← hresizedX] at hp1
  rw [← hresizedY] at hp2
  have hsrcX := sourceIndex_eq hunit hscale hwidthFits hp1
  have hsrcY := sourceIndex_eq hunit hscale hheightFits hp2
  simp only [Rounding.exact_apply, ← EdgeVision.sourceIndex_eq _ hscale] at hsrcX hsrcY
  simp only [pixelWrites, hsrcX, hsrcY, Option.bind_eq_bind, Option.bind_some,
    EdgeVision.pixelWrites]

/-- **Without rounding** the function is that of the exact letterbox. -/
theorem fillLetterboxedRgb_exact : fillLetterboxedRgb .exact frame dstWidth dstHeight =
    EdgeVision.fillLetterboxedRgb frame dstWidth dstHeight := by
  have hwrites : ∀ pixels : List (Nat × Nat),
      (∀ p ∈ pixels,
        p ∈ windowPixels (EdgeVision.letterboxInfo frame.width frame.height dstWidth dstHeight)) →
      letterboxWrites .exact frame
          (EdgeVision.letterboxInfo frame.width frame.height dstWidth dstHeight) dstWidth pixels =
        EdgeVision.letterboxWrites frame
          (EdgeVision.letterboxInfo frame.width frame.height dstWidth dstHeight) dstWidth pixels := by
    intro pixels hpixels
    induction pixels with
    | nil => rfl
    | cons p pixels ih =>
      obtain ⟨hp, hrest⟩ := List.forall_mem_cons.mp hpixels
      obtain ⟨x, y⟩ := p
      have hhere := pixelWrites_exact hdstWidth hdstHeight hdstWidthFits hdstHeightFits hwidth
        hheight hwidthFits hheightFits hp
      rw [letterboxWrites, EdgeVision.letterboxWrites, ih hrest, hhere]
  have hinfo := letterboxInfo_exact hdstWidth hdstHeight hdstWidthFits hdstHeightFits hwidth hheight
  simp only [fillLetterboxedRgb, EdgeVision.fillLetterboxedRgb, hinfo, Option.bind_eq_bind,
    Option.bind_some, hwrites _ fun _ hp => hp]
  cases EdgeVision.letterboxWrites frame
    (EdgeVision.letterboxInfo frame.width frame.height dstWidth dstHeight) dstWidth
    (windowPixels (EdgeVision.letterboxInfo frame.width frame.height dstWidth dstHeight)) <;> rfl

end Exact

end Sizes

end FloatLetterbox

end EdgeVision
