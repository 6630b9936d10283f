import EdgeVision.Ai.RknnDetector
import EdgeVision.Verify.CompactNv12

/-!
# The letterbox

The geometry of `fillLetterboxedRgb`, one axis at a time: the window fits in the model input and
fills one of its sides, a window pixel has its own place in the RGB vector, and the way back through
`toFrame` ends in the source pixel that was sampled (`letterbox_exact`).
-/

namespace EdgeVision

open Lib

/-! ## Rounding -/

namespace Lib.ExtRat

theorem roundAway_of_nonneg {q : Rat} (h : 0 ≤ q) : roundAway q = ⌊q + 1 / 2⌋ := if_pos h

theorem truncate_of_nonneg {q : Rat} (h : 0 ≤ q) : truncate q = ⌊q⌋ := if_pos h

theorem roundAway_natCast (n : Nat) : roundAway n = n := by
  rw [roundAway_of_nonneg (Nat.cast_nonneg n), Int.floor_eq_iff]
  constructor
  · push_cast
    linarith
  · push_cast
    linarith

theorem roundAway_le {q : Rat} {n : Nat} (h : 0 ≤ q) (hle : q ≤ n) : roundAway q ≤ n := by
  rw [roundAway_of_nonneg h, ← Int.lt_add_one_iff, Int.floor_lt]
  push_cast
  linarith

end Lib.ExtRat

/-! ## One axis -/

/-- The size of the window on an axis. -/
def resizedSize (size : Nat) (scale : Rat) : Int := max 1 (ExtRat.roundAway (size * scale))

section Axis

variable {size dst : Nat} {scale : Rat}

theorem resizedSize_pos (size : Nat) (scale : Rat) : 1 ≤ resizedSize size scale := le_max_left 1 _

/-- The window fits. -/
theorem resizedSize_le (hdst : 1 ≤ dst) (hsize : 1 ≤ size) (hscale : 0 ≤ scale)
    (hle : scale ≤ dst / size) : resizedSize size scale ≤ dst := by
  have hpos : (0 : Rat) < size := by exact_mod_cast hsize
  have hprod : size * scale ≤ dst := by
    rw [mul_comm]
    exact (le_div_iff₀ hpos).mp hle
  exact max_le (by exact_mod_cast hdst) (ExtRat.roundAway_le (by positivity) hprod)

/-- The axis that gives the scale is filled. -/
theorem resizedSize_eq (hdst : 1 ≤ dst) (hsize : 1 ≤ size) (heq : scale = dst / size) :
    resizedSize size scale = dst := by
  have hpos : (size : Rat) ≠ 0 := by exact_mod_cast Nat.one_le_iff_ne_zero.mp hsize
  rw [resizedSize, heq, mul_div_cancel₀ _ hpos, ExtRat.roundAway_natCast]
  exact max_eq_right (by exact_mod_cast hdst)

/-- The source index of a window index, as a floor. -/
theorem sourceIndex_eq (size : Nat) (hscale : 0 < scale) (x : Nat) :
    sourceIndex size scale x = min (size - 1) ⌊(x : Rat) / scale⌋.toNat := by
  rw [sourceIndex, ExtRat.truncate_of_nonneg (by positivity)]

theorem sourceIndex_lt (hsize : 1 ≤ size) (scale : Rat) (x : Nat) :
    sourceIndex size scale x < size := by
  have hle : sourceIndex size scale x ≤ size - 1 := Nat.min_le_left _ _
  omega

theorem sourceIndex_mono (size : Nat) (hscale : 0 < scale) {x x' : Nat} (h : x ≤ x') :
    sourceIndex size scale x ≤ sourceIndex size scale x' := by
  rw [sourceIndex_eq size hscale, sourceIndex_eq size hscale]
  have hle : (x : Rat) / scale ≤ x' / scale := by
    have hcast : (x : Rat) ≤ x' := by exact_mod_cast h
    exact div_le_div_of_nonneg_right hcast hscale.le
  exact min_le_min_left _ (Int.toNat_le_toNat (Int.floor_le_floor hle))

/-- **The way back ends in the sampled index.** A window index taken back through the letterbox has
the index it samples for its floor. -/
theorem toFrame_window (hsize : 1 ≤ size) (hscale : 0 < scale) (pad : Int) (x : Nat) :
    ∃ q : Rat, toFrame pad scale size (.fin ((pad : Rat) + x)) = .fin q ∧
      ⌊q⌋ = sourceIndex size scale x := by
  have hquot : (0 : Rat) ≤ x / scale := by positivity
  have hupper : (0 : Rat) ≤ (size : Rat) - 1 := by
    have : (1 : Rat) ≤ size := by exact_mod_cast hsize
    linarith
  refine ⟨min (x / scale) ((size : Rat) - 1), ?_, ?_⟩
  · rw [toFrame, ExtRat.fin_sub_fin, add_sub_cancel_left, ExtRat.fin_div_fin _ (ne_of_gt hscale),
      clampFloat, ExtRat.min_fin, ExtRat.max_fin, max_eq_right (le_min hquot hupper)]
  · have hfloor : 0 ≤ ⌊(x : Rat) / scale⌋ := Int.floor_nonneg.mpr hquot
    have hlast : ((size : Rat) - 1) = ((size - 1 : Nat) : Int) := by
      rw [Int.cast_natCast, Nat.cast_sub hsize, Nat.cast_one]
    rw [sourceIndex_eq size hscale, hlast, Int.floor_mono.map_min, Int.floor_intCast, Nat.cast_min,
      Int.toNat_of_nonneg hfloor, min_comm]

end Axis

/-! ## The geometry -/

section Geometry

variable {width height dstWidth dstHeight : Nat}

/-- The window of an axis lies in the model input, centred to within one pixel. -/
structure Centred (dst : Nat) (pad resized : Int) : Prop where
  pos : 1 ≤ resized
  le : resized ≤ dst
  pad_nonneg : 0 ≤ pad
  centred : pad ≤ dst - (pad + resized) ∧ dst - (pad + resized) ≤ pad + 1

theorem centred_of_le {dst : Nat} {resized : Int} (hpos : 1 ≤ resized) (hle : resized ≤ dst) :
    Centred dst (((dst : Int) - resized).tdiv 2) resized := by
  have hdiv : ((dst : Int) - resized).tdiv 2 = ((dst : Int) - resized) / 2 :=
    Int.tdiv_eq_ediv_of_nonneg (by omega)
  rw [hdiv]
  constructor
  case pos => exact hpos
  case le => exact hle
  case pad_nonneg => omega
  case centred => omega

/-- **The geometry**: a window on both axes, which fills the axis that gives the scale. -/
theorem letterboxInfo_geometry (hwidth : 1 ≤ width) (hheight : 1 ≤ height)
    (hdstWidth : 1 ≤ dstWidth) (hdstHeight : 1 ≤ dstHeight) :
    let info := letterboxInfo width height dstWidth dstHeight
    Centred dstWidth info.padX info.resizedWidth ∧ Centred dstHeight info.padY info.resizedHeight ∧
      (info.resizedWidth = dstWidth ∨ info.resizedHeight = dstHeight) := by
  intro info
  have hscale : 0 < info.scale := letterboxInfo_scale_pos hwidth hheight hdstWidth hdstHeight
  refine ⟨?_, ?_, ?_⟩
  · exact centred_of_le (resizedSize_pos width info.scale)
      (resizedSize_le hdstWidth hwidth hscale.le (min_le_left _ _))
  · exact centred_of_le (resizedSize_pos height info.scale)
      (resizedSize_le hdstHeight hheight hscale.le (min_le_right _ _))
  · rcases min_choice ((dstWidth : Rat) / width) ((dstHeight : Rat) / height) with h | h
    · exact .inl (resizedSize_eq hdstWidth hwidth h)
    · exact .inr (resizedSize_eq hdstHeight hheight h)

end Geometry

/-! ## The window and its writes -/

theorem mem_windowPixels {info : LetterboxInfo} {p : Nat × Nat} :
    p ∈ windowPixels info ↔ p.1 < info.resizedWidth.toNat ∧ p.2 < info.resizedHeight.toNat := by
  simp only [windowPixels, List.mem_flatMap, List.mem_map, List.mem_range]
  constructor
  · rintro ⟨y, hy, x, hx, rfl⟩
    exact ⟨hx, hy⟩
  · rintro ⟨hx, hy⟩
    exact ⟨p.2, hy, p.1, hx, rfl⟩

/-- No pixel comes twice. -/
theorem windowPixels_nodup (info : LetterboxInfo) : (windowPixels info).Nodup := by
  rw [windowPixels, List.nodup_flatMap]
  constructor
  · intro y _
    exact List.nodup_range.map fun x x' h => (Prod.mk.inj h).1
  · refine List.nodup_range.imp ?_
    intro y y' hne p hp hp'
    obtain ⟨x, -, rfl⟩ := List.mem_map.mp hp
    obtain ⟨x', -, heq⟩ := List.mem_map.mp hp'
    exact hne (Prod.mk.inj heq).2.symm

/-- The writes that give each pixel of the window its colour. -/
def windowWrites (info : LetterboxInfo) (dstWidth : Nat) (colour : Nat × Nat → Rgb) :
    List (Nat × UInt8) :=
  (windowPixels info).flatMap fun p => rgbWrites (dstIndex info dstWidth p.1 p.2) (colour p)

/-- With every colour read, the writes are three for each pixel. -/
theorem letterboxWrites_eq {frame : CapturedFrame} {info : LetterboxInfo} (dstWidth : Nat)
    {colour : Nat × Nat → Rgb} {pixels : List (Nat × Nat)}
    (hread : ∀ p ∈ pixels, sampleRgb frame (sourceIndex frame.width info.scale p.1)
      (sourceIndex frame.height info.scale p.2) = some (colour p)) :
    letterboxWrites frame info dstWidth pixels =
      some (pixels.flatMap fun p => rgbWrites (dstIndex info dstWidth p.1 p.2) (colour p)) := by
  induction pixels with
  | nil => rfl
  | cons p pixels ih =>
    have hhead := hread p List.mem_cons_self
    have htail := ih fun q hq => hread q (List.mem_cons_of_mem p hq)
    obtain ⟨x, y⟩ := p
    simp only [letterboxWrites, pixelWrites, hhead, htail, Option.map_some, Option.bind_eq_bind,
      Option.bind_some, List.flatMap_cons]

/-- The colour of a pixel of an RGB image. -/
def rgbAt (rgb : Bytes) (width x y : Nat) : Option Rgb := do
  let r ← rgb[(y * width + x) * 3 + 0]?
  let g ← rgb[(y * width + x) * 3 + 1]?
  let b ← rgb[(y * width + x) * 3 + 2]?
  some ⟨r, g, b⟩

section Window

variable {info : LetterboxInfo} {dstWidth dstHeight : Nat}
  (hx : Centred dstWidth info.padX info.resizedWidth)
  (hy : Centred dstHeight info.padY info.resizedHeight)

/-- A pixel of the model input is in the window. -/
def InWindow (info : LetterboxInfo) (x y : Nat) : Prop :=
  info.padX ≤ x ∧ (x : Int) < info.padX + info.resizedWidth ∧
    info.padY ≤ y ∧ (y : Int) < info.padY + info.resizedHeight

include hx hy

/-- Where the writes of a window pixel are. -/
theorem dstIndex_spec {p : Nat × Nat} (hp : p ∈ windowPixels info) :
    ∃ x y, dstIndex info dstWidth p.1 p.2 = (y * dstWidth + x) * 3 ∧ x < dstWidth ∧ y < dstHeight ∧
      (x : Int) = info.padX + p.1 ∧ (y : Int) = info.padY + p.2 := by
  obtain ⟨hp1, hp2⟩ := mem_windowPixels.mp hp
  obtain ⟨-, -, hpadX, hfitX, -⟩ := hx
  obtain ⟨-, -, hpadY, hfitY, -⟩ := hy
  exact ⟨(info.padX + p.1).toNat, (info.padY + p.2).toNat, rfl, by omega, by omega, by omega,
    by omega⟩

theorem dstIndex_inj {p q : Nat × Nat} (hp : p ∈ windowPixels info) (hq : q ∈ windowPixels info)
    (h : dstIndex info dstWidth p.1 p.2 / 3 = dstIndex info dstWidth q.1 q.2 / 3) : p = q := by
  obtain ⟨x, y, hindex, hxlt, -, hpx, hpy⟩ := dstIndex_spec hx hy hp
  obtain ⟨x', y', hindex', hxlt', -, hqx, hqy⟩ := dstIndex_spec hx hy hq
  rw [hindex, hindex', Nat.mul_div_cancel _ (by omega), Nat.mul_div_cancel _ (by omega)] at h
  obtain ⟨rfl, rfl⟩ := index_unique hxlt hxlt' h
  exact Prod.ext (by omega) (by omega)

variable {colour : Nat × Nat → Rgb}

/-- The writes of the window. -/
theorem mem_windowWrites {w : Nat × UInt8}
    (hw : w ∈ windowWrites info dstWidth colour) :
    ∃ p ∈ windowPixels info, w.1 / 3 = dstIndex info dstWidth p.1 p.2 / 3 := by
  obtain ⟨p, hp, hmem⟩ := List.mem_flatMap.mp hw
  obtain ⟨x, y, hindex, -⟩ := dstIndex_spec hx hy hp
  refine ⟨p, hp, ?_⟩
  simp only [rgbWrites, List.mem_cons, List.not_mem_nil, or_false] at hmem
  rcases hmem with rfl | rfl | rfl
  · rfl
  · simp only [hindex]
    omega
  · simp only [hindex]
    omega

/-- Every index is inside the vector. -/
theorem windowWrites_lt {w : Nat × UInt8}
    (hw : w ∈ windowWrites info dstWidth colour) :
    w.1 < dstWidth * dstHeight * 3 := by
  obtain ⟨p, hp, hdiv⟩ := mem_windowWrites hx hy hw
  obtain ⟨x, y, hindex, hxlt, hylt, -⟩ := dstIndex_spec hx hy hp
  have hlt := index_lt hxlt hylt
  rw [Nat.mul_comm dstHeight] at hlt
  omega

/-- No index is written twice. -/
theorem windowWrites_nodup :
    ((windowWrites info dstWidth colour).map Prod.fst).Nodup := by
  rw [windowWrites, List.map_flatMap, List.nodup_flatMap]
  constructor
  · intro p _
    simp [rgbWrites]
  · refine (windowPixels_nodup info).imp_of_mem ?_
    intro p q hp hq hne i hi hi'
    apply hne
    apply dstIndex_inj hx hy hp hq
    obtain ⟨x, y, hindex, -⟩ := dstIndex_spec hx hy hp
    obtain ⟨x', y', hindex', -⟩ := dstIndex_spec hx hy hq
    simp only [rgbWrites, List.map_cons, List.map_nil, List.mem_cons, List.not_mem_nil,
      or_false] at hi hi'
    omega

/-- A window pixel has its colour after the writes, -/
theorem rgbAt_window {p : Nat × Nat} (hp : p ∈ windowPixels info) :
    rgbAt (store (List.replicate (dstWidth * dstHeight * 3) 114)
      (windowWrites info dstWidth colour)) dstWidth (info.padX + p.1).toNat
        (info.padY + p.2).toNat = some (colour p) := by
  generalize hrgb : store (List.replicate (dstWidth * dstHeight * 3) 114)
    (windowWrites info dstWidth colour) = rgb
  have hwritten : ∀ w ∈ rgbWrites (dstIndex info dstWidth p.1 p.2) (colour p),
      rgb[w.1]? = some w.2 := by
    intro w hw
    have hall : w ∈ windowWrites info dstWidth colour := List.mem_flatMap.mpr ⟨p, hp, hw⟩
    rw [← hrgb]
    apply getElem?_store_of_mem (windowWrites_nodup hx hy) _ hall
    rw [List.length_replicate]
    exact windowWrites_lt hx hy hall
  simp only [rgbWrites, dstIndex, List.mem_cons, List.not_mem_nil, or_false, forall_eq_or_imp,
    forall_eq] at hwritten
  obtain ⟨hr, hg, hb⟩ := hwritten
  simp only [rgbAt, hr, hg, hb, Option.bind_eq_bind, Option.bind_some]

/-- and a pixel outside of it the colour it had. -/
theorem rgbAt_ground {x y : Nat} (hxlt : x < dstWidth) (hylt : y < dstHeight)
    (hout : ¬ InWindow info x y) :
    rgbAt (store (List.replicate (dstWidth * dstHeight * 3) 114)
      (windowWrites info dstWidth colour)) dstWidth x y = some ⟨114, 114, 114⟩ := by
  have hlt := index_lt hxlt hylt
  rw [Nat.mul_comm dstHeight] at hlt
  have hkept : ∀ k < 3, (store (List.replicate (dstWidth * dstHeight * 3) 114)
      (windowWrites info dstWidth colour))[(y * dstWidth + x) * 3 + k]? = some 114 := by
    intro k hk
    rw [getElem?_store_of_notMem, List.getElem?_replicate, if_pos (by omega)]
    intro w hw heq
    obtain ⟨p, hp, hdiv⟩ := mem_windowWrites hx hy hw
    obtain ⟨x', y', hindex, hxlt', -, hpx, hpy⟩ := dstIndex_spec hx hy hp
    have hsame : y * dstWidth + x = y' * dstWidth + x' := by omega
    obtain ⟨rfl, rfl⟩ := index_unique hxlt hxlt' hsame
    obtain ⟨hp1, hp2⟩ := mem_windowPixels.mp hp
    exact hout ⟨by omega, by omega, by omega, by omega⟩
  simp only [rgbAt, hkept 0 (by omega), hkept 1 (by omega), hkept 2 (by omega),
    Option.bind_eq_bind, Option.bind_some]

end Window

theorem fillLetterboxedRgb_eq {frame : CapturedFrame} {dstWidth dstHeight : Nat}
    {writes : List (Nat × UInt8)}
    (h : letterboxWrites frame (letterboxInfo frame.width frame.height dstWidth dstHeight) dstWidth
      (windowPixels (letterboxInfo frame.width frame.height dstWidth dstHeight)) = some writes) :
    fillLetterboxedRgb frame dstWidth dstHeight =
      some (store (List.replicate (dstWidth * dstHeight * 3) 114) writes,
        letterboxInfo frame.width frame.height dstWidth dstHeight) := by
  simp only [fillLetterboxedRgb, h, Option.map_some]

/-! ## The bytes of a sample -/

/-- The bytes that a sample reads. -/
def sampleReads (width height srcX srcY : Nat) : List Nat :=
  [yIndex width srcX srcY, uvIndex width height srcX srcY, uvIndex width height srcX srcY + 1]

/-- A sample is read when its three bytes are there. -/
theorem sampleRgb_isSome_iff (frame : CapturedFrame) (srcX srcY : Nat) :
    (sampleRgb frame srcX srcY).isSome ↔
      ∀ i ∈ sampleReads frame.width frame.height srcX srcY, i < frame.nv12.length := by
  have hget (i : Nat) : i < frame.nv12.length ↔ ∃ b, frame.nv12[i]? = some b := by
    constructor
    · intro h
      exact ⟨_, List.getElem?_eq_getElem h⟩
    · rintro ⟨b, hb⟩
      exact (List.getElem?_eq_some_iff.mp hb).1
  simp only [sampleReads, List.mem_cons, List.not_mem_nil, or_false, forall_eq_or_imp, forall_eq,
    hget]
  simp only [sampleRgb, Option.isSome_iff_exists, Option.bind_eq_bind, Option.bind_eq_some_iff]
  constructor
  · rintro ⟨_, y, hy, u, hu, v, hv, -⟩
    exact ⟨⟨y, hy⟩, ⟨u, hu⟩, v, hv⟩
  · rintro ⟨⟨y, hy⟩, ⟨u, hu⟩, v, hv⟩
    exact ⟨_, y, hy, u, hu, v, hv, rfl⟩

theorem yIndex_lt {width height srcX srcY : Nat} (hx : srcX < width) (hy : srcY < height) :
    yIndex width srcX srcY < width * height :=
  Nat.mul_comm width height ▸ index_lt hx hy

/-- **Where the chroma of a sample is.** It is behind the `height / 2` rows of chroma when the
sample is in the last row of an odd height, or in the last column of an odd width above the last row
of chroma. -/
theorem uvIndex_lt_iff {width srcX : Nat} (hx : srcX < width) (height srcY : Nat) :
    uvIndex width height srcX srcY + 1 < width * height + height / 2 * width ↔
      srcY / 2 < height / 2 ∧
        ¬ (width % 2 = 1 ∧ srcX + 1 = width ∧ srcY / 2 + 1 = height / 2) := by
  unfold uvIndex
  rcases Nat.lt_trichotomy (srcY / 2 + 1) (height / 2) with h | h | h
  · have hend := row_end_le (Nat.le_refl width) (show srcY / 2 < height / 2 - 1 by omega)
    have hlast := row_end_le (Nat.le_refl width) (show height / 2 - 1 < height / 2 by omega)
    omega
  · have hend : height / 2 * width = srcY / 2 * width + width := by rw [← h, Nat.succ_mul]
    omega
  · have hmono : height / 2 * width ≤ srcY / 2 * width := Nat.mul_le_mul_right width (by omega)
    omega

/-! ## What the letterbox does -/

/-- The model input made of a frame. -/
structure Letterboxed (frame : CapturedFrame) (dstWidth dstHeight : Nat) (info : LetterboxInfo)
    (writes : List (Nat × UInt8)) (rgb : Bytes) : Prop where
  scale : info.scale = min ((dstWidth : Rat) / frame.width) ((dstHeight : Rat) / frame.height)
  columns : Centred dstWidth info.padX info.resizedWidth
  rows : Centred dstHeight info.padY info.resizedHeight
  filled : info.resizedWidth = dstWidth ∨ info.resizedHeight = dstHeight
  size : rgb.length = dstWidth * dstHeight * 3
  /-- The writes are inside, and each is the only one at its index. -/
  writesInside : ∀ w ∈ writes, w.1 < dstWidth * dstHeight * 3
  writesOnce : (writes.map Prod.fst).Nodup
  /-- A window pixel has the colour of its source pixel, -/
  window : ∀ x < info.resizedWidth.toNat, ∀ y < info.resizedHeight.toNat, ∃ colour,
    sampleRgb frame (min (frame.width - 1) ⌊(x : Rat) / info.scale⌋.toNat)
        (min (frame.height - 1) ⌊(y : Rat) / info.scale⌋.toNat) = some colour ∧
      rgbAt rgb dstWidth (info.padX + x).toNat (info.padY + y).toNat = some colour
  /-- and every other pixel the colour of the ground. -/
  ground : ∀ x < dstWidth, ∀ y < dstHeight, ¬ InWindow info x y →
    rgbAt rgb dstWidth x y = some ⟨114, 114, 114⟩
  /-- The way back from a window pixel ends in its source pixel. -/
  columnsBack : ∀ x < info.resizedWidth.toNat, ∃ q : Rat,
    toFrame info.padX info.scale frame.width (.fin ((info.padX : Rat) + x)) = .fin q ∧
      ⌊q⌋ = (min (frame.width - 1) ⌊(x : Rat) / info.scale⌋.toNat : Nat)
  rowsBack : ∀ y < info.resizedHeight.toNat, ∃ q : Rat,
    toFrame info.padY info.scale frame.height (.fin ((info.padY : Rat) + y)) = .fin q ∧
      ⌊q⌋ = (min (frame.height - 1) ⌊(y : Rat) / info.scale⌋.toNat : Nat)

/-- With all samples read, the letterbox is what it should be. -/
theorem letterboxed_of_samples {frame : CapturedFrame} {dstWidth dstHeight : Nat}
    {info : LetterboxInfo} (colour : Nat × Nat → Rgb) (hwidth : 1 ≤ frame.width)
    (hheight : 1 ≤ frame.height) (hdstWidth : 1 ≤ dstWidth) (hdstHeight : 1 ≤ dstHeight)
    (hinfo : letterboxInfo frame.width frame.height dstWidth dstHeight = info)
    (hread : ∀ p ∈ windowPixels info, sampleRgb frame (sourceIndex frame.width info.scale p.1)
      (sourceIndex frame.height info.scale p.2) = some (colour p)) :
    ∃ writes rgb, letterboxWrites frame info dstWidth (windowPixels info) = some writes ∧
      fillLetterboxedRgb frame dstWidth dstHeight = some (rgb, info) ∧
      Letterboxed frame dstWidth dstHeight info writes rgb := by
  have hscale : 0 < info.scale :=
    hinfo ▸ letterboxInfo_scale_pos hwidth hheight hdstWidth hdstHeight
  obtain ⟨hx, hy, hfilled⟩ := letterboxInfo_geometry hwidth hheight hdstWidth hdstHeight
  rw [hinfo] at hx hy hfilled
  have hwrites : letterboxWrites frame info dstWidth (windowPixels info) =
      some (windowWrites info dstWidth colour) := letterboxWrites_eq dstWidth hread
  have hlen : (List.replicate (dstWidth * dstHeight * 3) (114 : UInt8)).length =
      dstWidth * dstHeight * 3 := List.length_replicate
  have hfill : fillLetterboxedRgb frame dstWidth dstHeight =
      some (store (List.replicate (dstWidth * dstHeight * 3) 114)
        (windowWrites info dstWidth colour), info) := by
    rw [← hinfo] at hwrites ⊢
    exact fillLetterboxedRgb_eq hwrites
  refine ⟨_, _, hwrites, hfill, ?_⟩
  constructor
  case scale =>
    rw [← hinfo]
    rfl
  case columns => exact hx
  case rows => exact hy
  case filled => exact hfilled
  case size => rw [length_store, hlen]
  case writesInside => exact fun w hw => windowWrites_lt hx hy hw
  case writesOnce => exact windowWrites_nodup hx hy
  case window =>
    intro x hxlt y hylt
    have hp : (x, y) ∈ windowPixels info := mem_windowPixels.mpr ⟨hxlt, hylt⟩
    refine ⟨colour (x, y), ?_, ?_⟩
    · rw [← sourceIndex_eq frame.width hscale, ← sourceIndex_eq frame.height hscale]
      exact hread (x, y) hp
    · exact rgbAt_window (p := (x, y)) hx hy hp
  case ground => exact fun x hxlt y hylt hout => rgbAt_ground hx hy hxlt hylt hout
  case columnsBack =>
    intro x _
    obtain ⟨q, hq, hfloor⟩ := toFrame_window hwidth hscale info.padX x
    exact ⟨q, hq, by rw [hfloor, sourceIndex_eq frame.width hscale]⟩
  case rowsBack =>
    intro y _
    obtain ⟨q, hq, hfloor⟩ := toFrame_window hheight hscale info.padY y
    exact ⟨q, hq, by rw [hfloor, sourceIndex_eq frame.height hscale]⟩

/-- **The letterbox and its inverse agree**, for frames of even sizes. -/
theorem letterbox_exact (frame : CapturedFrame) (hwidth : 2 ≤ frame.width)
    (hheight : 2 ≤ frame.height) (hevenWidth : frame.width % 2 = 0)
    (hevenHeight : frame.height % 2 = 0)
    (hnv12 : frame.nv12.length = frame.width * frame.height * 3 / 2) {dstWidth dstHeight : Nat}
    (hdstWidth : 1 ≤ dstWidth) (hdstHeight : 1 ≤ dstHeight) :
    let info := letterboxInfo frame.width frame.height dstWidth dstHeight
    ∃ writes rgb, letterboxWrites frame info dstWidth (windowPixels info) = some writes ∧
      fillLetterboxedRgb frame dstWidth dstHeight = some (rgb, info) ∧
      Letterboxed frame dstWidth dstHeight info writes rgb := by
  intro info
  have hread : ∀ srcX < frame.width, ∀ srcY < frame.height,
      (sampleRgb frame srcX srcY).isSome := by
    intro srcX hx srcY hy
    have hluma := yIndex_lt hx hy
    have hchroma := (uvIndex_lt_iff hx frame.height srcY).mpr ⟨by omega, by omega⟩
    have hhalf := CameraDevice.half_rows_le frame.height frame.width
    rw [Nat.mul_comm frame.height frame.width] at hhalf
    rw [sampleRgb_isSome_iff]
    intro i hi
    simp only [sampleReads, List.mem_cons, List.not_mem_nil, or_false] at hi
    omega
  apply letterboxed_of_samples
    (fun p => (sampleRgb frame (sourceIndex frame.width info.scale p.1)
      (sourceIndex frame.height info.scale p.2)).getD ⟨0, 0, 0⟩)
    (by omega) (by omega) hdstWidth hdstHeight rfl
  intro p _
  obtain ⟨colour, hcolour⟩ := Option.isSome_iff_exists.mp
    (hread _ (sourceIndex_lt (by omega) _ p.1) _ (sourceIndex_lt (by omega) _ p.2))
  rw [hcolour, Option.getD_some]

/-- A frame of two by two pixels in a model input of four by two. -/
theorem letterbox_exact_two_by_two :
    let frame : CapturedFrame := ⟨0, 0, 2, 2, [16, 235, 16, 235, 128, 128]⟩
    fillLetterboxedRgb frame 4 2 = some ([114, 114, 114, 0, 0, 0, 255, 255, 255, 114, 114, 114,
        114, 114, 114, 0, 0, 0, 255, 255, 255, 114, 114, 114], ⟨1, 1, 0, 2, 2⟩) ∧
      ∃ writes rgb, letterboxWrites frame (letterboxInfo 2 2 4 2) 4
          (windowPixels (letterboxInfo 2 2 4 2)) = some writes ∧
        fillLetterboxedRgb frame 4 2 = some (rgb, letterboxInfo 2 2 4 2) ∧
        Letterboxed frame 4 2 (letterboxInfo 2 2 4 2) writes rgb := by
  intro frame
  refine ⟨by decide +kernel, ?_⟩
  exact letterbox_exact frame (by decide) (by decide) (by decide) (by decide) (by decide) (by decide)
    (by decide)

end EdgeVision
