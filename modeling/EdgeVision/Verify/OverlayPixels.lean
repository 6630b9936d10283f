import EdgeVision.Camera.DetectionOverlay
import EdgeVision.Lib.Writes
import EdgeVision.Lib.Rows

/-!
# The overlay is drawn pixel for pixel

`drawRectangleY` draws rings, one inside the other, and stops early when a ring is empty. Together the
rings are the pixels whose distance to the border of the rectangle is below the thickness
(`drawRectangleY_paints`). So `drawDetections` changes each luma pixel by one test per detection, and
nothing but luma (`DetectionOverlay.drawDetections_exact`).
-/

namespace EdgeVision

open Lib

/-! ## Areas -/

/-- A rectangle of pixels, its sides included. -/
structure Rect where
  left : Int
  right : Int
  top : Int
  bottom : Int

namespace Rect

variable (r : Rect)

def Contains (x y : Int) : Prop := (r.left ≤ x ∧ x ≤ r.right) ∧ r.top ≤ y ∧ y ≤ r.bottom

/-- The distance of a pixel to the border: the least over the four sides. -/
def borderDistance (x y : Int) : Int :=
  min (min (x - r.left) (r.right - x)) (min (y - r.top) (r.bottom - y))

/-- The pixels of the rectangle whose distance to the border is below the thickness. -/
def Border (thickness x y : Int) : Prop := r.Contains x y ∧ r.borderDistance x y < thickness

instance (thickness x y : Int) : Decidable (r.Border thickness x y) := by
  unfold Border Contains
  exact inferInstance

theorem contains_iff (x y : Int) : r.Contains x y ↔ 0 ≤ r.borderDistance x y := by
  unfold Contains borderDistance
  omega

end Rect

/-! ## What a list of writes paints -/

/-- The writes give the value `v` to every pixel of the area, and write nothing else. -/
structure Paints (width : Nat) (writes : List (Nat × UInt8)) (v : UInt8) (area : Int → Int → Prop) :
    Prop where
  value : ∀ w ∈ writes, w.2 = v
  sound : ∀ w ∈ writes, ∃ x y, area x y ∧ w.1 = planeIndex width y x
  complete : ∀ x y, area x y → ∃ w ∈ writes, w.1 = planeIndex width y x

namespace Paints

variable {width : Nat} {writes writes' : List (Nat × UInt8)} {v : UInt8}
  {area area' : Int → Int → Prop}

theorem nil (h : ∀ x y, ¬ area x y) : Paints width [] v area where
  value := by simp
  sound := by simp
  complete x y hxy := absurd hxy (h x y)

theorem congr (h : Paints width writes v area) (heq : ∀ x y, area x y ↔ area' x y) :
    Paints width writes v area' where
  value := h.value
  sound w hw := by
    obtain ⟨x, y, hxy, hindex⟩ := h.sound w hw
    exact ⟨x, y, (heq x y).mp hxy, hindex⟩
  complete x y hxy := h.complete x y ((heq x y).mpr hxy)

/-- Writes after writes of the same value paint both areas. -/
theorem append (h : Paints width writes v area) (h' : Paints width writes' v area') :
    Paints width (writes ++ writes') v fun x y => area x y ∨ area' x y where
  value w hw := (List.mem_append.mp hw).elim (h.value w) (h'.value w)
  sound w hw := by
    rcases List.mem_append.mp hw with hmem | hmem
    · obtain ⟨x, y, hxy, hindex⟩ := h.sound w hmem
      exact ⟨x, y, Or.inl hxy, hindex⟩
    · obtain ⟨x, y, hxy, hindex⟩ := h'.sound w hmem
      exact ⟨x, y, Or.inr hxy, hindex⟩
  complete x y hxy := by
    rcases hxy with hxy | hxy
    · obtain ⟨w, hw, hindex⟩ := h.complete x y hxy
      exact ⟨w, List.mem_append_left _ hw, hindex⟩
    · obtain ⟨w, hw, hindex⟩ := h'.complete x y hxy
      exact ⟨w, List.mem_append_right _ hw, hindex⟩

/-- Writes of an index for each place that a list names. -/
theorem flatMap {ι : Type} {l : List ι} {f : ι → List (Nat × UInt8)} {areas : ι → Int → Int → Prop}
    (h : ∀ i ∈ l, Paints width (f i) v (areas i)) :
    Paints width (l.flatMap f) v fun x y => ∃ i ∈ l, areas i x y where
  value w hw := by
    obtain ⟨i, hi, hmem⟩ := List.mem_flatMap.mp hw
    exact (h i hi).value w hmem
  sound w hw := by
    obtain ⟨i, hi, hmem⟩ := List.mem_flatMap.mp hw
    obtain ⟨x, y, hxy, hindex⟩ := (h i hi).sound w hmem
    exact ⟨x, y, ⟨i, hi, hxy⟩, hindex⟩
  complete x y hxy := by
    obtain ⟨i, hi, hxy⟩ := hxy
    obtain ⟨w, hw, hindex⟩ := (h i hi).complete x y hxy
    exact ⟨w, List.mem_flatMap.mpr ⟨i, hi, hw⟩, hindex⟩

/-- Two writes in one row. -/
theorem pair (width : Nat) (v : UInt8) (row left right : Int) :
    Paints width [(planeIndex width row left, v), (planeIndex width row right, v)] v
      fun x y => y = row ∧ (x = left ∨ x = right) where
  value := by simp
  sound := by
    intro w hw
    rcases List.mem_pair.mp hw with rfl | rfl
    · exact ⟨left, row, ⟨rfl, Or.inl rfl⟩, rfl⟩
    · exact ⟨right, row, ⟨rfl, Or.inr rfl⟩, rfl⟩
  complete := by
    rintro x y ⟨rfl, rfl | rfl⟩
    · exact ⟨_, List.mem_cons_self, rfl⟩
    · exact ⟨_, List.mem_cons_of_mem _ List.mem_cons_self, rfl⟩

end Paints

/-! ## Rings -/

section Rings

variable (width : Nat) (v : UInt8)

theorem fillN_paints (row count : Int) {col : Int} (hcol : 0 ≤ col) :
    Paints width (fillN (planeIndex width row col) count v) v
      fun x y => y = row ∧ col ≤ x ∧ x < col + count := by
  constructor
  case value => simp [fillN]
  case sound =>
    intro w hw
    obtain ⟨i, hi, rfl⟩ := List.mem_map.mp hw
    have hi := List.mem_range.mp hi
    refine ⟨col + i, row, ⟨rfl, by omega, by omega⟩, ?_⟩
    simp only [planeIndex]
    omega
  case complete =>
    rintro x y ⟨rfl, hle, hlt⟩
    refine ⟨_, List.mem_map.mpr ⟨(x - col).toNat, List.mem_range.mpr (by omega), rfl⟩, ?_⟩
    simp only [planeIndex]
    omega

/-- One round of the loop paints the border of its rectangle. -/
theorem ringWrites_paints {r : Rect} (hleft : 0 ≤ r.left) (hcols : r.left ≤ r.right)
    (hrows : r.top ≤ r.bottom) :
    Paints width (ringWrites width r.left r.right r.top r.bottom v) v
      fun x y => r.borderDistance x y = 0 := by
  have htop := fillN_paints width v r.top (r.right - r.left + 1) hleft
  have hbottom : Paints width
      (if r.bottom ≠ r.top then
        fillN (planeIndex width r.bottom r.left) (r.right - r.left + 1) v
      else []) v
      fun x y => r.bottom ≠ r.top ∧ y = r.bottom ∧ r.left ≤ x ∧
        x < r.left + (r.right - r.left + 1) := by
    split
    · rename_i hne
      exact (fillN_paints width v _ _ hleft).congr fun x y => by simp [hne]
    · rename_i heq
      exact Paints.nil fun x y h => heq h.1
  have hsides := Paints.flatMap (l := List.range (r.bottom - r.top + 1).toNat) fun i _ =>
    Paints.pair width v (r.top + i) r.left r.right
  refine ((htop.append hbottom).append hsides).congr fun x y => ?_
  unfold Rect.borderDistance
  constructor
  · rintro ((h | h) | ⟨i, hi, h⟩)
    · omega
    · omega
    · have hi := List.mem_range.mp hi
      omega
  · intro h
    by_cases hside : x = r.left ∨ x = r.right
    · refine Or.inr ⟨(y - r.top).toNat, List.mem_range.mpr (by omega), ?_⟩
      omega
    · left
      omega

/-- The rounds from an offset on paint the pixels from that distance on. The induction is on the
rounds left; when the loop ends early, no pixel is that far inside. -/
theorem ringLoop_paints {r : Rect} (hleft : 0 ≤ r.left) (rounds : Nat) {offset : Int}
    (hoffset : 0 ≤ offset) :
    Paints width (ringLoop width r.left r.right r.top r.bottom v rounds offset) v
      fun x y => offset ≤ r.borderDistance x y ∧ r.borderDistance x y < offset + rounds := by
  induction rounds generalizing offset with
  | zero =>
    apply Paints.nil
    intro x y
    omega
  | succ rounds ih =>
    simp only [ringLoop]
    split
    · apply Paints.nil
      intro x y
      unfold Rect.borderDistance
      omega
    · rename_i hne
      push Not at hne
      let inner : Rect := ⟨r.left + offset, r.right - offset, r.top + offset, r.bottom - offset⟩
      have hring : Paints width (ringWrites width inner.left inner.right inner.top inner.bottom v) v
          fun x y => inner.borderDistance x y = 0 :=
        ringWrites_paints width v (by simp only [inner]; omega) hne.2 hne.1
      refine (hring.append (ih (by omega : 0 ≤ offset + 1))).congr fun x y => ?_
      simp only [inner, Rect.borderDistance]
      omega

/-- The rings paint the border of the rectangle, clamped to the frame. -/
theorem drawRectangleY_paints {height : Nat} {x1 y1 x2 y2 thickness : Int}
    (hx : max 0 x1 < min x2 (width - 1)) (hy : max 0 y1 < min y2 (height - 1))
    (hthickness : 0 < thickness) :
    Paints width (drawRectangleY width height x1 y1 x2 y2 thickness v) v
      (Rect.Border ⟨max 0 x1, min x2 (width - 1), max 0 y1, min y2 (height - 1)⟩ thickness) := by
  have hleft : clampCoordinate (min x1 x2) 0 (width - 1) = max 0 x1 := by
    unfold clampCoordinate
    omega
  have hright : clampCoordinate (max x1 x2) 0 (width - 1) = min x2 (width - 1) := by
    unfold clampCoordinate
    omega
  have htop : clampCoordinate (min y1 y2) 0 (height - 1) = max 0 y1 := by
    unfold clampCoordinate
    omega
  have hbottom : clampCoordinate (max y1 y2) 0 (height - 1) = min y2 (height - 1) := by
    unfold clampCoordinate
    omega
  simp only [drawRectangleY, hleft, hright, htop, hbottom]
  rw [if_neg (by omega), if_neg (by omega)]
  refine (ringLoop_paints width v (r := ⟨_, _, _, _⟩) (Int.le_max_left 0 x1) thickness.toNat
    (Int.le_refl 0)).congr fun x y => ?_
  rw [Rect.Border, Rect.contains_iff]
  omega

end Rings

/-! ## The pixels of a frame -/

theorem Paints.lt {width height : Nat} {writes : List (Nat × UInt8)} {v : UInt8}
    {area : Int → Int → Prop} (h : Paints width writes v area)
    (hframe : ∀ x y, area x y → (0 ≤ x ∧ x < width) ∧ 0 ≤ y ∧ y < height) :
    ∀ w ∈ writes, w.1 < width * height := by
  intro w hw
  obtain ⟨x, y, harea, hindex⟩ := h.sound w hw
  obtain ⟨⟨hx0, hxw⟩, hy0, hyh⟩ := hframe x y harea
  rw [hindex, planeIndex, Nat.mul_comm width]
  exact index_lt (by omega) (by omega)

/-- What painting an area of the frame does to a pixel of it. -/
theorem Paints.getElem?_store {width height : Nat} {writes : List (Nat × UInt8)} {v : UInt8}
    {area : Int → Int → Prop} [∀ x y, Decidable (area x y)] (h : Paints width writes v area)
    (hframe : ∀ x y, area x y → (0 ≤ x ∧ x < width) ∧ 0 ≤ y ∧ y < height) {buf : Bytes}
    (hlen : width * height ≤ buf.length) {x y : Nat} (hx : x < width) (hy : y < height) :
    (store buf writes)[y * width + x]? =
      buf[y * width + x]?.map fun luma => if area x y then v else luma := by
  have hindex := index_lt hx hy
  rw [Nat.mul_comm] at hlen
  split
  · rename_i harea
    obtain ⟨w, hw, hat⟩ := h.complete x y harea
    rw [getElem?_store_const h.value (by omega) ⟨w, hw, by simpa [planeIndex] using hat⟩,
      List.getElem?_eq_getElem (by omega), Option.map_some]
  · rename_i harea
    rw [getElem?_store_of_notMem, Option.map_id']
    intro w hw hat
    obtain ⟨x', y', harea', hindex'⟩ := h.sound w hw
    obtain ⟨⟨hx0, hxw⟩, hy0, hyh⟩ := hframe x' y' harea'
    obtain ⟨hxx, hyy⟩ := index_unique hx (by omega : x'.toNat < width) (hat.symm.trans hindex')
    rw [hxx, hyy, Int.toNat_of_nonneg hx0, Int.toNat_of_nonneg hy0] at harea
    exact harea harea'

/-! ## Detections -/

namespace Corners

variable (c : Corners) (width height : Nat)

/-- The rectangle of a detection. -/
def box : Rect := ⟨c.x1, c.x2, c.y1, c.y2⟩

/-- The rectangle one pixel larger, clamped to the frame. -/
def outline : Rect :=
  ⟨max 0 (c.x1 - 1), min (c.x2 + 1) (width - 1), max 0 (c.y1 - 1), min (c.y2 + 1) (height - 1)⟩

/-- The corners are places of the frame. -/
structure InFrame : Prop where
  x1 : 0 ≤ c.x1
  y1 : 0 ≤ c.y1
  x2 : c.x2 ≤ width - 1 ∨ c.x2 = 0
  y2 : c.y2 ≤ height - 1 ∨ c.y2 = 0

theorem inFrame_cornersOf (outOfRangeCast : ExtRat → Int) (d : Detection) :
    (cornersOf outOfRangeCast width height d).InFrame width height := by
  constructor <;> simp only [cornersOf, clampCoordinate] <;> omega

variable {c width height} {thickness : Int}

theorem outline_inFrame {x y : Int} (h : (c.outline width height).Border thickness x y) :
    (0 ≤ x ∧ x < width) ∧ 0 ≤ y ∧ y < height := by
  simp only [outline, Rect.Border, Rect.Contains] at h
  omega

variable (v : UInt8) (hc : c.InFrame width height) (hx : c.x1 < c.x2) (hy : c.y1 < c.y2)
include hc hx hy

theorem outline_paints (hthickness : 0 < thickness) :
    Paints width
      (drawRectangleY width height (c.x1 - 1) (c.y1 - 1) (c.x2 + 1) (c.y2 + 1) thickness v) v
      ((c.outline width height).Border thickness) := by
  obtain ⟨hx1, hy1, hx2, hy2⟩ := hc
  exact drawRectangleY_paints width v (by omega) (by omega) hthickness

theorem box_paints (hthickness : 0 < thickness) :
    Paints width (drawRectangleY width height c.x1 c.y1 c.x2 c.y2 thickness v) v
      (c.box.Border thickness) := by
  obtain ⟨hx1, hy1, hx2, hy2⟩ := hc
  have hbox : c.box =
      ⟨max 0 c.x1, min c.x2 (width - 1), max 0 c.y1, min c.y2 (height - 1)⟩ := by
    simp only [box, Rect.mk.injEq]
    omega
  rw [hbox]
  exact drawRectangleY_paints width v (by omega) (by omega) hthickness

theorem box_inFrame {x y : Int} (h : c.box.Border thickness x y) :
    (0 ≤ x ∧ x < width) ∧ 0 ≤ y ∧ y < height := by
  obtain ⟨hx1, hy1, hx2, hy2⟩ := hc
  simp only [box, Rect.Border, Rect.Contains] at h
  omega

end Corners

namespace DetectionOverlay

variable (overlay : DetectionOverlay)

/-- The thickness of the boxes in a frame of this size. -/
def boxBorder (width height : Nat) : Int := max 1 (min overlay.boxThickness (min width height))

/-- The thickness of their outlines. -/
def outlineBorder (width height : Nat) : Int :=
  min (overlay.boxBorder width height + 1) (min width height)

/-- What a detection does to the pixel at `x`, `y`: first the outline, then the box. -/
def overlayPixel (width height x y : Nat) (luma : UInt8) (c : Corners) : UInt8 :=
  if c.x1 < c.x2 ∧ c.y1 < c.y2 then
    let outlined :=
      if (c.outline width height).Border (overlay.outlineBorder width height) x y
      then overlayOutlineLuma else luma
    if c.box.Border (overlay.boxBorder width height) x y then overlayBoxLuma else outlined
  else luma

section Pixels

variable {width height : Nat} {c : Corners} {x y : Nat} {buf : Bytes}

theorem detectionWrites_eq (hx : c.x1 < c.x2) (hy : c.y1 < c.y2) :
    overlay.detectionWrites width height c =
      drawRectangleY width height (c.x1 - 1) (c.y1 - 1) (c.x2 + 1) (c.y2 + 1)
          (overlay.outlineBorder width height) overlayOutlineLuma ++
        drawRectangleY width height c.x1 c.y1 c.x2 c.y2 (overlay.boxBorder width height)
          overlayBoxLuma := by
  unfold detectionWrites
  exact if_neg (by omega)

theorem detectionWrites_eq_nil (h : ¬ (c.x1 < c.x2 ∧ c.y1 < c.y2)) :
    overlay.detectionWrites width height c = [] := by
  unfold detectionWrites
  exact if_pos (by omega)

theorem boxBorder_pos (width height : Nat) : 0 < overlay.boxBorder width height := by
  unfold boxBorder
  omega

theorem outlineBorder_pos (hc : c.InFrame width height) (hx : c.x1 < c.x2) (hy : c.y1 < c.y2) :
    0 < overlay.outlineBorder width height := by
  have hbox := overlay.boxBorder_pos width height
  obtain ⟨hx1, hy1, hx2, hy2⟩ := hc
  unfold outlineBorder
  omega

/-- The writes of one detection do to a pixel what `overlayPixel` says. -/
theorem getElem?_detectionWrites (hc : c.InFrame width height)
    (hlen : width * height ≤ buf.length) (hx : x < width) (hy : y < height) :
    (store buf (overlay.detectionWrites width height c))[y * width + x]? =
      buf[y * width + x]?.map fun luma => overlay.overlayPixel width height x y luma c := by
  by_cases hcorners : c.x1 < c.x2 ∧ c.y1 < c.y2
  · obtain ⟨hcols, hrows⟩ := hcorners
    have hbox := Corners.box_paints overlayBoxLuma hc hcols hrows
      (overlay.boxBorder_pos width height)
    have houtline := Corners.outline_paints overlayOutlineLuma hc hcols hrows
      (overlay.outlineBorder_pos hc hcols hrows)
    rw [overlay.detectionWrites_eq hcols hrows, store_append,
      hbox.getElem?_store (fun x y => Corners.box_inFrame hc hcols hrows) (by rwa [length_store])
        hx hy,
      houtline.getElem?_store (fun x y => Corners.outline_inFrame) hlen hx hy, Option.map_map]
    simp only [overlayPixel, hcols, hrows, and_self, if_true]
    rfl
  · rw [detectionWrites_eq_nil overlay hcorners, store_nil]
    simp [overlayPixel, hcorners]

theorem detectionWrites_lt (hc : c.InFrame width height) :
    ∀ w ∈ overlay.detectionWrites width height c, w.1 < width * height := by
  intro w hw
  by_cases hcorners : c.x1 < c.x2 ∧ c.y1 < c.y2
  · obtain ⟨hcols, hrows⟩ := hcorners
    rw [overlay.detectionWrites_eq hcols hrows] at hw
    rcases List.mem_append.mp hw with hmem | hmem
    · exact (Corners.outline_paints _ hc hcols hrows (overlay.outlineBorder_pos hc hcols hrows)).lt
        (fun x y => Corners.outline_inFrame) w hmem
    · exact (Corners.box_paints _ hc hcols hrows (overlay.boxBorder_pos width height)).lt
        (fun x y => Corners.box_inFrame hc hcols hrows) w hmem
  · simp [detectionWrites_eq_nil overlay hcorners] at hw

end Pixels

/-- What `drawDetections` does to a frame that is long enough. -/
structure PixelExact (width height : Nat) (corners : List Corners) (before after : Bytes) : Prop where
  size : after.length = before.length
  chroma : ∀ i, width * height ≤ i → after[i]? = before[i]?
  luma : ∀ x < width, ∀ y < height,
    after[y * width + x]? =
      before[y * width + x]?.map fun luma =>
        corners.foldl (overlay.overlayPixel width height x y) luma
  inside : ∀ c ∈ corners, ∀ w ∈ overlay.detectionWrites width height c, w.1 < width * height

/-- The loop over the detections; the induction is on them. -/
theorem foldl_exact {width height : Nat} {corners : List Corners}
    (hcorners : ∀ c ∈ corners, c.InFrame width height) {nv12 : Bytes}
    (hlen : width * height ≤ nv12.length) :
    overlay.PixelExact width height corners nv12
      (corners.foldl (fun nv12 c => store nv12 (overlay.detectionWrites width height c)) nv12) := by
  induction corners generalizing nv12 with
  | nil =>
    constructor
    case size => rfl
    case chroma => exact fun i _ => rfl
    case luma => simp
    case inside => simp
  | cons c corners ih =>
    have hc := hcorners c List.mem_cons_self
    have hlt := overlay.detectionWrites_lt hc
    have hlen' : width * height ≤ (store nv12 (overlay.detectionWrites width height c)).length := by
      rwa [length_store]
    have hrest := ih (fun c hc => hcorners c (List.mem_cons_of_mem _ hc)) hlen'
    constructor
    case size => exact hrest.size.trans length_store
    case chroma =>
      intro i hi
      calc _ = (store nv12 (overlay.detectionWrites width height c))[i]? := hrest.chroma i hi
        _ = nv12[i]? := getElem?_store_of_notMem fun w hw heq => by have := hlt w hw; omega
    case luma =>
      intro x hx y hy
      rw [List.foldl_cons, hrest.luma x hx y hy,
        overlay.getElem?_detectionWrites hc hlen hx hy, Option.map_map]
      rfl
    case inside => exact List.forall_mem_cons.mpr ⟨hlt, hrest.inside⟩

/-- **Overlay drawing is exact**: a frame shorter than its luma plane is left alone, and any other is
changed pixel by pixel as `overlayPixel` says, one detection after the other. -/
theorem drawDetections_exact (outOfRangeCast : ExtRat → Int) (nv12 : Bytes) (width height : Nat)
    (detections : List Detection) :
    (nv12.length < width * height →
      overlay.drawDetections outOfRangeCast nv12 width height detections = nv12) ∧
    (width * height ≤ nv12.length →
      overlay.PixelExact width height (detections.map (cornersOf outOfRangeCast width height)) nv12
        (overlay.drawDetections outOfRangeCast nv12 width height detections)) := by
  constructor
  · intro hshort
    unfold drawDetections
    rw [if_pos hshort]
    split <;> rfl
  · intro hlen
    have hcorners : ∀ c ∈ detections.map (cornersOf outOfRangeCast width height),
        c.InFrame width height := by
      intro c hc
      obtain ⟨d, _, rfl⟩ := List.mem_map.mp hc
      exact Corners.inFrame_cornersOf width height outOfRangeCast d
    have hexact := overlay.foldl_exact hcorners hlen
    rw [List.foldl_map] at hexact
    unfold drawDetections
    split
    · rename_i hempty
      rw [List.isEmpty_iff.mp hempty] at hexact ⊢
      exact hexact
    · rw [if_neg (by omega)]
      exact hexact

-- A box of three by three pixels in a frame of six by four.
example :
    (init true 1 1).drawDetections (fun _ => 0) (List.replicate 28 7) 6 4
        [⟨0, "", .fin 1, .fin 2, .fin 1, .fin 4, .fin 3⟩] =
      [7, 24, 24, 24, 24, 24,
       7, 24, 235, 235, 235, 24,
       7, 24, 235, 24, 235, 24,
       7, 24, 235, 235, 235, 24,
       7, 7, 7, 7] := by
  decide +kernel

end DetectionOverlay

end EdgeVision
