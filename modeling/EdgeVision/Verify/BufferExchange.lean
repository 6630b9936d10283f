import EdgeVision.Camera.BufferExchange
import EdgeVision.Camera.Hardware
import EdgeVision.Lib.Reach
import Mathlib.Data.List.Forall2
import Mathlib.Data.List.GetD

/-!
# Frames are taken whole, and a buffer that does not come back is gone

Whatever the driver does between the steps of `captureFrame`, a frame that it hands out is its own
until the buffer is queued again, so that the images are made of whole frames, in the order of the
driver (`frames_taken_whole`). A `VIDIOC_QBUF` that fails takes its buffer out of the exchange: the
camera goes on delivering exactly as long as one is left.
-/

namespace EdgeVision

open Lib Traced

/-! ## What the driver is given first -/

namespace CameraDevice

/-- The buffers that have been queued. -/
def queuedBuffers (queued : List Nat) : V4l2Call → Option (List Nat)
  | .queueBuf i => some (queued ++ [i])
  | _ => some queued

theorem closeUnless_queues {ok : Bool} {queued : List Nat} :
    Obeys queuedBuffers queued (closeUnless ok) fun _ t => t = queued := by
  cases ok with
  | false => exact obeys_call_bind rfl obeys_exit
  | true => exact obeys_pure rfl

theorem initBuffers_queues (r : V4l2Results) (n i : Nat) :
    Obeys queuedBuffers (List.range i) (initBuffers r n i) fun _ t => t = List.range (i + n) := by
  induction n generalizing i with
  | zero => exact obeys_pure rfl
  | succ n ih =>
    have hbuffer : Obeys queuedBuffers (List.range i) (initBuffer r i) fun _ t =>
        t = List.range (i + 1) := by
      refine obeys_call_bind rfl (obeys_bind closeUnless_queues fun _ t ht => ?_)
      subst ht
      refine obeys_call_bind rfl (obeys_bind closeUnless_queues fun _ t ht => ?_)
      subst ht
      have hqueue : [V4l2Call.queueBuf i].foldlM queuedBuffers (List.range i) =
          some (List.range (i + 1)) := by
        rw [List.range_succ]
        rfl
      exact obeys_call_bind hqueue closeUnless_queues
    rw [initBuffers]
    refine obeys_bind hbuffer fun _ t ht => ?_
    subst ht
    rw [show i + (n + 1) = i + 1 + n by omega]
    exact ih (i + 1)

/-- Where `initCamera` returns, it has queued its buffers in order. -/
theorem initCamera_queues (r : V4l2Results) :
    Obeys queuedBuffers [] (initCamera r) fun _ t => t = List.range r.bufferCount := by
  refine obeys_call_bind rfl (obeys_bind closeUnless_queues fun _ t ht => ?_)
  subst ht
  refine obeys_call_bind rfl (obeys_bind closeUnless_queues fun _ t ht => ?_)
  subst ht
  simpa using initBuffers_queues r r.bufferCount 0

/-- The exchange starts with what `initCamera` has queued. -/
theorem initial_incoming (cam : CameraDevice) (scratch : Bytes) {r : V4l2Results}
    (h : cam.buffers.length = r.bufferCount) :
    Obeys queuedBuffers [] (initCamera r) fun _ t =>
      t = (BufferExchange.initial cam scratch).incoming :=
  (initCamera_queues r).weaken fun _ _ ht => ht.trans (congrArg List.range h.symm)

/-! ## What is shown of a frame -/

variable (cam : CameraDevice)

/-- The driver has filled the planes of the frame. -/
def Whole (frame : DriverFrame) : Prop :=
  cam.frameBytes frame.bytesUsed < 4294967296 ∧
    3 * cam.sourceStride * cam.height ≤ 2 * cam.frameBytes frame.bytesUsed ∧
      cam.frameBytes frame.bytesUsed ≤ frame.content.length

/-- The image is the frame, in compact NV12. -/
structure Shows (frame : DriverFrame) (image : Bytes) : Prop where
  /-- It is what `captureFrame` makes of the frame, -/
  captured : ∃ scratch, { cam with buffers := [frame.content] }.captureFrame
    ⟨true, some ⟨0, frame.bytesUsed⟩, true⟩ scratch = (true, image)
  size : image.length = cam.getPackedFrameSize
  /-- with every pixel of it. -/
  luma : ∀ r < cam.height, ∀ c < cam.width,
    image[r * cam.width + c]? = frame.content[r * cam.sourceStride + c]?
  chroma : ∀ r < cam.height / 2, ∀ c < cam.width,
    image[cam.width * cam.height + r * cam.width + c]? =
      frame.content[cam.sourceStride * cam.runtimeVirHeight frame.bytesUsed +
        r * cam.sourceStride + c]?

variable {cam} {frame : DriverFrame} {scratch : Bytes} (hwidth : 1 ≤ cam.width)
  (hstride : cam.width ≤ cam.sourceStride) (hwhole : cam.Whole frame)
  (hscratch : scratch.length = cam.getPackedFrameSize)
include hwidth hstride hwhole hscratch

theorem Whole.shows :
    cam.Shows frame (runCopies scratch frame.content (cam.captureCopies frame.bytesUsed)) := by
  obtain ⟨hlimit, hplanes, hsrc⟩ := hwhole
  have hfits := captureFits hwidth hstride hlimit hplanes
  constructor
  case captured =>
    refine ⟨scratch, ?_⟩
    rw [captureFrame_eq scratch rfl rfl]
    rfl
  case size => exact hfits.length_run hscratch hsrc
  case luma => exact fun r hr c hc => hfits.luma hscratch hsrc hr hc
  case chroma => exact fun r hr c hc => hfits.chroma hscratch hsrc hr hc

end CameraDevice

namespace BufferExchange

/-! ## What every state keeps -/

/-- The driver fills the planes of every frame that it completes. -/
def wholeFrames (cam : CameraDevice) (_ : BufferExchange) : ExchangeLabel → Prop
  | .complete frame => cam.Whole frame
  | .capture _ => True

/-- The buffer that `captureFrame` has taken. -/
def inHand : CapturePoint → List Nat
  | .select | .dequeue => []
  | .copying buf _ => [buf.index]

/-- The buffer holds the frame. -/
def Holds (memory : List Bytes) (buf : DequeuedBuffer) (frame : DriverFrame) : Prop :=
  memory[buf.index]? = some frame.content ∧ buf.bytesUsed = frame.bytesUsed

/-- The frame that is being copied: what has been copied of it is in the vector. -/
inductive Copying (cam : CameraDevice) (memory : List Bytes) (scratch : Bytes) :
    CapturePoint → List DriverFrame → Prop where
  | select : Copying cam memory scratch .select []
  | dequeue : Copying cam memory scratch .dequeue []
  | copying {buf : DequeuedBuffer} {frame : DriverFrame} {before : Bytes} {done rest : List Copy}
      (holds : Holds memory buf frame) (before_length : before.length = cam.getPackedFrameSize)
      (copies : cam.captureCopies buf.bytesUsed = done ++ rest)
      (copied : scratch = runCopies before frame.content done) :
      Copying cam memory scratch (.copying buf rest) [frame]

/-- Where the frames of the driver are: `past` has been delivered or lost, `current` is being copied,
`later` waits. -/
structure Sorted (cam : CameraDevice) (s : BufferExchange) (past current later : List DriverFrame) :
    Prop where
  completed : s.completed = past ++ current ++ later
  waiting : List.Forall₂ (Holds s.memory) s.outgoing later
  copying : Copying cam s.memory s.scratch s.point current
  delivered : ∃ frames, frames.Sublist past ∧ List.Forall₂ cam.Shows frames s.images
  count : past.length = s.images.length + s.lost.length

/-- The buffers that someone has. -/
def owned (s : BufferExchange) : List Nat :=
  s.incoming ++ s.outgoing.map (·.index) ++ inHand s.point ++ s.lost

structure Kept (cam : CameraDevice) (s : BufferExchange) : Prop where
  buffers : s.owned.Perm (List.range cam.buffers.length)
  lengths : s.memory.map List.length = cam.buffers.map List.length
  scratch : s.scratch.length = cam.getPackedFrameSize
  whole : ∀ frame ∈ s.completed, cam.Whole frame
  sorted : ∃ past current later, s.Sorted cam past current later

/-! ## The driver completes a frame -/

section Memory

variable {cam : CameraDevice} {memory : List Bytes} {scratch content : Bytes} {i : Nat}

/-- A write to another buffer leaves the frame in its buffer. -/
theorem Holds.set {buf : DequeuedBuffer} {frame : DriverFrame} (h : Holds memory buf frame)
    (hne : i ≠ buf.index) : Holds (memory.set i content) buf frame :=
  ⟨(List.getElem?_set_ne hne).trans h.1, h.2⟩

theorem Copying.set {point : CapturePoint} {current : List DriverFrame}
    (h : Copying cam memory scratch point current) (hne : i ∉ inHand point) :
    Copying cam (memory.set i content) scratch point current := by
  cases h with
  | select => exact .select
  | dequeue => exact .dequeue
  | copying holds before_length copies copied =>
    have hindex := List.ne_of_not_mem_cons hne
    exact .copying (holds.set hindex) before_length copies copied

theorem waiting_set (content : Bytes) {outgoing : List DequeuedBuffer} {later : List DriverFrame}
    (h : List.Forall₂ (Holds memory) outgoing later) (hne : i ∉ outgoing.map (·.index)) :
    List.Forall₂ (Holds (memory.set i content)) outgoing later := by
  induction h with
  | nil => exact .nil
  | cons holds _ ih =>
    rw [List.map_cons] at hne
    exact .cons (holds.set (List.ne_of_not_mem_cons hne)) (ih (List.not_mem_of_not_mem_cons hne))

end Memory

section Steps

variable {cam : CameraDevice} {s t : BufferExchange}

theorem owned_eq (s : BufferExchange) :
    s.owned = s.incoming ++ (s.outgoing.map (·.index) ++ (inHand s.point ++ s.lost)) := by
  simp only [owned, List.append_assoc]

theorem Kept.nodup (h : s.Kept cam) : s.owned.Nodup :=
  h.buffers.nodup_iff.mpr List.nodup_range

theorem Kept.lt {i : Nat} (h : s.Kept cam) (hi : i ∈ s.owned) : i < s.memory.length := by
  have hlength := congrArg List.length h.lengths
  rw [List.length_map, List.length_map] at hlength
  rw [hlength]
  exact List.mem_range.mp (h.buffers.mem_iff.mp hi)

theorem complete_cases {frame : DriverFrame} (h : s.complete frame = some t) :
    ∃ i incoming, s.incoming = i :: incoming ∧
      frame.content.length = (s.memory.getD i []).length ∧
      t = { s with
        memory := s.memory.set i frame.content
        incoming := incoming
        outgoing := s.outgoing ++ [⟨i, frame.bytesUsed⟩]
        completed := s.completed ++ [frame] } := by
  unfold complete at h
  split at h
  · cases h
  · rename_i i incoming hincoming
    split at h
    · rename_i hlength
      exact ⟨i, incoming, hincoming, hlength, (Option.some.inj h).symm⟩
    · cases h

theorem Kept.complete {frame : DriverFrame} (h : s.Kept cam) (hwhole : cam.Whole frame)
    (hstep : s.complete frame = some t) : t.Kept cam := by
  obtain ⟨i, incoming, hincoming, hlength, rfl⟩ := complete_cases hstep
  have hnodup := h.nodup
  have hlt : i < s.memory.length := h.lt (by simp [owned_eq, hincoming])
  rw [owned_eq, hincoming, List.cons_append, List.nodup_cons, List.mem_append, List.mem_append,
    List.mem_append] at hnodup
  obtain ⟨hnew, -⟩ := hnodup
  obtain ⟨howned, hlengths, hscratch, hframes, past, current, later, hsorted⟩ := h
  constructor
  case buffers =>
    refine List.Perm.trans ?_ howned
    simp only [owned_eq, hincoming, List.map_append, List.map_cons, List.map_nil, List.append_assoc,
      List.cons_append, List.nil_append]
    rw [← List.append_assoc, ← List.append_assoc]
    exact List.perm_middle
  case lengths =>
    rw [← hlengths, List.map_set, hlength]
    apply List.ext_getElem?
    intro j
    rcases eq_or_ne i j with rfl | hne
    · rw [List.getElem?_set_self (by simpa using hlt), List.getElem?_map,
        List.getElem?_eq_getElem hlt, List.getD_eq_getElem _ _ hlt]
      rfl
    · rw [List.getElem?_set_ne hne]
  case scratch => exact hscratch
  case whole =>
    intro f hf
    rcases List.mem_append.mp hf with hf | hf
    · exact hframes f hf
    · exact List.mem_singleton.mp hf ▸ hwhole
  case sorted =>
    refine ⟨past, current, later ++ [frame], ?_⟩
    constructor
    case completed => simp only [hsorted.completed, List.append_assoc]
    case waiting =>
      have hwaiting := waiting_set frame.content hsorted.waiting
        (fun hmem => hnew (.inr (.inl hmem)))
      have hlast : Holds (s.memory.set i frame.content) ⟨i, frame.bytesUsed⟩ frame :=
        ⟨List.getElem?_set_self hlt, rfl⟩
      exact List.rel_append hwaiting (List.Forall₂.cons hlast .nil)
    case copying => exact hsorted.copying.set (fun hmem => hnew (.inr (.inr (.inl hmem))))
    case delivered => exact hsorted.delivered
    case count => exact hsorted.count

/-! ## `captureFrame` takes a step -/

/-- Between calls nothing is in hand. -/
theorem Copying.select_iff {memory : List Bytes} {scratch : Bytes} {current : List DriverFrame} :
    Copying cam memory scratch .select current ↔ current = [] := by
  constructor
  · intro h
    cases h
    rfl
  · rintro rfl
    exact .select

theorem Copying.dequeue_iff {memory : List Bytes} {scratch : Bytes} {current : List DriverFrame} :
    Copying cam memory scratch .dequeue current ↔ current = [] := by
  constructor
  · intro h
    cases h
    rfl
  · rintro rfl
    exact .dequeue

theorem Kept.selected (h : s.Kept cam) (hpoint : s.point = .select) (ok : Bool) :
    { s with point := if ok then .dequeue else .select }.Kept cam := by
  obtain ⟨howned, hlengths, hscratch, hframes, past, current, later, hsorted⟩ := h
  have hcurrent := hsorted.copying
  rw [hpoint, Copying.select_iff] at hcurrent
  refine ⟨?_, hlengths, hscratch, hframes, past, current, later, hsorted.completed, hsorted.waiting,
    ?_, hsorted.delivered, hsorted.count⟩
  · rw [owned, hpoint] at howned
    cases ok <;> exact howned
  · cases ok
    case false => exact Copying.select_iff.mpr hcurrent
    case true => exact Copying.dequeue_iff.mpr hcurrent

theorem Kept.refused (h : s.Kept cam) (hpoint : s.point = .dequeue) :
    { s with point := .select }.Kept cam := by
  obtain ⟨howned, hlengths, hscratch, hframes, past, current, later, hsorted⟩ := h
  have hcurrent := hsorted.copying
  rw [hpoint, Copying.dequeue_iff] at hcurrent
  rw [owned, hpoint] at howned
  exact ⟨howned, hlengths, hscratch, hframes, past, current, later, hsorted.completed,
    hsorted.waiting, Copying.select_iff.mpr hcurrent, hsorted.delivered, hsorted.count⟩

/-- The frame that has waited longest is taken, and nothing of it is copied. -/
theorem Kept.taken {buf : DequeuedBuffer} {outgoing : List DequeuedBuffer} (h : s.Kept cam)
    (hpoint : s.point = .dequeue) (houtgoing : s.outgoing = buf :: outgoing) :
    { s with
      outgoing := outgoing
      point := .copying buf (cam.captureCopies buf.bytesUsed) }.Kept cam := by
  obtain ⟨howned, hlengths, hscratch, hframes, past, current, later, hsorted⟩ := h
  have hcurrent := hsorted.copying
  rw [hpoint, Copying.dequeue_iff] at hcurrent
  have hwaiting := hsorted.waiting
  rw [houtgoing] at hwaiting
  cases hwaiting with
  | @cons _ frame _ later holds hrest =>
    refine ⟨?_, hlengths, hscratch, hframes, past, [frame], later, ?_, hrest, ?_, hsorted.delivered,
      hsorted.count⟩
    · refine List.Perm.trans ?_ howned
      simp only [owned_eq, houtgoing, hpoint, inHand, List.map_cons, List.nil_append,
        List.cons_append]
      exact List.perm_middle.append_left _
    · simp [hsorted.completed, hcurrent]
    · have hcopies : cam.captureCopies buf.bytesUsed = [] ++ cam.captureCopies buf.bytesUsed := rfl
      exact .copying holds hscratch hcopies rfl

/-- A `memcpy` out of the buffer in hand. -/
theorem Kept.copied {buf : DequeuedBuffer} {c : Copy} {rest : List Copy} (hwidth : 1 ≤ cam.width)
    (hstride : cam.width ≤ cam.sourceStride) (h : s.Kept cam)
    (hpoint : s.point = .copying buf (c :: rest)) :
    { s with
      scratch := memcpy s.scratch c.dstAt (s.memory.getD buf.index []) c.srcAt c.size
      point := .copying buf rest }.Kept cam := by
  obtain ⟨howned, hlengths, hscratch, hframes, past, current, later, hsorted⟩ := h
  have hcopying := hsorted.copying
  rw [hpoint] at hcopying
  cases hcopying with
  | @copying _ frame before done _ holds before_length copies copied =>
    have hcontent : s.memory.getD buf.index [] = frame.content := by
      rw [List.getD_eq_getElem?_getD, holds.1]
      rfl
    have hmem : frame ∈ s.completed := by simp [hsorted.completed]
    obtain ⟨hlimit, hplanes, hsrc⟩ := hframes frame hmem
    have hfits := CameraDevice.captureFits hwidth hstride hlimit hplanes
    have hc : c ∈ cam.captureCopies frame.bytesUsed := by
      rw [← holds.2, copies]
      exact List.mem_append_right _ List.mem_cons_self
    obtain ⟨hdst, hread⟩ := hfits.within hc
    refine ⟨?_, hlengths, ?_, hframes, past, [frame], later, hsorted.completed, hsorted.waiting, ?_,
      hsorted.delivered, hsorted.count⟩
    · rw [owned, hpoint] at howned
      exact howned
    · rw [hcontent]
      exact (length_memcpy (by omega) (by omega)).trans hscratch
    · have hdone : cam.captureCopies buf.bytesUsed = (done ++ [c]) ++ rest := by
        rw [copies, List.append_assoc, List.singleton_append]
      refine .copying holds before_length hdone ?_
      rw [hcontent, copied, runCopies, runCopies, List.foldl_append]
      rfl

/-- The frame is in the vector once nothing of it is left to copy. -/
theorem Kept.image {buf : DequeuedBuffer} (hwidth : 1 ≤ cam.width)
    (hstride : cam.width ≤ cam.sourceStride) (h : s.Kept cam) (hpoint : s.point = .copying buf []) :
    ∃ past frame later, s.Sorted cam past [frame] later ∧ cam.Shows frame s.scratch := by
  obtain ⟨howned, hlengths, hscratch, hframes, past, current, later, hsorted⟩ := h
  have hcopying := hsorted.copying
  rw [hpoint] at hcopying
  cases hcopying with
  | @copying _ frame before done _ holds before_length copies copied =>
    refine ⟨past, frame, later, hsorted, ?_⟩
    have hmem : frame ∈ s.completed := by simp [hsorted.completed]
    have hshows := (hframes frame hmem).shows hwidth hstride before_length
    rw [← holds.2, copies, List.append_nil, ← copied] at hshows
    exact hshows

/-- The buffer goes back, and the image is delivered. -/
theorem Kept.returned {buf : DequeuedBuffer} (hwidth : 1 ≤ cam.width)
    (hstride : cam.width ≤ cam.sourceStride) (h : s.Kept cam) (hpoint : s.point = .copying buf []) :
    { s with
      incoming := s.incoming ++ [buf.index]
      point := .select
      images := s.images ++ [s.scratch] }.Kept cam := by
  obtain ⟨past, frame, later, hsorted, hshows⟩ := h.image hwidth hstride hpoint
  obtain ⟨howned, hlengths, hscratch, hframes, -⟩ := h
  obtain ⟨frames, hsublist, himages⟩ := hsorted.delivered
  refine ⟨?_, hlengths, hscratch, hframes, past ++ [frame], [], later, ?_, hsorted.waiting, .select,
    ⟨frames ++ [frame], hsublist.append (List.Sublist.refl _), ?_⟩, ?_⟩
  · refine List.Perm.trans ?_ howned
    simp only [owned_eq, hpoint, inHand, List.append_assoc, List.cons_append, List.nil_append]
    refine List.Perm.append_left _ ?_
    exact List.perm_middle.symm
  · simp [hsorted.completed]
  · exact List.rel_append himages (List.Forall₂.cons hshows .nil)
  · have hcount := hsorted.count
    simp only [List.length_append, List.length_singleton]
    omega

/-- The buffer does not go back, and its image is not delivered. -/
theorem Kept.withheld {buf : DequeuedBuffer} (hwidth : 1 ≤ cam.width)
    (hstride : cam.width ≤ cam.sourceStride) (h : s.Kept cam) (hpoint : s.point = .copying buf []) :
    { s with point := .select, lost := s.lost ++ [buf.index] }.Kept cam := by
  obtain ⟨past, frame, later, hsorted, -⟩ := h.image hwidth hstride hpoint
  obtain ⟨howned, hlengths, hscratch, hframes, -⟩ := h
  obtain ⟨frames, hsublist, himages⟩ := hsorted.delivered
  refine ⟨?_, hlengths, hscratch, hframes, past ++ [frame], [], later, ?_, hsorted.waiting, .select,
    ⟨frames, hsublist.trans (List.sublist_append_left _ _), himages⟩, ?_⟩
  · refine List.Perm.trans ?_ howned
    simp only [owned_eq, hpoint, inHand, List.nil_append]
    refine List.Perm.append_left _ (List.Perm.append_left _ ?_)
    exact List.perm_append_comm
  · simp [hsorted.completed]
  · have hcount := hsorted.count
    simp only [List.length_append, List.length_singleton]
    omega

theorem Kept.capture {ok : Bool} (hwidth : 1 ≤ cam.width) (hstride : cam.width ≤ cam.sourceStride)
    (h : s.Kept cam) (hstep : s.capture cam ok = some t) : t.Kept cam := by
  unfold BufferExchange.capture at hstep
  split at hstep
  case h_1 hpoint => exact Option.some.inj hstep ▸ h.selected hpoint ok
  case h_2 hpoint =>
    split at hstep
    · split at hstep
      · cases hstep
      · rename_i houtgoing
        exact Option.some.inj hstep ▸ h.taken hpoint houtgoing
    · exact Option.some.inj hstep ▸ h.refused hpoint
  case h_3 hpoint => exact Option.some.inj hstep ▸ h.copied hwidth hstride hpoint
  case h_4 hpoint =>
    split at hstep
    · exact Option.some.inj hstep ▸ h.returned hwidth hstride hpoint
    · exact Option.some.inj hstep ▸ h.withheld hwidth hstride hpoint

theorem Kept.initial {scratch : Bytes} (hscratch : scratch.length = cam.getPackedFrameSize) :
    (BufferExchange.initial cam scratch).Kept cam := by
  refine ⟨?_, rfl, hscratch, ?_, [], [], [], rfl, .nil, .select, ⟨[], .slnil, .nil⟩, rfl⟩
  · simp only [BufferExchange.initial, owned, inHand, List.map_nil, List.append_nil]
    exact List.Perm.refl _
  · intro frame hframe
    cases hframe

theorem Kept.step {a : ExchangeLabel} (hwidth : 1 ≤ cam.width)
    (hstride : cam.width ≤ cam.sourceStride) (h : s.Kept cam) (hok : wholeFrames cam s a)
    (hstep : s.step cam a = some t) : t.Kept cam := by
  cases a with
  | complete frame => exact h.complete hok hstep
  | capture ok => exact h.capture hwidth hstride hstep

theorem Kept.run (hwidth : 1 ≤ cam.width) (hstride : cam.width ≤ cam.sourceStride) (h : s.Kept cam)
    (hrun : Reaches (BufferExchange.step cam) (wholeFrames cam) s t) : t.Kept cam :=
  Reaches.invariant h (fun _ _ _ hu hok hstep => hu.step hwidth hstride hok hstep) hrun

/-! ## Without buffers -/

/-- Every buffer is lost: neither the driver nor `captureFrame` has one. -/
theorem Kept.nothing_left (h : s.Kept cam) (hlost : s.lost.length = cam.buffers.length) :
    s.incoming = [] ∧ s.outgoing = [] ∧ inHand s.point = [] := by
  have hlength := h.buffers.length_eq
  simp only [owned_eq, List.length_append, List.length_map, List.length_range] at hlength
  refine ⟨List.length_eq_zero_iff.mp ?_, List.length_eq_zero_iff.mp ?_,
    List.length_eq_zero_iff.mp ?_⟩ <;> omega

theorem Kept.starved_step {a : ExchangeLabel} (h : s.Kept cam)
    (hlost : s.lost.length = cam.buffers.length) (hstep : s.step cam a = some t) :
    t.lost = s.lost ∧ t.images = s.images := by
  obtain ⟨hincoming, houtgoing, hhand⟩ := h.nothing_left hlost
  cases a with
  | complete frame =>
    obtain ⟨i, incoming, hcons, -⟩ := complete_cases hstep
    rw [hincoming] at hcons
    cases hcons
  | capture ok =>
    change s.capture cam ok = some t at hstep
    unfold BufferExchange.capture at hstep
    split at hstep
    case h_1 => exact Option.some.inj hstep ▸ ⟨rfl, rfl⟩
    case h_2 =>
      rw [houtgoing] at hstep
      split at hstep
      · cases hstep
      · exact Option.some.inj hstep ▸ ⟨rfl, rfl⟩
    case h_3 hpoint => simp [hpoint, inHand] at hhand
    case h_4 hpoint => simp [hpoint, inHand] at hhand

theorem Kept.starved_run (hwidth : 1 ≤ cam.width) (hstride : cam.width ≤ cam.sourceStride)
    (h : s.Kept cam) (hlost : s.lost.length = cam.buffers.length)
    (hrun : Reaches (BufferExchange.step cam) (wholeFrames cam) s t) : t.images = s.images := by
  have hkept : t.Kept cam ∧ t.lost = s.lost ∧ t.images = s.images := by
    refine Reaches.invariant (I := fun u => u.Kept cam ∧ u.lost = s.lost ∧ u.images = s.images)
      ⟨h, rfl, rfl⟩ ?_ hrun
    rintro u a v ⟨hu, hlostu, himages⟩ hok hstep
    obtain ⟨hlostv, himagesv⟩ := hu.starved_step (hlostu ▸ hlost) hstep
    exact ⟨hu.step hwidth hstride hok hstep, hlostv.trans hlostu, himagesv.trans himages⟩
  exact hkept.2.2

/-! ## With a buffer left -/

variable (cam) in
/-- Another image can be delivered. -/
def GoesOn (s : BufferExchange) : Prop :=
  ∃ t, Reaches (step cam) (wholeFrames cam) s t ∧ s.images.length < t.images.length

theorem GoesOn.of_step {a : ExchangeLabel} (hok : wholeFrames cam s a)
    (hstep : s.step cam a = some t) (himages : t.images = s.images) (h : GoesOn cam t) :
    GoesOn cam s := by
  obtain ⟨u, hrun, hless⟩ := h
  exact ⟨u, ((Reaches.refl s).tail hok hstep).trans hrun, himages ▸ hless⟩

/-- The rest of the copies, and `VIDIOC_QBUF`. -/
theorem goesOn_of_copying {buf : DequeuedBuffer} {rest : List Copy}
    (hpoint : s.point = .copying buf rest) : GoesOn cam s := by
  induction rest generalizing s with
  | nil =>
    have hstep : s.step cam (.capture true) = some { s with
        incoming := s.incoming ++ [buf.index]
        point := .select
        images := s.images ++ [s.scratch] } := by
      simp [step, BufferExchange.capture, hpoint]
    refine ⟨_, (Reaches.refl s).tail (a := .capture true) trivial hstep, ?_⟩
    simp
  | cons c rest ih =>
    have hstep : s.step cam (.capture true) = some { s with
        scratch := memcpy s.scratch c.dstAt (s.memory.getD buf.index []) c.srcAt c.size
        point := .copying buf rest } := by
      simp [step, BufferExchange.capture, hpoint]
    exact .of_step (a := .capture true) trivial hstep rfl (ih rfl)

theorem goesOn_of_outgoing {buf : DequeuedBuffer} {outgoing : List DequeuedBuffer}
    (hpoint : s.point = .dequeue) (houtgoing : s.outgoing = buf :: outgoing) : GoesOn cam s := by
  have hstep : s.step cam (.capture true) = some { s with
      outgoing := outgoing
      point := .copying buf (cam.captureCopies buf.bytesUsed) } := by
    simp [step, BufferExchange.capture, hpoint, houtgoing]
  exact .of_step (a := .capture true) trivial hstep rfl (goesOn_of_copying rfl)

section Driver

variable (hlimit : cam.sizeImage < 4294967296)
  (hplanes : 3 * cam.sourceStride * cam.height ≤ 2 * cam.sizeImage)
  (hmapped : ∀ buffer ∈ cam.buffers, cam.sizeImage ≤ buffer.length)
include hlimit hplanes hmapped

/-- The driver can complete a frame in any buffer. -/
theorem Kept.exists_whole {i : Nat} (h : s.Kept cam) (hi : i < s.memory.length) :
    ∃ frame, cam.Whole frame ∧ frame.content.length = (s.memory.getD i []).length := by
  refine ⟨⟨List.replicate (s.memory.getD i []).length 0, 0⟩, ⟨?_, ?_, ?_⟩, List.length_replicate⟩
  · exact hlimit
  · exact hplanes
  · have hlengths : s.memory[i].length ∈ cam.buffers.map List.length := by
      rw [← h.lengths]
      exact List.mem_map_of_mem (List.getElem_mem hi)
    obtain ⟨buffer, hbuffer, heq⟩ := List.mem_map.mp hlengths
    rw [List.length_replicate, List.getD_eq_getElem _ _ hi, ← heq]
    exact hmapped buffer hbuffer

theorem Kept.goesOn_of_dequeue (h : s.Kept cam) (hpoint : s.point = .dequeue)
    (hlost : s.lost.length < cam.buffers.length) : GoesOn cam s := by
  cases houtgoing : s.outgoing with
  | cons buf outgoing => exact goesOn_of_outgoing hpoint houtgoing
  | nil =>
    cases hincoming : s.incoming with
    | nil =>
      have hlength := h.buffers.length_eq
      simp [owned_eq, hincoming, houtgoing, hpoint, inHand] at hlength
      omega
    | cons i incoming =>
      have hi : i < s.memory.length := h.lt (by simp [owned_eq, hincoming])
      obtain ⟨frame, hwhole, hlength⟩ := h.exists_whole hlimit hplanes hmapped hi
      have hstep : s.step cam (.complete frame) = some { s with
          memory := s.memory.set i frame.content
          incoming := incoming
          outgoing := s.outgoing ++ [⟨i, frame.bytesUsed⟩]
          completed := s.completed ++ [frame] } := by
        simp [BufferExchange.step, BufferExchange.complete, hincoming, hlength]
      refine .of_step (a := .complete frame) hwhole hstep rfl ?_
      have hfirst : s.outgoing ++ [⟨i, frame.bytesUsed⟩] = [⟨i, frame.bytesUsed⟩] := by
        rw [houtgoing, List.nil_append]
      exact goesOn_of_outgoing hpoint hfirst

/-- **The camera goes on exactly as long as a buffer is left.** -/
theorem Kept.goesOn_iff (hwidth : 1 ≤ cam.width) (hstride : cam.width ≤ cam.sourceStride)
    (h : s.Kept cam) : GoesOn cam s ↔ s.lost.length < cam.buffers.length := by
  have hle : s.lost.length ≤ cam.buffers.length := by
    have hlength := h.buffers.length_eq
    simp only [owned_eq, List.length_append, List.length_range] at hlength
    omega
  constructor
  · rintro ⟨t, hrun, hless⟩
    rcases Nat.lt_or_eq_of_le hle with hlt | heq
    · exact hlt
    · rw [h.starved_run hwidth hstride heq hrun] at hless
      exact absurd hless (Nat.lt_irrefl _)
  · intro hlost
    cases hpoint : s.point with
    | copying buf rest => exact goesOn_of_copying hpoint
    | dequeue => exact h.goesOn_of_dequeue hlimit hplanes hmapped hpoint hlost
    | select =>
      have hstep : s.step cam (.capture true) = some { s with point := .dequeue } := by
        simp [BufferExchange.step, BufferExchange.capture, hpoint]
      have hnext : ({ s with point := .dequeue } : BufferExchange).Kept cam :=
        h.selected hpoint true
      exact .of_step (a := .capture true) trivial hstep rfl
        (hnext.goesOn_of_dequeue hlimit hplanes hmapped rfl hlost)

end Driver

end Steps

/-! ## What the camera delivers -/

/-- What is known of a state that the exchange reaches. -/
structure TakenWhole (cam : CameraDevice) (s : BufferExchange) : Prop where
  /-- The images are whole frames of the driver, in its order and each at most once. -/
  images : ∃ frames, frames.Sublist s.completed ∧ List.Forall₂ cam.Shows frames s.images
  /-- A frame is delivered, or goes with its buffer, or is in hand, or waits. -/
  frames : s.completed.length =
    s.images.length + s.lost.length + (inHand s.point).length + s.outgoing.length
  /-- A buffer is in one place, and is one of those mapped. -/
  buffers : s.owned.Perm (List.range cam.buffers.length)
  goesOn : GoesOn cam s ↔ s.lost.length < cam.buffers.length

theorem Copying.length {cam : CameraDevice} {memory : List Bytes} {scratch : Bytes}
    {point : CapturePoint} {current : List DriverFrame}
    (h : Copying cam memory scratch point current) : current.length = (inHand point).length := by
  cases h with
  | select => rfl
  | dequeue => rfl
  | copying => rfl

/-- **Frames are taken whole**, as long as the driver fills a buffer with a whole frame before it
hands it out (`wholeFrames`): the rows of the source are no shorter than the image and both planes fit
in what the driver announces, every mapping is at least that long, and `captureFrame` is given a
vector of the packed size. -/
theorem frames_taken_whole {cam : CameraDevice} {scratch : Bytes} {s : BufferExchange}
    (hwidth : 1 ≤ cam.width) (hstride : cam.width ≤ cam.sourceStride)
    (hlimit : cam.sizeImage < 4294967296)
    (hplanes : 3 * cam.sourceStride * cam.height ≤ 2 * cam.sizeImage)
    (hmapped : ∀ buffer ∈ cam.buffers, cam.sizeImage ≤ buffer.length)
    (hscratch : scratch.length = cam.getPackedFrameSize)
    (h : Reaches (step cam) (wholeFrames cam) (initial cam scratch) s) : s.TakenWhole cam := by
  have hkept := (Kept.initial hscratch).run hwidth hstride h
  obtain ⟨past, current, later, hsorted⟩ := hkept.sorted
  obtain ⟨frames, hsublist, himages⟩ := hsorted.delivered
  constructor
  case images =>
    refine ⟨frames, hsublist.trans ?_, himages⟩
    rw [hsorted.completed, List.append_assoc]
    exact List.sublist_append_left _ _
  case frames =>
    have hwaiting := hsorted.waiting.length_eq
    rw [hsorted.completed, List.length_append, List.length_append, hsorted.count,
      hsorted.copying.length, hwaiting]
  case buffers => exact hkept.buffers
  case goesOn => exact hkept.goesOn_iff hlimit hplanes hmapped hwidth hstride

instance (cam : CameraDevice) (frame : DriverFrame) : Decidable (cam.Whole frame) :=
  inferInstanceAs (Decidable (_ ∧ _ ∧ _))

instance (cam : CameraDevice) (s : BufferExchange) : (a : ExchangeLabel) →
    Decidable (wholeFrames cam s a)
  | .complete frame => inferInstanceAs (Decidable (cam.Whole frame))
  | .capture _ => .isTrue trivial

/-- Two buffers. The driver completes the second frame while the first is being copied, and the
buffer of the second does not come back. -/
theorem frames_taken_whole_two :
    let cam : CameraDevice := ⟨2, 2, 2, 6, [[0, 0, 0, 0, 0, 0], [0, 0, 0, 0, 0, 0]]⟩
    ∃ s, Reaches (step cam) (wholeFrames cam) (initial cam [7, 7, 7, 7, 7, 7]) s ∧
      (s.images, s.lost) = ([[1, 2, 3, 4, 5, 6]], [1]) ∧ s.TakenWhole cam := by
  intro cam
  let labels : List ExchangeLabel :=
    [.complete ⟨[1, 2, 3, 4, 5, 6], 6⟩, .capture true, .capture true, .capture true,
      .complete ⟨[9, 9, 9, 9, 9, 9], 0⟩, .capture true, .capture true, .capture true,
      .capture true, .capture true, .capture true, .capture true, .capture true, .capture false]
  have hrun : (runLabels (step cam) (wholeFrames cam) (initial cam [7, 7, 7, 7, 7, 7]) labels).map
      (fun s => (s.images, s.lost)) = some ([[1, 2, 3, 4, 5, 6]], [1]) := by
    decide +kernel
  obtain ⟨s, hreach, hseen⟩ := Reaches.exists_of_runLabels hrun
  exact ⟨s, hreach, hseen, frames_taken_whole (by decide) (by decide) (by decide) (by decide)
    (by decide) (by decide) hreach⟩

end BufferExchange

end EdgeVision
