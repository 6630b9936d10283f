import EdgeVision.Verify.QueueFlow
import Mathlib.Data.List.Induction

/-!
# Boxes are drawn on frames they may describe

The AI thread takes frames from its queue in the order of their numbers, so the results it passes to
`update` are about later and later frames, and the snapshot is the last of them. A call of `apply` is
two steps with other steps between them, and still does what `apply` does to the overlay as it was
when the snapshot was copied.
-/

namespace EdgeVision

open Lib

/-! ## The overlay after some updates -/

namespace Settings

variable (c : Settings)

/-- The overlay after calls of `update`. -/
def overlayAfter (updates : List Update) : DetectionOverlay :=
  updates.foldl (fun overlay u => overlay.update u.2) c.overlay

/-- The result is what the detector returned for the frame, and valid. -/
def Inferred (u : Update) : Prop :=
  ∃ rknn, c.detector.infer rknn c.sort c.outOfRangeCast u.1 = some u.2 ∧ u.2.valid = true

variable {c} {updates : List Update} {u : Update}

theorem Inferred.frameSequence (h : c.Inferred u) : u.2.frameSequence = u.1.sequence := by
  obtain ⟨rknn, hinfer, -⟩ := h
  exact RknnDetector.infer_frameSequence hinfer

theorem overlayAfter_append (updates : List Update) (u : Update) :
    c.overlayAfter (updates ++ [u]) = (c.overlayAfter updates).update u.2 := by
  simp [overlayAfter]

/-- Updates change the snapshot only. -/
theorem overlayAfter_eq (updates : List Update) :
    c.overlayAfter updates = { c.overlay with snapshot := (c.overlayAfter updates).snapshot } := by
  induction updates using List.reverseRecOn with
  | nil => rfl
  | append_singleton updates u ih =>
    rw [overlayAfter_append, DetectionOverlay.update]
    split
    · exact ih
    · rw [ih]

/-- The snapshot is the last result. -/
theorem overlayAfter_snapshot (henabled : c.overlayEnable = true) (hu : u.2.valid = true) :
    (c.overlayAfter (updates ++ [u])).snapshot =
      ⟨true, u.2.frameSequence, u.2.detections⟩ := by
  have henabled' : (c.overlayAfter updates).enabled = true := by
    rw [overlayAfter_eq]
    exact henabled
  rw [overlayAfter_append]
  simp [DetectionOverlay.update, henabled', hu]

theorem overlayAfter_disabled (henabled : c.overlayEnable = false) (updates : List Update) :
    c.overlayAfter updates = c.overlay := by
  induction updates using List.reverseRecOn with
  | nil => rfl
  | append_singleton updates u ih =>
    rw [overlayAfter_append, ih]
    simp [DetectionOverlay.update, overlay, DetectionOverlay.init, henabled]

end Settings

/-! ## The AI thread -/

/-- The frame that the AI thread has popped and not passed to `update`. -/
def AiPc.held : AiPc → List CapturedFrame
  | infer frame => [frame]
  | update frame _ => [frame]
  | _ => []

namespace Pipeline

/-- The results passed to `update` are about frames popped from the AI queue, later and later ones,
all before the frame that is being inferred. -/
structure UpdateOrder (c : Settings) (s : Pipeline) : Prop where
  inferred : ∀ u ∈ s.updates, c.Inferred u
  popped : ∀ f ∈ s.updates.map Prod.fst ++ s.ai.held, f ∈ s.aiQueue.popped
  increasing : (s.updates.map Prod.fst ++ s.ai.held).Pairwise fun f g => f.sequence < g.sequence
  result : ∀ frame result, s.ai = .update frame result → c.Inferred (frame, result)
  overlay : s.overlay = c.overlayAfter s.updates

variable {c : Settings} {s t : Pipeline} {a : PipelineLabel}

namespace UpdateOrder

theorem initial (c : Settings) : UpdateOrder c (initial c) := by
  cases hready : c.aiReady
  all_goals
    constructor <;> simp [Pipeline.initial, AiPc.held, hready, Settings.overlayAfter]

theorem keep (h : UpdateOrder c s) (hkeeps : KeepsAi s t) : UpdateOrder c t where
  inferred := by
    rw [hkeeps.updates]
    exact h.inferred
  popped := by
    rw [hkeeps.updates, hkeeps.ai, hkeeps.aiPopped]
    exact h.popped
  increasing := by
    rw [hkeeps.updates, hkeeps.ai]
    exact h.increasing
  result := by
    rw [hkeeps.ai]
    exact h.result
  overlay := by
    rw [hkeeps.overlay, hkeeps.updates]
    exact h.overlay

/-- The next frame of the queue comes after all frames popped before it. -/
theorem pop (h : UpdateOrder c s) (hflows : Flows c s) (hpc : s.ai = .pop)
    {front : CapturedFrame} {rest : List CapturedFrame}
    (hqueue : s.aiQueue.queue.queue = front :: rest) :
    UpdateOrder c { s with
      aiQueue :=
        { s.aiQueue with
          queue := { s.aiQueue.queue with queue := rest }
          popped := s.aiQueue.popped ++ [front] }
      ai := .infer front } := by
  obtain ⟨hinferred, hpopped, hincreasing, -, hoverlay⟩ := h
  simp only [hpc, AiPc.held, List.append_nil] at hpopped hincreasing
  have hpushed := (List.pairwise_append.mp hflows.order.aiOrder.increasing).1
  have hbefore := hflows.aiQueue.accounts.popped_before hpushed
  constructor
  case inferred => exact hinferred
  case popped =>
    intro f hf
    rcases List.mem_append.mp hf with hf | hf
    · exact List.mem_append_left _ (hpopped f hf)
    · exact List.mem_append_right _ hf
  case increasing =>
    refine List.pairwise_append.mpr ⟨hincreasing, List.pairwise_singleton _ _, ?_⟩
    intro f hf g hg
    rw [List.mem_singleton.mp hg]
    exact hbefore f (hpopped f hf) front (by rw [hqueue]; exact List.mem_cons_self)
  case result =>
    intro frame result hai
    cases hai
  case overlay => exact hoverlay

/-- The thread goes on without a frame. -/
theorem release (h : UpdateOrder c s) {pc : AiPc} (hpc : pc.held = []) (metrics : MetricsCollector) :
    UpdateOrder c { s with ai := pc, metrics } := by
  obtain ⟨hinferred, hpopped, hincreasing, -, hoverlay⟩ := h
  constructor
  case inferred => exact hinferred
  case popped =>
    intro f hf
    rw [hpc, List.append_nil] at hf
    exact hpopped f (List.mem_append_left _ hf)
  case increasing =>
    rw [hpc, List.append_nil]
    exact (List.pairwise_append.mp hincreasing).1
  case result =>
    intro frame result hai
    rw [show pc = .update frame result from hai] at hpc
    cases hpc
  case overlay => exact hoverlay

theorem step {rknn : Bytes → RknnRun} (h : UpdateOrder c s) (hflows : Flows c s)
    (hstep : s.aiStep c rknn = some t) : UpdateOrder c t := by
  cases hpc : s.ai <;> simp only [aiStep, hpc] at hstep
  case test =>
    cases hstep
    exact h.release (by split <;> rfl) s.metrics
  case pop =>
    obtain ⟨r, hpop, rfl⟩ := Option.map_eq_some_iff.mp hstep
    rcases LoggedQueue.waitAndPop_cases hpop with ⟨rfl, -, -⟩ | ⟨front, rest, hqueue, rfl⟩
    · exact h.release rfl s.metrics
    · exact h.pop hflows hpc hqueue
  case infer frame =>
    obtain ⟨result, hinfer, rfl⟩ := Option.map_eq_some_iff.mp hstep
    cases hvalid : result.valid with
    | false => exact h.release rfl s.metrics
    | true =>
      obtain ⟨hinferred, hpopped, hincreasing, -, hoverlay⟩ := h
      rw [hpc] at hpopped hincreasing
      constructor
      case inferred => exact hinferred
      case popped => exact hpopped
      case increasing => exact hincreasing
      case result =>
        intro frame' result' hai
        cases hai
        exact ⟨rknn, hinfer, hvalid⟩
      case overlay => exact hoverlay
  case update frame result =>
    cases hstep
    obtain ⟨hinferred, hpopped, hincreasing, hresult, hoverlay⟩ := h
    simp only [hpc, AiPc.held] at hpopped hincreasing
    constructor
    case inferred =>
      intro u hu
      rcases List.mem_append.mp hu with hu | hu
      · exact hinferred u hu
      · rw [List.mem_singleton.mp hu]
        exact hresult frame result hpc
    case popped => simpa [AiPc.held] using hpopped
    case increasing => simpa [AiPc.held] using hincreasing
    case result =>
      intro frame' result' hai
      cases hai
    case overlay => rw [Settings.overlayAfter_append, ← hoverlay]
  case recordAi result =>
    cases hstep
    cases result.detections.isEmpty <;> exact h.release rfl _
  case recordEventWritten =>
    cases hstep
    exact h.release rfl _
  case exited => cases hstep

end UpdateOrder

/-! ## The encode thread -/

/-- A call of `apply` that has copied the snapshot goes on with what it has copied, and a call that is
over has done what `apply` does to the overlay of that moment. -/
structure ApplyCopies (c : Settings) (s : Pipeline) : Prop where
  draw : ∀ frame snapshot updates, s.encode = .draw frame snapshot updates →
    updates <+: s.updates ∧ snapshot = (c.overlayAfter updates).snapshot ∧
      (c.overlayAfter updates).applies frame = true
  applied : ∀ r ∈ s.applied, r.updates <+: s.updates ∧
    r.after = (c.overlayAfter r.updates).apply c.outOfRangeCast r.before

namespace ApplyCopies

theorem initial (c : Settings) : ApplyCopies c (initial c) := by
  constructor <;> simp [Pipeline.initial]

theorem keep (h : ApplyCopies c s) (hkeeps : KeepsEncode s t) (hupdates : s.updates <+: t.updates) :
    ApplyCopies c t where
  draw := by
    rw [hkeeps.encode]
    intro frame snapshot updates hpc
    obtain ⟨hcopied, hrest⟩ := h.draw frame snapshot updates hpc
    exact ⟨hcopied.trans hupdates, hrest⟩
  applied := by
    rw [hkeeps.applied]
    intro r hr
    obtain ⟨hcopied, hafter⟩ := h.applied r hr
    exact ⟨hcopied.trans hupdates, hafter⟩

/-- A call ends that did what `apply` does. -/
theorem finish (h : ApplyCopies c s) {before after : CapturedFrame} {updates : List Update}
    (hcopied : updates <+: s.updates)
    (hafter : after = (c.overlayAfter updates).apply c.outOfRangeCast before) :
    ApplyCopies c (s.finishApply before after updates) where
  draw _ _ _ hpc := by cases hpc
  applied := by
    intro r hr
    rcases List.mem_append.mp hr with hr | hr
    · exact h.applied r hr
    · rw [List.mem_singleton.mp hr]
      exact ⟨hcopied, hafter⟩

/-- The thread is at no call of `apply`. -/
theorem elsewhere (h : ApplyCopies c s) (hupdates : t.updates = s.updates)
    (happlied : t.applied = s.applied)
    (hpc : ∀ frame snapshot updates, t.encode ≠ .draw frame snapshot updates) :
    ApplyCopies c t where
  draw frame snapshot updates heq := absurd heq (hpc frame snapshot updates)
  applied := by
    rw [hupdates, happlied]
    exact h.applied

theorem step {ok : Bool} {packet : Option Bytes} (h : ApplyCopies c s)
    (hoverlay : s.overlay = c.overlayAfter s.updates) (hstep : s.encodeStep c ok packet = some t) :
    ApplyCopies c t := by
  cases hpc : s.encode <;> simp only [encodeStep, hpc] at hstep
  case pop =>
    obtain ⟨r, hpop, rfl⟩ := Option.map_eq_some_iff.mp hstep
    refine h.elsewhere rfl rfl fun frame snapshot updates => ?_
    cases r.1 <;> simp
  case apply frame =>
    split at hstep
    · rename_i happlies
      cases hstep
      constructor
      case draw =>
        intro frame' snapshot updates heq
        cases heq
        exact ⟨List.prefix_rfl, by rw [hoverlay], by rwa [← hoverlay]⟩
      case applied => exact h.applied
    · rename_i happlies
      cases hstep
      apply h.finish List.prefix_rfl
      rw [DetectionOverlay.apply, ← hoverlay, if_neg happlies]
  case draw frame snapshot updates =>
    cases hstep
    obtain ⟨hcopied, hsnapshot, happlies⟩ := h.draw frame snapshot updates hpc
    apply h.finish hcopied
    rw [DetectionOverlay.apply, if_pos happlies, hsnapshot, hoverlay,
      Settings.overlayAfter_eq s.updates, Settings.overlayAfter_eq updates]
    rfl
  case encode frame =>
    cases hstep
    refine h.elsewhere rfl rfl fun frame snapshot updates => ?_
    cases packet <;> simp
  all_goals cases hstep
  all_goals
    refine h.elsewhere rfl rfl fun frame snapshot updates => ?_
    dsimp only
  case connectOnce | test | sendPacket => split <;> simp
  all_goals simp

end ApplyCopies

/-! ## Every run -/

/-- What was passed to `update` stays. -/
theorem updates_grow (hstep : s.step c a = some t) : s.updates <+: t.updates := by
  cases a with
  | signal =>
    cases hstep
    exact List.prefix_rfl
  | main => exact (mainStep_keeps hstep).2.2.updates ▸ List.prefix_rfl
  | capture image => exact (captureStep_keeps hstep).2.updates ▸ List.prefix_rfl
  | encode ok packet => exact (encodeStep_keeps hstep).2.updates ▸ List.prefix_rfl
  | ai rknn =>
    simp only [Pipeline.step] at hstep
    cases hpc : s.ai <;> simp only [aiStep, hpc] at hstep
    case pop =>
      obtain ⟨r, -, rfl⟩ := Option.map_eq_some_iff.mp hstep
      exact List.prefix_rfl
    case infer frame =>
      obtain ⟨result, -, rfl⟩ := Option.map_eq_some_iff.mp hstep
      exact List.prefix_rfl
    case update frame result =>
      cases hstep
      exact List.prefix_append _ _
    all_goals cases hstep
    all_goals exact List.prefix_rfl

/-- The invariant of the overlay, beside that of the queues. -/
structure OverlayFlows (c : Settings) (s : Pipeline) : Prop where
  flows : Flows c s
  updateOrder : UpdateOrder c s
  applyCopies : ApplyCopies c s

namespace OverlayFlows

theorem initial (c : Settings) : OverlayFlows c (initial c) :=
  ⟨.initial c, .initial c, .initial c⟩

theorem step (h : OverlayFlows c s) (hstep : s.step c a = some t) : OverlayFlows c t := by
  obtain ⟨hflows, hupdate, happly⟩ := h
  have hflows' := hflows.step hstep
  have hgrow := updates_grow hstep
  cases a with
  | signal =>
    cases hstep
    exact ⟨hflows', hupdate.keep ⟨rfl, rfl, rfl, rfl, rfl, rfl⟩, happly.keep ⟨rfl, rfl, rfl, rfl⟩ hgrow⟩
  | main =>
    obtain ⟨-, hencodeKept, haiKept⟩ := mainStep_keeps hstep
    exact ⟨hflows', hupdate.keep haiKept, happly.keep hencodeKept hgrow⟩
  | capture image =>
    obtain ⟨hencodeKept, haiKept⟩ := captureStep_keeps hstep
    exact ⟨hflows', hupdate.keep haiKept, happly.keep hencodeKept hgrow⟩
  | encode ok packet =>
    obtain ⟨-, haiKept⟩ := encodeStep_keeps hstep
    exact ⟨hflows', hupdate.keep haiKept, happly.step hupdate.overlay hstep⟩
  | ai rknn =>
    obtain ⟨-, hencodeKept⟩ := aiStep_keeps hstep
    exact ⟨hflows', hupdate.step hflows hstep, happly.keep hencodeKept hgrow⟩

theorem run (h : Runs c (Pipeline.initial c) s) : OverlayFlows c s :=
  Reaches.invariant (.initial c) (fun _ _ _ hflows _ hstep => hflows.step hstep) h

end OverlayFlows

end Pipeline

namespace Settings

variable {c : Settings} {updates : List Update} {u : Update} {f : CapturedFrame}

/-- The number of the snapshot is that of the last frame a result was passed for. -/
theorem snapshot_le (hinferred : ∀ u ∈ updates, c.Inferred u) {n : Nat}
    (hlt : ∀ u ∈ updates, u.1.sequence < n) : (c.overlayAfter updates).snapshot.frameSequence ≤ n := by
  cases henabled : c.overlayEnable with
  | false =>
    rw [overlayAfter_disabled henabled]
    exact Nat.zero_le n
  | true =>
    induction updates using List.reverseRecOn with
    | nil => exact Nat.zero_le n
    | append_singleton updates u =>
      have hu := hinferred u (by simp)
      rw [overlayAfter_snapshot henabled hu.choose_spec.2, hu.frameSequence]
      exact Nat.le_of_lt (hlt u (by simp))

/-- More updates, for later frames, do not take the snapshot back. -/
theorem snapshot_mono {earlier : List Update} (hgrow : earlier <+: updates)
    (hinferred : ∀ u ∈ updates, c.Inferred u)
    (hincreasing : (updates.map Prod.fst).Pairwise fun f g => f.sequence < g.sequence) :
    (c.overlayAfter earlier).snapshot.frameSequence ≤
      (c.overlayAfter updates).snapshot.frameSequence := by
  cases henabled : c.overlayEnable with
  | false => rw [overlayAfter_disabled henabled, overlayAfter_disabled henabled]
  | true =>
    obtain ⟨later, rfl⟩ := hgrow
    rcases List.eq_nil_or_concat later with rfl | ⟨between, u, rfl⟩
    · rw [List.append_nil]
    · rw [List.concat_eq_append, ← List.append_assoc] at hinferred hincreasing ⊢
      have hu := hinferred u (by simp)
      rw [overlayAfter_snapshot henabled hu.choose_spec.2, hu.frameSequence]
      rw [List.map_append] at hincreasing
      have hbefore := (List.pairwise_append.mp hincreasing).2.2
      apply snapshot_le fun v hv => hinferred v (by simp [hv])
      intro v hv
      exact hbefore v.1 (List.mem_map_of_mem (by simp [hv])) u.1 (by simp)

theorem apply_overlayAfter_nil : (c.overlayAfter []).apply c.outOfRangeCast f = f := by
  unfold DetectionOverlay.apply
  split <;> rfl

/-- What `apply` does after some updates: it draws all detections of the last result, if the frame is
neither before the frame of that result nor too far behind it. -/
theorem apply_overlayAfter (hu : c.Inferred u) :
    (c.overlayAfter (updates ++ [u])).apply c.outOfRangeCast f = f ∨
      u.1.sequence ≤ f.sequence ∧ (f.sequence : Int) ≤ u.1.sequence + max 1 c.overlayStaleFrames ∧
        (c.overlayAfter (updates ++ [u])).apply c.outOfRangeCast f =
          { f with
            nv12 := c.overlay.drawDetections c.outOfRangeCast f.nv12 f.width f.height
              u.2.detections } := by
  cases henabled : c.overlayEnable with
  | false =>
    left
    rw [overlayAfter_disabled henabled]
    exact apply_overlayAfter_nil
  | true =>
    rw [overlayAfter_eq, overlayAfter_snapshot henabled hu.choose_spec.2, hu.frameSequence]
    unfold DetectionOverlay.apply
    split
    · unfold DetectionOverlay.applySnapshot
      simp only [Bool.not_true, Bool.false_eq_true, if_false]
      split
      · exact Or.inl rfl
      · split
        · exact Or.inl rfl
        · rename_i hle hwindow
          simp only [overlay, DetectionOverlay.init] at hwindow
          exact Or.inr ⟨by omega, by omega, rfl⟩
    · exact Or.inl rfl

end Settings

/-- What holds of a finished call of `apply`. -/
structure BoxesDescribe (c : Settings) (s : Pipeline) (r : Applied) : Prop where
  /-- A frame is changed only by drawing all detections of the latest valid result. -/
  drawn : r.after ≠ r.before →
    ∃ u, r.updates.getLast? = some u ∧ u.1 ∈ s.aiQueue.popped ∧ c.Inferred u ∧
      (∀ v ∈ r.updates, v.1.sequence ≤ u.1.sequence) ∧
      u.1.sequence ≤ r.before.sequence ∧
      (r.before.sequence : Int) ≤ u.1.sequence + max 1 c.overlayStaleFrames ∧
      r.after =
        { r.before with
          nv12 := c.overlay.drawDetections c.outOfRangeCast r.before.nv12 r.before.width
            r.before.height u.2.detections }
  untouched : ∀ u, r.updates.getLast? = some u →
    (r.before.sequence < u.1.sequence ∨
      (u.1.sequence + max 1 c.overlayStaleFrames : Int) < r.before.sequence ∨
      u.2.detections = []) →
    r.after = r.before

namespace Pipeline

variable {c : Settings} {s t : Pipeline} {a : PipelineLabel}

/-- The last of what was passed to `update` is about the latest frame. -/
theorem UpdateOrder.last (h : UpdateOrder c s) {updates : List Update} {u : Update}
    (hcopied : updates ++ [u] <+: s.updates) :
    ∀ v ∈ updates ++ [u], v.1.sequence ≤ u.1.sequence := by
  have hall := (List.pairwise_append.mp h.increasing).1
  have hsome := hall.sublist (hcopied.map Prod.fst).sublist
  rw [List.map_append] at hsome
  intro v hv
  rcases List.mem_append.mp hv with hv | hv
  · exact Nat.le_of_lt ((List.pairwise_append.mp hsome).2.2 v.1 (List.mem_map_of_mem hv) u.1 (by simp))
  · rw [List.mem_singleton.mp hv]

theorem OverlayFlows.describe (h : OverlayFlows c s) {r : Applied} (hr : r ∈ s.applied) :
    BoxesDescribe c s r := by
  obtain ⟨-, hupdate, happly⟩ := h
  obtain ⟨hcopied, hafter⟩ := happly.applied r hr
  obtain ⟨before, after, updates⟩ := r
  simp only at hcopied hafter
  rcases List.eq_nil_or_concat updates with rfl | ⟨earlier, u, rfl⟩
  · rw [Settings.apply_overlayAfter_nil] at hafter
    exact ⟨fun hne => absurd hafter hne, fun u hu => by simp at hu⟩
  · rw [List.concat_eq_append] at hcopied hafter ⊢
    have hu : u ∈ s.updates := hcopied.subset (by simp)
    have hinferred := hupdate.inferred u hu
    rcases Settings.apply_overlayAfter hinferred with hsame | ⟨hle, hwindow, hdrawn⟩
    · rw [hsame] at hafter
      exact ⟨fun hne => absurd hafter hne, fun _ _ _ => hafter⟩
    · rw [hdrawn] at hafter
      constructor
      case drawn =>
        intro _
        refine ⟨u, by simp, ?_, hinferred, hupdate.last hcopied, hle, hwindow, hafter⟩
        exact hupdate.popped u.1 (List.mem_append_left _ (List.mem_map_of_mem hu))
      case untouched =>
        intro v hv hout
        rw [List.getLast?_concat] at hv
        cases hv
        simp only at hout
        rcases hout with hnewer | holder | hempty
        · omega
        · omega
        · simp only [hafter, hempty, DetectionOverlay.drawDetections, List.isEmpty_nil, if_true]

/-- The snapshot of a later state is not older. -/
theorem OverlayFlows.snapshot_mono (hs : OverlayFlows c s) (ht : OverlayFlows c t)
    (hgrow : s.updates <+: t.updates) :
    s.overlay.snapshot.frameSequence ≤ t.overlay.snapshot.frameSequence := by
  rw [hs.updateOrder.overlay, ht.updateOrder.overlay]
  exact Settings.snapshot_mono hgrow ht.updateOrder.inferred
    (List.pairwise_append.mp ht.updateOrder.increasing).1

end Pipeline

/-- **Boxes are drawn on frames they may describe**, in every run of up to 2^64 frames, and the
snapshot never goes back. -/
theorem boxes_describe_frames {c : Settings} {s t : Pipeline} (hs : Runs c (.initial c) s)
    (ht : Runs c s t) :
    (∀ r ∈ t.applied, BoxesDescribe c t r) ∧
      s.overlay.snapshot.frameSequence ≤ t.overlay.snapshot.frameSequence := by
  have hflows := Pipeline.OverlayFlows.run hs
  have hflows' := Pipeline.OverlayFlows.run (hs.trans ht)
  have hgrow : s.updates <+: t.updates :=
    ht.invariant (I := fun u => s.updates <+: u.updates) List.prefix_rfl
      fun _ _ _ hu _ hstep => hu.trans (Pipeline.updates_grow hstep)
  exact ⟨fun r hr => hflows'.describe hr, hflows.snapshot_mono hflows' hgrow⟩

/-- A camera of two by two pixels and a model of that size with two classes. -/
def boxSettings : Settings :=
  { smallSettings with
    width := 2
    height := 2
    overlayEnable := true
    detector :=
      { config := ⟨.fin 0, .fin 0, 10, false, "cxcywh"⟩
        initialized := true
        disabledReason := ""
        inputWidth := 2
        inputHeight := 2
        outputDims := [[1, 6]]
        labels := ["person", "car"] } }

/-- One frame is captured and inferred, a second one is captured, and the encode thread, which gets the
second only, draws the box of the first on it. -/
def boxRun : List PipelineLabel :=
  List.replicate 5 (.capture (some (0, List.replicate 6 7))) ++
    List.replicate 5 (.ai fun _ => .outputs
      [some [.fin 1, .fin 1, .fin 2, .fin 2, .fin 1, .fin 0]]) ++
    List.replicate 4 (.capture (some (0, List.replicate 6 7))) ++
    List.replicate 5 (.encode true none)

/-- The numbers of the frames that `apply` has finished, and what it has left of them. -/
def appliedImages (s : Pipeline) : List (Nat × Bytes) :=
  s.applied.map fun r => (r.before.sequence, r.after.nv12)

theorem boxes_describe_frames_drawn : ∃ s, Runs boxSettings (.initial boxSettings) s ∧
    appliedImages s = [(1, [235, 235, 235, 235, 7, 7])] ∧
    ∀ r ∈ s.applied, BoxesDescribe boxSettings s r := by
  have hrun : (runLabels (Pipeline.step boxSettings) anyStep (.initial boxSettings) boxRun).map
      appliedImages = some [(1, [235, 235, 235, 235, 7, 7])] := by decide +kernel
  obtain ⟨s, hs, himages⟩ := Reaches.exists_of_runLabels hrun
  exact ⟨s, hs, himages, (boxes_describe_frames (Reaches.refl _) hs).1⟩

end EdgeVision
