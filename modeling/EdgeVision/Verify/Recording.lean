import EdgeVision.Camera.Recording
import EdgeVision.Verify.Candidates
import EdgeVision.Verify.LogFiles
import EdgeVision.Verify.OverlayFrames

/-!
# What the event log tells

The AI thread calls `write` for each result with detections that it passes to `update`. From its
frame on, such a result is about one frame of the camera, its boxes lie in that frame, and its numbers
and strings are such that its line can be said (`Settings.Tells`, `Tells.sayable`). What is in the
file are then the results that the overlay has been given, in order, but for one that is being written
(`events_recorded`); nothing of this depends on what the other threads do meanwhile.

The counter of events goes with the results and not with the file.
-/

namespace EdgeVision

open Lib

/-! ## What a result tells of its frame -/

/-- The runtime library returns outputs of rationals, as many as the dimensions say. -/
def Settings.RationalOutputs (c : Settings) (rknn : Bytes → RknnRun) : Prop :=
  ∀ input bufs, rknn input = .outputs bufs →
    ∀ output ∈ List.zipWith OutputTensor.mk c.detector.outputDims bufs, output.Sound

/-- What the detector relies on: sizes that are positive, thresholds that are numbers, and a sort that
sorts; and labels (of valid UTF-8, as every `String` is) without control characters that `escapeJson`
does not know. -/
structure Settings.Detects (c : Settings) : Prop where
  width : 1 ≤ c.width
  height : 1 ≤ c.height
  inputWidth : 1 ≤ c.detector.inputWidth
  inputHeight : 1 ≤ c.detector.inputHeight
  scoreThreshold : c.detector.config.scoreThreshold ≠ .nan
  nmsThreshold : c.detector.config.nmsThreshold ≠ .nan
  sort : SortsByScore c.sort
  labels : ∀ label ∈ c.detector.labels, Clean label.toList

/-- What the outputs for a frame are decoded with. -/
def Settings.decoding (c : Settings) (frame : CapturedFrame) : Decoding :=
  c.detector.decoding c.outOfRangeCast
    (letterboxInfo frame.width frame.height c.detector.inputWidth c.detector.inputHeight) frame

/-- A result and the frame that it is about. -/
structure Settings.Tells (c : Settings) (u : Update) : Prop where
  width : u.1.width = c.width
  height : u.1.height = c.height
  frameSequence : u.2.frameSequence = u.1.sequence
  captureTimeUs : u.2.captureTimeUs = u.1.captureTimeUs
  backend : u.2.backend = "rknn"
  note : u.2.detections ≠ [] → u.2.note = ""
  /-- The boxes are decoded from outputs of rationals, lie in the frame and reach the threshold. -/
  wellFormed : ∃ outputs, (∀ output ∈ outputs, output.Sound) ∧
    WellFormed (c.decoding u.1) outputs u.2.detections
  label : ∀ d ∈ u.2.detections, d.label = labelOf c.detector.labels d.classId
  /-- Two boxes of a class do not overlap by more than the threshold. -/
  apart : u.2.detections.Pairwise fun a b => a.classId = b.classId →
    intersectionOverUnion a b ≤ c.detector.config.nmsThreshold ∧
      intersectionOverUnion b a ≤ c.detector.config.nmsThreshold

namespace RknnDetector

variable {det : RknnDetector} {rknn : Bytes → RknnRun} {sort : List Detection → List Detection}
  {outOfRangeCast : ExtRat → Int} {frame : CapturedFrame} {result : AiResult}

/-- A valid result is what an initialised detector makes of the outputs of the runtime library. -/
theorem infer_outputs (h : det.infer rknn sort outOfRangeCast frame = some result)
    (hvalid : result.valid = true) :
    ∃ input bufs, rknn input = .outputs bufs ∧
      postprocess sort (det.decoding outOfRangeCast
        (letterboxInfo frame.width frame.height det.inputWidth det.inputHeight) frame)
          (List.zipWith OutputTensor.mk det.outputDims bufs) =
        some (result.detections, result.note) ∧
      result.backend = "rknn" ∧ result.frameSequence = frame.sequence ∧
        result.captureTimeUs = frame.captureTimeUs := by
  unfold infer at h
  split at h
  · cases h
    cases hvalid
  · rename_i hinitialized
    have hbackend : det.backendName = "rknn" := by
      simpa [backendName] using hinitialized
    obtain ⟨⟨rgb, letterbox⟩, hfill, h⟩ := Option.bind_eq_some_iff.mp h
    obtain ⟨writes, -, hinfo⟩ := Option.map_eq_some_iff.mp hfill
    cases hinfo
    simp only at h
    split at h
    case h_4 bufs hrun =>
      obtain ⟨⟨detections, note⟩, hpost, h⟩ := Option.bind_eq_some_iff.mp h
      cases h
      exact ⟨_, bufs, hrun, hpost, hbackend, rfl, rfl⟩
    all_goals
      cases h
      cases hvalid

end RknnDetector

/-- A detection has the label of its class. -/
theorem Decoding.label_of_decodeRow {dec : Decoding} {attrs : Int} {read : Int → Option ExtRat}
    {d : Detection} (h : dec.decodeRow attrs read = some (some d)) :
    d.label = labelOf dec.labels d.classId := by
  rw [decodeRow_eq] at h
  obtain ⟨c, -, h⟩ := Option.bind_eq_some_iff.mp h
  obtain ⟨scored, -, h⟩ := Option.map_eq_some_iff.mp h
  unfold rowDetection at h
  split at h
  · cases h
  · split at h
    · cases h
    · cases h
      rfl

/-- A note goes with a result without boxes only. -/
theorem note_of_postprocess {sort : List Detection → List Detection} {dec : Decoding}
    {outputs : List OutputTensor} {detections : List Detection} {note : String}
    (h : postprocess sort dec outputs = some (detections, note)) (hne : detections ≠ []) :
    note = "" := by
  obtain ⟨candidates, -, h⟩ := Option.bind_eq_some_iff.mp h
  cases h
  rw [if_neg (by simpa using hne)]

/-- What lies between two rationals is one. -/
theorem Lib.ExtRat.isFinite_of_le {x : ExtRat} {a b : Rat} (ha : .fin a ≤ x) (hb : x ≤ .fin b) :
    x.IsFinite := by
  cases x with
  | fin q => exact ⟨q, rfl⟩
  | inf neg => cases neg <;> simp [ExtRat.le_def, ExtRat.le] at ha hb
  | nan => simp [ExtRat.le_def, ExtRat.le] at ha

/-- The corners of a box in a frame are rationals. -/
theorem Detection.InFrame.finBox {d : Detection} {width height : Nat} (h : d.InFrame width height) :
    d.FinBox := by
  obtain ⟨hx1, hx, hx2⟩ := h.x
  obtain ⟨hy1, hy, hy2⟩ := h.y
  have hx := ExtRat.le_of_lt hx
  have hy := ExtRat.le_of_lt hy
  exact ⟨ExtRat.isFinite_of_le hx1 (ExtRat.le_trans hx hx2),
    ExtRat.isFinite_of_le hy1 (ExtRat.le_trans hy hy2),
    ExtRat.isFinite_of_le (ExtRat.le_trans hx1 hx) hx2,
    ExtRat.isFinite_of_le (ExtRat.le_trans hy1 hy) hy2⟩

namespace Settings

variable {c : Settings}

/-- What the detector returns tells of its frame. -/
theorem Detects.tells (hc : c.Detects) {rknn : Bytes → RknnRun} (hrational : c.RationalOutputs rknn)
    {frame : CapturedFrame} {result : AiResult} (hwidth : frame.width = c.width)
    (hheight : frame.height = c.height)
    (h : c.detector.infer rknn c.sort c.outOfRangeCast frame = some result)
    (hvalid : result.valid = true) : c.Tells (frame, result) := by
  obtain ⟨input, bufs, hrun, hpost, hbackend, hsequence, htime⟩ := RknnDetector.infer_outputs h hvalid
  have hsound := hrational input bufs hrun
  generalize List.zipWith OutputTensor.mk c.detector.outputDims bufs = outputs at hpost hsound
  have hwidth' : 1 ≤ frame.width := hwidth ▸ hc.width
  have hheight' : 1 ≤ frame.height := hheight ▸ hc.height
  have hscale : 0 < (c.decoding frame).letterbox.scale :=
    letterboxInfo_scale_pos hwidth' hheight' hc.inputWidth hc.inputHeight
  obtain ⟨candidates, hdecode, hall⟩ : ∃ candidates,
      (c.decoding frame).decodeOutputs outputs = some candidates ∧
        ∀ d ∈ candidates, ∃ output ∈ outputs, (c.decoding frame).FromOutput output d :=
    Decoding.decodeOutputs_spec hscale hwidth' hheight' hc.scoreThreshold outputs hsound
  have hscores : ∀ d ∈ candidates, d.score ≠ .nan := by
    intro d hd
    obtain ⟨_, _, _, _, _, _, _, _, _, _, hfrom⟩ := hall d hd
    obtain ⟨score, hscore, -⟩ := hfrom.scored
    rw [hscore]
    nofun
  obtain ⟨note, hkept⟩ := postprocess_eq c.sort hdecode
  have hdetections : result.detections = applyNms c.sort candidates
      c.detector.config.nmsThreshold c.detector.config.maxResults :=
    (Prod.mk.inj (Option.some.inj (hpost.symm.trans hkept))).1
  have hsubset : ∀ d ∈ result.detections, d ∈ candidates := by
    rw [hdetections]
    exact fun d hd => applyNms_subset hc.sort hscores hd
  constructor
  case width => exact hwidth
  case height => exact hheight
  case frameSequence => exact hsequence
  case captureTimeUs => exact htime
  case backend => exact hbackend
  case note => exact note_of_postprocess hpost
  case wellFormed =>
    refine ⟨outputs, hsound, ?_⟩
    constructor
    case inFrame =>
      intro d hd
      obtain ⟨_, _, _, _, _, _, _, _, _, _, hfrom⟩ := hall d (hsubset d hd)
      exact hfrom.inFrame
    case confident =>
      intro d hd
      obtain ⟨_, _, _, _, _, _, _, _, _, _, hfrom⟩ := hall d (hsubset d hd)
      exact hfrom.confident
    case decoded => exact fun d hd => hall d (hsubset d hd)
    case limited =>
      rw [hdetections]
      exact length_applyNms_le
  case label =>
    intro d hd
    obtain ⟨layout, read, -, hrow⟩ :=
      ((Decoding.decodeOutputs_iff hdecode).2 d).mp (hsubset d hd)
    exact Decoding.label_of_decodeRow hrow
  case apart =>
    rw [hdetections]
    refine applyNms_apart (fun d hd => ?_) hc.nmsThreshold
    obtain ⟨_, _, _, _, _, _, _, _, _, _, hfrom⟩ :=
      hall d ((hc.sort candidates hscores).1.mem_iff.mp hd)
    exact hfrom.inFrame.finBox

end Settings

/-! ## Its line can be said -/

theorem clean_toString (n : Int) : Clean (toString n).toList := by
  have hdigits (m : Nat) : Clean m.repr.toList := by
    intro ch hch
    rw [Nat.toList_repr] at hch
    have hdigit := IStream.isDigit_of_mem_digits hch
    have hrange : 48 ≤ ch.toNat ∧ ch.toNat ≤ 57 := by
      simpa [Char.isDigit, UInt32.le_iff_toNat_le] using hdigit
    exact .inl (by omega)
  rw [Int.toString_eq_repr]
  cases n with
  | ofNat m => exact hdigits m
  | negSucc m =>
    intro ch hch
    have hmem : ch = '-' ∨ ch ∈ (m + 1).repr.toList := by simpa [Int.repr] using hch
    rcases hmem with rfl | hmem
    · exact .inl (by decide)
    · exact hdigits _ ch hmem

theorem clean_labelOf {labels : List String} (h : ∀ label ∈ labels, Clean label.toList)
    (classId : Int) : Clean (labelOf labels classId).toList := by
  unfold labelOf
  split
  · rename_i hclass
    have hlt : classId.toNat < labels.length := by omega
    rw [List.getD_eq_getElem?_getD, List.getElem?_eq_getElem hlt, Option.getD_some]
    exact h _ (List.getElem_mem hlt)
  · have hplain : Clean "class_".toList := by decide
    intro ch hch
    rw [String.toList_append] at hch
    exact (List.mem_append.mp hch).elim (hplain ch) (clean_toString classId ch)

namespace Settings

variable {c : Settings} {u : Update}

theorem Tells.sayable (h : c.Tells u) (hc : c.Detects) (hne : u.2.detections ≠ [])
    {preprocessMs inferenceMs postprocessMs : ExtRat} (hpre : preprocessMs.IsFinite)
    (hinfer : inferenceMs.IsFinite) (hpost : postprocessMs.IsFinite) :
    EventLogger.Sayable ⟨u.2, preprocessMs, inferenceMs, postprocessMs⟩ := by
  obtain ⟨outputs, -, hwell⟩ := h.wellFormed
  refine ⟨⟨hpre, hinfer, hpost, fun d hd => ?_⟩, ?_⟩
  · obtain ⟨hx1, hy1, hx2, hy2⟩ := (hwell.inFrame d hd).finBox
    obtain ⟨_, _, _, _, _, _, _, _, _, _, hfrom⟩ := hwell.decoded d hd
    obtain ⟨score, hscore, -⟩ := hfrom.scored
    exact ⟨⟨score, hscore⟩, hx1, hy1, hx2, hy2⟩
  · simp only [EventResult.strings, List.forall_mem_cons, List.forall_mem_map]
    refine ⟨?_, ?_, fun d hd => ?_⟩
    · rw [h.backend]
      decide
    · rw [h.note hne]
      decide
    · rw [h.label d hd]
      exact clean_labelOf hc.labels d.classId

end Settings

/-! ## The frames of the AI thread -/

/-- A frame has the camera's size. -/
def CapturedFrame.OfCamera (c : Settings) (frame : CapturedFrame) : Prop :=
  frame.width = c.width ∧ frame.height = c.height

namespace Pipeline

variable {c : Settings} {s t : Pipeline}

/-- The frames for the AI thread have the camera's size. -/
def Fitting (c : Settings) (s : Pipeline) : Prop :=
  ∀ frame ∈ s.aiQueue.pushed ++ s.capture.toAi c, frame.OfCamera c

namespace Fitting

theorem initial (c : Settings) : Fitting c (initial c) := by
  simp [Fitting, Pipeline.initial, LoggedQueue.init, CapturePc.toAi]

theorem keep (h : Fitting c s) (hkeeps : KeepsCapture s t) : Fitting c t := by
  unfold Fitting
  rw [hkeeps.aiPushed, hkeeps.capture]
  exact h

theorem captureStep {image : Option (Nat × Bytes)} (h : Fitting c s)
    (hstep : s.captureStep c image = some t) : Fitting c t := by
  unfold Fitting at h
  cases hpc : s.capture <;> simp only [Pipeline.captureStep, hpc] at hstep
  all_goals rw [hpc] at h
  case captureFrame =>
    cases image with
    | none =>
      cases hstep
      exact h
    | some image =>
      cases hstep
      intro frame hframe
      rcases List.mem_append.mp hframe with hframe | hframe
      · exact h frame (List.mem_append_left _ hframe)
      · simp only [CapturePc.toAi] at hframe
        split at hframe
        · rw [List.mem_singleton.mp hframe]
          exact ⟨rfl, rfl⟩
        · simp at hframe
  all_goals cases hstep
  case test => cases s.running <;> exact h
  case pushEncode frame =>
    cases (s.encodeQueue.push frame).1 with
    | true => exact h
    | false =>
      unfold Fitting
      simp only [Bool.false_eq_true, if_false]
      rwa [CapturePc.toAi_afterEncodeQueue]
  case recordEncodeQueueDrop frame =>
    unfold Fitting
    rwa [CapturePc.toAi_afterEncodeQueue]
  case pushAi frame =>
    have hpushed : ∀ f ∈ (s.aiQueue.push frame).2.pushed ++ [], f.OfCamera c := by
      rwa [List.append_nil]
    cases (s.aiQueue.push frame).1
    all_goals exact hpushed
  case recordAiQueueDrop | recordCapture => exact h

theorem step {a : PipelineLabel} (h : Fitting c s) (hstep : s.step c a = some t) : Fitting c t := by
  cases a with
  | signal =>
    cases hstep
    exact h
  | main => exact h.keep (mainStep_keeps hstep).1
  | capture image => exact h.captureStep hstep
  | encode ok packet => exact h.keep (encodeStep_keeps hstep).1
  | ai rknn => exact h.keep (aiStep_keeps hstep).1

/-- So have the frames that it has popped. -/
theorem popped (h : Fitting c s) (hflows : Flows c s) {frame : CapturedFrame}
    (hframe : frame ∈ s.aiQueue.popped) : frame.OfCamera c := by
  have hpushed : frame ∈ s.aiQueue.pushed :=
    hflows.aiQueue.accounts.perm.mem_iff.mpr (by simp [hframe])
  exact h frame (List.mem_append_left _ hpushed)

end Fitting

end Pipeline

/-! ## The results that are written -/

/-- The results with detections, and their frames. -/
def detected (updates : List Update) : List Update :=
  updates.filter fun u => !u.2.detections.isEmpty

/-- What `write` is called for. -/
def events (updates : List Update) : List AiResult := (detected updates).map Prod.snd

theorem mem_detected {updates : List Update} {u : Update} :
    u ∈ detected updates ↔ u ∈ updates ∧ u.2.detections ≠ [] := by
  simp [detected]

theorem events_append (updates : List Update) (u : Update) :
    events (updates ++ [u]) = events updates ++ (AiPc.recordAi u.2).toWrite.toList := by
  simp only [events, detected, AiPc.toWrite, List.filter_append, List.filter_singleton,
    List.map_append]
  cases u.2.detections.isEmpty <;> rfl

namespace Pipeline

variable {c : Settings} {s t : Pipeline}

/-- A step passes at most one result to `update`, which is the next to be written. -/
theorem aiStep_events {rknn : Bytes → RknnRun} (hstep : s.aiStep c rknn = some t) :
    events t.updates = events s.updates ++ t.ai.toWrite.toList ∧
      (s.ai.toWrite.isSome = true → t.ai.toWrite = none) ∧
      t.metrics.eventsWritten + t.ai.unwritten =
        s.metrics.eventsWritten + s.ai.unwritten + s.ai.toWrite.toList.length := by
  cases hpc : s.ai <;> simp only [aiStep, hpc] at hstep
  case test =>
    cases hstep
    cases s.running <;> simp [AiPc.toWrite, AiPc.unwritten]
  case pop =>
    obtain ⟨r, -, rfl⟩ := Option.map_eq_some_iff.mp hstep
    cases r.1 <;> simp [AiPc.toWrite, AiPc.unwritten]
  case infer frame =>
    obtain ⟨result, -, rfl⟩ := Option.map_eq_some_iff.mp hstep
    cases result.valid <;> simp [AiPc.toWrite, AiPc.unwritten]
  case update frame result =>
    cases hstep
    refine ⟨events_append _ _, ?_, ?_⟩
    · simp [AiPc.toWrite]
    · simp [AiPc.toWrite, AiPc.unwritten]
  case recordAi result =>
    cases hstep
    cases hempty : result.detections.isEmpty <;> simp [AiPc.toWrite, AiPc.unwritten, hempty]
  case recordEventWritten =>
    cases hstep
    simp [AiPc.toWrite, AiPc.unwritten]
  case exited => cases hstep

/-- The results tell of their frames, and the counter goes with them. -/
structure Noted (c : Settings) (s : Pipeline) : Prop where
  tells : ∀ u ∈ s.updates, c.Tells u
  update : ∀ frame result, s.ai = .update frame result → c.Tells (frame, result)
  counted : s.metrics.eventsWritten + s.ai.unwritten + s.ai.toWrite.toList.length =
    (events s.updates).length

namespace Noted

theorem initial (c : Settings) : Noted c (initial c) := by
  cases hready : c.aiReady
  all_goals
    constructor <;> simp [Pipeline.initial, hready, events, detected, AiPc.toWrite, AiPc.unwritten]

theorem keep (h : Noted c s) (hkeeps : KeepsAi s t) : Noted c t where
  tells := by
    rw [hkeeps.updates]
    exact h.tells
  update := by
    rw [hkeeps.ai]
    exact h.update
  counted := by
    rw [hkeeps.updates, hkeeps.ai, hkeeps.eventsWritten]
    exact h.counted

theorem aiStep (hc : c.Detects) {rknn : Bytes → RknnRun} (hrational : c.RationalOutputs rknn)
    (h : Noted c s) (hframe : ∀ frame, s.ai = .infer frame → frame.OfCamera c)
    (hstep : s.aiStep c rknn = some t) : Noted c t := by
  obtain ⟨hevents, -, hcount⟩ := aiStep_events hstep
  have hcounted : t.metrics.eventsWritten + t.ai.unwritten + t.ai.toWrite.toList.length =
      (events t.updates).length := by
    rw [hevents, List.length_append, ← h.counted]
    omega
  cases hpc : s.ai <;> simp only [Pipeline.aiStep, hpc] at hstep
  case infer frame =>
    obtain ⟨result, hinfer, rfl⟩ := Option.map_eq_some_iff.mp hstep
    obtain ⟨hwidth, hheight⟩ := hframe frame hpc
    refine ⟨h.tells, fun frame' result' hupdate => ?_, hcounted⟩
    simp only at hupdate
    split at hupdate
    · rename_i hvalid
      cases hupdate
      exact hc.tells hrational hwidth hheight hinfer hvalid
    · cases hupdate
  case update frame result =>
    cases hstep
    refine ⟨fun u hu => ?_, fun _ _ hupdate => ?_, hcounted⟩
    · rcases List.mem_append.mp hu with hu | hu
      · exact h.tells u hu
      · rw [List.mem_singleton.mp hu]
        exact h.update frame result hpc
    · cases hupdate
  case pop =>
    obtain ⟨r, -, rfl⟩ := Option.map_eq_some_iff.mp hstep
    refine ⟨h.tells, fun _ _ hupdate => ?_, hcounted⟩
    cases hr : r.1 <;> simp [hr] at hupdate
  all_goals cases hstep
  all_goals
    refine ⟨h.tells, fun _ _ hupdate => ?_, hcounted⟩
    simp only at hupdate
  case recordEventWritten => cases hupdate
  all_goals split at hupdate <;> cases hupdate

end Noted

end Pipeline

/-! ## The log -/

namespace Recording

variable {c : Settings} {s t : Recording} {isOpen : Bool} {log : LineLog UInt8 EventResult}

/-- The outputs are rationals, and the times that `infer` measures are numbers. -/
def Measured (c : Settings) (_ : Recording) : RecordingLabel → Prop
  | .thread (.ai rknn) => c.RationalOutputs rknn
  | .write preprocessMs inferenceMs postprocessMs =>
    preprocessMs.IsFinite ∧ inferenceMs.IsFinite ∧ postprocessMs.IsFinite
  | _ => True

/-- The results that the AI thread is about to write, or is writing. -/
def pending (s : Recording) : List AiResult :=
  (s.log.current.map fun w => w.record.toAiResult).toList ++ s.due.toList ++
    s.pipeline.ai.toWrite.toList

/-- The log in a run that has started on `log`. -/
structure Logging (c : Settings) (isOpen : Bool) (log : LineLog UInt8 EventResult)
    (s : Recording) : Prop where
  overlay : Pipeline.OverlayFlows c s.pipeline
  fitting : Pipeline.Fitting c s.pipeline
  noted : Pipeline.Noted c s.pipeline
  opened : s.log.isOpen = isOpen
  closed : isOpen = false → s.log.current = none
  told : ∃ told new, told ++ s.pending = events s.pipeline.updates ∧
    s.log.written = log.written ++ new ∧
      new.map EventResult.toAiResult = if isOpen then told else []
  pending : s.pending.length ≤ 1
  reaches : Reaches (LineLog.step EventLogger.eventText) (LineLog.writes EventLogger.Sayable)
    .initial s.log

namespace Logging

theorem start (c : Settings) (isOpen : Bool)
    (hlog : Reaches (LineLog.step EventLogger.eventText) (LineLog.writes EventLogger.Sayable)
      .initial log) : Logging c isOpen log (start c isOpen log) := by
  have hpending : (Recording.start c isOpen log).pending = [] := by
    cases hready : c.aiReady
    all_goals
      simp [Recording.pending, Recording.start, LineLog.restart, Pipeline.initial, AiPc.toWrite, hready]
  constructor
  case overlay => exact .initial c
  case fitting => exact .initial c
  case noted => exact .initial c
  case opened => rfl
  case closed => exact fun _ => rfl
  case told =>
    rw [hpending]
    refine ⟨[], [], rfl, (List.append_nil _).symm, ?_⟩
    cases isOpen <;> rfl
  case pending => simp [hpending]
  case reaches => exact hlog.tail (a := .restart isOpen) trivial rfl

/-- A thread that is not the AI thread moves. -/
theorem keep (h : Logging c isOpen log s) {a : PipelineLabel} {p : Pipeline}
    (hstep : s.pipeline.step c a = some p) (hkeeps : Pipeline.KeepsAi s.pipeline p) :
    Logging c isOpen log { s with pipeline := p } := by
  have hpending : ({ s with pipeline := p } : Recording).pending = s.pending := by
    simp [Recording.pending, hkeeps.ai]
  constructor
  case overlay => exact h.overlay.step hstep
  case fitting => exact h.fitting.step hstep
  case noted => exact h.noted.keep hkeeps
  case opened => exact h.opened
  case closed => exact h.closed
  case told =>
    rw [hpending]
    show ∃ told new, told ++ s.pending = events p.updates ∧ _
    rw [hkeeps.updates]
    exact h.told
  case pending =>
    rw [hpending]
    exact h.pending
  case reaches => exact h.reaches

theorem aiStep (hc : c.Detects) {rknn : Bytes → RknnRun} (hrational : c.RationalOutputs rknn)
    (h : Logging c isOpen log s) {p : Pipeline} (hwriting : s.writing = false)
    (hstep : s.pipeline.aiStep c rknn = some p) :
    Logging c isOpen log { s with pipeline := p, due := s.pipeline.ai.toWrite } := by
  obtain ⟨hevents, honce, -⟩ := Pipeline.aiStep_events hstep
  simp only [writing, Bool.or_eq_false_iff, Option.isSome_eq_false_iff, Option.isNone_iff_eq_none]
    at hwriting
  obtain ⟨hdue, hcurrent⟩ := hwriting
  have hbefore : s.pending = s.pipeline.ai.toWrite.toList := by
    simp [Recording.pending, hdue, hcurrent]
  have hafter : ({ s with pipeline := p, due := s.pipeline.ai.toWrite } : Recording).pending =
      s.pending ++ p.ai.toWrite.toList := by
    simp [Recording.pending, hdue, hcurrent]
  have hlabel : s.pipeline.step c (.ai rknn) = some p := hstep
  constructor
  case overlay => exact h.overlay.step hlabel
  case fitting => exact h.fitting.step hlabel
  case noted =>
    refine h.noted.aiStep hc hrational (fun frame hpc => ?_) hstep
    refine h.fitting.popped h.overlay.flows (h.overlay.updateOrder.popped frame ?_)
    simp [hpc, AiPc.held]
  case opened => exact h.opened
  case closed => exact h.closed
  case told =>
    obtain ⟨told, new, htold, hwritten, hnew⟩ := h.told
    refine ⟨told, new, ?_, hwritten, hnew⟩
    rw [hafter, ← List.append_assoc, htold, hevents]
  case pending =>
    rw [hafter, hbefore]
    cases hwrite : s.pipeline.ai.toWrite with
    | none => cases p.ai.toWrite <;> simp
    | some result => simp [honce (by rw [hwrite]; rfl)]
  case reaches => exact h.reaches

/-- The stream moves on within a call. -/
theorem move (h : Logging c isOpen log s) {a : LogLabel EventResult}
    {w w' : Writing UInt8 EventResult} {log' : LineLog UInt8 EventResult}
    (hlog : s.log.step EventLogger.eventText a = some log') (hcurrent : s.log.current = some w)
    (hok : LineLog.writes EventLogger.Sayable s.log a) (hopen : log'.isOpen = s.log.isOpen)
    (hwritten : log'.written = s.log.written) (hcurrent' : log'.current = some w')
    (hrecord : w'.record = w.record) : Logging c isOpen log { s with log := log' } := by
  have hpending : ({ s with log := log' } : Recording).pending = s.pending := by
    simp [Recording.pending, hcurrent, hcurrent', hrecord]
  constructor
  case overlay => exact h.overlay
  case fitting => exact h.fitting
  case noted => exact h.noted
  case opened => exact hopen.trans h.opened
  case closed => exact fun hclosed => absurd (h.closed hclosed) (by simp [hcurrent])
  case told =>
    rw [hpending]
    show ∃ told new, told ++ s.pending = events s.pipeline.updates ∧ log'.written = _ ∧ _
    rw [hwritten]
    exact h.told
  case pending =>
    rw [hpending]
    exact h.pending
  case reaches => exact h.reaches.tail hok hlog

/-- A result that is to be written can be said. -/
theorem sayable (hc : c.Detects) (h : Logging c isOpen log s) {result : AiResult}
    (hdue : s.due = some result) {preprocessMs inferenceMs postprocessMs : ExtRat}
    (hpre : preprocessMs.IsFinite) (hinfer : inferenceMs.IsFinite) (hpost : postprocessMs.IsFinite) :
    EventLogger.Sayable ⟨result, preprocessMs, inferenceMs, postprocessMs⟩ := by
  obtain ⟨told, -, htold, -⟩ := h.told
  have hmem : result ∈ events s.pipeline.updates := by
    rw [← htold]
    simp [Recording.pending, hdue]
  obtain ⟨u, hu, rfl⟩ := List.mem_map.mp hmem
  obtain ⟨hupdate, hne⟩ := mem_detected.mp hu
  exact (h.noted.tells u hupdate).sayable hc hne hpre hinfer hpost

theorem write (h : Logging c isOpen log s) {r : EventResult} {log' : LineLog UInt8 EventResult}
    (hdue : s.due = some r.toAiResult) (hsayable : EventLogger.Sayable r)
    (hlog : s.log.step EventLogger.eventText (.write r) = some log') :
    Logging c isOpen log { s with log := log', due := none } := by
  have hok : LineLog.writes EventLogger.Sayable s.log (.write r) := hsayable
  have hreaches := h.reaches.tail hok hlog
  simp only [LineLog.step, Option.ite_none_left_eq_some, Option.some.injEq, Bool.not_eq_true,
    Option.isSome_eq_false_iff, Option.isNone_iff_eq_none] at hlog
  obtain ⟨hcurrent, rfl⟩ := hlog
  have hbefore : s.pending = r.toAiResult :: s.pipeline.ai.toWrite.toList := by
    simp [Recording.pending, hdue, hcurrent]
  obtain ⟨told, new, htold, hwritten, hnew⟩ := h.told
  have hlength := h.pending
  rw [hbefore] at htold hlength
  cases hopen : s.log.isOpen with
  | true =>
    rw [LineLog.write, if_pos hopen] at hreaches ⊢
    refine ⟨h.overlay, h.fitting, h.noted, h.opened, fun hclosed => ?_,
      ⟨told, new, htold, hwritten, hnew⟩, hlength, hreaches⟩
    rw [← h.opened, hopen] at hclosed
    cases hclosed
  | false =>
    have hclosed : isOpen = false := h.opened.symm.trans hopen
    rw [LineLog.write, if_neg (by simp [hopen])] at hreaches ⊢
    have hafter : ({ s with due := none } : Recording).pending = s.pipeline.ai.toWrite.toList := by
      simp [Recording.pending, hcurrent]
    refine ⟨h.overlay, h.fitting, h.noted, h.opened, h.closed,
      ⟨told ++ [r.toAiResult], new, ?_, hwritten, ?_⟩, ?_, hreaches⟩
    · rw [hafter, List.append_assoc]
      exact htold
    · rw [hclosed] at hnew ⊢
      exact hnew
    · rw [hafter]
      simp only [List.length_cons] at hlength
      omega

theorem flush (h : Logging c isOpen log s) {w : Writing UInt8 EventResult}
    (hcurrent : s.log.current = some w) (hrest : w.rest.isEmpty = true) :
    Logging c isOpen log { s with log := s.log.flush w } := by
  have hopen : isOpen = true := by
    by_contra hclosed
    rw [h.closed (by simpa using hclosed)] at hcurrent
    cases hcurrent
  have hlog : s.log.step EventLogger.eventText .flush = some (s.log.flush w) := by
    rw [LineLog.step, hcurrent, Option.bind_some, if_pos hrest]
  have hbefore : s.pending =
      w.record.toAiResult :: (s.due.toList ++ s.pipeline.ai.toWrite.toList) := by
    simp [Recording.pending, hcurrent]
  have hafter : ({ s with log := s.log.flush w } : Recording).pending =
      s.due.toList ++ s.pipeline.ai.toWrite.toList := by
    simp [Recording.pending, LineLog.flush]
  obtain ⟨told, new, htold, hwritten, hnew⟩ := h.told
  have hlength := h.pending
  rw [hbefore] at htold hlength
  refine ⟨h.overlay, h.fitting, h.noted, h.opened, fun _ => rfl,
    ⟨told ++ [w.record.toAiResult], new ++ [w.record], ?_, ?_, ?_⟩, ?_,
    h.reaches.tail (a := .flush) trivial hlog⟩
  · rw [hafter, List.append_assoc]
    exact htold
  · rw [LineLog.flush, hwritten, List.append_assoc]
  · rw [if_pos hopen] at hnew ⊢
    rw [List.map_append, hnew]
    rfl
  · rw [hafter]
    simp only [List.length_cons] at hlength
    omega

theorem step (hc : c.Detects) {a : RecordingLabel} (h : Logging c isOpen log s)
    (hok : Measured c s a) (hstep : s.step c a = some t) : Logging c isOpen log t := by
  cases a with
  | thread a =>
    cases a with
    | ai rknn =>
      simp only [Recording.step] at hstep
      split at hstep
      · cases hstep
      · rename_i hwriting
        obtain ⟨p, hp, rfl⟩ := Option.map_eq_some_iff.mp hstep
        exact h.aiStep hc hok (by simpa using hwriting) hp
    | signal =>
      cases hstep
      exact h.keep (a := .signal) rfl ⟨rfl, rfl, rfl, rfl, rfl, rfl⟩
    | main =>
      obtain ⟨p, hp, rfl⟩ := Option.map_eq_some_iff.mp hstep
      exact h.keep hp (Pipeline.mainStep_keeps hp).2.2
    | capture image =>
      obtain ⟨p, hp, rfl⟩ := Option.map_eq_some_iff.mp hstep
      exact h.keep hp (Pipeline.captureStep_keeps hp).2
    | encode ok packet =>
      obtain ⟨p, hp, rfl⟩ := Option.map_eq_some_iff.mp hstep
      exact h.keep hp (Pipeline.encodeStep_keeps hp).2
  | write preprocessMs inferenceMs postprocessMs =>
    obtain ⟨result, hdue, hstep⟩ := Option.bind_eq_some_iff.mp hstep
    obtain ⟨log', hlog, rfl⟩ := Option.map_eq_some_iff.mp hstep
    exact h.write hdue (h.sayable hc hdue hok.1 hok.2.1 hok.2.2) hlog
  | put n =>
    obtain ⟨log', hlog, rfl⟩ := Option.map_eq_some_iff.mp hstep
    obtain ⟨w, hcurrent, rfl⟩ := Option.map_eq_some_iff.mp hlog
    exact h.move (a := .put n) hlog hcurrent trivial rfl rfl rfl rfl
  | spill n =>
    obtain ⟨log', hlog, rfl⟩ := Option.map_eq_some_iff.mp hstep
    obtain ⟨w, hcurrent, rfl⟩ := Option.map_eq_some_iff.mp hlog
    exact h.move (a := .spill n) hlog hcurrent trivial rfl rfl rfl rfl
  | flush =>
    obtain ⟨log', hlog, rfl⟩ := Option.map_eq_some_iff.mp hstep
    obtain ⟨w, hcurrent, hflush⟩ := Option.bind_eq_some_iff.mp hlog
    split at hflush
    · rename_i hrest
      cases hflush
      exact h.flush hcurrent hrest
    · cases hflush

end Logging

/-! ## Every run -/

/-- What there is to read of a run that has started on `log`. -/
structure Recorded (c : Settings) (isOpen : Bool) (log : LineLog UInt8 EventResult)
    (s : Recording) : Prop where
  /-- The events of the run are the results with detections, in order, but for what is still being
  written; without a file there are none. -/
  written : ∃ told new, told ++ s.pending = events s.pipeline.updates ∧
    s.log.written = log.written ++ new ∧
      new.map EventResult.toAiResult = if isOpen then told else []
  pending : s.pending.length ≤ 1
  /-- The counter goes with the results, whether or not there is a file. -/
  counted : s.pipeline.metrics.eventsWritten + s.pipeline.ai.unwritten +
    s.pipeline.ai.toWrite.toList.length = (events s.pipeline.updates).length
  /-- Each result is about a frame that was chosen for the detector and popped by its thread. -/
  tells : ∀ u ∈ detected s.pipeline.updates, c.Tells u ∧ u.1 ∈ s.pipeline.aiQueue.popped ∧
    c.inferEveryNFrames ∣ u.1.sequence
  increasing : ((events s.pipeline.updates).map AiResult.frameSequence).Pairwise (· < ·)
  readBack : s.log.ReadBack 10 EventLogger.eventText EventLogger.Sayable Json.parseUtf8
    EventLogger.eventJson
  /-- The next process may start on the log. -/
  goesOn : Reaches (LineLog.step EventLogger.eventText) (LineLog.writes EventLogger.Sayable)
    .initial s.log

/-- **The event log tells what the detector has found**, in every run of the process that starts on a
log that earlier ones have left, whatever the threads and the queues do and however the line gets into
the file. The outputs are rationals and the measured times are finite (`Measured`), and the settings
are such that the detector works (`Detects`). -/
theorem events_recorded (hc : c.Detects)
    (hlog : Reaches (LineLog.step EventLogger.eventText) (LineLog.writes EventLogger.Sayable)
      .initial log)
    (h : Reaches (Recording.step c) (Measured c) (start c isOpen log) s) :
    Recorded c isOpen log s := by
  have hlogging : Logging c isOpen log s :=
    h.invariant (.start c isOpen hlog) fun _ _ _ hs hok hstep => hs.step hc hok hstep
  obtain ⟨hflows, horder, -⟩ := hlogging.overlay
  have hpopped : ∀ u ∈ s.pipeline.updates, u.1 ∈ s.pipeline.aiQueue.popped := fun u hu =>
    horder.popped u.1 (List.mem_append_left _ (List.mem_map_of_mem hu))
  constructor
  case written => exact hlogging.told
  case pending => exact hlogging.pending
  case counted => exact hlogging.noted.counted
  case tells =>
    intro u hu
    obtain ⟨hu, -⟩ := mem_detected.mp hu
    have hpushed : u.1 ∈ s.pipeline.aiQueue.pushed :=
      hflows.aiQueue.accounts.perm.mem_iff.mpr (by simp [hpopped u hu])
    exact ⟨hlogging.noted.tells u hu, hpopped u hu,
      hflows.order.multiples u.1 (List.mem_append_left _ hpushed)⟩
  case increasing =>
    have hframes := (List.pairwise_append.mp horder.increasing).1
    rw [events, List.map_map, List.pairwise_map]
    refine ((List.pairwise_map.mp hframes).sublist List.filter_sublist).imp_of_mem ?_
    intro u v hu hv hlt
    show u.2.frameSequence < v.2.frameSequence
    rw [(hlogging.noted.tells u (mem_detected.mp hu).1).frameSequence,
      (hlogging.noted.tells v (mem_detected.mp hv).1).frameSequence]
    exact hlt
  case readBack =>
    exact LineLog.readBack (fun result _ => EventLogger.eventText_eq_line result)
      (fun _ hsayable => EventLogger.newline_notMem_of_sayable hsayable)
      (fun _ hsayable => EventLogger.parseUtf8_of_sayable hsayable) hlogging.reaches
  case goesOn => exact hlogging.reaches

/-- The camera of two by two pixels, with a sort. -/
def sortingSettings : Settings := { boxSettings with sort := sortByScore }

/-- The outputs of a model that sees one person. -/
def onePerson : Bytes → RknnRun :=
  fun _ => .outputs [some [.fin 1, .fin 1, .fin 2, .fin 2, .fin 1, .fin 0]]

/-- A frame is captured and inferred, and its event is written in two pieces while the next frame is
captured. -/
def recordingRun : List RecordingLabel :=
  List.replicate 5 (.thread (.capture (some (0, List.replicate 6 7)))) ++
    List.replicate 5 (.thread (.ai onePerson)) ++
    [.write (.fin 1) (.fin 2) (.fin 3), .put 40, .spill 20] ++
    List.replicate 5 (.thread (.capture (some (0, List.replicate 6 7)))) ++
    [.put 1000, .flush, .thread (.ai onePerson)]

theorem sortingSettings_detects : sortingSettings.Detects where
  width := by decide
  height := by decide
  inputWidth := by decide
  inputHeight := by decide
  scoreThreshold := by decide
  nmsThreshold := by decide
  sort := sortByScore_sorts
  labels := by decide

theorem onePerson_rational : sortingSettings.RationalOutputs onePerson := by
  intro input bufs hrun output houtput
  cases hrun
  cases List.mem_singleton.mp houtput
  constructor
  case pos => simp
  case count_lt => simp [elementCount]
  case length =>
    intro data hdata
    cases hdata
    rfl
  case rational =>
    intro data hdata
    cases hdata
    simp

theorem events_recorded_person : ∃ s : Recording,
    Reaches (Recording.step sortingSettings) (Measured sortingSettings)
      (start sortingSettings true .initial) s ∧
    (s.log.written.map fun r => (r.frameSequence, r.detections.map Detection.label)) =
      [(0, ["person"])] ∧
    Recorded sortingSettings true .initial s := by
  have hok : ∀ a ∈ recordingRun, ∀ s, Measured sortingSettings s a := by
    intro a ha s
    simp only [recordingRun, List.mem_append, List.mem_replicate, List.mem_cons, List.not_mem_nil,
      or_false] at ha
    rcases ha with (((⟨-, rfl⟩ | ⟨-, rfl⟩) | rfl | rfl | rfl) | ⟨-, rfl⟩) | rfl | rfl | rfl
    all_goals
      first
      | exact trivial
      | exact onePerson_rational
      | exact ⟨⟨1, rfl⟩, ⟨2, rfl⟩, 3, rfl⟩
  have hrun : (runLabels (Recording.step sortingSettings) anyStep (start sortingSettings true .initial)
      recordingRun).map
        (fun s => s.log.written.map fun r => (r.frameSequence, r.detections.map Detection.label)) =
      some [(0, ["person"])] := by
    decide +kernel
  obtain ⟨s, hs, hwritten⟩ := Reaches.exists_of_runLabels_all hok hrun
  exact ⟨s, hs, hwritten, events_recorded sortingSettings_detects (Reaches.refl _) hs⟩

end Recording

end EdgeVision
