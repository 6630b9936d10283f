import EdgeVision.Camera.Pipeline
import EdgeVision.Lib.DropOldest

/-!
# The flow of frames

A step of the pipeline does to a queue what one of its methods does, so whatever the threads do, the
frames pushed into a queue are those popped, evicted and queued, and the order in which the capture
thread pushes them is the order in which they are popped. The counters follow the queues: each lags
by at most the frame that its thread holds.
-/

namespace EdgeVision

open Lib

/-! ## One queue -/

namespace LoggedQueue

/-- What a step can do to a queue. -/
inductive Move : LoggedQueue → LoggedQueue → Prop where
  | same (q : LoggedQueue) : Move q q
  | push (q : LoggedQueue) (frame : CapturedFrame) : Move q (q.push frame).2
  | pop {q : LoggedQueue} {r : Option CapturedFrame × LoggedQueue} (h : q.waitAndPop = some r) :
      Move q r.2
  | stop (q : LoggedQueue) : Move q q.stop

/-- The past of a queue goes with its content. -/
structure Accounted (capacity : Nat) (q : LoggedQueue) : Prop where
  accounts : Accounts q.pushed q.popped q.evicted q.queue.queue
  capacity_eq : q.queue.capacity = capacity
  bounded : q.queue.queue.length ≤ capacity
  drops : q.queue.droppedFrames = q.pushesTrue
  evictions : q.evicted.length = q.pushesTrue

variable {capacity : Nat} {q q' : LoggedQueue} {frame : CapturedFrame}

theorem push_of_lt (h : q.queue.queue.length < q.queue.capacity) :
    q.push frame =
      (false,
        { q with
          queue := { q.queue with queue := q.queue.queue ++ [frame] }
          pushed := q.pushed ++ [frame] }) := by
  have hroom : ¬ q.queue.capacity ≤ q.queue.queue.length := by omega
  simp [push, FrameQueue.push, FrameQueue.evicted, hroom]

/-- A push into a full queue evicts its front. -/
theorem push_of_le {oldest : CapturedFrame} {rest : List CapturedFrame}
    (hqueue : q.queue.queue = oldest :: rest) (h : q.queue.capacity ≤ q.queue.queue.length) :
    q.push frame =
      (true,
        { queue :=
            { q.queue with
              droppedFrames := q.queue.droppedFrames + 1
              queue := rest ++ [frame] }
          pushed := q.pushed ++ [frame]
          popped := q.popped
          evicted := q.evicted ++ [oldest]
          pushesTrue := q.pushesTrue + 1 }) := by
  have hfull : q.queue.capacity ≤ rest.length + 1 := by simpa [hqueue] using h
  simp [push, FrameQueue.push, FrameQueue.evicted, hqueue, hfull]

/-- A pop returns the front of the queue, or fails and finds the queue empty and stopped. -/
theorem waitAndPop_cases {r : Option CapturedFrame × LoggedQueue} (h : q.waitAndPop = some r) :
    (r = (none, q) ∧ q.queue.queue = [] ∧ q.queue.stopped = true) ∨
      ∃ front rest, q.queue.queue = front :: rest ∧
        r = (some front,
          { q with
            queue := { q.queue with queue := rest }
            popped := q.popped ++ [front] }) := by
  obtain ⟨⟨cap, stopped, dropped, queue⟩, pushed, popped, evicted, pushesTrue⟩ := q
  cases queue with
  | nil =>
    left
    cases stopped with
    | false => simp [waitAndPop, FrameQueue.waitAndPop] at h
    | true => simpa [waitAndPop, FrameQueue.waitAndPop, eq_comm] using h
  | cons front rest =>
    right
    refine ⟨front, rest, rfl, ?_⟩
    simpa [waitAndPop, FrameQueue.waitAndPop, eq_comm] using h

namespace Accounted

theorem init (capacity : Nat) : (LoggedQueue.init capacity).Accounted capacity where
  accounts := Accounts.empty
  capacity_eq := rfl
  bounded := Nat.zero_le _
  drops := rfl
  evictions := rfl

theorem push (h : q.Accounted capacity) (hpos : 1 ≤ capacity) (frame : CapturedFrame) :
    (q.push frame).2.Accounted capacity := by
  obtain ⟨haccounts, hcapacity, hbounded, hdrops, hevictions⟩ := h
  by_cases hfull : q.queue.capacity ≤ q.queue.queue.length
  · obtain ⟨oldest, rest, hqueue⟩ := List.exists_cons_of_length_pos
      (show 0 < q.queue.queue.length by omega)
    rw [push_of_le hqueue hfull]
    rw [hqueue] at haccounts hbounded
    constructor
    case accounts => exact haccounts.evict.push frame
    case capacity_eq => exact hcapacity
    case bounded => simpa using hbounded
    case drops => simp only [hdrops]
    case evictions => simp [hevictions]
  · rw [push_of_lt (by omega)]
    constructor
    case accounts => exact haccounts.push frame
    case capacity_eq => exact hcapacity
    case bounded =>
      simp only [List.length_append, List.length_singleton]
      omega
    case drops => exact hdrops
    case evictions => exact hevictions

theorem pop (h : q.Accounted capacity) {r : Option CapturedFrame × LoggedQueue}
    (hpop : q.waitAndPop = some r) : r.2.Accounted capacity := by
  rcases waitAndPop_cases hpop with ⟨rfl, -, -⟩ | ⟨front, rest, hqueue, rfl⟩
  · exact h
  · obtain ⟨haccounts, hcapacity, hbounded, hdrops, hevictions⟩ := h
    rw [hqueue] at haccounts hbounded
    constructor
    case accounts => exact haccounts.pop
    case capacity_eq => exact hcapacity
    case bounded => exact Nat.le_trans (Nat.le_succ _) hbounded
    case drops => exact hdrops
    case evictions => exact hevictions

theorem move (h : q.Accounted capacity) (hpos : 1 ≤ capacity) (hmove : Move q q') :
    q'.Accounted capacity := by
  cases hmove with
  | same => exact h
  | push frame => exact h.push hpos frame
  | pop hpop => exact h.pop hpop
  | stop => exact ⟨h.accounts, h.capacity_eq, h.bounded, h.drops, h.evictions⟩

end Accounted

end LoggedQueue

/-! ## What a step does to the queues -/

namespace Pipeline

variable {c : Settings} {s t : Pipeline} {a : PipelineLabel}

open LoggedQueue (Move)

theorem captureStep_moves {image : Option (Nat × Bytes)} (h : s.captureStep c image = some t) :
    Move s.encodeQueue t.encodeQueue ∧ Move s.aiQueue t.aiQueue := by
  cases hpc : s.capture <;> simp only [captureStep, hpc] at h
  case captureFrame =>
    split at h <;> cases h
    all_goals exact ⟨.same _, .same _⟩
  case pushEncode frame =>
    cases h
    exact ⟨.push _ _, .same _⟩
  case pushAi frame =>
    cases h
    exact ⟨.same _, .push _ _⟩
  all_goals cases h
  all_goals exact ⟨.same _, .same _⟩

theorem encodeStep_moves {ok : Bool} {packet : Option Bytes}
    (h : s.encodeStep c ok packet = some t) :
    Move s.encodeQueue t.encodeQueue ∧ Move s.aiQueue t.aiQueue := by
  cases hpc : s.encode <;> simp only [encodeStep, hpc] at h
  case stopEncode =>
    cases h
    exact ⟨.stop _, .same _⟩
  case stopAi =>
    cases h
    exact ⟨.same _, .stop _⟩
  case pop =>
    obtain ⟨r, hpop, rfl⟩ := Option.map_eq_some_iff.mp h
    exact ⟨.pop hpop, .same _⟩
  case apply frame =>
    split at h <;> cases h
    all_goals exact ⟨.same _, .same _⟩
  all_goals cases h
  all_goals exact ⟨.same _, .same _⟩

theorem aiStep_moves {rknn : Bytes → RknnRun} (h : s.aiStep c rknn = some t) :
    Move s.encodeQueue t.encodeQueue ∧ Move s.aiQueue t.aiQueue := by
  cases hpc : s.ai <;> simp only [aiStep, hpc] at h
  case pop =>
    obtain ⟨r, hpop, rfl⟩ := Option.map_eq_some_iff.mp h
    exact ⟨.same _, .pop hpop⟩
  case infer frame =>
    obtain ⟨result, -, rfl⟩ := Option.map_eq_some_iff.mp h
    exact ⟨.same _, .same _⟩
  all_goals cases h
  all_goals exact ⟨.same _, .same _⟩

theorem mainStep_moves (h : s.mainStep = some t) :
    Move s.encodeQueue t.encodeQueue ∧ Move s.aiQueue t.aiQueue := by
  cases hpc : s.main <;> simp only [mainStep, hpc] at h
  case stopEncode =>
    cases h
    exact ⟨.stop _, .same _⟩
  case stopAi =>
    cases h
    exact ⟨.same _, .stop _⟩
  all_goals cases h
  all_goals exact ⟨.same _, .same _⟩

/-- Every step does to each queue what one of its methods does, or nothing. -/
theorem step_moves (h : s.step c a = some t) :
    Move s.encodeQueue t.encodeQueue ∧ Move s.aiQueue t.aiQueue := by
  cases a with
  | signal => cases h; exact ⟨.same _, .same _⟩
  | main => exact mainStep_moves h
  | capture image => exact captureStep_moves h
  | encode ok packet => exact encodeStep_moves h
  | ai rknn => exact aiStep_moves h

/-! ## What a thread leaves alone -/

/-- What only the capture thread changes. -/
structure KeepsCapture (s t : Pipeline) : Prop where
  capture : t.capture = s.capture
  sequence : t.sequence = s.sequence
  encodePushed : t.encodeQueue.pushed = s.encodeQueue.pushed
  encodePushesTrue : t.encodeQueue.pushesTrue = s.encodeQueue.pushesTrue
  aiPushed : t.aiQueue.pushed = s.aiQueue.pushed
  capturedFrames : t.metrics.capturedFrames = s.metrics.capturedFrames
  encodeQueueDrops : t.metrics.encodeQueueDrops = s.metrics.encodeQueueDrops

/-- What only the encode thread changes. -/
structure KeepsEncode (s t : Pipeline) : Prop where
  encode : t.encode = s.encode
  encodePopped : t.encodeQueue.popped = s.encodeQueue.popped
  encodedFrames : t.metrics.encodedFrames = s.metrics.encodedFrames
  applied : t.applied = s.applied

/-- What only the AI thread changes. -/
structure KeepsAi (s t : Pipeline) : Prop where
  ai : t.ai = s.ai
  aiPopped : t.aiQueue.popped = s.aiQueue.popped
  aiFrames : t.metrics.aiFrames = s.metrics.aiFrames
  eventsWritten : t.metrics.eventsWritten = s.metrics.eventsWritten
  overlay : t.overlay = s.overlay
  updates : t.updates = s.updates

theorem captureStep_keeps {image : Option (Nat × Bytes)} (h : s.captureStep c image = some t) :
    KeepsEncode s t ∧ KeepsAi s t := by
  cases hpc : s.capture <;> simp only [captureStep, hpc] at h
  case captureFrame =>
    split at h <;> cases h
    all_goals exact ⟨⟨rfl, rfl, rfl, rfl⟩, ⟨rfl, rfl, rfl, rfl, rfl, rfl⟩⟩
  all_goals cases h
  all_goals exact ⟨⟨rfl, rfl, rfl, rfl⟩, ⟨rfl, rfl, rfl, rfl, rfl, rfl⟩⟩

theorem encodeStep_keeps {ok : Bool} {packet : Option Bytes}
    (h : s.encodeStep c ok packet = some t) : KeepsCapture s t ∧ KeepsAi s t := by
  cases hpc : s.encode <;> simp only [encodeStep, hpc] at h
  case pop =>
    obtain ⟨r, hpop, rfl⟩ := Option.map_eq_some_iff.mp h
    rcases LoggedQueue.waitAndPop_cases hpop with ⟨rfl, -, -⟩ | ⟨front, rest, -, rfl⟩
    all_goals exact ⟨⟨rfl, rfl, rfl, rfl, rfl, rfl, rfl⟩, ⟨rfl, rfl, rfl, rfl, rfl, rfl⟩⟩
  case apply frame =>
    split at h <;> cases h
    all_goals exact ⟨⟨rfl, rfl, rfl, rfl, rfl, rfl, rfl⟩, ⟨rfl, rfl, rfl, rfl, rfl, rfl⟩⟩
  all_goals cases h
  all_goals exact ⟨⟨rfl, rfl, rfl, rfl, rfl, rfl, rfl⟩, ⟨rfl, rfl, rfl, rfl, rfl, rfl⟩⟩

theorem aiStep_keeps {rknn : Bytes → RknnRun} (h : s.aiStep c rknn = some t) :
    KeepsCapture s t ∧ KeepsEncode s t := by
  cases hpc : s.ai <;> simp only [aiStep, hpc] at h
  case pop =>
    obtain ⟨r, hpop, rfl⟩ := Option.map_eq_some_iff.mp h
    rcases LoggedQueue.waitAndPop_cases hpop with ⟨rfl, -, -⟩ | ⟨front, rest, -, rfl⟩
    all_goals exact ⟨⟨rfl, rfl, rfl, rfl, rfl, rfl, rfl⟩, ⟨rfl, rfl, rfl, rfl⟩⟩
  case infer frame =>
    obtain ⟨result, -, rfl⟩ := Option.map_eq_some_iff.mp h
    exact ⟨⟨rfl, rfl, rfl, rfl, rfl, rfl, rfl⟩, ⟨rfl, rfl, rfl, rfl⟩⟩
  all_goals cases h
  all_goals exact ⟨⟨rfl, rfl, rfl, rfl, rfl, rfl, rfl⟩, ⟨rfl, rfl, rfl, rfl⟩⟩

/-- `main` only stops the queues. -/
theorem mainStep_keeps (h : s.mainStep = some t) :
    KeepsCapture s t ∧ KeepsEncode s t ∧ KeepsAi s t := by
  cases hpc : s.main <;> simp only [mainStep, hpc] at h <;> cases h
  all_goals exact ⟨⟨rfl, rfl, rfl, rfl, rfl, rfl, rfl⟩, ⟨rfl, rfl, rfl, rfl⟩,
    ⟨rfl, rfl, rfl, rfl, rfl, rfl⟩⟩

/-! ## The order of the frames -/

end Pipeline

/-- Frames in the order of their numbers, which are below `next`. -/
structure Numbered (next : Nat) (frames : List CapturedFrame) : Prop where
  increasing : frames.Pairwise fun f g => f.sequence < g.sequence
  below : ∀ f ∈ frames, f.sequence < next

namespace Numbered

variable {next : Nat} {frames : List CapturedFrame}

theorem succ (h : Numbered next frames) : Numbered (next + 1) frames where
  increasing := h.increasing
  below f hf := Nat.lt_succ_of_lt (h.below f hf)

/-- The next frame comes after all before it. -/
theorem append (h : Numbered next frames) {frame : CapturedFrame} (hframe : frame.sequence = next) :
    Numbered (next + 1) (frames ++ [frame]) where
  increasing := by
    refine List.pairwise_append.mpr ⟨h.increasing, List.pairwise_singleton _ _, ?_⟩
    intro f hf g hg
    rw [List.mem_singleton.mp hg, hframe]
    exact h.below f hf
  below f hf := by
    rcases List.mem_append.mp hf with hf | hf
    · exact Nat.lt_succ_of_lt (h.below f hf)
    · rw [List.mem_singleton.mp hf, hframe]
      exact Nat.lt_succ_self next

end Numbered

namespace CapturePc

/-- What the thread holds for the encode queue. -/
def toEncode : CapturePc → List CapturedFrame
  | pushEncode frame => [frame]
  | _ => []

/-- What the thread holds for the AI queue. -/
def toAi (c : Settings) : CapturePc → List CapturedFrame
  | pushEncode frame => if c.infersFrame frame then [frame] else []
  | recordEncodeQueueDrop frame => if c.infersFrame frame then [frame] else []
  | pushAi frame => [frame]
  | _ => []

/-- A frame is in the encode queue that `recordCapture` has not counted. -/
def uncounted : CapturePc → Nat
  | recordEncodeQueueDrop _ => 1
  | pushAi _ => 1
  | recordAiQueueDrop => 1
  | recordCapture => 1
  | _ => 0

/-- A frame has been evicted that `recordEncodeQueueDrop` has not counted. -/
def undropped : CapturePc → Nat
  | recordEncodeQueueDrop _ => 1
  | _ => 0

variable (c : Settings) (frame : CapturedFrame)

@[simp] theorem toEncode_afterEncodeQueue : (c.afterEncodeQueue frame).toEncode = [] := by
  unfold Settings.afterEncodeQueue
  split <;> rfl

@[simp] theorem toAi_afterEncodeQueue :
    (c.afterEncodeQueue frame).toAi c = if c.infersFrame frame then [frame] else [] := by
  unfold Settings.afterEncodeQueue
  split <;> rfl

@[simp] theorem uncounted_afterEncodeQueue : (c.afterEncodeQueue frame).uncounted = 1 := by
  unfold Settings.afterEncodeQueue
  split <;> rfl

@[simp] theorem undropped_afterEncodeQueue : (c.afterEncodeQueue frame).undropped = 0 := by
  unfold Settings.afterEncodeQueue
  split <;> rfl

end CapturePc

/-- A frame that the encode thread holds and has not counted. -/
def EncodePc.unencoded : EncodePc → Nat
  | apply _ => 1
  | draw _ _ _ => 1
  | encode _ => 1
  | recordEncode _ => 1
  | _ => 0

/-- A result that the AI thread has counted and whose event it has not. -/
def AiPc.unwritten : AiPc → Nat
  | recordEventWritten => 1
  | _ => 0

namespace Pipeline

/-- What the capture thread keeps true: each queue gets frames in the order of their numbers, with
the frame that is still held for it, and the counters lag as far as the thread has come. -/
structure CaptureOrder (c : Settings) (s : Pipeline) : Prop where
  encodeOrder : Numbered s.sequence (s.encodeQueue.pushed ++ s.capture.toEncode)
  aiOrder : Numbered s.sequence (s.aiQueue.pushed ++ s.capture.toAi c)
  multiples : ∀ f ∈ s.aiQueue.pushed ++ s.capture.toAi c, c.inferEveryNFrames ∣ f.sequence
  captured : s.encodeQueue.pushed.length = s.metrics.capturedFrames + s.capture.uncounted
  drops : s.encodeQueue.pushesTrue = s.metrics.encodeQueueDrops + s.capture.undropped

variable {c : Settings} {s t : Pipeline} {a : PipelineLabel}

namespace CaptureOrder

theorem initial (c : Settings) : CaptureOrder c (initial c) where
  encodeOrder := ⟨List.Pairwise.nil, by simp [Pipeline.initial, LoggedQueue.init, CapturePc.toEncode]⟩
  aiOrder := ⟨List.Pairwise.nil, by simp [Pipeline.initial, LoggedQueue.init, CapturePc.toAi]⟩
  multiples := by simp [Pipeline.initial, LoggedQueue.init, CapturePc.toAi]
  captured := rfl
  drops := rfl

theorem keep (h : CaptureOrder c s) (hkeeps : KeepsCapture s t) : CaptureOrder c t where
  encodeOrder := by
    rw [hkeeps.capture, hkeeps.sequence, hkeeps.encodePushed]
    exact h.encodeOrder
  aiOrder := by
    rw [hkeeps.capture, hkeeps.sequence, hkeeps.aiPushed]
    exact h.aiOrder
  multiples := by
    rw [hkeeps.capture, hkeeps.aiPushed]
    exact h.multiples
  captured := by
    rw [hkeeps.capture, hkeeps.encodePushed, hkeeps.capturedFrames]
    exact h.captured
  drops := by
    rw [hkeeps.capture, hkeeps.encodePushesTrue, hkeeps.encodeQueueDrops]
    exact h.drops

/-- A new frame is held for both queues, or for the encode queue only. -/
theorem captureFrame (h : CaptureOrder c s) (hpc : s.capture = .captureFrame)
    {frame : CapturedFrame} (hframe : frame.sequence = s.sequence) :
    CaptureOrder c { s with sequence := s.sequence + 1, capture := .pushEncode frame } := by
  obtain ⟨hencode, hai, hmultiples, hcaptured, hdrops⟩ := h
  simp only [hpc, CapturePc.toEncode, CapturePc.toAi, List.append_nil] at hencode hai hmultiples
  simp only [hpc, CapturePc.uncounted, CapturePc.undropped] at hcaptured hdrops
  constructor
  case encodeOrder => exact hencode.append hframe
  case aiOrder =>
    simp only [CapturePc.toAi]
    split
    · exact hai.append hframe
    · rw [List.append_nil]
      exact hai.succ
  case multiples =>
    simp only [CapturePc.toAi]
    intro f hf
    rcases List.mem_append.mp hf with hf | hf
    · exact hmultiples f hf
    · split at hf
      · rename_i hinfers
        rw [List.mem_singleton.mp hf]
        simp only [Settings.infersFrame, Bool.and_eq_true, beq_iff_eq] at hinfers
        exact Nat.dvd_of_mod_eq_zero hinfers.2
      · simp at hf
  case captured => exact hcaptured
  case drops => exact hdrops

theorem step {image : Option (Nat × Bytes)} (h : CaptureOrder c s)
    (hstep : s.captureStep c image = some t) : CaptureOrder c t := by
  cases hpc : s.capture <;> simp only [captureStep, hpc] at hstep
  case captureFrame =>
    cases image with
    | none =>
      cases hstep
      obtain ⟨hencode, hai, hmultiples, hcaptured, hdrops⟩ := h
      rw [hpc] at hencode hai hmultiples hcaptured hdrops
      exact ⟨hencode, hai, hmultiples, hcaptured, hdrops⟩
    | some image =>
      cases hstep
      exact h.captureFrame hpc rfl
  all_goals obtain ⟨hencode, hai, hmultiples, hcaptured, hdrops⟩ := h
  all_goals rw [hpc] at hencode hai hmultiples hcaptured hdrops
  all_goals cases hstep
  case test =>
    cases s.running
    all_goals exact ⟨hencode, hai, hmultiples, hcaptured, hdrops⟩
  case pushEncode frame =>
    have hencode' : Numbered s.sequence ((s.encodeQueue.push frame).2.pushed ++ []) := by
      rwa [List.append_nil]
    have hlength : (s.encodeQueue.push frame).2.pushed.length =
        s.metrics.capturedFrames + 1 := by
      simpa [LoggedQueue.push, CapturePc.uncounted] using hcaptured
    have htrue : (s.encodeQueue.push frame).2.pushesTrue =
        s.metrics.encodeQueueDrops + (s.encodeQueue.push frame).1.toNat := by
      simpa [LoggedQueue.push, CapturePc.undropped] using hdrops
    cases hdropped : (s.encodeQueue.push frame).1 with
    | true =>
      rw [hdropped] at htrue
      exact ⟨hencode', hai, hmultiples, hlength, htrue⟩
    | false =>
      rw [hdropped] at htrue
      simp only [Bool.false_eq_true, if_false]
      constructor
      case encodeOrder => rwa [CapturePc.toEncode_afterEncodeQueue]
      case aiOrder => rwa [CapturePc.toAi_afterEncodeQueue]
      case multiples => rwa [CapturePc.toAi_afterEncodeQueue]
      case captured => rwa [CapturePc.uncounted_afterEncodeQueue]
      case drops => rwa [CapturePc.undropped_afterEncodeQueue]
  case recordEncodeQueueDrop frame =>
    constructor
    case encodeOrder => rwa [CapturePc.toEncode_afterEncodeQueue]
    case aiOrder => rwa [CapturePc.toAi_afterEncodeQueue]
    case multiples => rwa [CapturePc.toAi_afterEncodeQueue]
    case captured => rwa [CapturePc.uncounted_afterEncodeQueue]
    case drops => rwa [CapturePc.undropped_afterEncodeQueue]
  case pushAi frame =>
    have hai' : Numbered s.sequence ((s.aiQueue.push frame).2.pushed ++ []) := by
      rwa [List.append_nil]
    have hmultiples' : ∀ f ∈ (s.aiQueue.push frame).2.pushed ++ [],
        c.inferEveryNFrames ∣ f.sequence := by
      rwa [List.append_nil]
    cases (s.aiQueue.push frame).1
    all_goals exact ⟨hencode, hai', hmultiples', hcaptured, hdrops⟩
  case recordAiQueueDrop => exact ⟨hencode, hai, hmultiples, hcaptured, hdrops⟩
  case recordCapture =>
    exact ⟨hencode, hai, hmultiples, by simpa [CapturePc.uncounted] using hcaptured, hdrops⟩

end CaptureOrder

/-- The encode thread counts no more frames than it has popped. -/
def EncodeCount (s : Pipeline) : Prop :=
  s.metrics.encodedFrames + s.encode.unencoded ≤ s.encodeQueue.popped.length

namespace EncodeCount

theorem keep (h : EncodeCount s) (hkeeps : KeepsEncode s t) : EncodeCount t := by
  unfold EncodeCount
  rw [hkeeps.encode, hkeeps.encodePopped, hkeeps.encodedFrames]
  exact h

theorem step {ok : Bool} {packet : Option Bytes} (h : EncodeCount s)
    (hstep : s.encodeStep c ok packet = some t) : EncodeCount t := by
  unfold EncodeCount at h
  cases hpc : s.encode <;> simp only [encodeStep, hpc] at hstep
  all_goals rw [hpc] at h
  case connectOnce =>
    cases hstep
    cases ok <;> exact h
  case pop =>
    obtain ⟨r, hpop, rfl⟩ := Option.map_eq_some_iff.mp hstep
    rcases LoggedQueue.waitAndPop_cases hpop with ⟨rfl, -, -⟩ | ⟨front, rest, -, rfl⟩
    · exact h
    · simpa [EncodeCount, EncodePc.unencoded] using h
  case apply frame =>
    split at hstep <;> cases hstep
    all_goals exact h
  case encode frame =>
    cases hstep
    cases packet with
    | none => exact Nat.le_of_succ_le h
    | some packet => exact h
  case sendPacket h264Packet =>
    cases hstep
    cases ok <;> exact h
  case test =>
    cases hstep
    cases s.running <;> exact h
  all_goals cases hstep
  all_goals exact h

end EncodeCount

/-- The AI thread writes no more events than it counts results. -/
def EventCount (s : Pipeline) : Prop :=
  s.metrics.eventsWritten + s.ai.unwritten ≤ s.metrics.aiFrames

namespace EventCount

theorem initial (c : Settings) : EventCount (initial c) := by
  cases hready : c.aiReady <;> simp [EventCount, Pipeline.initial, AiPc.unwritten, hready]

theorem keep (h : EventCount s) (hkeeps : KeepsAi s t) : EventCount t := by
  unfold EventCount
  rw [hkeeps.ai, hkeeps.aiFrames, hkeeps.eventsWritten]
  exact h

theorem step {rknn : Bytes → RknnRun} (h : EventCount s) (hstep : s.aiStep c rknn = some t) :
    EventCount t := by
  unfold EventCount at h
  cases hpc : s.ai <;> simp only [aiStep, hpc] at hstep
  all_goals rw [hpc] at h
  case test =>
    cases hstep
    cases s.running <;> exact h
  case pop =>
    obtain ⟨r, hpop, rfl⟩ := Option.map_eq_some_iff.mp hstep
    cases r.1 <;> exact h
  case infer frame =>
    obtain ⟨result, -, rfl⟩ := Option.map_eq_some_iff.mp hstep
    cases result.valid <;> exact h
  case recordAi result =>
    cases hstep
    cases hempty : result.detections.isEmpty
    · simpa [EventCount, hempty, AiPc.unwritten] using h
    · simpa [EventCount, hempty, AiPc.unwritten] using Nat.le_succ_of_le h
  all_goals cases hstep
  all_goals exact h

end EventCount

/-! ## Every run -/

/-- The invariant of the pipeline. -/
structure Flows (c : Settings) (s : Pipeline) : Prop where
  encodeQueue : s.encodeQueue.Accounted c.encodeQueueCapacity
  aiQueue : s.aiQueue.Accounted c.aiQueueCapacity
  order : CaptureOrder c s
  encodeCount : EncodeCount s
  eventCount : EventCount s

namespace Flows

theorem initial (c : Settings) : Flows c (initial c) where
  encodeQueue := .init _
  aiQueue := .init _
  order := .initial c
  encodeCount := Nat.le_refl 0
  eventCount := .initial c

theorem step (h : Flows c s) (hstep : s.step c a = some t) : Flows c t := by
  obtain ⟨hencodeQueue, haiQueue, horder, hencode, hevent⟩ := h
  have hmoves := step_moves hstep
  have hencodeQueue' := hencodeQueue.move c.encodeQueueCapacity_pos hmoves.1
  have haiQueue' := haiQueue.move c.aiQueueCapacity_pos hmoves.2
  cases a with
  | signal =>
    cases hstep
    exact ⟨hencodeQueue', haiQueue',
      ⟨horder.encodeOrder, horder.aiOrder, horder.multiples, horder.captured, horder.drops⟩,
      hencode, hevent⟩
  | main =>
    obtain ⟨hcaptureKept, hencodeKept, haiKept⟩ := mainStep_keeps hstep
    exact ⟨hencodeQueue', haiQueue', horder.keep hcaptureKept, hencode.keep hencodeKept,
      hevent.keep haiKept⟩
  | capture image =>
    obtain ⟨hencodeKept, haiKept⟩ := captureStep_keeps hstep
    exact ⟨hencodeQueue', haiQueue', horder.step hstep, hencode.keep hencodeKept,
      hevent.keep haiKept⟩
  | encode ok packet =>
    obtain ⟨hcaptureKept, haiKept⟩ := encodeStep_keeps hstep
    exact ⟨hencodeQueue', haiQueue', horder.keep hcaptureKept, hencode.step hstep,
      hevent.keep haiKept⟩
  | ai rknn =>
    obtain ⟨hcaptureKept, hencodeKept⟩ := aiStep_keeps hstep
    exact ⟨hencodeQueue', haiQueue', horder.keep hcaptureKept, hencode.keep hencodeKept,
      hevent.step hstep⟩

theorem run (h : Runs c (Pipeline.initial c) s) : Flows c s :=
  Reaches.invariant (.initial c) (fun _ _ _ hflows _ hstep => hflows.step hstep) h

end Flows

end Pipeline

/-- What holds of a queue at every moment of a run. -/
structure QueueLaw (capacity : Nat) (q : LoggedQueue) : Prop where
  conserved : q.pushed.Perm (q.popped ++ q.evicted ++ q.queue.queue)
  distinct : (q.popped ++ q.evicted ++ q.queue.queue).Nodup
  bounded : q.queue.queue.length ≤ capacity
  popOrder : q.popped.Pairwise fun f g => f.sequence < g.sequence
  /-- A push that returns true has dropped the front, which is older than all others. -/
  evictsOldest : ∀ frame, (q.push frame).1 = true →
    ∃ oldest rest, q.queue.queue = oldest :: rest ∧ (∀ f ∈ rest, oldest.sequence < f.sequence) ∧
      (q.push frame).2.queue.queue = rest ++ [frame] ∧
      (q.push frame).2.evicted = q.evicted ++ [oldest]
  drops : q.queue.droppedFrames = q.pushesTrue
  /-- Once the queue is stopped a pop does not wait, and takes the front as long as there is one. -/
  drains : q.queue.stopped = true →
    q.queue.waitAndPop = some (q.queue.queue.head?, { q.queue with queue := q.queue.queue.tail })
  failsEmpty : ∀ queue, q.queue.waitAndPop = some (none, queue) → q.queue.queue = []

theorem LoggedQueue.Accounted.law {capacity next : Nat} {q : LoggedQueue} {held : List CapturedFrame}
    (h : q.Accounted capacity) (hpos : 1 ≤ capacity) (horder : Numbered next (q.pushed ++ held)) :
    QueueLaw capacity q := by
  have hincreasing := (List.pairwise_append.mp horder.increasing).1
  constructor
  case conserved => exact h.accounts.perm
  case distinct =>
    apply h.accounts.perm.nodup_iff.mp
    exact hincreasing.imp fun hlt heq => absurd (heq ▸ hlt) (Nat.lt_irrefl _)
  case bounded => exact h.bounded
  case popOrder => exact h.accounts.popped_pairwise hincreasing
  case evictsOldest =>
    intro frame htrue
    have hcapacity := h.capacity_eq
    by_cases hfull : q.queue.capacity ≤ q.queue.queue.length
    · obtain ⟨oldest, rest, hqueue⟩ := List.exists_cons_of_length_pos
        (show 0 < q.queue.queue.length by omega)
      have hsorted := h.accounts.queue_pairwise hincreasing
      rw [hqueue] at hsorted
      rw [LoggedQueue.push_of_le hqueue hfull]
      exact ⟨oldest, rest, hqueue, (List.pairwise_cons.mp hsorted).1, rfl, rfl⟩
    · rw [LoggedQueue.push_of_lt (by omega)] at htrue
      cases htrue
  case drops => exact h.drops
  case drains =>
    intro hstopped
    simp [FrameQueue.waitAndPop, hstopped]
  case failsEmpty =>
    intro queue hpop
    unfold FrameQueue.waitAndPop at hpop
    split at hpop
    · simpa using congrArg Prod.fst (Option.some.inj hpop)
    · cases hpop

/-- What holds of the pipeline at every moment of a run. -/
structure PipelineLaw (c : Settings) (s : Pipeline) : Prop where
  encodeQueue : QueueLaw c.encodeQueueCapacity s.encodeQueue
  aiQueue : QueueLaw c.aiQueueCapacity s.aiQueue
  multiples : ∀ f ∈ s.aiQueue.pushed, c.inferEveryNFrames ∣ f.sequence
  frames : s.metrics.encodedFrames + s.metrics.encodeQueueDrops ≤ s.metrics.capturedFrames + 1
  events : s.metrics.eventsWritten ≤ s.metrics.aiFrames

/-- **Conservation and order.** Whatever the threads do, frames are neither lost nor doubled nor
reordered on their way through the queues, and the counters are never further apart than that. The
frames and counts are those of runs of up to 2^64 frames. -/
theorem pipeline_conserves {c : Settings} {s : Pipeline} (h : Runs c (.initial c) s) :
    PipelineLaw c s := by
  obtain ⟨hencodeQueue, haiQueue, horder, hencode, hevent⟩ := Pipeline.Flows.run h
  constructor
  case encodeQueue => exact hencodeQueue.law c.encodeQueueCapacity_pos horder.encodeOrder
  case aiQueue => exact haiQueue.law c.aiQueueCapacity_pos horder.aiOrder
  case multiples => exact fun f hf => horder.multiples f (List.mem_append_left _ hf)
  case frames =>
    have hlength := hencodeQueue.accounts.length_eq
    have hevictions := hencodeQueue.evictions
    have hcaptured := horder.captured
    have hdrops := horder.drops
    have hheld : s.capture.uncounted ≤ 1 := by
      cases s.capture <;> simp [CapturePc.uncounted]
    unfold Pipeline.EncodeCount at hencode
    omega
  case events => exact Nat.le_trans (Nat.le_add_right _ _) hevent

/-- Queues of one frame, a detector that is not initialised, and no overlay. -/
def smallSettings : Settings where
  width := 1
  height := 1
  encodeQueueCapacity := 1
  aiQueueCapacity := 1
  inferEveryNFrames := 1
  aiReady := true
  aiEnabled := true
  overlayEnable := false
  overlayBoxThickness := 1
  overlayStaleFrames := 1
  detector := ⟨⟨.fin 0, .fin 0, 1, false, "cxcywh"⟩, false, "disabled", 1, 1, [], []⟩
  sort := id
  outOfRangeCast := fun _ => 0
  encodeQueueCapacity_pos := Nat.le_refl 1
  aiQueueCapacity_pos := Nat.le_refl 1
  inferEveryNFrames_pos := Nat.le_refl 1

/-- Two frames are captured before the other threads move; the second evicts the first from both
queues, and is popped from both after the signal. -/
def evictingRun : List PipelineLabel :=
  List.replicate 12 (.capture (some (0, [1, 2]))) ++
    [.encode true none, .encode true none, .ai fun _ => .runFailed, .signal] ++
    [.encode true none, .encode true none, .encode true (some [9]), .encode true none] ++
    [.ai fun _ => .runFailed, .ai fun _ => .runFailed]

/-- The numbers of the frames popped from and evicted from the encode queue, and the frames encoded. -/
def encodeTally (s : Pipeline) : List Nat × List Nat × Nat :=
  (s.encodeQueue.popped.map CapturedFrame.sequence,
    s.encodeQueue.evicted.map CapturedFrame.sequence, s.metrics.encodedFrames)

theorem pipeline_conserves_evicting : ∃ s, Runs smallSettings (.initial smallSettings) s ∧
    encodeTally s = ([1], [0], 1) ∧ PipelineLaw smallSettings s := by
  have hrun : (runLabels (Pipeline.step smallSettings) anyStep (.initial smallSettings)
      evictingRun).map encodeTally = some ([1], [0], 1) := by decide +kernel
  obtain ⟨s, hs, htally⟩ := Reaches.exists_of_runLabels hrun
  exact ⟨s, hs, htally, pipeline_conserves hs⟩

end EdgeVision
