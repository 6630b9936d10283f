import EdgeVision.Camera.Process
import EdgeVision.Lib.Halting
import EdgeVision.Verify.Letterbox
import EdgeVision.Verify.QueueFlow

/-!
# The process ends

Once `g_running` is false, by a signal, a failed connection or a failed `send`, the threads come to
their ends whatever they are doing. Apart from calls of `send` that are made again (`Retry`), every
step from then on is one of a bounded number (`work`), and as long as `main` has not returned some
thread can take one, so that none waits for ever in a queue or a join (`process_shuts_down`). Only
the retries of one packet may go on as long as the socket asks for them. What `main` leaves behind is
a process whose threads have all exited and whose last sample is written.

The frames have the size of the camera's buffer, so that `infer` goes through on even sizes. The
calls of the libraries are steps that return; one that does not return holds up its thread.
-/

namespace EdgeVision

open Lib

variable {c : Settings} {rounds : Int}

/-! ## The work that is left -/

def CapturePc.work : CapturePc → Nat
  | captureFrame => 7
  | pushEncode _ => 6
  | recordEncodeQueueDrop _ => 5
  | pushAi _ => 4
  | recordAiQueueDrop => 3
  | recordCapture => 2
  | test => 1
  | exited => 0

def EncodePc.work : EncodePc → Nat
  | pop => 8
  | apply _ => 7
  | draw _ _ _ => 6
  | encode _ => 5
  | recordEncode _ => 4
  | connectOnce => 4
  | sendPacket _ => 3
  | giveUp => 3
  | recordBytesSent _ => 2
  | stopEncode => 2
  | sendFailed => 1
  | stopAi => 1
  | test => 1
  | exited => 0

/-- The bytes that `sendPacket` has not got rid of, if packets have at most `limit`. -/
def EncodePc.sendsLeft (limit : Nat) (sending : Sending) : EncodePc → Nat
  | pop | apply _ | draw _ _ _ | encode _ => 4 + limit
  | recordEncode h264Packet => 4 + h264Packet.length
  | sendPacket h264Packet =>
    if sending.gaveUp then 0 else 4 + h264Packet.length - sending.accepted
  | _ => 0

/-- The packet that is to be sent. -/
def EncodePc.packet : EncodePc → Option Bytes
  | recordEncode h264Packet => some h264Packet
  | sendPacket h264Packet => some h264Packet
  | _ => none

theorem EncodePc.sendsLeft_le {limit : Nat} (sending : Sending) {pc : EncodePc}
    (h : ∀ h264Packet, pc.packet = some h264Packet → h264Packet.length ≤ limit) :
    pc.sendsLeft limit sending ≤ 4 + limit := by
  cases pc with
  | recordEncode h264Packet => exact Nat.add_le_add_left (h h264Packet rfl) 4
  | sendPacket h264Packet =>
    have hlength := h h264Packet rfl
    simp only [sendsLeft]
    split <;> omega
  | pop | apply | draw | encode => exact Nat.le_refl _
  | connectOnce | giveUp | stopEncode | stopAi | test | sendFailed | recordBytesSent | exited =>
    exact Nat.zero_le _

/-- The other threads leave the call of `sendPacket` alone. -/
theorem Sending.after_of_ne {sending : Sending} {pc : EncodePc} {a : PipelineLabel}
    (h : ∀ ok packet, a ≠ .encode ok packet) : sending.after pc a = sending := by
  unfold after
  split
  · exact absurd rfl (h _ _)
  · rfl

def AiPc.work : AiPc → Nat
  | pop => 6
  | infer _ => 5
  | update _ _ => 4
  | recordAi _ => 3
  | recordEventWritten => 2
  | test => 1
  | exited => 0

def MainPc.work : MainPc → Nat
  | wait => 3
  | stopEncode => 2
  | stopAi => 1
  | join => 0

def MetricsPc.work : MetricsPc → Nat
  | sleep _ => 4
  | tick _ => 3
  | write => 3
  | check => 2
  | test => 2
  | lastWrite => 1
  | exited => 0

def JoinPc.work : JoinPc → Nat
  | capture => 4
  | encode => 3
  | ai => 2
  | metrics => 1
  | returned => 0

namespace Process

/-- A bound on the steps that are left once `g_running` is false, without retries. -/
def work (limit : Nat) (s : Process) : Nat :=
  s.pipeline.capture.work + s.pipeline.encode.work + s.pipeline.ai.work + s.pipeline.main.work +
    s.metrics.work + s.join.work + s.pipeline.encode.sendsLeft limit s.sending

theorem work_le {limit : Nat} {s : Process}
    (h : ∀ h264Packet, s.pipeline.encode.packet = some h264Packet → h264Packet.length ≤ limit) :
    s.work limit ≤ 36 + limit := by
  have hcapture : s.pipeline.capture.work ≤ 7 := by cases s.pipeline.capture <;> simp [CapturePc.work]
  have hencode : s.pipeline.encode.work ≤ 8 := by cases s.pipeline.encode <;> simp [EncodePc.work]
  have hai : s.pipeline.ai.work ≤ 6 := by cases s.pipeline.ai <;> simp [AiPc.work]
  have hmain : s.pipeline.main.work ≤ 3 := by cases s.pipeline.main <;> simp [MainPc.work]
  have hmetrics : s.metrics.work ≤ 4 := by cases s.metrics <;> simp [MetricsPc.work]
  have hjoin : s.join.work ≤ 4 := by cases s.join <;> simp [JoinPc.work]
  have hsends := EncodePc.sendsLeft_le s.sending h
  unfold work
  omega

end Process

/-! ## Every step does some of it -/

namespace Pipeline

variable {s t : Pipeline}

theorem captureStep_work {image : Option (Nat × Bytes)} (hstop : s.running = false)
    (h : s.captureStep c image = some t) :
    t.running = false ∧ t.capture.work < s.capture.work ∧ t.encode = s.encode ∧ t.ai = s.ai ∧
      t.main = s.main := by
  have hafter : ∀ frame, (c.afterEncodeQueue frame).work ≤ 4 := by
    intro frame
    unfold Settings.afterEncodeQueue
    split <;> simp [CapturePc.work]
  cases hpc : s.capture <;> simp only [captureStep, hpc] at h
  case captureFrame =>
    split at h <;> cases h
    all_goals exact ⟨hstop, by simp [CapturePc.work], rfl, rfl, rfl⟩
  case pushEncode frame =>
    cases h
    refine ⟨hstop, ?_, rfl, rfl, rfl⟩
    simp only
    split
    · simp [CapturePc.work]
    · exact Nat.lt_of_le_of_lt (hafter frame) (by simp [CapturePc.work])
  case recordEncodeQueueDrop frame =>
    cases h
    have hless := Nat.lt_of_le_of_lt (hafter frame) (show 4 < 5 by omega)
    exact ⟨hstop, hless, rfl, rfl, rfl⟩
  case pushAi frame =>
    cases h
    refine ⟨hstop, ?_, rfl, rfl, rfl⟩
    simp only
    split <;> simp [CapturePc.work]
  case test =>
    cases h
    refine ⟨hstop, ?_, rfl, rfl, rfl⟩
    simp [hstop, CapturePc.work]
  all_goals cases h
  all_goals exact ⟨hstop, by simp [CapturePc.work], rfl, rfl, rfl⟩

theorem encodeStep_work {ok : Bool} {packet : Option Bytes} (hstop : s.running = false)
    (h : s.encodeStep c ok packet = some t) :
    t.running = false ∧ t.encode.work < s.encode.work ∧ t.capture = s.capture ∧ t.ai = s.ai ∧
      t.main = s.main := by
  cases hpc : s.encode <;> simp only [encodeStep, hpc] at h
  case pop =>
    obtain ⟨r, -, rfl⟩ := Option.map_eq_some_iff.mp h
    refine ⟨hstop, ?_, rfl, rfl, rfl⟩
    cases r.1 <;> simp [EncodePc.work]
  case apply frame =>
    split at h <;> cases h
    all_goals exact ⟨hstop, by simp [finishApply, EncodePc.work], rfl, rfl, rfl⟩
  case encode frame =>
    cases h
    refine ⟨hstop, ?_, rfl, rfl, rfl⟩
    cases packet <;> simp [EncodePc.work]
  case connectOnce =>
    cases h
    refine ⟨hstop, ?_, rfl, rfl, rfl⟩
    cases ok <;> simp [EncodePc.work]
  case sendPacket h264Packet =>
    cases h
    refine ⟨hstop, ?_, rfl, rfl, rfl⟩
    cases ok <;> simp [EncodePc.work]
  case test =>
    cases h
    refine ⟨hstop, ?_, rfl, rfl, rfl⟩
    simp [hstop, EncodePc.work]
  case giveUp =>
    cases h
    exact ⟨rfl, by simp [EncodePc.work], rfl, rfl, rfl⟩
  case sendFailed =>
    cases h
    exact ⟨rfl, by simp [EncodePc.work], rfl, rfl, rfl⟩
  all_goals cases h
  all_goals exact ⟨hstop, by simp [finishApply, EncodePc.work], rfl, rfl, rfl⟩

/-- The encode thread has no more to send than before. -/
theorem encodeStep_sendsLeft {ok : Bool} {packet : Option Bytes} {limit : Nat} (sending : Sending)
    (hstop : s.running = false) (hpacket : ∀ p, packet = some p → p.length ≤ limit)
    (h : s.encodeStep c ok packet = some t) :
    t.encode.sendsLeft limit (sending.after s.encode (.encode ok packet)) ≤
      s.encode.sendsLeft limit sending := by
  cases hpc : s.encode <;> simp only [encodeStep, hpc] at h
  case pop =>
    obtain ⟨r, -, rfl⟩ := Option.map_eq_some_iff.mp h
    cases r.1 <;> simp [EncodePc.sendsLeft]
  case apply frame => split at h <;> cases h <;> simp [finishApply, EncodePc.sendsLeft]
  case encode frame =>
    cases h
    cases packet with
    | none => simp [EncodePc.sendsLeft]
    | some p => exact Nat.add_le_add_left (hpacket p rfl) 4
  case recordEncode h264Packet =>
    cases h
    simp only [EncodePc.sendsLeft]
    split <;> omega
  case test =>
    cases h
    simp [hstop, EncodePc.sendsLeft]
  case connectOnce =>
    cases h
    cases ok <;> simp [EncodePc.sendsLeft]
  case sendPacket h264Packet =>
    cases h
    cases ok <;> simp [EncodePc.sendsLeft]
  all_goals cases h
  all_goals simp [finishApply, EncodePc.sendsLeft]

theorem encodeStep_packet {ok : Bool} {packet : Option Bytes} {P : Bytes → Prop}
    (hpacket : ∀ p, packet = some p → P p) (hs : ∀ p, s.encode.packet = some p → P p)
    (h : s.encodeStep c ok packet = some t) : ∀ p, t.encode.packet = some p → P p := by
  intro p hp
  cases hpc : s.encode <;> simp only [encodeStep, hpc] at h
  case pop =>
    obtain ⟨r, -, rfl⟩ := Option.map_eq_some_iff.mp h
    cases hr : r.1 <;> simp [hr, EncodePc.packet] at hp
  case apply frame => split at h <;> cases h <;> cases hp
  case encode frame =>
    cases h
    cases packet with
    | none => cases hp
    | some q =>
      cases hp
      exact hpacket p rfl
  case recordEncode h264Packet =>
    cases h
    cases hp
    exact hs p (by rw [hpc]; rfl)
  case test =>
    cases h
    simp only at hp
    split at hp <;> cases hp
  case connectOnce =>
    cases h
    cases ok <;> cases hp
  case sendPacket h264Packet =>
    cases h
    cases ok <;> cases hp
  all_goals cases h
  all_goals cases hp

theorem aiStep_work {rknn : Bytes → RknnRun} (hstop : s.running = false)
    (h : s.aiStep c rknn = some t) :
    t.running = false ∧ t.ai.work < s.ai.work ∧ t.capture = s.capture ∧ t.encode = s.encode ∧
      t.main = s.main := by
  cases hpc : s.ai <;> simp only [aiStep, hpc] at h
  case pop =>
    obtain ⟨r, -, rfl⟩ := Option.map_eq_some_iff.mp h
    refine ⟨hstop, ?_, rfl, rfl, rfl⟩
    cases r.1 <;> simp [AiPc.work]
  case infer frame =>
    obtain ⟨result, -, rfl⟩ := Option.map_eq_some_iff.mp h
    refine ⟨hstop, ?_, rfl, rfl, rfl⟩
    simp only
    split <;> simp [AiPc.work]
  case recordAi result =>
    cases h
    refine ⟨hstop, ?_, rfl, rfl, rfl⟩
    simp only
    split <;> simp [AiPc.work]
  case test =>
    cases h
    refine ⟨hstop, ?_, rfl, rfl, rfl⟩
    simp [hstop, AiPc.work]
  all_goals cases h
  all_goals exact ⟨hstop, by simp [AiPc.work], rfl, rfl, rfl⟩

theorem mainStep_work (hstop : s.running = false) (h : s.mainStep = some t) :
    t.running = false ∧ t.main.work < s.main.work ∧ t.capture = s.capture ∧
      t.encode = s.encode ∧ t.ai = s.ai := by
  cases hpc : s.main <;> simp only [mainStep, hpc] at h
  case wait =>
    cases h
    refine ⟨hstop, ?_, rfl, rfl, rfl⟩
    simp [hstop, MainPc.work]
  all_goals cases h
  all_goals exact ⟨hstop, by simp [MainPc.work], rfl, rfl, rfl⟩

end Pipeline

namespace Process

variable {s t : Process}

/-- The steps of everyone but the user. -/
def Unsignalled : ProcessLabel → Prop
  | .thread .signal => False
  | _ => True

/-- The packets have at most so many bytes. -/
def Packets (limit : Nat) (a : ProcessLabel) : Prop :=
  ∀ ok h264Packet, a = .thread (.encode ok (some h264Packet)) → h264Packet.length ≤ limit

/-- A `send` that is made again, with `EINTR` or `EAGAIN`. -/
def Retry : ProcessLabel → Prop
  | .send (.fails .eintr) | .send (.fails .eagain) => True
  | _ => False

/-- Every other step. -/
def Moves (_ : Process) (a : ProcessLabel) : Prop := ¬ Retry a

/-- Only the encode thread waits for its `send`. -/
theorem returns_of_ne {a : PipelineLabel} (h : ∀ ok packet, a ≠ .encode ok packet) :
    s.returns a = true := by
  unfold returns
  split
  · exact absurd rfl (h _ _)
  · exact absurd rfl (h _ _)
  · rfl

/-- A step of one of the threads of `Pipeline`. -/
theorem threadStep_eq_some {a : PipelineLabel} (h : s.threadStep c a = some t) :
    ∃ p, s.pipeline.step c a = some p ∧
      t = { s with pipeline := p, sending := s.sending.after s.pipeline.encode a } := by
  unfold threadStep at h
  split at h
  · obtain ⟨p, hp, rfl⟩ := Option.map_eq_some_iff.mp h
    exact ⟨p, hp, rfl⟩
  · cases h

/-- A `send` that is made again changes nothing, and any other has less left to send. -/
theorem sendStep_work {outcome : SendOutcome} (limit : Nat) (h : s.sendStep outcome = some t) :
    t.pipeline = s.pipeline ∧ t.metrics = s.metrics ∧ t.join = s.join ∧ t.written = s.written ∧
      (Retry (.send outcome) ∧ t = s ∨
        t.pipeline.encode.sendsLeft limit t.sending <
          s.pipeline.encode.sendsLeft limit s.sending) := by
  unfold sendStep at h
  split at h
  case h_2 => cases h
  rename_i h264Packet hpc
  split at h
  case isFalse => cases h
  rename_i hopen
  obtain ⟨hgaveUp, hlt⟩ := hopen
  have hleft : s.pipeline.encode.sendsLeft limit s.sending =
      4 + h264Packet.length - s.sending.accepted := by
    rw [hpc, EncodePc.sendsLeft, hgaveUp, if_neg Bool.false_ne_true]
  cases hcall : sendCall h264Packet s.sending.accepted outcome with
  | none =>
    rw [hcall] at h
    cases h
    refine ⟨rfl, rfl, rfl, rfl, .inr ?_⟩
    rw [hleft]
    simp only [hpc, EncodePc.sendsLeft, if_true]
    omega
  | some accepted =>
    rw [hcall] at h
    cases h
    refine ⟨rfl, rfl, rfl, rfl, ?_⟩
    cases outcome with
    | accepts room =>
      right
      obtain ⟨hpos, heq⟩ := Option.ite_none_right_eq_some.mp hcall
      cases heq
      rw [hleft]
      simp only [hpc, EncodePc.sendsLeft, hgaveUp, Bool.false_eq_true, if_false]
      omega
    | fails errno =>
      cases errno <;> cases hcall
      all_goals exact .inl ⟨trivial, rfl⟩

/-- **A step after the stop does some of the work**, whichever thread takes it, if it is no retry. -/
theorem step_work {a : ProcessLabel} {limit : Nat} (hstop : s.pipeline.running = false)
    (ha : Unsignalled a) (hpackets : Packets limit a) (h : s.step c rounds a = some t) :
    t.pipeline.running = false ∧ t.work limit ≤ s.work limit ∧
      (Moves s a → t.work limit < s.work limit) := by
  have hof (hrunning : t.pipeline.running = false) (hless : t.work limit < s.work limit) :
      t.pipeline.running = false ∧ t.work limit ≤ s.work limit ∧
        (Moves s a → t.work limit < s.work limit) := ⟨hrunning, hless.le, fun _ => hless⟩
  cases a with
  | thread a =>
    obtain ⟨p, hp, rfl⟩ := threadStep_eq_some h
    cases a with
    | signal => exact absurd ha id
    | main =>
      obtain ⟨hrunning, hless, hcapture, hencode, hai⟩ := Pipeline.mainStep_work hstop hp
      have hafter : s.sending.after s.pipeline.encode .main = s.sending :=
        Sending.after_of_ne (by simp)
      refine hof hrunning ?_
      simp only [work, hcapture, hencode, hai, hafter]
      omega
    | capture image =>
      obtain ⟨hrunning, hless, hencode, hai, hmain⟩ := Pipeline.captureStep_work hstop hp
      have hafter : s.sending.after s.pipeline.encode (.capture image) = s.sending :=
        Sending.after_of_ne (by simp)
      refine hof hrunning ?_
      simp only [work, hencode, hai, hmain, hafter]
      omega
    | encode ok packet =>
      obtain ⟨hrunning, hless, hcapture, hai, hmain⟩ := Pipeline.encodeStep_work hstop hp
      have hsends := Pipeline.encodeStep_sendsLeft s.sending hstop
        (fun q hq => hpackets ok q (by rw [hq])) hp
      refine hof hrunning ?_
      simp only [work, hcapture, hai, hmain]
      omega
    | ai rknn =>
      obtain ⟨hrunning, hless, hcapture, hencode, hmain⟩ := Pipeline.aiStep_work hstop hp
      have hafter : s.sending.after s.pipeline.encode (.ai rknn) = s.sending :=
        Sending.after_of_ne (by simp)
      refine hof hrunning ?_
      simp only [work, hcapture, hencode, hmain, hafter]
      omega
  | send outcome =>
    obtain ⟨hpipeline, hmetrics, hjoin, -, ⟨hretry, rfl⟩ | hless⟩ := sendStep_work limit h
    · exact ⟨hstop, Nat.le_refl _, fun hmoves => absurd hretry hmoves⟩
    · refine hof (hpipeline ▸ hstop) ?_
      rw [hpipeline] at hless
      simp only [work, hpipeline, hmetrics, hjoin]
      omega
  | metrics =>
    simp only [step, metricsStep] at h
    split at h <;> cases h
    all_goals
      rename_i hpc
      refine hof hstop ?_
      simp [work, hstop, hpc, MetricsPc.work]
  | join =>
    simp only [step, joinStep] at h
    split at h
    · split at h
      all_goals try (split at h)
      all_goals cases h
      all_goals
        rename_i hpc _
        refine hof hstop ?_
        simp [work, hpc, JoinPc.work]
    · cases h

/-! ## Nobody waits for ever -/

/-- The size of the vector that the capture thread fills. -/
def frameSize (c : Settings) : Nat := c.width * c.height * 3 / 2

/-- `captureFrame` fills the whole vector. -/
def Sized (c : Settings) (a : ProcessLabel) : Prop :=
  ∀ captureTimeUs nv12, a = .thread (.capture (some (captureTimeUs, nv12))) →
    nv12.length = frameSize c

/-- The guard of the runs of the program, with its whole vectors and packets of at most `limit`. -/
def Program (c : Settings) (limit : Nat) (_ : Process) (a : ProcessLabel) : Prop :=
  Sized c a ∧ Packets limit a

/-- The guard of such runs without further signals. -/
def Quiet (c : Settings) (limit : Nat) (s : Process) (a : ProcessLabel) : Prop :=
  Unsignalled a ∧ Program c limit s a

/-- The guard of those without retries either. -/
def Live (c : Settings) (limit : Nat) (s : Process) (a : ProcessLabel) : Prop :=
  Quiet c limit s a ∧ Moves s a

end Process

/-- A frame as the capture thread makes it. -/
structure CapturedFrame.Fits (c : Settings) (frame : CapturedFrame) : Prop where
  width : frame.width = c.width
  height : frame.height = c.height
  nv12 : frame.nv12.length = Process.frameSize c

/-- The sizes for which `infer` stays within the image. -/
structure Settings.Inferable (c : Settings) : Prop where
  width : 2 ≤ c.width
  height : 2 ≤ c.height
  evenWidth : c.width % 2 = 0
  evenHeight : c.height % 2 = 0
  inputWidth : 1 ≤ c.detector.inputWidth
  inputHeight : 1 ≤ c.detector.inputHeight

/-- `infer` comes back, at the latest when the runtime library gives up. -/
theorem Settings.Inferable.infer (hc : c.Inferable) {frame : CapturedFrame} (hframe : frame.Fits c) :
    ∃ rknn result, c.detector.infer rknn c.sort c.outOfRangeCast frame = some result := by
  obtain ⟨hwidth, hheight, hnv12⟩ := hframe
  obtain ⟨-, rgb, -, hfill, -⟩ := letterbox_exact frame (hwidth ▸ hc.width) (hheight ▸ hc.height)
    (hwidth ▸ hc.evenWidth) (hheight ▸ hc.evenHeight) (by rw [hnv12, hwidth, hheight]; rfl)
    hc.inputWidth hc.inputHeight
  refine ⟨fun _ => .runFailed, ?_⟩
  unfold RknnDetector.infer
  split
  · exact ⟨_, rfl⟩
  · rw [hfill]
    exact ⟨_, rfl⟩

/-- The frame on its way into a queue. -/
def CapturePc.held : CapturePc → Option CapturedFrame
  | pushEncode frame => some frame
  | recordEncodeQueueDrop frame => some frame
  | pushAi frame => some frame
  | _ => none

/-- The frame that is about to be inferred. -/
def AiPc.inHand : AiPc → Option CapturedFrame
  | infer frame => some frame
  | _ => none

theorem Settings.held_afterEncodeQueue (c : Settings) {frame frame' : CapturedFrame}
    (h : (c.afterEncodeQueue frame).held = some frame') : frame' = frame := by
  unfold afterEncodeQueue at h
  split at h
  · cases h
    rfl
  · cases h

namespace LoggedQueue

variable {q q' : LoggedQueue}

/-- A queue that is stopped stays so. -/
theorem Move.stopped (h : Move q q') (hq : q.queue.stopped = true) : q'.queue.stopped = true := by
  cases h with
  | same => exact hq
  | push frame =>
    simp only [LoggedQueue.push, FrameQueue.push]
    split <;> exact hq
  | pop hpop =>
    rcases waitAndPop_cases hpop with ⟨rfl, -, -⟩ | ⟨_, _, -, rfl⟩
    · exact hq
    · exact hq
  | stop => rfl

/-- What holds of the frames in a queue and of a frame holds after its push. -/
theorem forall_push {P : CapturedFrame → Prop} (h : ∀ frame ∈ q.queue.queue, P frame)
    {frame : CapturedFrame} (hframe : P frame) : ∀ f ∈ (q.push frame).2.queue.queue, P f := by
  intro f hf
  simp only [push, FrameQueue.push] at hf
  split at hf
  · rcases List.mem_append.mp hf with hf | hf
    · exact h f (List.mem_of_mem_tail hf)
    · exact List.mem_singleton.mp hf ▸ hframe
  · rcases List.mem_append.mp hf with hf | hf
    · exact h f hf
    · exact List.mem_singleton.mp hf ▸ hframe

/-- A stopped queue makes nobody wait. -/
theorem waitAndPop_of_stopped (h : q.queue.stopped = true) : ∃ r, q.waitAndPop = some r := by
  simp [waitAndPop, FrameQueue.waitAndPop, h]

end LoggedQueue

namespace Pipeline

/-- What lets every thread come to its end: `main` stops the queues before it joins, and every frame
on the way to `infer` has the size of the vector. -/
structure Ends (c : Settings) (s : Pipeline) : Prop where
  encodeStopped : s.main = .stopAi ∨ s.main = .join → s.encodeQueue.queue.stopped = true
  aiStopped : s.main = .join → s.aiQueue.queue.stopped = true
  captured : ∀ frame, s.capture.held = some frame → frame.Fits c
  queued : ∀ frame ∈ s.aiQueue.queue.queue, frame.Fits c
  inferred : ∀ frame, s.ai.inHand = some frame → frame.Fits c
  unready : c.aiReady = false → s.ai = .exited

namespace Ends

variable {s t : Pipeline} (h : Ends c s)
include h

theorem captureStep {image : Option (Nat × Bytes)}
    (hsize : ∀ captureTimeUs nv12, image = some (captureTimeUs, nv12) →
      nv12.length = Process.frameSize c) (hstep : s.captureStep c image = some t) : Ends c t := by
  obtain ⟨hencode, hai⟩ := captureStep_moves hstep
  obtain ⟨-, hkeeps⟩ := captureStep_keeps hstep
  have hmain : t.main = s.main := by
    cases hpc : s.capture <;> simp only [Pipeline.captureStep, hpc] at hstep
    case captureFrame => split at hstep <;> cases hstep <;> rfl
    all_goals cases hstep
    all_goals rfl
  have hheld : (∀ frame, t.capture.held = some frame → frame.Fits c) ∧
      ∀ frame ∈ t.aiQueue.queue.queue, frame.Fits c := by
    cases hpc : s.capture <;> simp only [Pipeline.captureStep, hpc] at hstep
    case captureFrame =>
      split at hstep <;> cases hstep
      · exact ⟨by simp [CapturePc.held], h.queued⟩
      · refine ⟨fun frame hframe => ?_, h.queued⟩
        cases hframe
        exact ⟨rfl, rfl, hsize _ _ rfl⟩
    case pushEncode frame =>
      cases hstep
      refine ⟨fun frame' hframe => h.captured frame' ?_, h.queued⟩
      rw [hpc]
      simp only at hframe
      split at hframe
      · exact hframe
      · rw [c.held_afterEncodeQueue hframe]
        rfl
    case recordEncodeQueueDrop frame =>
      cases hstep
      refine ⟨fun frame' hframe => h.captured frame' ?_, h.queued⟩
      rw [hpc, c.held_afterEncodeQueue hframe]
      rfl
    case pushAi frame =>
      cases hstep
      refine ⟨fun frame' hframe => ?_, LoggedQueue.forall_push h.queued (h.captured frame
        (by rw [hpc]; rfl))⟩
      simp only at hframe
      split at hframe <;> cases hframe
    case test =>
      cases hstep
      refine ⟨fun frame hframe => ?_, h.queued⟩
      simp only at hframe
      split at hframe <;> cases hframe
    all_goals cases hstep
    all_goals exact ⟨by simp [CapturePc.held], h.queued⟩
  refine ⟨fun hpc => hencode.stopped (h.encodeStopped (hmain ▸ hpc)),
    fun hpc => hai.stopped (h.aiStopped (hmain ▸ hpc)), hheld.1, hheld.2, ?_, ?_⟩
  · rw [hkeeps.ai]
    exact h.inferred
  · rw [hkeeps.ai]
    exact h.unready

theorem encodeStep {ok : Bool} {packet : Option Bytes}
    (hstep : s.encodeStep c ok packet = some t) : Ends c t := by
  obtain ⟨hencode, hai⟩ := encodeStep_moves hstep
  obtain ⟨hcapture, hkeeps⟩ := encodeStep_keeps hstep
  have hsame : t.main = s.main ∧ t.aiQueue.queue.queue = s.aiQueue.queue.queue := by
    cases hpc : s.encode <;> simp only [Pipeline.encodeStep, hpc] at hstep
    case pop =>
      obtain ⟨r, -, rfl⟩ := Option.map_eq_some_iff.mp hstep
      exact ⟨rfl, rfl⟩
    case apply frame => split at hstep <;> cases hstep <;> exact ⟨rfl, rfl⟩
    all_goals cases hstep
    all_goals exact ⟨rfl, rfl⟩
  obtain ⟨hmain, hqueue⟩ := hsame
  refine ⟨fun hpc => hencode.stopped (h.encodeStopped (hmain ▸ hpc)),
    fun hpc => hai.stopped (h.aiStopped (hmain ▸ hpc)), ?_, ?_, ?_, ?_⟩
  · rw [hcapture.capture]
    exact h.captured
  · rw [hqueue]
    exact h.queued
  · rw [hkeeps.ai]
    exact h.inferred
  · rw [hkeeps.ai]
    exact h.unready

theorem aiStep {rknn : Bytes → RknnRun} (hstep : s.aiStep c rknn = some t) : Ends c t := by
  obtain ⟨hencode, hai⟩ := aiStep_moves hstep
  obtain ⟨hcapture, -⟩ := aiStep_keeps hstep
  have hmain : t.main = s.main := by
    cases hpc : s.ai <;> simp only [Pipeline.aiStep, hpc] at hstep
    case pop =>
      obtain ⟨r, -, rfl⟩ := Option.map_eq_some_iff.mp hstep
      rfl
    case infer frame =>
      obtain ⟨result, -, rfl⟩ := Option.map_eq_some_iff.mp hstep
      rfl
    all_goals cases hstep
    all_goals rfl
  have hframes : (∀ frame ∈ t.aiQueue.queue.queue, frame.Fits c) ∧
      ∀ frame, t.ai.inHand = some frame → frame.Fits c := by
    cases hpc : s.ai <;> simp only [Pipeline.aiStep, hpc] at hstep
    case pop =>
      obtain ⟨r, hpop, rfl⟩ := Option.map_eq_some_iff.mp hstep
      rcases LoggedQueue.waitAndPop_cases hpop with ⟨rfl, -, -⟩ | ⟨front, rest, hqueue, rfl⟩
      · exact ⟨h.queued, by simp [AiPc.inHand]⟩
      · have hall := h.queued
        rw [hqueue] at hall
        refine ⟨fun frame hframe => hall frame (List.mem_cons_of_mem _ hframe), fun frame hf => ?_⟩
        have heq : front = frame := Option.some.inj hf
        exact heq ▸ hall front List.mem_cons_self
    case infer frame =>
      obtain ⟨result, -, rfl⟩ := Option.map_eq_some_iff.mp hstep
      refine ⟨h.queued, fun frame' hf => ?_⟩
      simp only at hf
      split at hf <;> cases hf
    case recordAi result =>
      cases hstep
      refine ⟨h.queued, fun frame' hf => ?_⟩
      simp only at hf
      split at hf <;> cases hf
    case test =>
      cases hstep
      refine ⟨h.queued, fun frame' hf => ?_⟩
      simp only at hf
      split at hf <;> cases hf
    all_goals cases hstep
    all_goals exact ⟨h.queued, by simp [AiPc.inHand]⟩
  refine ⟨fun hpc => hencode.stopped (h.encodeStopped (hmain ▸ hpc)),
    fun hpc => hai.stopped (h.aiStopped (hmain ▸ hpc)), ?_, hframes.1, hframes.2, fun hready => ?_⟩
  · rw [hcapture.capture]
    exact h.captured
  · rw [Pipeline.aiStep, h.unready hready] at hstep
    cases hstep

theorem mainStep (hstep : s.mainStep = some t) : Ends c t := by
  cases hpc : s.main <;> simp only [Pipeline.mainStep, hpc] at hstep
  case wait =>
    cases hstep
    refine ⟨fun hjoin => ?_, fun hjoin => ?_, h.captured, h.queued, h.inferred, h.unready⟩
    · simp only at hjoin
      split at hjoin <;> simp at hjoin
    · simp only at hjoin
      split at hjoin <;> simp at hjoin
  case stopEncode =>
    cases hstep
    exact ⟨fun _ => rfl, by simp, h.captured, h.queued, h.inferred, h.unready⟩
  case stopAi =>
    cases hstep
    exact ⟨fun _ => h.encodeStopped (.inl hpc), fun _ => rfl, h.captured, h.queued, h.inferred,
      h.unready⟩
  case join => cases hstep

end Ends

end Pipeline

namespace Pipeline

variable {s t : Pipeline}

/-- Every step keeps the threads on the way to their ends. -/
theorem Ends.step {a : PipelineLabel} (h : Ends c s)
    (hsize : ∀ captureTimeUs nv12, a = .capture (some (captureTimeUs, nv12)) →
      nv12.length = Process.frameSize c) (hstep : s.step c a = some t) : Ends c t := by
  cases a with
  | signal =>
    cases hstep
    exact ⟨h.encodeStopped, h.aiStopped, h.captured, h.queued, h.inferred, h.unready⟩
  | main => exact h.mainStep hstep
  | capture image => exact h.captureStep (fun _ _ himage => hsize _ _ (by rw [himage])) hstep
  | encode ok packet => exact h.encodeStep hstep
  | ai rknn => exact h.aiStep hstep

theorem initial_ends (c : Settings) : Ends c (initial c) := by
  refine ⟨?_, ?_, ?_, ?_, fun frame hframe => ?_, fun hready => ?_⟩
  · simp [initial]
  · simp [initial]
  · simp [initial, CapturePc.held]
  · simp [initial, LoggedQueue.init, FrameQueue.init]
  · simp only [initial] at hframe
    split at hframe <;> cases hframe
  · simp [initial, hready]

/-- A thread that has exited takes no step, and `main` stays at its joins. -/
structure Settled (s t : Pipeline) : Prop where
  capture : s.capture = .exited → t.capture = .exited
  encode : s.encode = .exited → t.encode = .exited
  ai : s.ai = .exited → t.ai = .exited
  main : s.main = .join → t.main = .join

theorem step_settled {a : PipelineLabel} (hstep : s.step c a = some t) : Settled s t := by
  cases a with
  | signal =>
    cases hstep
    exact ⟨id, id, id, id⟩
  | main =>
    obtain ⟨hcapture, hencode, hai⟩ := mainStep_keeps hstep
    refine ⟨fun h => hcapture.capture ▸ h, fun h => hencode.encode ▸ h, fun h => hai.ai ▸ h,
      fun h => ?_⟩
    simp only [step, mainStep, h] at hstep
    cases hstep
  | capture image =>
    obtain ⟨hencode, hai⟩ := captureStep_keeps hstep
    refine ⟨fun h => ?_, fun h => hencode.encode ▸ h, fun h => hai.ai ▸ h, fun h => ?_⟩
    · simp only [step, captureStep, h] at hstep
      cases hstep
    · cases hpc : s.capture <;> simp only [step, captureStep, hpc] at hstep
      case captureFrame => split at hstep <;> cases hstep <;> exact h
      all_goals cases hstep
      all_goals exact h
  | encode ok packet =>
    obtain ⟨hcapture, hai⟩ := encodeStep_keeps hstep
    refine ⟨fun h => hcapture.capture ▸ h, fun h => ?_, fun h => hai.ai ▸ h, fun h => ?_⟩
    · simp only [step, encodeStep, h] at hstep
      cases hstep
    · cases hpc : s.encode <;> simp only [step, encodeStep, hpc] at hstep
      case pop =>
        obtain ⟨r, -, rfl⟩ := Option.map_eq_some_iff.mp hstep
        exact h
      case apply frame => split at hstep <;> cases hstep <;> exact h
      all_goals cases hstep
      all_goals exact h
  | ai rknn =>
    obtain ⟨hcapture, hencode⟩ := aiStep_keeps hstep
    refine ⟨fun h => hcapture.capture ▸ h, fun h => hencode.encode ▸ h, fun h => ?_, fun h => ?_⟩
    · simp only [step, aiStep, h] at hstep
      cases hstep
    · cases hpc : s.ai <;> simp only [step, aiStep, hpc] at hstep
      case pop =>
        obtain ⟨r, -, rfl⟩ := Option.map_eq_some_iff.mp hstep
        exact h
      case infer frame =>
        obtain ⟨result, -, rfl⟩ := Option.map_eq_some_iff.mp hstep
        exact h
      all_goals cases hstep
      all_goals exact h

/-- What the encode thread has to send came from `encode`. -/
theorem step_packet {a : PipelineLabel} {P : Bytes → Prop}
    (hpackets : ∀ ok h264Packet, a = .encode ok (some h264Packet) → P h264Packet)
    (hs : ∀ h264Packet, s.encode.packet = some h264Packet → P h264Packet)
    (hstep : s.step c a = some t) :
    ∀ h264Packet, t.encode.packet = some h264Packet → P h264Packet := by
  cases a with
  | signal =>
    cases hstep
    exact hs
  | main => exact (mainStep_keeps hstep).2.1.encode ▸ hs
  | capture image => exact (captureStep_keeps hstep).1.encode ▸ hs
  | encode ok packet =>
    exact encodeStep_packet (fun h264Packet hpacket => hpackets ok _ (by rw [hpacket])) hs hstep
  | ai rknn => exact (aiStep_keeps hstep).2.encode ▸ hs

/-! ## A thread that has not exited can move -/

theorem captureStep_isSome (h : s.capture ≠ .exited) : ∃ t, s.captureStep c none = some t := by
  cases hpc : s.capture <;> simp only [captureStep, hpc]
  case exited => exact absurd hpc h
  all_goals exact ⟨_, rfl⟩

theorem encodeStep_isSome (ok : Bool) (h : s.encode ≠ .exited)
    (hstopped : s.encodeQueue.queue.stopped = true) : ∃ t, s.encodeStep c ok none = some t := by
  cases hpc : s.encode <;> simp only [encodeStep, hpc]
  case exited => exact absurd hpc h
  case pop =>
    obtain ⟨r, hr⟩ := LoggedQueue.waitAndPop_of_stopped hstopped
    exact ⟨_, by rw [hr]; rfl⟩
  case apply frame => split <;> exact ⟨_, rfl⟩
  all_goals exact ⟨_, rfl⟩

theorem aiStep_isSome (hends : Ends c s) (hc : c.aiReady = true → c.Inferable)
    (h : s.ai ≠ .exited) (hstopped : s.aiQueue.queue.stopped = true) :
    ∃ rknn t, s.aiStep c rknn = some t := by
  cases hpc : s.ai <;> simp only [aiStep, hpc]
  case exited => exact absurd hpc h
  case pop =>
    obtain ⟨r, hr⟩ := LoggedQueue.waitAndPop_of_stopped hstopped
    exact ⟨fun _ => .runFailed, _, by rw [hr]; rfl⟩
  case infer frame =>
    have hready : c.aiReady = true := by
      by_contra hne
      exact h (hends.unready (Bool.eq_false_iff.mpr hne))
    obtain ⟨rknn, result, hresult⟩ := (hc hready).infer (hends.inferred frame (by rw [hpc]; rfl))
    exact ⟨rknn, _, by rw [hresult]; rfl⟩
  all_goals exact ⟨fun _ => .runFailed, _, rfl⟩

end Pipeline

/-- The threads that `main` has joined have exited. -/
def JoinPc.Behind (s : Process) : JoinPc → Prop
  | .capture => True
  | .encode => s.pipeline.capture = .exited
  | .ai => s.pipeline.capture = .exited ∧ s.pipeline.encode = .exited
  | .metrics => s.pipeline.capture = .exited ∧ s.pipeline.encode = .exited ∧
      s.pipeline.ai = .exited
  | .returned => s.pipeline.capture = .exited ∧ s.pipeline.encode = .exited ∧
      s.pipeline.ai = .exited ∧ s.metrics = .exited

namespace Process

variable {s t : Process}

structure Joins (c : Settings) (limit : Nat) (s : Process) : Prop where
  ends : s.pipeline.Ends c
  packet : ∀ h264Packet, s.pipeline.encode.packet = some h264Packet → h264Packet.length ≤ limit
  behind : s.join.Behind s
  main : s.join ≠ .capture → s.pipeline.main = .join
  written : s.metrics = .exited → 1 ≤ s.written

namespace Joins

variable {limit : Nat} (h : Joins c limit s)
include h

theorem thread {a : PipelineLabel} (hprogram : Program c limit s (.thread a))
    (hstep : s.threadStep c a = some t) : Joins c limit t := by
  obtain ⟨hsize, hpackets⟩ := hprogram
  obtain ⟨p, hp, rfl⟩ := threadStep_eq_some hstep
  obtain ⟨hcapture, hencode, hai, hmain⟩ := Pipeline.step_settled hp
  have hbehind := h.behind
  refine ⟨h.ends.step (fun _ _ ha => hsize _ _ (by rw [ha])) hp,
    Pipeline.step_packet (fun ok _ ha => hpackets ok _ (by rw [ha])) h.packet hp, ?_,
    fun hjoin => hmain (h.main hjoin), h.written⟩
  cases hjoin : s.join <;> simp only [JoinPc.Behind, hjoin] at hbehind ⊢
  case encode => exact hcapture hbehind
  case ai => exact ⟨hcapture hbehind.1, hencode hbehind.2⟩
  case metrics => exact ⟨hcapture hbehind.1, hencode hbehind.2.1, hai hbehind.2.2⟩
  case returned =>
    exact ⟨hcapture hbehind.1, hencode hbehind.2.1, hai hbehind.2.2.1, hbehind.2.2.2⟩

theorem sendStep {outcome : SendOutcome} (hstep : s.sendStep outcome = some t) :
    Joins c limit t := by
  obtain ⟨hpipeline, hmetrics, hjoin, hwritten, -⟩ := sendStep_work limit hstep
  refine ⟨hpipeline ▸ h.ends, hpipeline ▸ h.packet, ?_, ?_, ?_⟩
  · have hbehind := h.behind
    rw [hjoin]
    cases hpc : s.join <;> simp only [JoinPc.Behind, hpc, hpipeline, hmetrics] at hbehind ⊢
    all_goals exact hbehind
  · rw [hjoin, hpipeline]
    exact h.main
  · rw [hmetrics, hwritten]
    exact h.written

theorem metricsStep (hstep : s.metricsStep rounds = some t) : Joins c limit t := by
  have hbehind := h.behind
  have hsame : t.pipeline = s.pipeline ∧ t.join = s.join ∧ s.metrics ≠ .exited ∧
      (t.metrics = .exited → 1 ≤ t.written) := by
    simp only [Process.metricsStep] at hstep
    split at hstep <;> cases hstep
    all_goals refine ⟨rfl, rfl, by simp_all, ?_⟩
    all_goals simp only
    all_goals first | (split <;> simp) | simp
  obtain ⟨hpipeline, hjoin, hne, hwritten⟩ := hsame
  refine ⟨hpipeline ▸ h.ends, hpipeline ▸ h.packet, ?_, fun hpc => ?_, hwritten⟩
  · rw [hjoin]
    cases hpc : s.join <;> simp only [JoinPc.Behind, hpc, hpipeline] at hbehind ⊢
    case returned => exact absurd hbehind.2.2.2 hne
    all_goals exact hbehind
  · rw [hpipeline]
    exact h.main (hjoin ▸ hpc)

theorem joinStep (hstep : s.joinStep = some t) : Joins c limit t := by
  have hbehind := h.behind
  simp only [Process.joinStep] at hstep
  split at hstep
  · rename_i hmain
    split at hstep
    case h_5 => cases hstep
    all_goals
      rename_i hjoin
      split at hstep <;> cases hstep
      rename_i hexited
      simp only [hjoin, JoinPc.Behind] at hbehind
      refine ⟨h.ends, h.packet, ?_, fun _ => hmain, h.written⟩
      simp_all [JoinPc.Behind]
  · cases hstep

theorem step {a : ProcessLabel} (hprogram : Program c limit s a)
    (hstep : s.step c rounds a = some t) : Joins c limit t := by
  cases a with
  | thread a => exact h.thread hprogram hstep
  | send outcome => exact h.sendStep hstep
  | metrics => exact h.metricsStep hstep
  | join => exact h.joinStep hstep

end Joins

theorem initial_joins (c : Settings) (limit : Nat) : Joins c limit (initial c) := by
  refine ⟨Pipeline.initial_ends c, ?_, trivial, fun h => absurd rfl h, by simp [initial]⟩
  simp [initial, Pipeline.initial, EncodePc.packet]

variable {limit : Nat}

/-- A thread of `Pipeline` can go on where it is not held up in `sendPacket`. -/
theorem thread_live {a : PipelineLabel} {p : Pipeline} (hquiet : Quiet c limit s (.thread a))
    (hreturns : s.returns a = true) (hp : s.pipeline.step c a = some p) :
    ∃ a t, Live c limit s a ∧ s.step c rounds a = some t := by
  have hstep : s.step c rounds (.thread a) =
      some { s with pipeline := p, sending := s.sending.after s.pipeline.encode a } := by
    rw [step, threadStep, if_pos hreturns, hp]
    rfl
  exact ⟨.thread a, _, ⟨hquiet, id⟩, hstep⟩

/-- In `sendPacket` there is a `send` to be made, or it returns. -/
theorem encode_live (hne : s.pipeline.encode ≠ .exited)
    (hstopped : s.pipeline.encodeQueue.queue.stopped = true) :
    ∃ a t, Live c limit s a ∧ s.step c rounds a = some t := by
  have hquiet : ∀ ok, Quiet c limit s (.thread (.encode ok none)) := fun ok =>
    ⟨trivial, by simp [Sized], by simp [Packets]⟩
  cases hpc : s.pipeline.encode with
  | sendPacket h264Packet =>
    cases hgaveUp : s.sending.gaveUp with
    | true =>
      obtain ⟨p, hp⟩ := Pipeline.encodeStep_isSome (c := c) false hne hstopped
      exact thread_live (hquiet false) (by simp [returns, hpc, hgaveUp]) hp
    | false =>
      by_cases hall : 4 + h264Packet.length ≤ s.sending.accepted
      · obtain ⟨p, hp⟩ := Pipeline.encodeStep_isSome (c := c) true hne hstopped
        exact thread_live (hquiet true) (by simp [returns, hpc, hgaveUp, hall]) hp
      · have hstep : ∃ t, s.sendStep (.accepts 1) = some t := by
          simp only [sendStep, hpc]
          rw [if_pos ⟨hgaveUp, Nat.lt_of_not_le hall⟩]
          split <;> exact ⟨_, rfl⟩
        obtain ⟨t, ht⟩ := hstep
        exact ⟨.send (.accepts 1), t, ⟨⟨trivial, by simp [Sized], by simp [Packets]⟩, id⟩, ht⟩
  | _ =>
    obtain ⟨p, hp⟩ := Pipeline.encodeStep_isSome (c := c) true hne hstopped
    exact thread_live (hquiet true) (by simp [returns, hpc]) hp

/-- **As long as `main` has not returned, somebody can move.** -/
theorem Joins.progress (h : Joins c limit s) (hc : c.aiReady = true → c.Inferable)
    (hreturned : s.join ≠ .returned) :
    ∃ a t, Live c limit s a ∧ s.step c rounds a = some t := by
  have hjoins : ∀ t, s.joinStep = some t → ∃ a t, Live c limit s a ∧ s.step c rounds a = some t :=
    fun t ht => ⟨.join, t, ⟨⟨trivial, by simp [Sized], by simp [Packets]⟩, id⟩, ht⟩
  by_cases hmain : s.pipeline.main = .join
  · have hencode := h.ends.encodeStopped (.inr hmain)
    have hai := h.ends.aiStopped hmain
    cases hjoin : s.join with
    | capture =>
      by_cases hexited : s.pipeline.capture = .exited
      · exact hjoins { s with join := .encode } (by simp [Process.joinStep, hmain, hjoin, hexited])
      · obtain ⟨p, hp⟩ := Pipeline.captureStep_isSome (c := c) hexited
        have hquiet : Quiet c limit s (.thread (.capture none)) :=
          ⟨trivial, by simp [Sized], by simp [Packets]⟩
        exact thread_live hquiet (returns_of_ne (by simp)) hp
    | encode =>
      by_cases hexited : s.pipeline.encode = .exited
      · exact hjoins { s with join := .ai } (by simp [Process.joinStep, hmain, hjoin, hexited])
      · exact encode_live hexited hencode
    | ai =>
      by_cases hexited : s.pipeline.ai = .exited
      · exact hjoins { s with join := .metrics } (by simp [Process.joinStep, hmain, hjoin, hexited])
      · obtain ⟨rknn, p, hp⟩ := Pipeline.aiStep_isSome h.ends hc hexited hai
        have hquiet : Quiet c limit s (.thread (.ai rknn)) :=
          ⟨trivial, by simp [Sized], by simp [Packets]⟩
        exact thread_live hquiet (returns_of_ne (by simp)) hp
    | metrics =>
      by_cases hexited : s.metrics = .exited
      · exact hjoins { s with join := .returned }
          (by simp [Process.joinStep, hmain, hjoin, hexited])
      · have hstep : ∃ t, s.metricsStep rounds = some t := by
          unfold Process.metricsStep
          split
          case h_7 => contradiction
          all_goals exact ⟨_, rfl⟩
        obtain ⟨t, ht⟩ := hstep
        exact ⟨.metrics, t, ⟨⟨trivial, by simp [Sized], by simp [Packets]⟩, id⟩, ht⟩
    | returned => exact absurd hjoin hreturned
  · have hstep : ∃ p, s.pipeline.mainStep = some p := by
      cases hpc : s.pipeline.main <;> simp only [Pipeline.mainStep, hpc]
      case join => exact absurd hpc hmain
      all_goals exact ⟨_, rfl⟩
    obtain ⟨p, hp⟩ := hstep
    have hquiet : Quiet c limit s (.thread .main) := ⟨trivial, by simp [Sized], by simp [Packets]⟩
    exact thread_live hquiet (returns_of_ne (by simp)) hp

/-- The threads have exited and the last sample is written. -/
structure Ended (s : Process) : Prop where
  capture : s.pipeline.capture = .exited
  encode : s.pipeline.encode = .exited
  ai : s.pipeline.ai = .exited
  metrics : s.metrics = .exited
  written : 1 ≤ s.written

theorem Joins.ended (h : Joins c limit s) (hreturned : s.join = .returned) : Ended s := by
  have hbehind := h.behind
  rw [hreturned] at hbehind
  exact ⟨hbehind.1, hbehind.2.1, hbehind.2.2.1, hbehind.2.2.2, h.written hbehind.2.2.2⟩

/-- **The process ends.** From any state that is reached with `g_running` false, with packets of at
most `limit` bytes, no run without further signals has more than `36 + limit` steps that are not a
repeated `send`; every such run can be continued, with no `send` repeated, until `main` has returned;
and when it has, all threads have exited and the last sample is written. -/
theorem process_shuts_down (hc : c.aiReady = true → c.Inferable)
    (h : Reaches (step c rounds) (Program c limit) (initial c) s)
    (hstop : s.pipeline.running = false) :
    (∀ n t, CountedSteps (step c rounds) (Quiet c limit) Moves n s t → n ≤ 36 + limit) ∧
    ∀ t, Reaches (step c rounds) (Quiet c limit) s t →
      (∃ u, Reaches (step c rounds) (Live c limit) t u ∧ u.join = .returned) ∧
      (t.join = .returned → Ended t) := by
  have hs : Joins c limit s ∧ s.pipeline.running = false :=
    ⟨h.invariant (initial_joins c limit) fun _ _ _ hs hprogram hstep => hs.step hprogram hstep,
      hstop⟩
  have hkept : ∀ s a t, (Joins c limit s ∧ s.pipeline.running = false) → Quiet c limit s a →
      s.step c rounds a = some t → Joins c limit t ∧ t.pipeline.running = false :=
    fun s a t hs ha hstep => ⟨hs.1.step ha.2 hstep, (step_work hs.2 ha.1 ha.2.2 hstep).1⟩
  have hidle : ∀ s a t, (Joins c limit s ∧ s.pipeline.running = false) → Quiet c limit s a →
      ¬ Moves s a → s.step c rounds a = some t → t.work limit ≤ s.work limit :=
    fun s a t hs ha _ hstep => (step_work hs.2 ha.1 ha.2.2 hstep).2.1
  have hless : ∀ s a t, (Joins c limit s ∧ s.pipeline.running = false) → Quiet c limit s a →
      Moves s a → s.step c rounds a = some t → t.work limit < s.work limit :=
    fun s a t hs ha hmoves hstep => (step_work hs.2 ha.1 ha.2.2 hstep).2.2 hmoves
  have hlive : ∀ s a t, (Joins c limit s ∧ s.pipeline.running = false) → Live c limit s a →
      s.step c rounds a = some t → t.work limit < s.work limit :=
    fun s a t hs ha hstep => hless s a t hs ha.1 ha.2 hstep
  refine ⟨fun n t hsteps => ?_, fun t ht => ?_⟩
  · have hle := (hsteps.count_le hkept hless hidle hs).1
    have hwork := work_le hs.1.packet
    omega
  · have ht := ht.invariant (I := fun s => Joins c limit s ∧ s.pipeline.running = false) hs hkept
    exact ⟨exists_done (fun s a t hs ha => hkept s a t hs ha.1) hlive
      (fun s hs hreturned => hs.1.progress hc hreturned) ht, ht.1.ended⟩

/-- Images of two by two pixels and a detector that does not run. -/
def evenSettings : Settings := { smallSettings with width := 2, height := 2 }

/-- A frame is captured and encoded, and the signal comes when the socket has accepted three bytes of
the prefix and wants to wait. -/
def stoppedRun : List ProcessLabel :=
  [.thread (.capture none), .thread (.capture (some (1, [0, 0, 0, 0, 0, 0]))),
    .thread (.capture none)] ++ List.replicate 4 (.thread (.encode true none)) ++
    [.thread (.encode true (some [0, 0, 0, 1, 0x65])), .thread (.encode true none),
      .send (.accepts 3), .thread .signal, .send (.fails .eagain)]

theorem process_shuts_down_sending : ∃ s : Process,
    s.pipeline.encode = .sendPacket [0, 0, 0, 1, 0x65] ∧ s.sending = ⟨3, false⟩ ∧
    (∀ n t, CountedSteps (step evenSettings 10) (Quiet evenSettings 5) Moves n s t → n ≤ 41) ∧
    ∀ t, Reaches (step evenSettings 10) (Quiet evenSettings 5) s t →
      (∃ u, Reaches (step evenSettings 10) (Live evenSettings 5) t u ∧ u.join = .returned) ∧
      (t.join = .returned → Ended t) := by
  have hok : ∀ a ∈ stoppedRun, ∀ s, Program evenSettings 5 s a := by
    intro a ha s
    simp only [stoppedRun, List.mem_append, List.mem_replicate, List.mem_cons, List.not_mem_nil,
      or_false] at ha
    rcases ha with ((rfl | rfl | rfl) | ⟨-, rfl⟩) | rfl | rfl | rfl | rfl | rfl
    all_goals simp [Program, Sized, Packets, frameSize, evenSettings]
  have hrun : (runLabels (step evenSettings 10) anyStep (initial evenSettings) stoppedRun).map
      (fun s => (s.pipeline.running, s.pipeline.encode, s.sending)) =
        some (false, .sendPacket [0, 0, 0, 1, 0x65], ⟨3, false⟩) := by
    decide +kernel
  obtain ⟨s, hs, heq⟩ := Reaches.exists_of_runLabels_all hok hrun
  obtain ⟨hstop, hencode, hsending⟩ : s.pipeline.running = false ∧
      s.pipeline.encode = .sendPacket [0, 0, 0, 1, 0x65] ∧ s.sending = ⟨3, false⟩ := by
    simpa only [Prod.mk.injEq] using heq
  have hc : evenSettings.Inferable := ⟨by decide, by decide, by decide, by decide, by decide,
    by decide⟩
  exact ⟨s, hencode, hsending, process_shuts_down (fun _ => hc) hs hstop⟩

end Process

end EdgeVision
