import EdgeVision.Capture.FrameQueue
import EdgeVision.Lib.Monitor

/-!
# The methods of a queue under their mutex

`FrameQueue` with its mutex and its condition variable, for any number of threads. What the rest of
the development takes for granted of a queue follows: its methods take effect one after the other,
and a thread that sleeps in a pop while nobody else is at work has nothing to pop
(`frame_queue_works`). The steps that are bounded are those without new calls and without further
spurious wake-ups.
-/

namespace EdgeVision

open Lib Monitor

namespace FrameQueue

/-- The methods that notify. -/
inductive Method where
  | push (frame : CapturedFrame)
  | stop
  deriving DecidableEq, Repr

/-- What the methods return. -/
inductive Returned where
  | dropped (dropped : Bool)
  | stopped
  | popped (frame : Option CapturedFrame)
  deriving DecidableEq, Repr

/-- `push` notifies one waiter, `stop` all of them. -/
def monitor : Monitor FrameQueue Method Returned where
  update
    | .push frame, q => (.dropped (q.push frame).1, (q.push frame).2)
    | .stop, q => (.stopped, q.stop)
  notifiesAll
    | .push _ => false
    | .stop => true
  take q := q.waitAndPop.map fun r => (.popped r.1, r.2)

variable {q : FrameQueue}

theorem length_push_le (q : FrameQueue) (frame : CapturedFrame) :
    (q.push frame).2.queue.length ≤ q.queue.length + 1 := by
  unfold push
  split <;> simp

theorem stopped_push (q : FrameQueue) (frame : CapturedFrame) :
    (q.push frame).2.stopped = q.stopped := by
  unfold push
  split <;> rfl

theorem take_of_ready (h : (q.stopped || !q.queue.isEmpty) = true) :
    monitor.take q = some (.popped q.queue.head?, { q with queue := q.queue.tail }) := by
  simp only [monitor, waitAndPop, h, if_true, Option.map_some]

theorem take_eq_none_iff : monitor.take q = none ↔ q.stopped = false ∧ q.queue = [] := by
  simp only [monitor, Option.map_eq_none_iff, waitAndPop]
  cases hstopped : q.stopped <;> cases hqueue : q.queue <;> simp

/-- A pop goes on for each frame that is there, and always once the queue is stopped. -/
theorem takes_iff {n : Nat} : monitor.Takes n q ↔ q.stopped = true ∨ n ≤ q.queue.length := by
  induction n generalizing q with
  | zero => simp [Takes]
  | succ n ih =>
    by_cases hready : (q.stopped || !q.queue.isEmpty) = true
    · simp only [Takes, take_of_ready hready, Option.some.injEq, exists_eq_left', ih,
        List.length_tail]
      cases hstopped : q.stopped with
      | true => simp
      | false =>
        have hne : q.queue ≠ [] := by simpa [hstopped] using hready
        have hpos := List.length_pos_of_ne_nil hne
        simp only [Bool.false_eq_true, false_or]
        omega
    · have hnone : monitor.take q = none := by
        rw [take_eq_none_iff]
        simpa using hready
      obtain ⟨hstopped, hqueue⟩ := take_eq_none_iff.mp hnone
      simp [Takes, hnone, hstopped, hqueue]

/-- A push lets one more pop go on. -/
theorem oneMore : monitor.OneMore := by
  intro a q n hone htakes
  cases a with
  | stop => cases hone
  | push frame =>
    have hlength := length_push_le q frame
    have hmore := takes_iff.mp htakes
    simp only [monitor, stopped_push] at hmore
    rw [takes_iff]
    exact hmore.imp_right fun hle => by omega

/-- **The methods of a queue are as good as atomic, and no pop sleeps on a frame or on a stop.** This is
about the lock: what a push does to a full queue is `push`, for capacities of at least one. -/
theorem frame_queue_works {capacity threads : Nat} {s : State FrameQueue Method Returned}
    (h : Reaches (State.step monitor) anyStep (.initial (.init capacity) threads) s) :
    monitor.Works (.init capacity) s ∧
      ∀ t, Reaches (State.step monitor) inCalls s t → AtRest t → .asleep ∈ t.threads →
        t.data.stopped = false ∧ t.data.queue = [] := by
  have hworks := works oneMore h
  exact ⟨hworks, fun t hrun hrest hasleep =>
    take_eq_none_iff.mp (hworks.asleep t hrun hrest hasleep)⟩

/-- Two pops that sleep, a push that wakes one of them, and a third pop that is first at the frame:
the woken one sleeps again. -/
theorem frame_queue_works_overtaken :
    ∃ s, Reaches (State.step monitor) anyStep (.initial (.init 2) 4) s ∧
      s.threads = [.asleep, .asleep, .outside, .outside] ∧
        monitor.Works (.init 2) s ∧
          ∀ t, Reaches (State.step monitor) inCalls s t → AtRest t → .asleep ∈ t.threads →
            t.data.stopped = false ∧ t.data.queue = [] := by
  let labels : List (Monitor.Label Method) :=
    [.call 0 .take, .call 1 .take, .call 3 .take, .lock 0, .run 0, .lock 1, .run 1,
      .call 2 (.update (.push ⟨0, 0, 2, 2, []⟩)), .lock 2, .run 2, .notify 2 (some 1), .unlock 2,
      .lock 3, .run 3, .unlock 3, .lock 1, .run 1]
  have hrun : (runLabels (State.step monitor) anyStep (.initial (.init 2) 4) labels).map
      State.threads = some [.asleep, .asleep, .outside, .outside] := by
    decide +kernel
  obtain ⟨s, hreach, hseen⟩ := Reaches.exists_of_runLabels hrun
  exact ⟨s, hreach, hseen, frame_queue_works hreach⟩

end FrameQueue

end EdgeVision
