import EdgeVision.Lib.Lockstep
import EdgeVision.Lib.Ring
import EdgeVision.Camera.RingBuffer
import EdgeVision.Capture.FrameQueue

/-!
# The ring buffer is the frame queue

On frames of the size that the ring buffer is made for, it does what a frame queue of its capacity
does: the queued frames are those of the circular array, and each push and pop keeps it so. Over any
run both give the same frames, drop the same frames and wait at the same pops
(`ring_buffer_is_queue`).
-/

namespace EdgeVision

open Lib

/-- What a caller does. -/
inductive QueueCall where
  | push (frame : CapturedFrame)
  | pop
  deriving DecidableEq, Repr

/-- What comes of it: the frame that a push drops, and whether it is reported; the frame of a pop. -/
inductive QueueEffect where
  | pushed (dropped : Option Bytes) (reported : Bool)
  | popped (frame : Bytes)
  deriving DecidableEq, Repr

/-- The image of a pushed frame has the size of the buffer's slots. -/
def QueueCall.HasSize (frameSize : Nat) : QueueCall → Prop
  | push frame => frame.nv12.length = frameSize
  | pop => True

def RingBuffer.call (ring : RingBuffer) : QueueCall → Option (QueueEffect × RingBuffer)
  | .push frame =>
    some (.pushed ring.evicted (ring.push frame.nv12).1, (ring.push frame.nv12).2)
  | .pop => ring.pop.map fun popped => (.popped popped.1, popped.2)

/-- A pop of a queue that is never stopped gives a frame. -/
def FrameQueue.call (q : FrameQueue) : QueueCall → Option (QueueEffect × FrameQueue)
  | .push frame =>
    some (.pushed (q.evicted.map CapturedFrame.nv12) (q.push frame).1, (q.push frame).2)
  | .pop => q.waitAndPop.bind fun popped =>
      popped.1.map fun frame => (.popped frame.nv12, popped.2)

namespace RingBuffer

/-- The queued frames, the oldest first. -/
def frames (ring : RingBuffer) : List Bytes := ringItems ring.buffer ring.readIdx ring.count

/-- The cursors and the count of a buffer whose slots have all one size. -/
structure Valid (capacity frameSize : Nat) (ring : RingBuffer) : Prop where
  capacity_eq : ring.capacity = capacity
  slots : ring.buffer.length = capacity
  slot_size : ∀ slot ∈ ring.buffer, slot.length = frameSize
  count_le : ring.count ≤ capacity
  write_lt : ring.writeIdx < capacity
  read_lt : ring.readIdx < capacity
  write_eq : ring.writeIdx = (ring.readIdx + ring.count) % capacity

variable {capacity frameSize : Nat} {ring : RingBuffer}

theorem init_valid (hcap : 1 ≤ capacity) : (init capacity frameSize).Valid capacity frameSize where
  capacity_eq := rfl
  slots := List.length_replicate
  slot_size := by simp [init]
  count_le := Nat.zero_le _
  write_lt := hcap
  read_lt := hcap
  write_eq := (Nat.zero_mod _).symm

/-- A copy of a whole frame replaces the slot. -/
theorem buffer_push {data : Bytes} (h : ring.Valid capacity frameSize)
    (hdata : data.length = frameSize) :
    (ring.push data).2.buffer = ring.buffer.set ring.writeIdx data := by
  have hlt : ring.writeIdx < ring.buffer.length := h.slots ▸ h.write_lt
  have hslot : memcpy (ring.buffer[ring.writeIdx]) data = data := by
    have hsize := h.slot_size _ (List.getElem_mem hlt)
    rw [memcpy, List.drop_eq_nil_of_le (by omega), List.append_nil]
  have hmodify : ring.buffer.modify ring.writeIdx (fun slot => memcpy slot data) =
      ring.buffer.set ring.writeIdx data := by
    rw [List.modify_eq_set_getElem?, List.getElem?_eq_getElem hlt]
    simp [hslot]
  unfold push
  split <;> exact hmodify

theorem length_frames (h : ring.Valid capacity frameSize) : ring.frames.length = ring.count :=
  Ring.length_items (h.slots ▸ h.count_le)

/-- A full buffer writes where it reads. -/
theorem write_eq_read (h : ring.Valid capacity frameSize) (hfull : ring.count = capacity) :
    ring.writeIdx = ring.readIdx := by
  rw [h.write_eq, hfull, Nat.add_mod_right, Nat.mod_eq_of_lt h.read_lt]

theorem push_valid {data : Bytes} (h : ring.Valid capacity frameSize)
    (hdata : data.length = frameSize) : (ring.push data).2.Valid capacity frameSize := by
  have hbuffer := buffer_push h hdata
  have hcap : 0 < capacity := Nat.zero_lt_of_lt h.read_lt
  have hslots : (ring.push data).2.buffer.length = capacity := by
    rw [hbuffer, List.length_set, h.slots]
  have hsizes : ∀ slot ∈ (ring.push data).2.buffer, slot.length = frameSize := by
    intro slot hmem
    rw [hbuffer] at hmem
    rcases List.mem_or_eq_of_mem_set hmem with hold | rfl
    · exact h.slot_size slot hold
    · exact hdata
  have hcount := h.count_le
  have hnext : (ring.writeIdx + 1) % capacity = (ring.readIdx + (ring.count + 1)) % capacity := by
    rw [h.write_eq, Nat.mod_add_mod, Nat.add_assoc]
  by_cases hroom : ring.count < capacity
  · have hpush : (ring.push data).2 = { ring with
        buffer := (ring.push data).2.buffer
        writeIdx := (ring.writeIdx + 1) % capacity
        count := ring.count + 1 } := by
      simp [push, h.capacity_eq, hroom]
    rw [hpush]
    exact ⟨h.capacity_eq, hslots, hsizes, hroom, Nat.mod_lt _ hcap, h.read_lt, hnext⟩
  · have hpush : (ring.push data).2 = { ring with
        buffer := (ring.push data).2.buffer
        writeIdx := (ring.writeIdx + 1) % capacity
        readIdx := (ring.readIdx + 1) % capacity } := by
      simp [push, h.capacity_eq, hroom]
    have hfull : ring.count = capacity := by omega
    rw [hpush]
    refine ⟨h.capacity_eq, hslots, hsizes, hcount, Nat.mod_lt _ hcap, Nat.mod_lt _ hcap, ?_⟩
    simp only [hfull, Nat.add_mod_right, Nat.mod_mod, write_eq_read h hfull]

/-- With room left, a push appends. -/
theorem frames_push_of_room {data : Bytes} (h : ring.Valid capacity frameSize)
    (hdata : data.length = frameSize) (hroom : ring.count < capacity) :
    (ring.push data).2.frames = ring.frames ++ [data] := by
  have hread : (ring.push data).2.readIdx = ring.readIdx := by simp [push, h.capacity_eq, hroom]
  have hcount : (ring.push data).2.count = ring.count + 1 := by simp [push, h.capacity_eq, hroom]
  rw [frames, buffer_push h hdata, hread, hcount, h.write_eq, ← h.slots]
  exact Ring.items_append data (h.slots ▸ hroom)

/-- Without, it takes the oldest frame out too. -/
theorem frames_push_of_full {data : Bytes} (h : ring.Valid capacity frameSize)
    (hdata : data.length = frameSize) (hfull : ring.count = capacity) :
    (ring.push data).2.frames = ring.frames.tail ++ [data] := by
  have hread : (ring.push data).2.readIdx = (ring.readIdx + 1) % capacity := by
    simp [push, h.capacity_eq, hfull]
  have hcount : (ring.push data).2.count = capacity := by simp [push, h.capacity_eq, hfull]
  rw [frames, buffer_push h hdata, hread, hcount, write_eq_read h hfull, frames, hfull, ← h.slots]
  exact Ring.items_overwrite data (h.slots ▸ h.read_lt)

/-- The slot at the read cursor is the oldest frame. -/
theorem head?_frames (h : ring.Valid capacity frameSize) (hcount : 0 < ring.count) :
    ring.buffer[ring.readIdx]? = ring.frames.head? :=
  (Ring.head?_items hcount (h.slots ▸ h.read_lt)).symm

end RingBuffer

/-! ## Both queues in lock-step -/

/-- The frame queue holds the frames of the circular array. -/
structure SameQueue (capacity frameSize : Nat) (ring : RingBuffer) (q : FrameQueue) : Prop where
  valid : ring.Valid capacity frameSize
  capacity_eq : q.capacity = capacity
  running : q.stopped = false
  frames_eq : ring.frames = q.queue.map CapturedFrame.nv12

namespace SameQueue

variable {capacity frameSize : Nat} {ring : RingBuffer} {q : FrameQueue}

theorem length_eq (h : SameQueue capacity frameSize ring q) : q.queue.length = ring.count := by
  rw [← RingBuffer.length_frames h.valid, h.frames_eq, List.length_map]

theorem push (h : SameQueue capacity frameSize ring q) {frame : CapturedFrame}
    (hsize : frame.nv12.length = frameSize) :
    Matches (SameQueue capacity frameSize) (ring.call (.push frame)) (q.call (.push frame)) := by
  have hlen := h.length_eq
  have hvalid := RingBuffer.push_valid h.valid hsize
  have hcapacity : (q.push frame).2.capacity = capacity := by
    unfold FrameQueue.push
    split <;> exact h.capacity_eq
  have hrunning : (q.push frame).2.stopped = false := by
    unfold FrameQueue.push
    split <;> exact h.running
  by_cases hroom : ring.count < capacity
  · have hq : ¬ q.capacity ≤ q.queue.length := by
      rw [h.capacity_eq, hlen]
      omega
    have hframes := RingBuffer.frames_push_of_room h.valid hsize hroom
    have hdropped : ring.evicted = q.evicted.map CapturedFrame.nv12 := by
      simp [RingBuffer.evicted, FrameQueue.evicted, h.valid.capacity_eq, hroom, hq]
    have hreported : (ring.push frame.nv12).1 = (q.push frame).1 := by
      simp [RingBuffer.push, FrameQueue.push, h.valid.capacity_eq, hroom, hq]
    rw [RingBuffer.call, FrameQueue.call, hdropped, hreported]
    refine .moves _ ⟨hvalid, hcapacity, hrunning, ?_⟩
    simp [hframes, FrameQueue.push, hq, h.frames_eq]
  · have hcount := h.valid.count_le
    have hfull : ring.count = capacity := by omega
    have hq : q.capacity ≤ q.queue.length := by
      rw [h.capacity_eq, hlen]
      omega
    have hframes := RingBuffer.frames_push_of_full h.valid hsize hfull
    have hpos : 0 < ring.count := by
      have hlt := h.valid.read_lt
      omega
    have hdropped : ring.evicted = q.evicted.map CapturedFrame.nv12 := by
      simp [RingBuffer.evicted, FrameQueue.evicted, h.valid.capacity_eq, hroom, hq,
        RingBuffer.head?_frames h.valid hpos, h.frames_eq]
    have hreported : (ring.push frame.nv12).1 = (q.push frame).1 := by
      simp [RingBuffer.push, FrameQueue.push, h.valid.capacity_eq, hroom, hq]
    rw [RingBuffer.call, FrameQueue.call, hdropped, hreported]
    refine .moves _ ⟨hvalid, hcapacity, hrunning, ?_⟩
    simp [hframes, FrameQueue.push, hq, h.frames_eq]

theorem pop (h : SameQueue capacity frameSize ring q) :
    Matches (SameQueue capacity frameSize) (ring.call .pop) (q.call .pop) := by
  have hlen := h.length_eq
  cases hqueue : q.queue with
  | nil =>
    have hzero : ring.count = 0 := by simpa [hqueue] using hlen.symm
    have hring : ring.call .pop = none := by simp [RingBuffer.call, RingBuffer.pop, hzero]
    have hq : q.call .pop = none := by
      simp [FrameQueue.call, FrameQueue.waitAndPop, hqueue, h.running]
    rw [hring, hq]
    exact .waits
  | cons frame rest =>
    have hpos : 0 < ring.count := by
      rw [← hlen, hqueue]
      exact Nat.succ_pos _
    have hhead : ring.buffer[ring.readIdx]? = some frame.nv12 := by
      rw [RingBuffer.head?_frames h.valid hpos, h.frames_eq, hqueue]
      rfl
    have hring : ring.call .pop = some (.popped frame.nv12, { ring with
        readIdx := (ring.readIdx + 1) % ring.capacity, count := ring.count - 1 }) := by
      simp [RingBuffer.call, RingBuffer.pop, hpos, hhead]
    have hq : q.call .pop = some (.popped frame.nv12, { q with queue := rest }) := by
      simp [FrameQueue.call, FrameQueue.waitAndPop, hqueue]
    rw [hring, hq]
    have hcap := h.valid.capacity_eq
    have hcount := h.valid.count_le
    have hwrite := h.valid.write_eq
    refine .moves _ ⟨⟨hcap, h.valid.slots, h.valid.slot_size, ?_, h.valid.write_lt, ?_, ?_⟩,
      h.capacity_eq, h.running, ?_⟩
    · simp only
      omega
    · rw [hcap]
      exact Nat.mod_lt _ (Nat.zero_lt_of_lt h.valid.read_lt)
    · simp only [hcap, Nat.mod_add_mod]
      rw [hwrite]
      congr 1
      omega
    · have hitems : ringItems ring.buffer ((ring.readIdx + 1) % ring.capacity) (ring.count - 1) =
          ring.frames.tail := by
        rw [hcap, ← h.valid.slots]
        exact Ring.items_pop hpos (h.valid.slots ▸ hcount)
      rw [RingBuffer.frames, hitems, h.frames_eq, hqueue]
      rfl

theorem init (hcap : 1 ≤ capacity) :
    SameQueue capacity frameSize (.init capacity frameSize) (.init capacity) where
  valid := RingBuffer.init_valid hcap
  capacity_eq := rfl
  running := rfl
  frames_eq := by simp [RingBuffer.frames, RingBuffer.init, FrameQueue.init, ringItems]

end SameQueue

/-- **One bounded queue**: over every list of calls the ring buffer and the frame queue drop the same
frames, report the same drops, pop the same frames and wait at the same pops, and the cursors of the
ring buffer stay where they belong. -/
theorem ring_buffer_is_queue (capacity frameSize : Nat) (hcap : 1 ≤ capacity)
    (calls : List QueueCall) (hsize : ∀ call ∈ calls, call.HasSize frameSize) :
    Matches (SameQueue capacity frameSize)
      (runOutputs RingBuffer.call (.init capacity frameSize) calls)
      (runOutputs FrameQueue.call (.init capacity) calls) := by
  refine runOutputs_matches (fun ring q call h hcall => ?_) (SameQueue.init hcap) hsize
  cases call with
  | push frame => exact h.push hcall
  | pop => exact h.pop

/-- Three pushes into two slots, and two pops. -/
theorem ring_buffer_is_queue_overrun :
    Matches (SameQueue 2 1)
      (runOutputs RingBuffer.call (.init 2 1) [.push ⟨1, 0, 1, 1, [7]⟩, .push ⟨2, 0, 1, 1, [8]⟩,
        .push ⟨3, 0, 1, 1, [9]⟩, .pop, .pop])
      (runOutputs FrameQueue.call (.init 2) [.push ⟨1, 0, 1, 1, [7]⟩, .push ⟨2, 0, 1, 1, [8]⟩,
        .push ⟨3, 0, 1, 1, [9]⟩, .pop, .pop]) :=
  ring_buffer_is_queue 2 1 (by decide) _ (by simp [QueueCall.HasSize])

end EdgeVision
