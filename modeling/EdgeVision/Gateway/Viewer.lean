import EdgeVision.Stream.Wire
import Std.Data.TreeMap
import Std.Data.TreeMap.AdditionalOperations
import Std.Data.TreeMap.Lemmas

/-!
# One viewer and its send queue

What `queueFrameForViewers` and `senderLoop` do to a single viewer while they hold its lock, and the
viewer that `handleViewerRequest` makes. A viewer's chunks are byte vectors; `currentOffset` counts
the bytes of the front chunk that the socket has already accepted.

`ViewerTable` is the map `viewers`. Its entries are keyed by the descriptor that the viewer itself
records, as `viewers[fd] = viewer` with `viewer->fd = fd` makes them.
-/

namespace EdgeVision

open Std

/-- A descriptor number. -/
abbrev Fd := Nat

def maxFrameSize : Nat := 2 * 1024 * 1024

def maxQueuedFrames : Nat := 15

def probeBytes : Nat := 4

structure Viewer where
  fd : Fd
  sendQueue : List Bytes
  currentOffset : Nat
  active : Bool
  deriving DecidableEq, Repr

namespace Viewer

/-- `while (send_queue.size() >= MAX_QUEUED_FRAMES) send_queue.pop_front()`. -/
def popWhileFull : List Bytes → List Bytes
  | [] => []
  | chunk :: queue =>
    if maxQueuedFrames ≤ (chunk :: queue).length then popWhileFull queue else chunk :: queue

/-- The loop that keeps the front chunk, which is being sent, and erases the chunk behind it. -/
def eraseWhileFull (front : Bytes) : List Bytes → List Bytes
  | [] => [front]
  | stale :: queue =>
    if maxQueuedFrames ≤ (front :: stale :: queue).length then eraseWhileFull front queue
    else front :: stale :: queue

/-- The queue after the drop policy of `queueFrameForViewers`. -/
def makeRoom (v : Viewer) : List Bytes :=
  if maxQueuedFrames ≤ v.sendQueue.length then
    if v.currentOffset = 0 then popWhileFull v.sendQueue
    else
      match v.sendQueue with
      | [] => []
      | front :: queue => eraseWhileFull front queue
  else v.sendQueue

/-- The body of the loop of `queueFrameForViewers` for one viewer. -/
def queueFrame (v : Viewer) (frame : Bytes) : Viewer :=
  if v.active then { v with sendQueue := v.makeRoom ++ [frame] } else v

/-- How one pass through the body of the inner loop of `senderLoop` leaves it. -/
inductive SendExit where
  | again
  | stop
  | dead
  deriving DecidableEq, Repr

/-- One `send` for a viewer, with the bytes that the socket accepts. -/
def sendOnce (v : Viewer) (outcome : SendOutcome) : Viewer × Bytes × SendExit :=
  match v.sendQueue with
  | [] => (v, [], .stop)
  | chunk :: queue =>
    if v.active then
      match outcome with
      | .accepts room =>
        let sent := min room (chunk.length - v.currentOffset)
        let accepted := (chunk.drop v.currentOffset).take sent
        if 0 < sent then
          if v.currentOffset + sent = chunk.length then
            ({ v with sendQueue := queue, currentOffset := 0 }, accepted, .again)
          else ({ v with currentOffset := v.currentOffset + sent }, accepted, .again)
        else ({ v with active := false }, [], .dead)
      | .fails .other => ({ v with active := false }, [], .dead)
      | .fails .eagain => (v, [], .stop)
      | .fails .eintr => (v, [], .stop)
    else (v, [], .stop)

/-- The inner loop of `senderLoop` for one viewer, driven by the answers to its `send` calls in this
round; a round with no answer left has met `EAGAIN`. The second component says that the viewer was
put on `dead_fds`. -/
def sendRound (v : Viewer) : List SendOutcome → Viewer × Bool
  | [] => (v, false)
  | outcome :: outcomes =>
    match v.sendOnce outcome with
    | (v', _, .again) => v'.sendRound outcomes
    | (v', _, .stop) => (v', false)
    | (v', _, .dead) => (v', true)

/-- The HTTP response header that opens every viewer's stream. -/
def httpHeader : Bytes :=
  ("HTTP/1.1 200 OK\r\n" ++ "Connection: keep-alive\r\n" ++ "Cache-Control: no-cache\r\n" ++
    "Pragma: no-cache\r\n" ++ "Content-Type: video/h264\r\n" ++ "\r\n").toList.map
    fun c => UInt8.ofNat c.toNat

/-- The chunks that `handleViewerRequest` queues: the header, then the cached configuration and the
cached key frame where there are any. -/
def openingChunks (bootstrapConfig bootstrapFrame : Bytes) : List Bytes :=
  [httpHeader] ++ (if bootstrapConfig.isEmpty then [] else [bootstrapConfig]) ++
    (if bootstrapFrame.isEmpty then [] else [bootstrapFrame])

/-- The viewer that `handleViewerRequest` makes. -/
def joined (fd : Fd) (bootstrapConfig bootstrapFrame : Bytes) : Viewer where
  fd := fd
  sendQueue := openingChunks bootstrapConfig bootstrapFrame
  currentOffset := 0
  active := true

/-! ## What a step leaves unchanged -/

@[simp] theorem queueFrame_fd (v : Viewer) (frame : Bytes) : (v.queueFrame frame).fd = v.fd := by
  unfold queueFrame
  split <;> rfl

@[simp] theorem queueFrame_active (v : Viewer) (frame : Bytes) :
    (v.queueFrame frame).active = v.active := by
  unfold queueFrame
  split <;> rfl

/-- What one `send` can do to a viewer: nothing, finish the front chunk, advance in it, or fail. -/
theorem sendOnce_cases (v : Viewer) (outcome : SendOutcome) :
    v.sendOnce outcome = (v, [], .stop) ∨
    (∃ chunk queue sent, v.active = true ∧ v.sendQueue = chunk :: queue ∧ 0 < sent ∧
      v.currentOffset + sent = chunk.length ∧
      v.sendOnce outcome = ({ v with sendQueue := queue, currentOffset := 0 },
        chunk.drop v.currentOffset, .again)) ∨
    (∃ chunk queue sent, v.active = true ∧ v.sendQueue = chunk :: queue ∧ 0 < sent ∧
      v.currentOffset + sent < chunk.length ∧
      v.sendOnce outcome = ({ v with currentOffset := v.currentOffset + sent },
        (chunk.drop v.currentOffset).take sent, .again)) ∨
    (v.active = true ∧ v.sendQueue ≠ [] ∧
      v.sendOnce outcome = ({ v with active := false }, [], .dead)) := by
  unfold sendOnce
  cases hq : v.sendQueue with
  | nil => exact .inl rfl
  | cons chunk queue =>
    by_cases ha : v.active = true
    · simp only [ha, if_true]
      cases outcome with
      | accepts room =>
        simp only
        split
        · rename_i hpos
          split
          · rename_i hall
            refine .inr (.inl ⟨chunk, queue, _, trivial, rfl, hpos, hall, ?_⟩)
            rw [List.take_of_length_le (by simp only [List.length_drop]; omega)]
          · rename_i hpart
            exact .inr (.inr (.inl ⟨chunk, queue, _, trivial, rfl, hpos, by omega, rfl⟩))
        · exact .inr (.inr (.inr ⟨trivial, by simp, rfl⟩))
      | fails errno =>
        cases errno with
        | eintr => exact .inl rfl
        | eagain => exact .inl rfl
        | other => exact .inr (.inr (.inr ⟨trivial, by simp, rfl⟩))
    · simp [ha]

@[simp] theorem sendOnce_fd (v : Viewer) (outcome : SendOutcome) :
    (v.sendOnce outcome).1.fd = v.fd := by
  rcases v.sendOnce_cases outcome with h | ⟨_, _, _, -, -, -, -, h⟩ | ⟨_, _, _, -, -, -, -, h⟩ |
    ⟨-, -, h⟩ <;> rw [h]

@[simp] theorem sendRound_fd (v : Viewer) (outcomes : List SendOutcome) :
    (v.sendRound outcomes).1.fd = v.fd := by
  induction outcomes generalizing v with
  | nil => rfl
  | cons outcome outcomes ih =>
    have hfd := v.sendOnce_fd outcome
    rcases h : v.sendOnce outcome with ⟨v', accepted, exit⟩
    rw [h] at hfd
    cases exit <;> simp only [sendRound, h]
    · rw [ih, hfd]
    · exact hfd
    · exact hfd

/-- A round that reports a viewer dead has found it active and left it inactive, and one that does
not leaves its state of activity alone. -/
theorem sendRound_active (v : Viewer) (outcomes : List SendOutcome) :
    if (v.sendRound outcomes).2 then v.active = true ∧ (v.sendRound outcomes).1.active = false
    else (v.sendRound outcomes).1.active = v.active := by
  induction outcomes generalizing v with
  | nil => simp [sendRound]
  | cons outcome outcomes ih =>
    rcases v.sendOnce_cases outcome with h | ⟨_, queue, _, ha, -, -, -, h⟩ |
      ⟨_, _, sent, ha, -, -, -, h⟩ | ⟨ha, -, h⟩
    · simp [sendRound, h]
    · simpa [sendRound, h, ha] using ih { v with sendQueue := queue, currentOffset := 0 }
    · simpa [sendRound, h, ha] using ih { v with currentOffset := v.currentOffset + sent }
    · simp [sendRound, h, ha]

/-! ## The drop policy -/

/-- Once a queue is not full it is left alone. -/
theorem popWhileFull_of_lt {queue : List Bytes} (h : queue.length < maxQueuedFrames) :
    popWhileFull queue = queue := by
  cases queue with
  | nil => rfl
  | cons chunk queue =>
    have : ¬ maxQueuedFrames ≤ (chunk :: queue).length := by omega
    simp only [popWhileFull, this, if_false]

theorem eraseWhileFull_of_lt {front : Bytes} {queue : List Bytes}
    (h : (front :: queue).length < maxQueuedFrames) :
    eraseWhileFull front queue = front :: queue := by
  cases queue with
  | nil => rfl
  | cons stale queue =>
    have : ¬ maxQueuedFrames ≤ (front :: stale :: queue).length := by omega
    simp only [eraseWhileFull, this, if_false]

/-- The index of the oldest chunk that is not partially sent. -/
def staleIndex (v : Viewer) : Nat := if v.currentOffset = 0 then 0 else 1

/-- **The drop policy on a queue within its bound**: below the bound it drops nothing, and at the
bound exactly the oldest chunk that is not partially sent. -/
theorem makeRoom_eq {v : Viewer} (h : v.sendQueue.length ≤ maxQueuedFrames) :
    v.makeRoom = if v.sendQueue.length = maxQueuedFrames then v.sendQueue.eraseIdx v.staleIndex
      else v.sendQueue := by
  unfold makeRoom
  by_cases hfull : v.sendQueue.length = maxQueuedFrames
  · simp only [hfull, Nat.le_refl, if_true]
    by_cases hoff : v.currentOffset = 0
    · simp only [hoff, if_true, staleIndex]
      match hq : v.sendQueue with
      | [] => rw [hq] at hfull; exact absurd hfull (by decide)
      | chunk :: queue =>
        rw [hq] at hfull
        simp only [popWhileFull, hfull, Nat.le_refl, if_true, List.eraseIdx_cons_zero]
        exact popWhileFull_of_lt (by simp only [List.length_cons] at hfull; omega)
    · simp only [hoff, if_false, staleIndex]
      match hq : v.sendQueue with
      | [] => rw [hq] at hfull; exact absurd hfull (by decide)
      | [_] => rw [hq] at hfull; cases hfull
      | front :: stale :: queue =>
        rw [hq] at hfull
        simp only [eraseWhileFull, hfull, Nat.le_refl, if_true, List.eraseIdx_cons_succ,
          List.eraseIdx_cons_zero]
        exact eraseWhileFull_of_lt (by simp only [List.length_cons] at hfull ⊢; omega)
  · have : ¬ maxQueuedFrames ≤ v.sendQueue.length := by omega
    simp only [this, if_false, hfull]

/-- A full queue has a chunk to drop. -/
theorem staleIndex_lt {v : Viewer} (h : v.sendQueue.length = maxQueuedFrames) :
    v.staleIndex < v.sendQueue.length := by
  have hmax : maxQueuedFrames = 15 := rfl
  simp only [staleIndex]
  split <;> omega

theorem makeRoom_sublist {v : Viewer} (h : v.sendQueue.length ≤ maxQueuedFrames) :
    v.makeRoom.Sublist v.sendQueue ∧ v.makeRoom.length < maxQueuedFrames := by
  rw [makeRoom_eq h]
  split
  · rename_i hfull
    have hlen := List.length_eraseIdx_of_lt (staleIndex_lt hfull)
    have hmax : maxQueuedFrames = 15 := rfl
    exact ⟨List.eraseIdx_sublist _ _, by omega⟩
  · exact ⟨List.Sublist.refl _, by omega⟩

/-- Making room keeps the front chunk while it is being sent. -/
theorem makeRoom_front {v : Viewer} (h : v.sendQueue.length ≤ maxQueuedFrames) {front : Bytes}
    {queue : List Bytes} (hq : v.sendQueue = front :: queue) (hoff : v.currentOffset ≠ 0) :
    ∃ queue', v.makeRoom = front :: queue' := by
  rw [makeRoom_eq h]
  split
  · simp only [hq, staleIndex, hoff, if_false]
    exact ⟨queue.eraseIdx 0, rfl⟩
  · exact ⟨queue, hq⟩

theorem httpHeader_ne_nil : httpHeader ≠ [] := by decide +kernel

theorem length_openingChunks_le (bootstrapConfig bootstrapFrame : Bytes) :
    (openingChunks bootstrapConfig bootstrapFrame).length ≤ 3 := by
  simp only [openingChunks]
  split <;> split <;> simp

/-- What holds of the header and of the cached buffers that are not empty holds of every opening
chunk. -/
theorem forall_openingChunks {P : Bytes → Prop} {bootstrapConfig bootstrapFrame : Bytes}
    (hheader : P httpHeader) (hconfig : bootstrapConfig ≠ [] → P bootstrapConfig)
    (hframe : bootstrapFrame ≠ [] → P bootstrapFrame) :
    ∀ chunk ∈ openingChunks bootstrapConfig bootstrapFrame, P chunk := by
  intro chunk hchunk
  simp only [openingChunks, List.mem_append, List.mem_singleton] at hchunk
  rcases hchunk with (rfl | hmem) | hmem
  · exact hheader
  · split at hmem <;> simp_all
  · split at hmem <;> simp_all

end Viewer

/-! ## The map `viewers` -/

/-- The viewers by descriptor. -/
structure ViewerTable where
  map : TreeMap Fd Viewer
  keyed : ∀ {fd : Fd} {v : Viewer}, map[fd]? = some v → v.fd = fd

namespace ViewerTable

def empty : ViewerTable := ⟨∅, by simp⟩

def find? (t : ViewerTable) (fd : Fd) : Option Viewer := t.map[fd]?

def contains (t : ViewerTable) (fd : Fd) : Bool := (t.find? fd).isSome

/-- `viewers[fd] = viewer` for the viewer's own descriptor. -/
def insert (t : ViewerTable) (v : Viewer) : ViewerTable where
  map := t.map.insert v.fd v
  keyed {fd w} h := by
    rw [TreeMap.getElem?_insert] at h
    split at h
    · rename_i heq
      cases h
      exact Std.compare_eq_iff_eq.mp heq
    · exact t.keyed h

def erase (t : ViewerTable) (fd : Fd) : ViewerTable where
  map := t.map.erase fd
  keyed {fd' w} h := by
    rw [TreeMap.getElem?_erase] at h
    split at h
    · cases h
    · exact t.keyed h

/-- A loop over the table that changes viewers in place. -/
def update (t : ViewerTable) (f : Viewer → Viewer) (hf : ∀ v, (f v).fd = v.fd) : ViewerTable where
  map := t.map.map fun _ v => f v
  keyed {fd w} h := by
    rw [TreeMap.getElem?_map] at h
    obtain ⟨v, hv, rfl⟩ := Option.map_eq_some_iff.mp h
    rw [hf, t.keyed hv]

/-- The viewers in the order of a loop over the table. -/
def toList (t : ViewerTable) : List Viewer := t.map.toList.map Prod.snd

variable (t : ViewerTable)

@[simp] theorem find?_empty (fd : Fd) : empty.find? fd = none := by simp [empty, find?]

@[simp] theorem find?_insert (v : Viewer) (fd : Fd) :
    (t.insert v).find? fd = if v.fd = fd then some v else t.find? fd := by
  simp only [find?, insert, TreeMap.getElem?_insert, Std.compare_eq_iff_eq]

@[simp] theorem find?_erase (fd fd' : Fd) :
    (t.erase fd).find? fd' = if fd = fd' then none else t.find? fd' := by
  simp only [find?, erase, TreeMap.getElem?_erase, Std.compare_eq_iff_eq]

@[simp] theorem find?_update (f : Viewer → Viewer) (hf : ∀ v, (f v).fd = v.fd) (fd : Fd) :
    (t.update f hf).find? fd = (t.find? fd).map f := by
  simp only [find?, update, TreeMap.getElem?_map]

@[simp] theorem contains_insert (v : Viewer) (fd : Fd) :
    (t.insert v).contains fd = (v.fd == fd || t.contains fd) := by
  by_cases h : v.fd = fd <;> simp [contains, h]

@[simp] theorem contains_erase (fd fd' : Fd) :
    (t.erase fd).contains fd' = (fd != fd' && t.contains fd') := by
  by_cases h : fd = fd' <;> simp [contains, h]

@[simp] theorem contains_update (f : Viewer → Viewer) (hf : ∀ v, (f v).fd = v.fd) (fd : Fd) :
    (t.update f hf).contains fd = t.contains fd := by
  simp [contains]

@[simp] theorem mem_toList {v : Viewer} : v ∈ t.toList ↔ t.find? v.fd = some v := by
  simp only [toList, find?, List.mem_map, Prod.exists, exists_eq_right]
  constructor
  · rintro ⟨fd, h⟩
    rw [TreeMap.mem_toList_iff_getElem?_eq_some] at h
    rw [t.keyed h]
    exact h
  · intro h
    exact ⟨v.fd, TreeMap.mem_toList_iff_getElem?_eq_some.mpr h⟩

end ViewerTable

end EdgeVision
