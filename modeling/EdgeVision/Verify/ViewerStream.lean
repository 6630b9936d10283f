import EdgeVision.Lib.Reach
import EdgeVision.Gateway.TcpServer

/-!
# The stream one viewer receives

A viewer and what happened to it since it joined: the bytes its socket accepted, the chunks sent to
the end, the frames handled. Broadcasts and send attempts come in any order. `Intact` is the
invariant that ties the socket's bytes, the queue, its offset and the enqueued chunks together; it
holds in every state (`viewer_stream_integrity`). The prelude, the first chunks of the stream, is
kept as long as no broadcast finds the queue full while a chunk of the prelude is still the oldest
unsent one (`prelude_kept`).
-/

namespace EdgeVision

open Lib

/-- A frame as the reassembly loop hands it on: not empty. -/
abbrev ReadyFrame := { frame : Bytes // frame ≠ [] }

/-- A viewer with its history since it joined. -/
structure Stream where
  viewer : Viewer
  /-- The bytes that the socket accepted. -/
  wire : Bytes
  /-- The chunks sent to their end, in order. -/
  completed : List Bytes
  /-- The frames handled since the join. -/
  handled : List Bytes
  deriving DecidableEq, Repr

inductive StreamEvent where
  | frame (frame : ReadyFrame)
  | send (outcome : SendOutcome)

namespace Stream

/-- The viewer that `handleViewerRequest` makes, before anything is sent. -/
def start (g : TcpServer) (fd : Fd) : Stream := ⟨g.makeViewer fd, [], [], []⟩

/-- One broadcast reaches the viewer, or one `send` is tried for it. -/
def step (s : Stream) : StreamEvent → Option Stream
  | .frame frame =>
    some { s with
      viewer := s.viewer.queueFrame frame.1
      handled := s.handled ++ [frame.1] }
  | .send outcome =>
    let r := s.viewer.sendOnce outcome
    let finished := s.viewer.sendQueue.length - r.1.sendQueue.length
    some { s with
      viewer := r.1
      wire := s.wire ++ r.2.1
      completed := s.completed ++ s.viewer.sendQueue.take finished }

/-- The chunks that were put on the way to the viewer and not dropped. -/
def kept (s : Stream) : List Bytes := s.completed ++ s.viewer.sendQueue

/-- What one event does: nothing to the stream, a frame queued, the front chunk finished, the front
chunk advanced, or the viewer given up. -/
theorem step_cases {s t : Stream} {e : StreamEvent} (h : s.step e = some t) :
    (∃ frame, e = .frame frame ∧ s.viewer.active = false ∧
      t = { s with handled := s.handled ++ [frame.1] }) ∨
    (∃ frame, e = .frame frame ∧ s.viewer.active = true ∧
      t = { s with
        viewer := { s.viewer with sendQueue := s.viewer.makeRoom ++ [frame.1] }
        handled := s.handled ++ [frame.1] }) ∨
    (∃ outcome, e = .send outcome ∧ t = s) ∨
    (∃ outcome chunk queue, e = .send outcome ∧ s.viewer.active = true ∧
      s.viewer.sendQueue = chunk :: queue ∧ s.viewer.currentOffset < chunk.length ∧
      t = { s with
        viewer := { s.viewer with sendQueue := queue, currentOffset := 0 }
        wire := s.wire ++ chunk.drop s.viewer.currentOffset
        completed := s.completed ++ [chunk] }) ∨
    (∃ outcome chunk queue sent, e = .send outcome ∧ s.viewer.active = true ∧
      s.viewer.sendQueue = chunk :: queue ∧ s.viewer.currentOffset + sent < chunk.length ∧
      t = { s with
        viewer := { s.viewer with currentOffset := s.viewer.currentOffset + sent }
        wire := s.wire ++ (chunk.drop s.viewer.currentOffset).take sent }) ∨
    (∃ outcome, e = .send outcome ∧ s.viewer.active = true ∧
      t = { s with viewer := { s.viewer with active := false } }) := by
  cases e with
  | frame frame =>
    simp only [step, Option.some.injEq] at h
    cases ha : s.viewer.active with
    | false => exact .inl ⟨frame, rfl, rfl, by rw [← h]; simp [Viewer.queueFrame, ha]⟩
    | true => exact .inr (.inl ⟨frame, rfl, rfl, by rw [← h]; simp [Viewer.queueFrame, ha]⟩)
  | send outcome =>
    simp only [step, Option.some.injEq] at h
    rcases s.viewer.sendOnce_cases outcome with hs | ⟨chunk, queue, sent, ha, hq, hpos, hall, hs⟩ |
      ⟨chunk, queue, sent, ha, hq, hpos, hpart, hs⟩ | ⟨ha, -, hs⟩
    · exact .inr (.inr (.inl ⟨outcome, rfl, by rw [← h, hs]; simp⟩))
    · refine .inr (.inr (.inr (.inl ⟨outcome, chunk, queue, rfl, ha, hq, by omega, ?_⟩)))
      rw [← h, hs]
      simp [hq]
    · refine .inr (.inr (.inr (.inr (.inl ⟨outcome, chunk, queue, sent, rfl, ha, hq, hpart, ?_⟩))))
      rw [← h, hs]
      simp
    · exact .inr (.inr (.inr (.inr (.inr ⟨outcome, rfl, ha, by rw [← h, hs]; simp⟩))))

/-! ## Integrity -/

/-- What holds of a stream whose enqueued chunks are `enqueued`. -/
structure Intact (s : Stream) (enqueued : List Bytes) : Prop where
  /-- The socket has accepted the finished chunks and the front chunk up to the offset. -/
  wire_eq : s.wire = s.completed.flatten ++
    (s.viewer.sendQueue.headD []).take s.viewer.currentOffset
  offset_lt : s.viewer.currentOffset = 0 ∨
    ∃ front queue, s.viewer.sendQueue = front :: queue ∧ s.viewer.currentOffset < front.length
  nonempty : ∀ chunk ∈ s.viewer.sendQueue, chunk ≠ []
  sublist : s.kept.Sublist enqueued
  bounded : s.viewer.sendQueue.length ≤ maxQueuedFrames

/-- The prelude of the stream: the header and the cached configuration and key frame, as queued at
the join. -/
def opening (g : TcpServer) : List Bytes :=
  Viewer.openingChunks g.bootstrapConfig g.bootstrapFrame

theorem start_intact (g : TcpServer) (fd : Fd) : (start g fd).Intact (opening g) := by
  refine ⟨rfl, .inl rfl, ?_, List.Sublist.refl _, ?_⟩
  · exact Viewer.forall_openingChunks Viewer.httpHeader_ne_nil id id
  · exact Nat.le_trans (Viewer.length_openingChunks_le _ _) (by decide)

section Step

variable {s : Stream} {enqueued : List Bytes} (h : s.Intact enqueued)
include h

/-- A frame behind the chunks that are kept. -/
theorem Intact.queue (frame : ReadyFrame) :
    Intact { s with
      viewer := { s.viewer with sendQueue := s.viewer.makeRoom ++ [frame.1] }
      handled := s.handled ++ [frame.1] } (enqueued ++ [frame.1]) := by
  obtain ⟨hroom, hlen⟩ := Viewer.makeRoom_sublist h.bounded
  have hfront : s.viewer.currentOffset = 0 ∨ ∃ front queue queue',
      s.viewer.sendQueue = front :: queue ∧ s.viewer.makeRoom = front :: queue' ∧
        s.viewer.currentOffset < front.length := by
    rcases h.offset_lt with hzero | ⟨front, queue, hq, hlt⟩
    · exact .inl hzero
    · by_cases hzero : s.viewer.currentOffset = 0
      · exact .inl hzero
      · obtain ⟨queue', hq'⟩ := Viewer.makeRoom_front h.bounded hq hzero
        exact .inr ⟨front, queue, queue', hq, hq', hlt⟩
  refine ⟨?_, ?_, ?_, ?_, ?_⟩
  · have hwire := h.wire_eq
    rcases hfront with hzero | ⟨front, queue, queue', hq, hq', -⟩
    · simpa [hzero] using hwire
    · simpa [hq, hq'] using hwire
  · rcases hfront with hzero | ⟨front, queue, queue', -, hq', hlt⟩
    · exact .inl hzero
    · exact .inr ⟨front, queue' ++ [frame.1], by simp [hq'], hlt⟩
  · intro chunk hchunk
    rcases List.mem_append.mp hchunk with hin | hin
    · exact h.nonempty chunk (hroom.mem hin)
    · exact List.mem_singleton.mp hin ▸ frame.2
  · have hkept := (hroom.append_left s.completed).trans h.sublist
    simpa [kept] using hkept.append_right [frame.1]
  · simp only [List.length_append, List.length_singleton]
    omega

/-- The front chunk sent to its end. -/
theorem Intact.finish {chunk : Bytes} {queue : List Bytes}
    (hq : s.viewer.sendQueue = chunk :: queue) :
    Intact { s with
      viewer := { s.viewer with sendQueue := queue, currentOffset := 0 }
      wire := s.wire ++ chunk.drop s.viewer.currentOffset
      completed := s.completed ++ [chunk] } enqueued := by
  have hbound := h.bounded
  have hsub := h.sublist
  have hnonempty := h.nonempty
  rw [hq] at hbound hnonempty
  simp only [kept, hq] at hsub
  refine ⟨?_, .inl rfl, fun c hc => hnonempty c (by simp [hc]), by simpa [kept] using hsub, ?_⟩
  · rw [h.wire_eq, hq]
    simp [List.append_assoc]
  · exact Nat.le_trans (Nat.le_succ _) hbound

/-- The front chunk sent a little further. -/
theorem Intact.advance {chunk : Bytes} {queue : List Bytes} {sent : Nat}
    (hq : s.viewer.sendQueue = chunk :: queue)
    (hlt : s.viewer.currentOffset + sent < chunk.length) :
    Intact { s with
      viewer := { s.viewer with currentOffset := s.viewer.currentOffset + sent }
      wire := s.wire ++ (chunk.drop s.viewer.currentOffset).take sent } enqueued := by
  refine ⟨?_, .inr ⟨chunk, queue, hq, hlt⟩, h.nonempty, h.sublist, h.bounded⟩
  rw [h.wire_eq, hq]
  simp [List.take_add]

end Step

/-- **One event keeps a stream intact.** -/
theorem Intact.step {g : TcpServer} {s t : Stream} {e : StreamEvent}
    (h : s.Intact (opening g ++ s.handled)) (hstep : s.step e = some t) :
    t.Intact (opening g ++ t.handled) := by
  rcases step_cases hstep with ⟨frame, -, -, rfl⟩ | ⟨frame, -, -, rfl⟩ | ⟨_, -, rfl⟩ |
    ⟨_, chunk, queue, -, -, hq, -, rfl⟩ | ⟨_, chunk, queue, sent, -, -, hq, hlt, rfl⟩ |
    ⟨_, -, -, rfl⟩
  · have hlonger : (opening g ++ s.handled).Sublist (opening g ++ (s.handled ++ [frame.1])) :=
      (List.sublist_append_left _ _).append_left _
    exact ⟨h.wire_eq, h.offset_lt, h.nonempty, h.sublist.trans hlonger, h.bounded⟩
  · have hqueued := h.queue frame
    rw [List.append_assoc] at hqueued
    exact hqueued
  · exact h
  · exact h.finish hq
  · exact h.advance hq hlt
  · exact ⟨h.wire_eq, h.offset_lt, h.nonempty, h.sublist, h.bounded⟩

/-- A broadcast to an active viewer drops nothing below the bound and the oldest chunk that is not
partially sent at the bound, and queues the frame last. -/
theorem queueFrame_eq {v : Viewer} (hactive : v.active = true)
    (h : v.sendQueue.length ≤ maxQueuedFrames) (frame : Bytes) :
    (v.queueFrame frame).sendQueue =
      (if v.sendQueue.length = maxQueuedFrames then v.sendQueue.eraseIdx v.staleIndex
        else v.sendQueue) ++ [frame] := by
  simp only [Viewer.queueFrame, hactive, if_true, Viewer.makeRoom_eq h]

/-- A `send` drops nothing. -/
theorem send_kept {s t : Stream} {outcome : SendOutcome} (h : s.step (.send outcome) = some t) :
    t.kept = s.kept := by
  rcases step_cases h with ⟨_, he, -⟩ | ⟨_, he, -⟩ | ⟨_, -, rfl⟩ |
    ⟨_, chunk, queue, -, -, hq, -, rfl⟩ | ⟨_, chunk, queue, sent, -, -, hq, hlt, rfl⟩ |
    ⟨_, -, -, rfl⟩
  · cases he
  · cases he
  · rfl
  · simp [kept, hq]
  · rfl
  · rfl

/-- Every state of a stream is intact. -/
theorem intact_of_reaches {g : TcpServer} {fd : Fd} {s : Stream}
    (h : Reaches step anyStep (start g fd) s) : s.Intact (opening g ++ s.handled) := by
  have hstart : (start g fd).Intact (opening g ++ (start g fd).handled) := by
    simpa [start] using start_intact g fd
  exact h.invariant (I := fun s => s.Intact (opening g ++ s.handled)) hstart
    fun _ _ _ hs _ hstep => hs.step hstep

/-- **Viewer stream integrity.** In every state of a stream it is intact, a broadcast drops at most
the oldest chunk that is not partially sent, at the bound only, and never the frame it brings, and a
`send` drops nothing. -/
theorem viewer_stream_integrity (g : TcpServer) (fd : Fd) {s : Stream}
    (h : Reaches step anyStep (start g fd) s) :
    s.Intact (opening g ++ s.handled) ∧
    (∀ (frame : ReadyFrame) (t : Stream), s.step (.frame frame) = some t →
      t.viewer.sendQueue =
        if s.viewer.active then
          (if s.viewer.sendQueue.length = maxQueuedFrames then
            s.viewer.sendQueue.eraseIdx (if s.viewer.currentOffset = 0 then 0 else 1)
          else s.viewer.sendQueue) ++ [frame.1]
        else s.viewer.sendQueue) ∧
    (∀ (outcome : SendOutcome) (t : Stream), s.step (.send outcome) = some t →
      t.completed ++ t.viewer.sendQueue = s.completed ++ s.viewer.sendQueue) := by
  have hintact := intact_of_reaches h
  refine ⟨hintact, ?_, fun outcome t hstep => send_kept hstep⟩
  intro frame t hstep
  simp only [step, Option.some.injEq] at hstep
  rw [← hstep]
  cases hactive : s.viewer.active with
  | true => exact queueFrame_eq hactive hintact.bounded frame.1
  | false => simp [Viewer.queueFrame, hactive]

/-- A viewer that joins an empty gateway, one frame, and a `send` of which the socket accepts ten
bytes. -/
theorem viewer_stream_integrity_run :
    let s : Stream := ⟨⟨9, [Viewer.httpHeader, [0xAA]], 10, true⟩, Viewer.httpHeader.take 10, [],
      [[0xAA]]⟩
    s.Intact (opening .initial ++ s.handled) ∧
    (∀ (frame : ReadyFrame) (t : Stream), s.step (.frame frame) = some t →
      t.viewer.sendQueue =
        if s.viewer.active then
          (if s.viewer.sendQueue.length = maxQueuedFrames then
            s.viewer.sendQueue.eraseIdx (if s.viewer.currentOffset = 0 then 0 else 1)
          else s.viewer.sendQueue) ++ [frame.1]
        else s.viewer.sendQueue) ∧
    (∀ (outcome : SendOutcome) (t : Stream), s.step (.send outcome) = some t →
      t.completed ++ t.viewer.sendQueue = s.completed ++ s.viewer.sendQueue) :=
  viewer_stream_integrity .initial 9
    (Reaches.of_runLabels [.frame ⟨[0xAA], by decide⟩, .send (.accepts 10)]
      (by decide +kernel))

/-! ## The prelude -/

/-- The HTTP header, the configuration and the key frame as they were at the join. -/
def prelude (g : TcpServer) : Bytes := Viewer.httpHeader ++ g.bootstrapConfig ++ g.bootstrapFrame

theorem opening_flatten (g : TcpServer) : (opening g).flatten = prelude g := by
  simp only [opening, prelude, Viewer.openingChunks]
  split <;> split <;> simp_all

/-- A broadcast that drops no chunk of the prelude: there is room in the queue, or the chunks of the
prelude are sent, the last of them at least in part. -/
def SparesPrelude (g : TcpServer) (s : Stream) : StreamEvent → Prop
  | .frame _ => s.viewer.active = true → s.viewer.sendQueue.length < maxQueuedFrames ∨
      (opening g).length ≤ s.completed.length + s.viewer.staleIndex
  | .send _ => True

theorem prefix_eraseIdx {l m : List Bytes} {k : Nat} (h : l <+: m) (hk : l.length ≤ k) :
    l <+: m.eraseIdx k := by
  obtain ⟨t, rfl⟩ := h
  rw [List.eraseIdx_append_of_length_le hk]
  exact List.prefix_append _ _

/-- **One event that spares the prelude leaves it in front of what is kept.** -/
theorem opening_prefix_step {g : TcpServer} {s t : Stream} {e : StreamEvent}
    (hintact : s.Intact (opening g ++ s.handled)) (h : opening g <+: s.kept)
    (hspares : SparesPrelude g s e) (hstep : s.step e = some t) : opening g <+: t.kept := by
  cases e with
  | send outcome => rwa [send_kept hstep]
  | frame frame =>
    rcases step_cases hstep with ⟨_, -, -, rfl⟩ | ⟨_, he, hactive, rfl⟩ | ⟨_, he, -⟩ |
      ⟨_, _, _, he, -⟩ | ⟨_, _, _, _, he, -⟩ | ⟨_, he, -⟩
    · exact h
    · have hroom : opening g <+: s.completed ++ s.viewer.makeRoom := by
        rw [Viewer.makeRoom_eq hintact.bounded]
        split
        · rename_i hfull
          have hsent : (opening g).length ≤ s.completed.length + s.viewer.staleIndex := by
            rcases hspares hactive with hlt | hle
            · omega
            · exact hle
          have := prefix_eraseIdx h hsent
          rwa [kept, List.eraseIdx_append_of_length_le (by omega), Nat.add_sub_cancel_left]
            at this
        · exact h
      simp only [kept]
      rw [← List.append_assoc]
      exact hroom.trans (List.prefix_append _ _)
    · cases he
    · cases he
    · cases he
    · cases he

/-- What the socket has accepted is a prefix of what is kept. -/
theorem Intact.wire_prefix {s : Stream} {enqueued : List Bytes} (h : s.Intact enqueued) :
    s.wire <+: s.kept.flatten := by
  rw [h.wire_eq, kept, List.flatten_append]
  apply List.prefix_append_right_inj _ |>.mpr
  cases s.viewer.sendQueue with
  | nil => simp
  | cons chunk queue =>
    exact (List.take_prefix _ chunk).trans (List.prefix_append chunk queue.flatten)

/-- **The prelude is kept** in every run whose broadcasts spare it: at all times the bytes sent are
a prefix of the prelude or an extension of it. -/
theorem prelude_kept (g : TcpServer) (fd : Fd) {s : Stream}
    (h : Reaches step (SparesPrelude g) (start g fd) s) :
    s.wire <+: prelude g ∨ prelude g <+: s.wire := by
  have hstart : (start g fd).Intact (opening g ++ (start g fd).handled) ∧
      opening g <+: (start g fd).kept := by
    refine ⟨by simpa [start] using start_intact g fd, ?_⟩
    exact List.prefix_refl (opening g)
  obtain ⟨hintact, hpre⟩ :=
    h.invariant (I := fun s => s.Intact (opening g ++ s.handled) ∧ opening g <+: s.kept) hstart
      fun _ _ _ hs hspares hstep =>
        ⟨hs.1.step hstep, opening_prefix_step hs.1 hs.2 hspares hstep⟩
  rw [← opening_flatten]
  obtain ⟨later, hlater⟩ := hpre
  have hopening : (opening g).flatten <+: s.kept.flatten := by
    rw [← hlater, List.flatten_append]
    exact List.prefix_append _ _
  exact List.prefix_or_prefix_of_prefix hintact.wire_prefix hopening

/-- The whole header is sent before the first frame comes. -/
theorem prelude_kept_run :
    let s : Stream := ⟨⟨9, [[0xAA]], 0, true⟩, Viewer.httpHeader, [Viewer.httpHeader], [[0xAA]]⟩
    s.wire <+: prelude .initial ∨ prelude .initial <+: s.wire :=
  prelude_kept .initial 9
    (((Reaches.refl _).tail (a := .send (.accepts 1000)) trivial rfl).tail
      (a := .frame ⟨[0xAA], by decide⟩) (fun _ => .inl (by decide +kernel))
      (by decide +kernel))

/-- A viewer joins an empty gateway and a producer's single read brings fifteen frames before the
sender runs: the header is dropped and the first byte sent is a frame's. -/
theorem prelude_evicted :
    let burst : Bytes := (List.replicate 15 [0, 0, 0, 1, 0xAA]).flatten
    let joined := ((TcpServer.initial.accept 9 0).readFrom 9 getRequest).accept 7 1
    let s : Stream := ⟨⟨9, List.replicate 15 [0xAA], 0, true⟩, [], [], List.replicate 15 [0xAA]⟩
    let t : Stream := ⟨⟨9, List.replicate 14 [0xAA], 0, true⟩, [0xAA], [[0xAA]],
      List.replicate 15 [0xAA]⟩
    joined.viewers.find? 9 = some (start .initial 9).viewer ∧
    (joined.readFrom 7 burst).viewers.find? 9 = some s.viewer ∧
    Reaches step anyStep (start .initial 9) s ∧ s.step (.send (.accepts 1)) = some t ∧
    ¬ (t.wire <+: prelude .initial ∨ prelude .initial <+: t.wire) := by
  refine ⟨by decide +kernel, by decide +kernel, ?_, by decide +kernel, by decide +kernel⟩
  exact Reaches.of_runLabels (List.replicate 15 (.frame ⟨[0xAA], by decide⟩))
    (by decide +kernel)

end Stream

end EdgeVision
