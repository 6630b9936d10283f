import EdgeVision.Gateway.Threads
import EdgeVision.Verify.Framing
import EdgeVision.Verify.NalScan

/-!
# What the gateway holds is bounded

Every buffer of the gateway is within its limit in every state that the two threads can reach
(`memory_bounded`). The limits lean on each other: frames come out of the reassembly loop within
the admitted size, a configuration is no longer than the frame it is extracted from, and the drop
policy keeps a queue of such chunks below its limit. Each block is looked at once.
-/

namespace EdgeVision

open Lib

/-- A viewer's queue within its limits. -/
structure Viewer.Bounded (v : Viewer) : Prop where
  length_le : v.sendQueue.length ≤ maxQueuedFrames
  chunks : ∀ chunk ∈ v.sendQueue, ValidFrame chunk

namespace Viewer

variable {v : Viewer}

theorem Bounded.of_sublist {w : Viewer} (h : v.Bounded)
    (hsub : w.sendQueue.Sublist v.sendQueue) : w.Bounded :=
  ⟨Nat.le_trans hsub.length_le h.length_le, fun chunk hc => h.chunks chunk (hsub.mem hc)⟩

theorem Bounded.queueFrame (h : v.Bounded) {frame : Bytes} (hframe : ValidFrame frame) :
    (v.queueFrame frame).Bounded := by
  unfold Viewer.queueFrame
  split
  · obtain ⟨hroom, hlen⟩ := makeRoom_sublist h.length_le
    refine ⟨?_, ?_⟩
    · simp only [List.length_append, List.length_singleton]
      omega
    · intro chunk hc
      rcases List.mem_append.mp hc with hc | hc
      · exact h.chunks chunk (hroom.mem hc)
      · exact List.mem_singleton.mp hc ▸ hframe
  · exact h

/-- A round of `send`s leaves the end of the queue. -/
theorem sendRound_sublist (v : Viewer) (outcomes : List SendOutcome) :
    (v.sendRound outcomes).1.sendQueue.Sublist v.sendQueue := by
  induction outcomes generalizing v with
  | nil => exact List.Sublist.refl _
  | cons outcome outcomes ih =>
    rcases v.sendOnce_cases outcome with h | ⟨chunk, queue, _, _, hq, -, -, h⟩ |
      ⟨_, _, sent, _, -, -, -, h⟩ | ⟨-, -, h⟩
    · simp only [sendRound, h]
      exact List.Sublist.refl _
    · simp only [sendRound, h, hq]
      exact (ih _).trans (List.sublist_cons_self _ _)
    · simp only [sendRound, h]
      exact ih _
    · simp only [sendRound, h]
      exact List.Sublist.refl _

theorem httpHeader_valid : ValidFrame httpHeader := by decide +kernel

/-- A viewer that joins has a bounded queue when the cached buffers are bounded. -/
theorem joined_bounded {bootstrapConfig bootstrapFrame : Bytes} (fd : Fd)
    (hconfig : bootstrapConfig.length ≤ maxFrameSize)
    (hframe : bootstrapFrame.length ≤ maxFrameSize) :
    (joined fd bootstrapConfig bootstrapFrame).Bounded := by
  refine ⟨Nat.le_trans (length_openingChunks_le _ _) (by decide), ?_⟩
  exact forall_openingChunks httpHeader_valid
    (fun hne => ⟨List.length_pos_iff.mpr hne, hconfig⟩)
    fun hne => ⟨List.length_pos_iff.mpr hne, hframe⟩

end Viewer

/-! ## The blocks of the server -/

/-- The server's buffers within their limits. -/
structure TcpServer.Bounded (g : TcpServer) : Prop where
  probe : ∀ (fd : Fd) (probe : Bytes), g.pendingProbe[fd]? = some probe →
    probe.length < probeBytes
  recv : ∀ (fd : Fd) (state : ProducerState), g.producers[fd]? = some state →
    framer.next state.recvBuffer = .wait
  handled : ∀ frame ∈ g.handled, ValidFrame frame
  config : g.bootstrapConfig.length ≤ maxFrameSize
  keyFrame : g.bootstrapFrame.length ≤ maxFrameSize
  viewers : ∀ fd v, g.viewers.find? fd = some v → v.Bounded

/-- A buffer that the reassembly loop waits with is shorter than the longest frame with its prefix,
and starts with neither a whole frame nor an invalid prefix. -/
theorem framer_wait {l : Bytes} (h : framer.next l = .wait) :
    l.length < 4 + maxFrameSize ∧ (∀ frame rest, ValidFrame frame → l ≠ framed frame ++ rest) ∧
      ¬ InvalidPrefix l := by
  refine ⟨?_, ?_, ?_⟩
  · rw [framer_next, Deframer.lookPrefixed_wait_iff, admittedSize_take] at h
    rcases h with h | ⟨n, hn, h⟩
    · omega
    · simp only [admittedSize] at hn
      split at hn
      · cases hn
      · cases hn
        omega
  · rintro frame rest hframe rfl
    have hitem := Deframer.next_frame (by decide) rest (length_htonl (UInt32.ofNat frame.length))
      (by simpa using admittedSize_htonl hframe [])
    rw [framer, framed, hitem] at h
    cases h
  · intro hinvalid
    rw [framer_next_invalid hinvalid] at h
    cases h

namespace TcpServer

variable {g : TcpServer}

/-- The reassembly block leaves a buffer it can wait with, and valid frames. -/
theorem reassembleBlock_bounded (fd : Fd) (data : Bytes) :
    (∀ state : ProducerState, (g.reassembleBlock fd data).2.producers[fd]? = some state →
      framer.next state.recvBuffer = .wait) ∧
    ((g.reassembleBlock fd data).1.invalidStream = false →
      ∀ frame ∈ (g.reassembleBlock fd data).1.readyFrames, ValidFrame frame) := by
  simp only [reassembleBlock, reassemble_eq]
  generalize ((g.producers[fd]?).getD ⟨[]⟩).recvBuffer ++ data = buffer
  refine ⟨?_, fun _ => (drain_framed_append buffer).2⟩
  intro state hstate
  simp only [Std.TreeMap.getElem?_insert_self, Option.some.injEq] at hstate
  rw [← hstate]
  cases hrefused : (framer.drain buffer).refused with
  | true => exact Intake.framer_next_short (show ([] : Bytes).length < 4 by decide)
  | false => exact Deframer.next_rest_of_accepted hrefused

namespace Bounded

variable (h : g.Bounded)
include h

theorem eraseViewer (fd : Fd) : (g.eraseViewer fd).2.Bounded := by
  refine ⟨h.probe, h.recv, h.handled, h.config, h.keyFrame, fun fd' v hv => ?_⟩
  simp only [TcpServer.eraseViewer, ViewerTable.find?_erase] at hv
  split at hv
  · cases hv
  · exact h.viewers fd' v hv

theorem eraseTables (fd : Fd) : (g.eraseTables fd).2.Bounded := by
  refine ⟨fun fd' probe hp => ?_, fun fd' state hp => ?_, h.handled, h.config, h.keyFrame,
    h.viewers⟩
  · simp only [TcpServer.eraseTables, Std.TreeMap.getElem?_erase] at hp
    split at hp
    · cases hp
    · exact h.probe fd' probe hp
  · simp only [TcpServer.eraseTables, Std.TreeMap.getElem?_erase] at hp
    split at hp
    · cases hp
    · exact h.recv fd' state hp

theorem advance (r : Removal) : (r.advance g).2.Bounded := by
  unfold Removal.advance
  split
  · exact h.eraseViewer r.fd
  · exact h.eraseTables r.fd
  · exact ⟨h.probe, h.recv, h.handled, h.config, h.keyFrame, h.viewers⟩

theorem insertProbe {fd : Fd} {probe : Bytes} (hprobe : probe.length < probeBytes) :
    Bounded { g with pendingProbe := g.pendingProbe.insert fd probe } := by
  refine ⟨fun fd' probe' hp => ?_, h.recv, h.handled, h.config, h.keyFrame, h.viewers⟩
  simp only [Std.TreeMap.getElem?_insert] at hp
  split at hp
  · cases hp
    exact hprobe
  · exact h.probe fd' probe' hp

theorem eraseProbe (fd : Fd) :
    Bounded { g with pendingProbe := g.pendingProbe.erase fd } := by
  refine ⟨fun fd' probe hp => ?_, h.recv, h.handled, h.config, h.keyFrame, h.viewers⟩
  simp only [Std.TreeMap.getElem?_erase] at hp
  split at hp
  · cases hp
  · exact h.probe fd' probe hp

theorem insertProducer {fd : Fd} {state : ProducerState}
    (hstate : framer.next state.recvBuffer = .wait) :
    Bounded { g with producers := g.producers.insert fd state } := by
  refine ⟨h.probe, fun fd' state' hp => ?_, h.handled, h.config, h.keyFrame, h.viewers⟩
  simp only [Std.TreeMap.getElem?_insert] at hp
  split at hp
  · cases hp
    exact hstate
  · exact h.recv fd' state' hp

theorem reassembleBlock (fd : Fd) (data : Bytes) : (g.reassembleBlock fd data).2.Bounded :=
  h.insertProducer
    ((reassembleBlock_bounded (g := g) fd data).1 _ (by simp [TcpServer.reassembleBlock]))

theorem seat {viewer : Viewer} (hviewer : viewer.Bounded) : (g.seat viewer).Bounded := by
  refine ⟨h.probe, h.recv, h.handled, h.config, h.keyFrame, fun fd v hv => ?_⟩
  simp only [TcpServer.seat, ViewerTable.find?_insert] at hv
  split at hv
  · cases hv
    exact hviewer
  · exact h.viewers fd v hv

theorem cacheConfig {frame : Bytes} (hframe : ValidFrame frame) :
    (g.cacheConfig frame).Bounded := by
  refine ⟨h.probe, h.recv, ?_, ?_, h.keyFrame, h.viewers⟩
  · intro f hf
    rcases List.mem_append.mp hf with hf | hf
    · exact h.handled f hf
    · exact List.mem_singleton.mp hf ▸ hframe
  · simp only [TcpServer.cacheConfig]
    split
    · exact h.config
    · exact Nat.le_trans (length_extractBootstrapConfig_le frame) hframe.2

theorem cacheIdr {frame : Bytes} (hframe : ValidFrame frame) : (g.cacheIdr frame).Bounded := by
  refine ⟨h.probe, h.recv, h.handled, h.config, ?_, h.viewers⟩
  simp only [TcpServer.cacheIdr]
  split
  · exact hframe.2
  · exact h.keyFrame

theorem broadcast {frame : Bytes} (hframe : ValidFrame frame) :
    (g.broadcast frame).2.Bounded := by
  refine ⟨h.probe, h.recv, h.handled, h.config, h.keyFrame, fun fd v hv => ?_⟩
  simp only [TcpServer.broadcast, ViewerTable.find?_update, Option.map_eq_some_iff] at hv
  obtain ⟨w, hw, rfl⟩ := hv
  exact (h.viewers fd w hw).queueFrame hframe

theorem senderRound (outcomes : Fd → List SendOutcome) : (g.senderRound outcomes).2.Bounded := by
  refine ⟨h.probe, h.recv, h.handled, h.config, h.keyFrame, fun fd v hv => ?_⟩
  simp only [TcpServer.senderRound, ViewerTable.find?_update, Option.map_eq_some_iff] at hv
  obtain ⟨w, hw, rfl⟩ := hv
  exact (h.viewers fd w hw).of_sublist (w.sendRound_sublist _)

end Bounded

end TcpServer

/-! ## Every reachable state -/

/-- The frames that the epoll thread has taken off a buffer and not broadcast yet. -/
def EpollPc.inFlight : EpollPc → List Bytes
  | .frames later => later
  | .cacheIdr frame later => frame :: later
  | .queueFrame frame later => frame :: later
  | .removing _ _ later => later
  | _ => []

@[simp] theorem EpollPc.inFlight_removeDead (frames : List Bytes)
    (dead : List (Fd × Option Conn)) : (EpollPc.removeDead frames dead).inFlight = frames := by
  cases dead <;> rfl

@[simp] theorem Removal.epollAfter_inFlight (r : Removal) (g : TcpServer)
    (dead : List (Fd × Option Conn)) (frames : List Bytes) :
    (r.epollAfter g dead frames).inFlight = frames := by
  unfold epollAfter
  split
  · rfl
  · simp

namespace System

variable {s t : System}

structure Bounded (s : System) : Prop where
  gateway : s.gateway.Bounded
  inFlight : ∀ frame ∈ s.epoll.inFlight, ValidFrame frame
  joining : ∀ v, s.epoll = .join v → v.Bounded

/-- **Every step keeps the buffers within their limits.** -/
theorem Bounded.step {a : Label} (h : s.Bounded) (ht : Transition s a t) : t.Bounded := by
  have hg := h.gateway
  have hframes := h.inFlight
  cases ht with
  | wait hpc hbatch hreports => exact ⟨hg, hframes, h.joining⟩
  | listen hpc hbatch => exact ⟨hg, by simp [EpollPc.inFlight], by simp⟩
  | hangUp hpc hbatch => exact ⟨hg, by simp [EpollPc.inFlight], by simp⟩
  | readable hpc hbatch => exact ⟨hg, by simp [EpollPc.inFlight], by simp⟩
  | accept hpc hclosed =>
    exact ⟨⟨hg.probe, hg.recv, hg.handled, hg.config, hg.keyFrame, hg.viewers⟩,
      by simp [EpollPc.inFlight], by simp⟩
  | acceptNone hpc => exact ⟨hg, by simp [EpollPc.inFlight], by simp⟩
  | @read fd result hpc hanswer =>
    cases result <;> exact ⟨hg, by simp [EpollPc.inFlight, afterRead], by simp [afterRead]⟩
  | accepted hpc => exact ⟨hg.insertProbe (by decide), by simp [EpollPc.inFlight], by simp⟩
  | isViewer hpc hfound => exact ⟨hg, by simp [EpollPc.inFlight], by simp⟩
  | notViewer hpc hfound => exact ⟨hg, by simp [EpollPc.inFlight], by simp⟩
  | isProducer hpc hfound => exact ⟨hg, by simp [EpollPc.inFlight], by simp⟩
  | notProducer hpc hfound => exact ⟨hg, by simp [EpollPc.inFlight], by simp⟩
  | undecided hpc hprobe hshort =>
    exact ⟨hg.insertProbe hshort, by simp [EpollPc.inFlight], by simp⟩
  | becomeViewer hpc => exact ⟨hg.eraseProbe _, by simp [EpollPc.inFlight], by simp⟩
  | becomeProducer hpc =>
    have hempty : framer.next [] = .wait := Intake.framer_next_short (by decide)
    exact ⟨(hg.eraseProbe _).insertProducer hempty, by simp [EpollPc.inFlight], by simp⟩
  | invalid hpc hinvalid =>
    exact ⟨hg.reassembleBlock _ _, by simp [EpollPc.inFlight], by simp⟩
  | ready hpc hvalid =>
    exact ⟨hg.reassembleBlock _ _, (TcpServer.reassembleBlock_bounded _ _).2 hvalid, by simp⟩
  | @bootstrap fd hpc =>
    refine ⟨hg, by simp [EpollPc.inFlight], ?_⟩
    rintro v hv
    cases hv
    exact Viewer.joined_bounded fd hg.config hg.keyFrame
  | join hpc => exact ⟨hg.seat (h.joining _ hpc), by simp [EpollPc.inFlight], by simp⟩
  | framesDone hpc => exact ⟨hg, by simp [EpollPc.inFlight], by simp⟩
  | cacheConfig hpc =>
    rw [hpc] at hframes
    exact ⟨hg.cacheConfig (hframes _ List.mem_cons_self), hframes, by simp⟩
  | cacheIdr hpc =>
    rw [hpc] at hframes
    exact ⟨hg.cacheIdr (hframes _ List.mem_cons_self), hframes, by simp⟩
  | @queueFrame frame frames hpc =>
    rw [hpc] at hframes
    refine ⟨hg.broadcast (hframes _ List.mem_cons_self), ?_, ?_⟩
    · rw [EpollPc.inFlight_removeDead]
      exact fun f hf => hframes f (List.mem_cons_of_mem _ hf)
    · intro v hv
      simp only [EpollPc.removeDead] at hv
      split at hv <;> cases hv
  | epollRemoval hpc =>
    rw [hpc] at hframes
    refine ⟨hg.advance _, ?_, ?_⟩
    · rw [Removal.epollAfter_inFlight]
      exact hframes
    · intro v hv
      simp only [Removal.epollAfter, EpollPc.removeDead] at hv
      split at hv
      · cases hv
      · split at hv <;> cases hv
  | round hpc => exact ⟨hg.senderRound _, hframes, h.joining⟩
  | senderRemoval hpc => exact ⟨hg.advance _, hframes, h.joining⟩

theorem initial_bounded : initial.Bounded := by
  refine ⟨⟨?_, ?_, ?_, by decide, by decide, ?_⟩, by simp [initial, EpollPc.inFlight],
    by simp [initial]⟩ <;> simp [initial, TcpServer.initial]

/-- The limits, as a peer can run into them. -/
structure MemoryBounded (g : TcpServer) : Prop where
  pendingProbe : ∀ (fd : Fd) (probe : Bytes), g.pendingProbe[fd]? = some probe → probe.length < 4
  recvBuffer : ∀ (fd : Fd) (state : ProducerState), g.producers[fd]? = some state →
    state.recvBuffer.length < 4 + maxFrameSize ∧
    (∀ frame rest, ValidFrame frame → state.recvBuffer ≠ framed frame ++ rest) ∧
    ¬ InvalidPrefix state.recvBuffer
  handled : ∀ frame ∈ g.handled, frame.length ≤ maxFrameSize
  bootstrapConfig : g.bootstrapConfig.length ≤ maxFrameSize
  bootstrapFrame : g.bootstrapFrame.length ≤ maxFrameSize
  sendQueue : ∀ (fd : Fd) (v : Viewer), g.viewers.find? fd = some v →
    v.sendQueue.length ≤ maxQueuedFrames ∧
    ∀ chunk ∈ v.sendQueue, 1 ≤ chunk.length ∧ chunk.length ≤ maxFrameSize

/-- **Gateway memory is bounded** in every reachable state, whatever the peers send. -/
theorem memory_bounded (h : Reaches step anyStep initial s) : MemoryBounded s.gateway := by
  have hbounded : s.Bounded :=
    h.invariant initial_bounded fun _ _ _ hs _ hstep => hs.step (transition_of_step hstep)
  obtain ⟨⟨hprobe, hrecv, hhandled, hconfig, hkeyFrame, hviewers⟩, -, -⟩ := hbounded
  refine ⟨hprobe, fun fd state hstate => framer_wait (hrecv fd state hstate),
    fun frame hframe => (hhandled frame hframe).2, hconfig, hkeyFrame, fun fd v hv => ?_⟩
  exact ⟨(hviewers fd v hv).length_le, (hviewers fd v hv).chunks⟩

theorem memory_bounded_after_join : ∃ s : System, MemoryBounded s.gateway ∧
    s.gateway.viewers.contains 7 = true := by
  have hrun : (runLabels step anyStep initial (joinLabels 7)).map
      (fun s => s.gateway.viewers.contains 7) = some true := by
    decide +kernel
  obtain ⟨s, hs, hviewer⟩ := Reaches.exists_of_runLabels hrun
  exact ⟨s, memory_bounded hs, hviewer⟩

end System

end EdgeVision
