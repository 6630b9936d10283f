import EdgeVision.Verify.Bootstrap
import EdgeVision.Verify.Bounds
import EdgeVision.Verify.ViewerStream

/-!
# The two threads and the parts looked at alone

The epoll thread's blocks, taken without interruption, compute the server's functions: after a read
it comes to the end of `handleRead` (`handleRead_reached`). In any interleaving the bootstrap cache
is the fold over the frames handled, and every viewer in the table is at the end of a run of its
stream, started by the viewer made when it joined and fed the frames broadcast since then
(`viewers_are_streams`).
-/

namespace EdgeVision

open Lib

namespace System

variable {s t : System}

/-! ## Blocks without interruption -/

/-- Only the epoll thread moves. -/
def Uninterrupted (_ : System) (a : Label) : Prop := a = .epoll

/-- The system with the epoll thread elsewhere. -/
def withEpoll (s : System) (g : TcpServer) (pc : EpollPc) : System :=
  { s with gateway := g, epoll := pc }

theorem reaches_epoll (h : s.epollStep = some t) : Reaches step Uninterrupted s t :=
  (Reaches.refl s).tail (a := .epoll) rfl h

section Blocks

variable {g : TcpServer}

/-- The blocks of one removal. -/
theorem removeViewer_reached (p : Fd × Option Conn) (dead : List (Fd × Option Conn))
    (later : List Bytes) :
    Reaches step Uninterrupted (s.withEpoll g (.removing (.call p) dead later))
      (s.withEpoll (g.removeViewer p.1) (.removeDead later dead)) := by
  let viewer := g.eraseViewer p.1
  let tables := viewer.2.eraseTables p.1
  have hviewers : Reaches step Uninterrupted (s.withEpoll g (.removing (.call p) dead later))
      (s.withEpoll viewer.2 (.removing ⟨p.1, p.2, .tables viewer.1⟩ dead later)) :=
    reaches_epoll rfl
  have htables : Reaches step Uninterrupted
      (s.withEpoll viewer.2 (.removing ⟨p.1, p.2, .tables viewer.1⟩ dead later))
      (s.withEpoll tables.2
        ((Removal.mk p.1 p.2 (.tables viewer.1)).epollAfter viewer.2 dead later)) :=
    reaches_epoll rfl
  refine hviewers.trans (htables.trans ?_)
  cases hfound : viewer.1 || tables.1 with
  | true =>
    have hafter : (Removal.mk p.1 p.2 (.tables viewer.1)).epollAfter viewer.2 dead later =
        .removing ⟨p.1, p.2, .close⟩ dead later := by
      simp only [Removal.epollAfter, Removal.advance]
      rw [if_pos hfound]
    have hremoved : g.removeViewer p.1 = tables.2.closeSocket p.1 := by
      simp only [TcpServer.removeViewer]
      rw [if_pos hfound]
    rw [hafter, hremoved]
    exact reaches_epoll rfl
  | false =>
    have hafter : (Removal.mk p.1 p.2 (.tables viewer.1)).epollAfter viewer.2 dead later =
        .removeDead later dead := by
      simp only [Removal.epollAfter, Removal.advance]
      rw [if_neg (by rw [hfound]; exact Bool.false_ne_true)]
    have hremoved : g.removeViewer p.1 = tables.2 := by
      simp only [TcpServer.removeViewer]
      rw [if_neg (by rw [hfound]; exact Bool.false_ne_true)]
    rw [hafter, hremoved]
    exact Reaches.refl _

theorem removeAll_reached (dead : List (Fd × Option Conn)) (later : List Bytes) :
    Reaches step Uninterrupted (s.withEpoll g (.removeDead later dead))
      (s.withEpoll (g.removeAll (dead.map Prod.fst)) (.frames later)) := by
  induction dead generalizing g with
  | nil => exact Reaches.refl _
  | cons p dead ih => exact (removeViewer_reached p dead later).trans ih

/-- The blocks of `handleCompleteFrame`. -/
theorem handleCompleteFrame_reached (frame : Bytes) (later : List Bytes) :
    Reaches step Uninterrupted (s.withEpoll g (.frames (frame :: later)))
      (s.withEpoll (g.handleCompleteFrame frame) (.frames later)) := by
  let cached := (g.cacheConfig frame).cacheIdr frame
  have hconfig : Reaches step Uninterrupted (s.withEpoll g (.frames (frame :: later)))
      (s.withEpoll (g.cacheConfig frame) (.cacheIdr frame later)) := reaches_epoll rfl
  have hidr : Reaches step Uninterrupted
      (s.withEpoll (g.cacheConfig frame) (.cacheIdr frame later))
      (s.withEpoll cached (.queueFrame frame later)) := reaches_epoll rfl
  have hqueue : Reaches step Uninterrupted (s.withEpoll cached (.queueFrame frame later))
      (s.withEpoll (cached.broadcast frame).2 (.removeDead later
        ((cached.broadcast frame).1.map fun fd => (fd, s.failedConn fd)))) := reaches_epoll rfl
  have hremove := removeAll_reached (s := s) (g := (cached.broadcast frame).2)
    ((cached.broadcast frame).1.map fun fd => (fd, s.failedConn fd)) later
  rw [List.map_map, Function.comp_def, List.map_id'] at hremove
  exact hconfig.trans (hidr.trans (hqueue.trans hremove))

theorem handleFrames_reached (frames : List Bytes) :
    Reaches step Uninterrupted (s.withEpoll g (.frames frames))
      (s.withEpoll (g.handleFrames frames) .idle) := by
  induction frames generalizing g with
  | nil => exact reaches_epoll rfl
  | cons frame frames ih => exact (handleCompleteFrame_reached frame frames).trans ih

/-- The blocks of `handleProducerBytes`, with the removal where it returns `false`. -/
theorem producerInput_reached (fd : Fd) (data : Bytes) (conn : Option Conn) :
    Reaches step Uninterrupted (s.withEpoll g (.reassemble fd data conn))
      (s.withEpoll (g.producerInput fd data) .idle) := by
  have hblock : (s.withEpoll g (.reassemble fd data conn)).epollStep =
      some (s.withEpoll (g.reassembleBlock fd data).2
        (if (g.reassembleBlock fd data).1.invalidStream then .removing (.call (fd, conn)) [] []
          else .frames (g.reassembleBlock fd data).1.readyFrames)) := rfl
  refine (reaches_epoll hblock).trans ?_
  cases hinvalid : (g.reassembleBlock fd data).1.invalidStream with
  | true =>
    have hinput : g.producerInput fd data = (g.reassembleBlock fd data).2.removeViewer fd := by
      simp [TcpServer.producerInput, TcpServer.handleProducerBytes, hinvalid]
    rw [if_pos rfl, hinput]
    exact (removeViewer_reached (fd, conn) [] []).trans (handleFrames_reached [])
  | false =>
    have hinput : g.producerInput fd data = (g.reassembleBlock fd data).2.handleFrames
        (g.reassembleBlock fd data).1.readyFrames := by
      simp [TcpServer.producerInput, TcpServer.handleProducerBytes, hinvalid]
    rw [if_neg Bool.false_ne_true, hinput]
    exact handleFrames_reached _

/-- **The blocks behind a read compute `handleRead`.** -/
theorem handleRead_reached (fd : Fd) (buffer : Bytes) (conn : Option Conn) :
    Reaches step Uninterrupted (s.withEpoll g (.lookViewers fd buffer conn))
      (s.withEpoll (g.handleRead fd buffer) .idle) := by
  have hlook : (s.withEpoll g (.lookViewers fd buffer conn)).epollStep = some (s.withEpoll g
      (if g.viewers.contains fd then .idle else .lookProducers fd buffer conn)) := rfl
  refine (reaches_epoll hlook).trans ?_
  unfold TcpServer.handleRead
  by_cases hviewer : g.viewers.contains fd = true
  · rw [if_pos hviewer, if_pos hviewer]
    exact Reaches.refl _
  · rw [if_neg hviewer, if_neg hviewer]
    have hlook' : (s.withEpoll g (.lookProducers fd buffer conn)).epollStep =
        some (s.withEpoll g (if g.producers.contains fd then .reassemble fd buffer conn
          else .probe fd buffer conn)) := rfl
    refine (reaches_epoll hlook').trans ?_
    by_cases hproducer : g.producers.contains fd = true
    · rw [if_pos hproducer, if_pos hproducer]
      exact producerInput_reached fd buffer conn
    · rw [if_neg hproducer, if_neg hproducer]
      rcases hclass : g.probeBlock fd buffer with ⟨class', g'⟩
      cases class' with
      | undecided => exact reaches_epoll (by simp only [epollStep, withEpoll, hclass])
      | viewer =>
        have hprobe : Reaches step Uninterrupted (s.withEpoll g (.probe fd buffer conn))
            (s.withEpoll g' (.bootstrap fd)) :=
          reaches_epoll (by simp only [epollStep, withEpoll, hclass])
        have hboot : Reaches step Uninterrupted (s.withEpoll g' (.bootstrap fd))
            (s.withEpoll g' (.join (g'.makeViewer fd))) := reaches_epoll rfl
        exact hprobe.trans (hboot.trans (reaches_epoll rfl))
      | producer firstChunk =>
        have hprobe : Reaches step Uninterrupted (s.withEpoll g (.probe fd buffer conn))
            (s.withEpoll g' (if firstChunk.isEmpty then .idle
              else .reassemble fd firstChunk conn)) :=
          reaches_epoll (by simp only [epollStep, withEpoll, hclass])
        refine hprobe.trans ?_
        cases hempty : firstChunk.isEmpty with
        | true =>
          simp only [hempty, if_true]
          exact Reaches.refl _
        | false =>
          simp only [hempty, Bool.false_eq_true, if_false]
          exact producerInput_reached fd firstChunk conn

end Blocks

end System

/-! ## Viewers as streams -/

namespace Stream

/-- The `send`s of a round are events of the stream. -/
theorem sendRound_reached (st : Stream) (outcomes : List SendOutcome) :
    ∃ st', Reaches step anyStep st st' ∧ st'.viewer = (st.viewer.sendRound outcomes).1 ∧
      st'.handled = st.handled := by
  induction outcomes generalizing st with
  | nil => exact ⟨st, Reaches.refl st, rfl, rfl⟩
  | cons outcome outcomes ih =>
    have hsent : ∃ st', Reaches step anyStep st st' ∧
        st'.viewer = (st.viewer.sendOnce outcome).1 ∧ st'.handled = st.handled :=
      ⟨_, (Reaches.refl st).tail (a := .send outcome) trivial rfl, rfl, rfl⟩
    obtain ⟨st', hst', hviewer, hhandled⟩ := hsent
    rcases h : st.viewer.sendOnce outcome with ⟨v, accepted, exit⟩
    rw [h] at hviewer
    cases exit with
    | again =>
      obtain ⟨st'', hst'', hviewer', hhandled'⟩ := ih st'
      refine ⟨st'', hst'.trans hst'', ?_, hhandled'.trans hhandled⟩
      rw [hviewer', hviewer]
      simp only [Viewer.sendRound, h]
    | stop => exact ⟨st', hst', by simp only [Viewer.sendRound, h, hviewer], hhandled⟩
    | dead => exact ⟨st', hst', by simp only [Viewer.sendRound, h, hviewer], hhandled⟩

end Stream

/-- When the frames `done` have been broadcast, `v` is at the end of a run of its stream: made from
the cache that the frames before its join left, and fed those that came after. -/
def Viewing (done : List Bytes) (fd : Fd) (v : Viewer) : Prop :=
  ∃ (before : List Bytes) (g : TcpServer) (st : Stream), done = before ++ st.handled ∧
    g.bootstrapConfig = configOf before ∧ g.bootstrapFrame = keyFrameOf before ∧
    Reaches Stream.step anyStep (Stream.start g fd) st ∧ st.viewer = v

namespace Viewing

variable {done : List Bytes} {fd : Fd} {v : Viewer}

/-- A viewer that has just been made. -/
theorem made {g : TcpServer} (hconfig : g.bootstrapConfig = configOf done)
    (hframe : g.bootstrapFrame = keyFrameOf done) : Viewing done fd (g.makeViewer fd) :=
  ⟨done, g, Stream.start g fd, (List.append_nil done).symm, hconfig, hframe, Reaches.refl _, rfl⟩

theorem queueFrame (h : Viewing done fd v) {frame : Bytes} (hframe : frame ≠ []) :
    Viewing (done ++ [frame]) fd (v.queueFrame frame) := by
  obtain ⟨before, g, st, rfl, hconfig, hkey, hst, rfl⟩ := h
  let st' : Stream := { st with
    viewer := st.viewer.queueFrame frame
    handled := st.handled ++ [frame] }
  have hqueued : Reaches Stream.step anyStep (Stream.start g fd) st' :=
    hst.tail (a := .frame ⟨frame, hframe⟩) trivial rfl
  exact ⟨before, g, st', List.append_assoc _ _ _, hconfig, hkey, hqueued, rfl⟩

theorem sendRound (h : Viewing done fd v) (outcomes : List SendOutcome) :
    Viewing done fd (v.sendRound outcomes).1 := by
  obtain ⟨before, g, st, rfl, hconfig, hkey, hst, rfl⟩ := h
  obtain ⟨st', hst', hviewer, hhandled⟩ := st.sendRound_reached outcomes
  exact ⟨before, g, st', by rw [hhandled], hconfig, hkey, hst.trans hst', hviewer⟩

end Viewing

/-- The frame that `handleCompleteFrame` has been called with and that is not broadcast yet. -/
def EpollPc.pending : EpollPc → List Bytes
  | .cacheIdr frame _ => [frame]
  | .queueFrame frame _ => [frame]
  | _ => []

/-- The part of it that `bootstrap_frame` knows of. -/
def EpollPc.cached : EpollPc → List Bytes
  | .queueFrame frame _ => [frame]
  | _ => []

/-- The epoll thread is not between the blocks of `handleCompleteFrame` or `handleViewerRequest`. -/
def EpollPc.quiet : EpollPc → Bool
  | .cacheIdr _ _ => false
  | .queueFrame _ _ => false
  | .join _ => false
  | _ => true

theorem EpollPc.of_quiet {pc : EpollPc} (h : pc.quiet = true) :
    pc.pending = [] ∧ pc.cached = [] ∧ ∀ v, pc ≠ .join v := by
  cases pc with
  | cacheIdr | queueFrame | join => cases h
  | _ => exact ⟨rfl, rfl, by simp⟩

theorem EpollPc.removeDead_quiet (frames : List Bytes) (dead : List (Fd × Option Conn)) :
    (EpollPc.removeDead frames dead).quiet = true := by
  cases dead <;> rfl

theorem Removal.epollAfter_quiet (r : Removal) (g : TcpServer) (dead : List (Fd × Option Conn))
    (frames : List Bytes) : (r.epollAfter g dead frames).quiet = true := by
  unfold epollAfter
  split
  · rfl
  · exact EpollPc.removeDead_quiet frames dead

/-- The bootstrap cache is the same, and no viewer is new or changed. -/
structure TcpServer.Leaves (g g' : TcpServer) : Prop where
  handled : g'.handled = g.handled
  config : g'.bootstrapConfig = g.bootstrapConfig
  keyFrame : g'.bootstrapFrame = g.bootstrapFrame
  viewers : ∀ fd v, g'.viewers.find? fd = some v → g.viewers.find? fd = some v

theorem TcpServer.Leaves.refl (g : TcpServer) : g.Leaves g := ⟨rfl, rfl, rfl, fun _ _ h => h⟩

theorem Removal.advance_leaves (r : Removal) (g : TcpServer) : g.Leaves (r.advance g).2 := by
  unfold advance
  split
  · refine ⟨rfl, rfl, rfl, fun fd v hv => ?_⟩
    simp only [TcpServer.eraseViewer, ViewerTable.find?_erase] at hv
    split at hv
    · cases hv
    · exact hv
  · exact ⟨rfl, rfl, rfl, fun _ _ hv => hv⟩
  · exact ⟨rfl, rfl, rfl, fun _ _ hv => hv⟩

namespace System

variable {s t : System}

/-- The cache and the viewers of a system that has broadcast the frames `done`. -/
structure Streaming (s : System) (done : List Bytes) : Prop where
  handled : s.gateway.handled = done ++ s.epoll.pending
  config : s.gateway.bootstrapConfig = configOf s.gateway.handled
  keyFrame : s.gateway.bootstrapFrame = keyFrameOf (done ++ s.epoll.cached)
  seated : ∀ fd v, s.gateway.viewers.find? fd = some v → Viewing done fd v
  joining : ∀ v, s.epoll = .join v → Viewing done v.fd v

namespace Streaming

variable {done : List Bytes}

/-- The frames handled and the cached key frame, where the epoll thread is known to stand. -/
theorem at_pc (h : s.Streaming done) {pc : EpollPc} (hpc : s.epoll = pc) :
    s.gateway.handled = done ++ pc.pending ∧
      s.gateway.bootstrapFrame = keyFrameOf (done ++ pc.cached) :=
  hpc ▸ ⟨h.handled, h.keyFrame⟩

/-- Most steps touch neither the cache nor a viewer. -/
theorem leave (h : s.Streaming done) {pc : EpollPc} (hpc : s.epoll = pc)
    (hleaves : s.gateway.Leaves t.gateway) (hquiet : pc.quiet = true)
    (hquiet' : t.epoll.quiet = true) : t.Streaming done := by
  obtain ⟨hpending, hcached, -⟩ := EpollPc.of_quiet hquiet
  obtain ⟨hpending', hcached', hjoin'⟩ := EpollPc.of_quiet hquiet'
  obtain ⟨hhandled, hkeyFrame⟩ := h.at_pc hpc
  rw [hpending] at hhandled
  rw [hcached] at hkeyFrame
  refine ⟨?_, ?_, ?_, fun fd v hv => h.seated fd v (hleaves.viewers fd v hv),
    fun v hv => absurd hv (hjoin' v)⟩
  · rw [hleaves.handled, hpending', hhandled]
  · rw [hleaves.config, hleaves.handled, h.config]
  · rw [hleaves.keyFrame, hcached', hkeyFrame]

/-- The sender thread erases viewers and closes descriptors. -/
theorem erase (h : s.Streaming done) (hleaves : s.gateway.Leaves t.gateway)
    (hpc : t.epoll = s.epoll) : t.Streaming done := by
  refine ⟨?_, ?_, ?_, fun fd v hv => h.seated fd v (hleaves.viewers fd v hv), ?_⟩
  · rw [hleaves.handled, hpc, h.handled]
  · rw [hleaves.config, hleaves.handled, h.config]
  · rw [hleaves.keyFrame, hpc, h.keyFrame]
  · rw [hpc]
    exact h.joining

section Blocks

variable {frame : Bytes} {later : List Bytes}

theorem cacheConfig (h : s.Streaming done) (hpc : s.epoll = .frames (frame :: later)) :
    Streaming { s with gateway := s.gateway.cacheConfig frame, epoll := .cacheIdr frame later }
      done := by
  obtain ⟨hhandled, hkeyFrame⟩ := h.at_pc hpc
  refine ⟨?_, ?_, hkeyFrame, h.seated, by simp⟩
  · simp [TcpServer.cacheConfig, EpollPc.pending, hhandled]
  · simp only [TcpServer.cacheConfig, configOf_append, ← h.config]
    rfl

theorem cacheIdr (h : s.Streaming done) (hpc : s.epoll = .cacheIdr frame later) :
    Streaming { s with gateway := s.gateway.cacheIdr frame, epoll := .queueFrame frame later }
      done := by
  obtain ⟨hhandled, hkeyFrame⟩ := h.at_pc hpc
  refine ⟨hhandled, h.config, ?_, h.seated, by simp⟩
  simp only [TcpServer.cacheIdr, hkeyFrame, EpollPc.cached, List.append_nil, keyFrameOf_append]
  rfl

/-- The broadcast: every viewer in the table is queued the frame that is pending. -/
theorem queueFrame (h : s.Streaming done) (hpc : s.epoll = .queueFrame frame later)
    (hframe : frame ≠ []) (ht : t.gateway = (s.gateway.broadcast frame).2)
    (hquiet : t.epoll.quiet = true) : t.Streaming (done ++ [frame]) := by
  obtain ⟨hpending, hcached, hjoin⟩ := EpollPc.of_quiet hquiet
  obtain ⟨hhandled, hkeyFrame⟩ := h.at_pc hpc
  refine ⟨?_, ?_, ?_, fun fd v hv => ?_, fun v hv => absurd hv (hjoin v)⟩
  · rw [ht, hpending, List.append_nil]
    exact hhandled
  · rw [ht]
    exact h.config
  · rw [ht, hcached, List.append_nil]
    exact hkeyFrame
  · rw [ht] at hv
    simp only [TcpServer.broadcast, ViewerTable.find?_update, Option.map_eq_some_iff] at hv
    obtain ⟨w, hw, rfl⟩ := hv
    exact (h.seated fd w hw).queueFrame hframe

theorem bootstrap {fd : Fd} (h : s.Streaming done) (hpc : s.epoll = .bootstrap fd) :
    Streaming { s with epoll := .join (s.gateway.makeViewer fd) } done := by
  obtain ⟨hhandled, hkeyFrame⟩ := h.at_pc hpc
  have hdone : s.gateway.handled = done := hhandled.trans (List.append_nil done)
  refine ⟨hhandled, h.config, hkeyFrame, h.seated, ?_⟩
  rintro v hv
  cases hv
  exact Viewing.made (hdone ▸ h.config) (hkeyFrame.trans (by simp [EpollPc.cached]))

theorem join {viewer : Viewer} (h : s.Streaming done) (hpc : s.epoll = .join viewer) :
    Streaming { s with gateway := s.gateway.seat viewer, epoll := .idle } done := by
  obtain ⟨hhandled, hkeyFrame⟩ := h.at_pc hpc
  refine ⟨hhandled, h.config, hkeyFrame, fun fd v hv => ?_, by simp⟩
  simp only [TcpServer.seat, ViewerTable.find?_insert] at hv
  split at hv
  · rename_i hfd
    cases hv
    exact hfd ▸ h.joining viewer hpc
  · exact h.seated fd v hv

theorem round (h : s.Streaming done) (outcomes : Fd → List SendOutcome)
    (ht : t.gateway = (s.gateway.senderRound outcomes).2) (hpc : t.epoll = s.epoll) :
    t.Streaming done := by
  refine ⟨?_, ?_, ?_, fun fd v hv => ?_, ?_⟩
  · rw [ht, hpc]
    exact h.handled
  · rw [ht]
    exact h.config
  · rw [ht, hpc]
    exact h.keyFrame
  · rw [ht] at hv
    simp only [TcpServer.senderRound, ViewerTable.find?_update, Option.map_eq_some_iff] at hv
    obtain ⟨w, hw, rfl⟩ := hv
    exact (h.seated fd w hw).sendRound _
  · rw [hpc]
    exact h.joining

end Blocks

/-- **Every step keeps the cache a fold and the viewers streams.** -/
theorem step {a : Label} (h : s.Streaming done) (hbounded : s.Bounded) (ht : Transition s a t) :
    ∃ done', t.Streaming done' := by
  have hsame : s.gateway.Leaves s.gateway := TcpServer.Leaves.refl _
  cases ht with
  | wait hpc hbatch hreports => exact ⟨done, h.erase hsame rfl⟩
  | listen hpc hbatch => exact ⟨done, h.leave hpc hsame rfl rfl⟩
  | hangUp hpc hbatch => exact ⟨done, h.leave hpc hsame rfl rfl⟩
  | readable hpc hbatch => exact ⟨done, h.leave hpc hsame rfl rfl⟩
  | accept hpc hclosed =>
    exact ⟨done, h.leave hpc ⟨rfl, rfl, rfl, fun _ _ hv => hv⟩ rfl rfl⟩
  | acceptNone hpc => exact ⟨done, h.leave hpc hsame rfl rfl⟩
  | @read fd result hpc hanswer =>
    exact ⟨done, h.leave hpc hsame rfl (by cases result <;> rfl)⟩
  | accepted hpc =>
    exact ⟨done, h.leave hpc ⟨rfl, rfl, rfl, fun _ _ hv => hv⟩ rfl rfl⟩
  | isViewer hpc hfound => exact ⟨done, h.leave hpc hsame rfl rfl⟩
  | notViewer hpc hfound => exact ⟨done, h.leave hpc hsame rfl rfl⟩
  | isProducer hpc hfound => exact ⟨done, h.leave hpc hsame rfl rfl⟩
  | notProducer hpc hfound => exact ⟨done, h.leave hpc hsame rfl rfl⟩
  | undecided hpc hprobe hshort =>
    exact ⟨done, h.leave hpc ⟨rfl, rfl, rfl, fun _ _ hv => hv⟩ rfl rfl⟩
  | becomeViewer hpc =>
    exact ⟨done, h.leave hpc ⟨rfl, rfl, rfl, fun _ _ hv => hv⟩ rfl rfl⟩
  | becomeProducer hpc =>
    exact ⟨done, h.leave hpc ⟨rfl, rfl, rfl, fun _ _ hv => hv⟩ rfl rfl⟩
  | invalid hpc hinvalid =>
    exact ⟨done, h.leave hpc ⟨rfl, rfl, rfl, fun _ _ hv => hv⟩ rfl rfl⟩
  | ready hpc hvalid =>
    exact ⟨done, h.leave hpc ⟨rfl, rfl, rfl, fun _ _ hv => hv⟩ rfl rfl⟩
  | bootstrap hpc => exact ⟨done, h.bootstrap hpc⟩
  | join hpc => exact ⟨done, h.join hpc⟩
  | framesDone hpc => exact ⟨done, h.leave hpc hsame rfl rfl⟩
  | cacheConfig hpc => exact ⟨done, h.cacheConfig hpc⟩
  | cacheIdr hpc => exact ⟨done, h.cacheIdr hpc⟩
  | @queueFrame frame frames hpc =>
    have hvalid : ValidFrame frame :=
      hbounded.inFlight frame (by rw [hpc]; exact List.mem_cons_self)
    have hne : frame ≠ [] := List.length_pos_iff.mp hvalid.1
    exact ⟨done ++ [frame], h.queueFrame hpc hne rfl (EpollPc.removeDead_quiet _ _)⟩
  | @epollRemoval r dead frames hpc =>
    exact ⟨done, h.leave hpc (r.advance_leaves _) rfl (r.epollAfter_quiet _ _ _)⟩
  | round hpc => exact ⟨done, h.round _ rfl rfl⟩
  | @senderRemoval r dead hpc => exact ⟨done, h.erase (r.advance_leaves _) rfl⟩

end Streaming

theorem initial_streaming : initial.Streaming [] := by
  refine ⟨rfl, rfl, rfl, ?_, by simp [initial]⟩
  simp [initial, TcpServer.initial]

/-- **The viewers are streams and the cache is a fold**, in every reachable state. -/
theorem viewers_are_streams (h : Reaches step anyStep initial s) : ∃ done, s.Streaming done := by
  have hboth : s.Bounded ∧ ∃ done, s.Streaming done :=
    h.invariant (I := fun s => s.Bounded ∧ ∃ done, s.Streaming done)
      ⟨initial_bounded, [], initial_streaming⟩
      fun _ _ _ ⟨hbounded, _, hstreaming⟩ _ hstep =>
        ⟨hbounded.step (transition_of_step hstep),
          hstreaming.step hbounded (transition_of_step hstep)⟩
  exact hboth.2

end System

end EdgeVision
