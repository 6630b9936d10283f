import EdgeVision.Lib.Deframe
import EdgeVision.Stream.FramedTcpClient
import EdgeVision.Gateway.TcpServer

/-!
# One connection's input

What the gateway does with the bytes of one connection, apart from everything else it holds.
`Intake` is the state of one connection and `Intake.read` what a read does to it. The server's
reads on a descriptor are these steps (`readFrom_sim`, `readAll_sim`): the tables of the other
descriptors play no part, and the frames that reach `handleCompleteFrame` are those the connection
hands on.

The reassembly loop is the drain of a length-prefixed deframer (`reassemble_eq`), and the probe
stage only delays it: as long as the connection is not a viewer, its buffered bytes and the frames
it hands on are those of a receiver that drains from the first byte on (`reads_spec`).
-/

namespace EdgeVision

open Lib

/-! ## The reassembly loop as a drain -/

/-- The size a prefix announces, if the gateway admits it. -/
def admittedSize (header : Bytes) : Option Nat :=
  let frameSize := (ntohl header).toNat
  if frameSize = 0 ∨ maxFrameSize < frameSize then none else some frameSize

/-- The gateway's framing: a four-byte prefix that announces 1 to `maxFrameSize` bytes. -/
def framer : Deframer UInt8 Bytes := Deframer.lengthPrefixed 4 (by decide) admittedSize

theorem admittedSize_take (l : Bytes) : admittedSize (l.take 4) = admittedSize l := by
  simp only [admittedSize, ntohl_take]

theorem framer_next (l : Bytes) : framer.next l = Deframer.lookPrefixed 4 admittedSize l := rfl

/-- The reassembly loop takes frames off exactly as the deframer does. -/
theorem reassemble_eq (buffer : Bytes) :
    reassemble buffer = ⟨(framer.drain buffer).items, (framer.drain buffer).rest,
      (framer.drain buffer).refused⟩ := by
  induction buffer using framer.drain_induction with
  | hwait l h =>
    rw [Deframer.drain_wait h, reassemble]
    rw [framer_next, Deframer.lookPrefixed_wait_iff, admittedSize_take] at h
    rcases h with h | ⟨n, hn, h⟩
    · rw [if_pos h]
    · split
      · rfl
      · simp only [admittedSize] at hn
        split at hn
        · cases hn
        · rename_i hsize
          cases hn
          simp only [hsize, if_false, h, if_true]
  | hrefuse l h =>
    rw [Deframer.drain_refuse h, reassemble]
    obtain ⟨hlen, hnone⟩ := Deframer.lookPrefixed_refuse h
    rw [admittedSize_take] at hnone
    simp only [admittedSize] at hnone
    split at hnone
    · rename_i hsize
      rw [if_neg (by omega)]
      simp only [hsize, if_true]
    · cases hnone
  | hitem l a n h ih =>
    rw [Deframer.drain_item h, reassemble]
    obtain ⟨hle, hlen, hsome, rfl⟩ := Deframer.lookPrefixed_item h
    rw [admittedSize_take] at hsome
    simp only [admittedSize] at hsome
    split at hsome
    · cases hsome
    · rename_i hsize
      have hn : 4 + (ntohl l).toNat = n := by
        have := Option.some.inj hsome
        omega
      rw [if_neg (by omega)]
      simp only [hsize, if_false, hn, if_neg (Nat.not_lt.mpr hlen), ih]

/-! ## The state of one connection -/

/-- A connection as the gateway's tables show it: waiting for its first bytes, known as a producer,
known as a viewer, or closed. -/
inductive Intake where
  | probing (probe : Bytes)
  | producing (recvBuffer : Bytes)
  | watching
  | gone
  deriving DecidableEq, Repr

namespace Intake

/-- Bytes for a producer, behind what its buffer holds. -/
def produce (buffer : Bytes) : Intake × List Bytes :=
  match framer.absorb (some []) buffer with
  | (some rest, frames) => (producing rest, frames)
  | (none, frames) => (gone, frames)

/-- One read, with the frames it hands on. -/
def read : Intake → Bytes → Intake × List Bytes
  | probing probe, buffer =>
    if probeBytes ≤ (probe ++ buffer).length then
      if (probe ++ buffer).take 4 = getRequest then (watching, []) else produce (probe ++ buffer)
    else (probing (probe ++ buffer), [])
  | producing recvBuffer, buffer => produce (recvBuffer ++ buffer)
  | watching, _ => (watching, [])
  | gone, _ => (gone, [])

def reads : Intake → List Bytes → Intake × List Bytes
  | i, [] => (i, [])
  | i, buffer :: buffers => ((reads (i.read buffer).1 buffers).1,
      (i.read buffer).2 ++ (reads (i.read buffer).1 buffers).2)

/-- The bytes held for a connection that is not a viewer. -/
def held : Intake → Option Bytes
  | probing probe => some probe
  | producing recvBuffer => some recvBuffer
  | watching => none
  | gone => none

end Intake

/-! ## Everything the server holds about a descriptor -/

namespace TcpServer

variable {g : TcpServer} {fd : Fd} {conn : Conn}

/-- The entries of the three tables and of the kernel's table under one number. -/
def entry (g : TcpServer) (fd : Fd) :
    Option Viewer × Option ProducerState × Option Bytes × Option Conn :=
  (g.viewers.find? fd, g.producers[fd]?, g.pendingProbe[fd]?, g.sockets[fd]?)

/-- The tables show connection `conn` under `fd` in the given state. -/
def Shows (g : TcpServer) (fd : Fd) (conn : Conn) : Intake → Prop
  | .probing probe => g.entry fd = (none, none, some probe, some conn)
  | .producing recvBuffer => g.entry fd = (none, some ⟨recvBuffer⟩, none, some conn)
  | .watching => ∃ v, g.entry fd = (some v, none, none, some conn)
  | .gone => g.entry fd = (none, none, none, none)

theorem removeViewer_entry_ne {fd' : Fd} (h : fd' ≠ fd) :
    (g.removeViewer fd').entry fd = g.entry fd := by
  unfold removeViewer
  simp only
  split <;> simp [entry, eraseViewer, eraseTables, closeSocket, Std.TreeMap.getElem?_erase, h]

@[simp] theorem removeViewer_handled (fd' : Fd) : (g.removeViewer fd').handled = g.handled := by
  unfold removeViewer
  simp only
  split <;> rfl

/-- Removing a connection leaves nothing under its number. -/
theorem removeViewer_entry (h : (g.producers[fd]?).isSome) :
    (g.removeViewer fd).entry fd = (none, none, none, none) := by
  have hfound : g.producers.contains fd = true := by
    rw [Std.TreeMap.contains_eq_isSome_getElem?]
    exact h
  simp [removeViewer, eraseViewer, eraseTables, closeSocket, entry, hfound]

theorem removeAll_entry_ne {fds : List Fd} (h : ∀ fd' ∈ fds, fd' ≠ fd) :
    (g.removeAll fds).entry fd = g.entry fd := by
  induction fds generalizing g with
  | nil => rfl
  | cons fd' fds ih =>
    have hhead : fd' ≠ fd := h fd' (by simp)
    have htail : ∀ fd'' ∈ fds, fd'' ≠ fd := fun fd'' hm => h fd'' (by simp [hm])
    rw [removeAll, List.foldl_cons, ← removeAll, ih htail, removeViewer_entry_ne hhead]

theorem removeAll_handled (fds : List Fd) : (g.removeAll fds).handled = g.handled := by
  induction fds generalizing g with
  | nil => rfl
  | cons fd' fds ih => rw [removeAll, List.foldl_cons, ← removeAll, ih, removeViewer_handled]

/-- A broadcast does not touch a descriptor that is no viewer's. -/
theorem handleCompleteFrame_entry (frame : Bytes) (h : g.viewers.find? fd = none) :
    (g.handleCompleteFrame frame).entry fd = g.entry fd := by
  have hdead : ∀ fd' ∈ (((g.cacheConfig frame).cacheIdr frame).broadcast frame).1, fd' ≠ fd := by
    intro fd' hmem hfd
    simp only [broadcast, cacheIdr, cacheConfig, List.mem_map, List.mem_filter,
      ViewerTable.mem_toList] at hmem
    obtain ⟨v, ⟨hv, -⟩, rfl⟩ := hmem
    rw [hfd, h] at hv
    cases hv
  simp only [handleCompleteFrame, queueFrameForViewers]
  rw [removeAll_entry_ne hdead]
  simp [broadcast, cacheIdr, cacheConfig, entry, h]

theorem handleCompleteFrame_handled (frame : Bytes) :
    (g.handleCompleteFrame frame).handled = g.handled ++ [frame] := by
  simp only [handleCompleteFrame, queueFrameForViewers, removeAll_handled]
  rfl

theorem handleFrames_entry (frames : List Bytes) (h : g.viewers.find? fd = none) :
    (g.handleFrames frames).entry fd = g.entry fd := by
  induction frames generalizing g with
  | nil => rfl
  | cons frame frames ih =>
    have hentry := handleCompleteFrame_entry frame h
    have hviewer : (g.handleCompleteFrame frame).viewers.find? fd = none :=
      (congrArg Prod.fst hentry).trans h
    rw [handleFrames, List.foldl_cons, ← handleFrames, ih hviewer, hentry]

theorem handleFrames_handled (frames : List Bytes) :
    (g.handleFrames frames).handled = g.handled ++ frames := by
  induction frames generalizing g with
  | nil => simp [handleFrames]
  | cons frame frames ih =>
    rw [handleFrames, List.foldl_cons, ← handleFrames, ih, handleCompleteFrame_handled]
    simp

/-! ## A read is a step of the connection -/

/-- Input for a producer, new or known, is `Intake.produce` of its buffered bytes. -/
theorem producerInput_sim {recvBuffer : Bytes} (data : Bytes)
    (h : g.entry fd = (none, some ⟨recvBuffer⟩, none, some conn)) :
    (g.producerInput fd data).Shows fd conn (Intake.produce (recvBuffer ++ data)).1 ∧
      (g.producerInput fd data).handled =
        g.handled ++ (Intake.produce (recvBuffer ++ data)).2 := by
  simp only [entry, Prod.mk.injEq] at h
  obtain ⟨hviewer, hproducer, hprobe, hsocket⟩ := h
  simp only [producerInput, handleProducerBytes, reassembleBlock, hproducer, Option.getD_some,
    reassemble_eq, Intake.produce, Deframer.absorb, List.nil_append]
  cases hrefused : (framer.drain (recvBuffer ++ data)).refused with
  | true =>
    simp only [if_true, Bool.false_eq_true, if_false, Shows]
    refine ⟨removeViewer_entry ?_, ?_⟩
    · simp
    · simp
  | false =>
    simp only [Bool.false_eq_true, if_false, if_true, Shows]
    rw [handleFrames_handled, handleFrames_entry _ (by simpa using hviewer)]
    simp [entry, hviewer, hprobe, hsocket]

/-- **A read on an open descriptor is a step of its connection**, and nothing else on the server
matters for it. -/
theorem handleRead_sim {i : Intake} (buffer : Bytes) (h : g.Shows fd conn i) (hopen : i ≠ .gone) :
    (g.handleRead fd buffer).Shows fd conn (i.read buffer).1 ∧
      (g.handleRead fd buffer).handled = g.handled ++ (i.read buffer).2 := by
  cases i with
  | gone => exact absurd rfl hopen
  | watching =>
    obtain ⟨v, hv⟩ := h
    have hviewer : g.viewers.contains fd = true := by
      simp only [entry, Prod.mk.injEq] at hv
      simp [ViewerTable.contains, hv.1]
    simp only [handleRead, hviewer, if_true, Intake.read, List.append_nil, and_true]
    exact ⟨v, hv⟩
  | producing recvBuffer =>
    have hentry := h
    simp only [Shows, entry, Prod.mk.injEq] at h
    have hviewer : g.viewers.contains fd = false := by simp [ViewerTable.contains, h.1]
    have hproducer : g.producers.contains fd = true := by
      simp [Std.TreeMap.contains_eq_isSome_getElem?, h.2.1]
    simp only [handleRead, hviewer, hproducer, Bool.false_eq_true, if_false, if_true, Intake.read]
    exact producerInput_sim buffer hentry
  | probing probe =>
    simp only [Shows, entry, Prod.mk.injEq] at h
    obtain ⟨hv, hp, hprobe, hsocket⟩ := h
    have hviewer : g.viewers.contains fd = false := by simp [ViewerTable.contains, hv]
    have hproducer : g.producers.contains fd = false := by
      simp [Std.TreeMap.contains_eq_isSome_getElem?, hp]
    simp only [handleRead, hviewer, hproducer, Bool.false_eq_true, if_false, probeBlock, hprobe,
      Option.getD_some, Intake.read]
    by_cases hlen : probeBytes ≤ (probe ++ buffer).length
    · simp only [hlen, if_true]
      by_cases hget : (probe ++ buffer).take 4 = getRequest
      · simp only [hget, if_true, handleViewerRequest, seat, makeViewer, List.append_nil, and_true]
        refine ⟨Viewer.joined fd g.bootstrapConfig g.bootstrapFrame, ?_⟩
        simp [entry, Viewer.joined, hp, hsocket]
      · have hne : (probe ++ buffer).isEmpty = false := by
          simp only [probeBytes] at hlen
          cases hpb : probe ++ buffer with
          | nil => rw [hpb] at hlen; cases hlen
          | cons b l => rfl
        simp only [hget, if_false, hne, Bool.false_eq_true]
        have hentry : ({ g with
            pendingProbe := g.pendingProbe.erase fd
            producers := g.producers.insert fd ⟨[]⟩ } : TcpServer).entry fd =
              (none, some ⟨[]⟩, none, some conn) := by
          simp [entry, hv, hsocket]
        exact producerInput_sim (probe ++ buffer) hentry
    · simp only [hlen, if_false, Shows, List.append_nil, and_true]
      simp [entry, hv, hp, hsocket]

theorem readFrom_sim {i : Intake} (buffer : Bytes) (h : g.Shows fd conn i) :
    (g.readFrom fd buffer).Shows fd conn (i.read buffer).1 ∧
      (g.readFrom fd buffer).handled = g.handled ++ (i.read buffer).2 := by
  unfold readFrom
  by_cases hgone : i = .gone
  · subst hgone
    have hsocket : g.sockets.contains fd = false := by
      simp only [Shows, entry, Prod.mk.injEq] at h
      simp [Std.TreeMap.contains_eq_isSome_getElem?, h.2.2.2]
    simp only [hsocket, Bool.false_eq_true, if_false, Intake.read, List.append_nil, and_true]
    exact h
  · have hsocket : g.sockets.contains fd = true := by
      rw [Std.TreeMap.contains_eq_isSome_getElem?]
      cases i with
      | gone => exact absurd rfl hgone
      | watching =>
        obtain ⟨v, hv⟩ := h
        simp only [entry, Prod.mk.injEq] at hv
        simp [hv.2.2.2]
      | _ =>
        simp only [Shows, entry, Prod.mk.injEq] at h
        simp [h.2.2.2]
    simp only [hsocket, if_true]
    exact handleRead_sim buffer h hgone

/-- **The reads on a descriptor are the steps of its connection.** -/
theorem readAll_sim {i : Intake} (buffers : List Bytes) (h : g.Shows fd conn i) :
    (g.readAll fd buffers).Shows fd conn (i.reads buffers).1 ∧
      (g.readAll fd buffers).handled = g.handled ++ (i.reads buffers).2 := by
  induction buffers generalizing g i with
  | nil => exact ⟨h, by simp [readAll, Intake.reads]⟩
  | cons buffer buffers ih =>
    obtain ⟨hshows, hhandled⟩ := readFrom_sim buffer h
    obtain ⟨hrest, hall⟩ := ih hshows
    rw [readAll, List.foldl_cons, ← readAll]
    refine ⟨hrest, ?_⟩
    rw [hall, hhandled, Intake.reads, List.append_assoc]

/-- A connection that has just been accepted waits for its first bytes. -/
theorem accept_shows (hviewer : g.viewers.find? fd = none) (hproducer : g.producers[fd]? = none) :
    (g.accept fd conn).Shows fd conn (.probing []) := by
  simp [Shows, accept, openSocket, startProbe, entry, hviewer, hproducer]

end TcpServer

/-! ## The probe stage only delays the drain -/

namespace Intake

theorem reads_gone (buffers : List Bytes) : reads gone buffers = (gone, []) := by
  induction buffers with
  | nil => rfl
  | cons buffer buffers ih => simp [reads, read, ih]

theorem reads_watching (buffers : List Bytes) : reads watching buffers = (watching, []) := by
  induction buffers with
  | nil => rfl
  | cons buffer buffers ih => simp [reads, read, ih]

/-- A connection whose first bytes are a request is a viewer, however they are cut. -/
theorem reads_get {probe : Bytes} (hprobe : probe.length < 4) (buffers : List Bytes)
    (hget : getRequest <+: probe ++ buffers.flatten) :
    reads (probing probe) buffers = (watching, []) := by
  induction buffers generalizing probe with
  | nil =>
    have hlen : 4 ≤ (probe ++ [].flatten).length := hget.length_le
    simp only [List.flatten_nil, List.append_nil] at hlen
    omega
  | cons buffer buffers ih =>
    rw [List.flatten_cons, ← List.append_assoc] at hget
    by_cases hlen : probeBytes ≤ (probe ++ buffer).length
    · have htake : (probe ++ buffer).take 4 = getRequest := by
        rw [← List.take_append_of_le_length (show 4 ≤ (probe ++ buffer).length from hlen)]
        exact (List.prefix_iff_eq_take.mp hget).symm
      simp only [reads, read, hlen, htake, if_true, reads_watching, List.append_nil]
    · have hshort : (probe ++ buffer).length < 4 := by
        simp only [probeBytes] at hlen
        omega
      simp only [reads, read, hlen, if_false, ih hshort hget, List.append_nil]

/-- A buffer without a whole prefix holds no frame. -/
theorem framer_next_short {l : Bytes} (h : l.length < 4) : framer.next l = .wait :=
  Deframer.lookPrefixed_wait_iff.mpr (.inl h)

/-- A producer's reads feed the deframer. -/
theorem reads_producing (recvBuffer : Bytes) (buffers : List Bytes) :
    (reads (producing recvBuffer) buffers).1.held = (framer.feed (some recvBuffer) buffers).1 ∧
      (reads (producing recvBuffer) buffers).2 = (framer.feed (some recvBuffer) buffers).2 ∧
      ((reads (producing recvBuffer) buffers).1 = gone ∨
        ∃ rest, (reads (producing recvBuffer) buffers).1 = producing rest) := by
  induction buffers generalizing recvBuffer with
  | nil => exact ⟨rfl, rfl, .inr ⟨_, rfl⟩⟩
  | cons buffer buffers ih =>
    simp only [reads, read, produce, Deframer.feed, Deframer.absorb, List.nil_append]
    cases hrefused : (framer.drain (recvBuffer ++ buffer)).refused with
    | true =>
      simp only [if_true, reads_gone, Deframer.feed_none, held, List.append_nil, true_and]
      exact .inl trivial
    | false =>
      simp only [Bool.false_eq_true, if_false]
      obtain ⟨hheld, hitems, hkind⟩ := ih (framer.drain (recvBuffer ++ buffer)).rest
      exact ⟨hheld, by rw [hitems], hkind⟩

/-- **The probe stage only delays the drain.** On a connection whose stream does not start with
`"GET "`, the bytes held and the frames handed on are those of a receiver that drains from the
first byte on; it is probed exactly until four bytes have come in. -/
theorem reads_spec {probe : Bytes} (hprobe : probe.length < 4) (buffers : List Bytes)
    (hget : ¬ getRequest <+: probe ++ buffers.flatten) :
    (reads (probing probe) buffers).1.held = (framer.feed (some probe) buffers).1 ∧
      (reads (probing probe) buffers).2 = (framer.feed (some probe) buffers).2 ∧
      if (probe ++ buffers.flatten).length < 4 then
        (reads (probing probe) buffers).1 = probing (probe ++ buffers.flatten)
      else (reads (probing probe) buffers).1 = gone ∨
        ∃ rest, (reads (probing probe) buffers).1 = producing rest := by
  induction buffers generalizing probe with
  | nil => simpa [reads, Deframer.feed, held] using hprobe
  | cons buffer buffers ih =>
    rw [List.flatten_cons, ← List.append_assoc] at hget ⊢
    by_cases hlen : probeBytes ≤ (probe ++ buffer).length
    · have hlong : ¬ (probe ++ buffer ++ buffers.flatten).length < 4 := by
        simp only [probeBytes] at hlen
        rw [List.length_append]
        omega
      have hget' : (probe ++ buffer).take 4 ≠ getRequest := fun heq =>
        hget (heq ▸ (List.take_prefix 4 _).trans (List.prefix_append _ _))
      have hsame : reads (probing probe) (buffer :: buffers) =
          reads (producing probe) (buffer :: buffers) := by
        simp only [reads, read, hlen, if_true, hget', if_false]
      rw [hsame, if_neg hlong]
      exact reads_producing probe (buffer :: buffers)
    · have hshort : (probe ++ buffer).length < 4 := by
        simp only [probeBytes] at hlen
        omega
      have hdrain := Deframer.drain_wait (framer_next_short hshort)
      simp only [reads, read, hlen, if_false, Deframer.feed, Deframer.absorb, hdrain,
        Bool.false_eq_true, List.nil_append]
      exact ih hshort hget

end Intake

end EdgeVision
