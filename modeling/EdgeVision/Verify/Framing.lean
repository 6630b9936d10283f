import EdgeVision.Verify.Intake

/-!
# Framing between the camera and the gateway

The frames that the gateway hands on against the packets that the camera sends, for every way the
kernel cuts the stream on either side.

A byte string has one decomposition into whole valid frames and a rest that starts with none
(`Decomposition`). On a stream that the camera sends, every prefix decomposes into the packets that
are complete in it (`drain_take`), so the round trip does not depend on the reads
(`framing_round_trip`). On an arbitrary stream whose rest starts with an invalid prefix the reads
matter: the read that completes the prefix hands nothing on, so the frames it completes are lost
(`broadcast_exact_iff`).
-/

namespace EdgeVision

open Lib

/-- A size that both ends agree on. -/
def ValidFrame (frame : Bytes) : Prop := 0 < frame.length ∧ frame.length ≤ maxFrameSize

instance (frame : Bytes) : Decidable (ValidFrame frame) := by unfold ValidFrame; infer_instance

/-- A whole prefix that the gateway refuses. -/
def InvalidPrefix (l : Bytes) : Prop := 4 ≤ l.length ∧ admittedSize l = none

instance (l : Bytes) : Decidable (InvalidPrefix l) := by unfold InvalidPrefix; infer_instance

/-- The packets whose last byte is among the first `k` bytes of the wire. -/
def packetsWithin : Nat → List Bytes → List Bytes
  | _, [] => []
  | k, packet :: packets =>
    if 4 + packet.length ≤ k then packet :: packetsWithin (k - (4 + packet.length)) packets else []

/-! ## Frames at the front of a buffer -/

theorem toNat_prefix {n : Nat} (h : n ≤ maxFrameSize) : (UInt32.ofNat n).toNat = n := by
  simp only [maxFrameSize] at h
  rw [UInt32.toNat_ofNat']
  omega

theorem admittedSize_htonl {frame : Bytes} (h : ValidFrame frame) (rest : Bytes) :
    admittedSize (htonl (UInt32.ofNat frame.length) ++ rest) = some frame.length := by
  obtain ⟨hpos, hle⟩ := h
  have hsize : ¬ (frame.length = 0 ∨ maxFrameSize < frame.length) := by omega
  simp only [admittedSize, ntohl_htonl, toNat_prefix hle, hsize, if_false]

/-- A valid frame at the front of a buffer is its first item. -/
theorem drain_framed {frame : Bytes} (h : ValidFrame frame) (rest : Bytes) :
    framer.drain (framed frame ++ rest) =
      ⟨frame :: (framer.drain rest).items, (framer.drain rest).rest,
        (framer.drain rest).refused⟩ :=
  Deframer.drain_frame (by decide) rest (length_htonl _)
    (by simpa using admittedSize_htonl h [])

theorem drain_flatMap_framed {frames : List Bytes} (h : ∀ f ∈ frames, ValidFrame f)
    (rest : Bytes) :
    framer.drain (frames.flatMap framed ++ rest) =
      ⟨frames ++ (framer.drain rest).items, (framer.drain rest).rest,
        (framer.drain rest).refused⟩ := by
  induction frames with
  | nil => rfl
  | cons frame frames ih =>
    have htail : ∀ f ∈ frames, ValidFrame f := fun f hf => h f (by simp [hf])
    rw [List.flatMap_cons, List.append_assoc, drain_framed (h frame (by simp)), ih htail]
    rfl

/-- A proper part of a valid frame keeps the gateway waiting. -/
theorem framer_next_part {frame : Bytes} (h : ValidFrame frame) {k : Nat}
    (hk : k < 4 + frame.length) : framer.next ((framed frame).take k) = .wait := by
  rw [framer_next, Deframer.lookPrefixed_wait_iff]
  by_cases hshort : k < 4
  · left
    simp only [List.length_take, length_framed]
    omega
  · right
    refine ⟨frame.length, ?_, ?_⟩
    · have htake : ((framed frame).take k).take 4 = htonl (UInt32.ofNat frame.length) := by
        rw [List.take_take, Nat.min_eq_left (by omega), framed]
        exact List.take_left' (length_htonl _)
      rw [htake]
      simpa using admittedSize_htonl h []
    · simp only [List.length_take, length_framed]
      omega

/-- The item that a look takes off is a valid frame with its prefix. -/
theorem framer_item {l frame : Bytes} {n : Nat} (h : framer.next l = .item frame n) :
    ValidFrame frame ∧ l = framed frame ++ l.drop n := by
  obtain ⟨hle, hlen, hsize, rfl⟩ := Deframer.lookPrefixed_item h
  rw [admittedSize_take] at hsize
  simp only [admittedSize] at hsize
  split at hsize
  · cases hsize
  · rename_i hvalid
    have hn : (ntohl l).toNat = n - 4 := Option.some.inj hsize
    have hbody : ((l.take n).drop 4).length = n - 4 := by
      simp only [List.length_drop, List.length_take]
      omega
    have hpre : htonl (UInt32.ofNat (n - 4)) = (l.take n).take 4 := by
      rw [← hn, UInt32.ofNat_toNat, htonl_ntohl (by omega), List.take_take,
        Nat.min_eq_left hle]
    refine ⟨⟨by omega, by omega⟩, ?_⟩
    rw [framed, hbody, hpre, List.take_append_drop, List.take_append_drop]

/-- Frames and rest of a drain put the buffer together again. -/
theorem drain_framed_append (l : Bytes) :
    (framer.drain l).items.flatMap framed ++ (framer.drain l).rest = l ∧
      ∀ f ∈ (framer.drain l).items, ValidFrame f := by
  induction l using framer.drain_induction with
  | hwait l h => simp [Deframer.drain_wait h]
  | hrefuse l h => simp [Deframer.drain_refuse h]
  | hitem l a n h ih =>
    obtain ⟨hvalid, hl⟩ := framer_item h
    obtain ⟨happ, hitems⟩ := ih
    rw [Deframer.drain_item h]
    refine ⟨?_, ?_⟩
    · rw [List.flatMap_cons, List.append_assoc, happ]
      exact hl.symm
    · intro f hf
      rcases List.mem_cons.mp hf with rfl | hf
      · exact hvalid
      · exact hitems f hf

theorem framer_next_invalid {l : Bytes} (h : InvalidPrefix l) : framer.next l = .refuse := by
  obtain ⟨hlen, hnone⟩ := h
  simp only [framer_next, Deframer.lookPrefixed, if_neg (Nat.not_lt.mpr hlen), admittedSize_take,
    hnone]

/-! ## The packets of a prefix of the wire -/

theorem packetsWithin_of_le {packets : List Bytes} {k : Nat}
    (h : (packets.flatMap framed).length ≤ k) : packetsWithin k packets = packets := by
  induction packets generalizing k with
  | nil => rfl
  | cons packet packets ih =>
    simp only [List.flatMap_cons, List.length_append, length_framed] at h
    rw [packetsWithin, if_pos (by omega), ih (by omega)]

/-- Packets that are complete are followed by those complete in the rest. -/
theorem packetsWithin_append {packets more : List Bytes} {k : Nat}
    (h : (packets.flatMap framed).length ≤ k) :
    packetsWithin k (packets ++ more) =
      packets ++ packetsWithin (k - (packets.flatMap framed).length) more := by
  induction packets generalizing k with
  | nil => rfl
  | cons packet packets ih =>
    simp only [List.flatMap_cons, List.length_append, length_framed] at h ⊢
    rw [List.cons_append, packetsWithin, if_pos (by omega), ih (by omega), List.cons_append,
      Nat.sub_sub]

/-- All packets are complete in a prefix only if the prefix is the whole wire. -/
theorem packetsWithin_eq_self_iff {packets : List Bytes} {k : Nat} :
    packetsWithin k packets = packets ↔ (packets.flatMap framed).length ≤ k := by
  refine ⟨fun h => ?_, packetsWithin_of_le⟩
  induction packets generalizing k with
  | nil => simp
  | cons packet packets ih =>
    rw [packetsWithin] at h
    split at h
    · have htail := ih (List.tail_eq_of_cons_eq h)
      simp only [List.flatMap_cons, List.length_append, length_framed]
      omega
    · cases h

theorem packetsWithin_prefix_self (k : Nat) (packets : List Bytes) : packetsWithin k packets <+: packets := by
  induction packets generalizing k with
  | nil => exact List.prefix_refl _
  | cons packet packets ih =>
    rw [packetsWithin]
    split
    · exact (List.prefix_cons_inj packet).mpr (ih _)
    · exact List.nil_prefix

/-- **A prefix of the wire drains to the packets complete in it**, and is never refused. -/
theorem drain_take {packets : List Bytes} (h : ∀ p ∈ packets, ValidFrame p) (k : Nat) :
    (framer.drain ((packets.flatMap framed).take k)).items = packetsWithin k packets ∧
      (framer.drain ((packets.flatMap framed).take k)).refused = false := by
  induction packets generalizing k with
  | nil =>
    have hwait : framer.next [] = .wait := Intake.framer_next_short (by decide)
    simp [Deframer.drain_wait hwait, packetsWithin]
  | cons packet packets ih =>
    have hhead : ValidFrame packet := h packet (by simp)
    rw [List.flatMap_cons, packetsWithin]
    by_cases hk : 4 + packet.length ≤ k
    · obtain ⟨hitems, hrefused⟩ := ih (fun p hp => h p (by simp [hp])) (k - (4 + packet.length))
      have htake : (framed packet ++ packets.flatMap framed).take k =
          framed packet ++ (packets.flatMap framed).take (k - (4 + packet.length)) := by
        rw [List.take_append, length_framed,
          List.take_of_length_le (by simp only [length_framed]; omega)]
      rw [htake, drain_framed hhead, if_pos hk, hitems]
      exact ⟨rfl, hrefused⟩
    · have htake : (framed packet ++ packets.flatMap framed).take k = (framed packet).take k :=
        List.take_append_of_le_length (by simp only [length_framed]; omega)
      rw [htake, Deframer.drain_wait (framer_next_part hhead (by omega)), if_neg hk]
      exact ⟨rfl, rfl⟩

/-- No legal prefix looks like a request: `"GET "` announces more than `maxFrameSize` bytes. -/
theorem not_get_of_framed {packets : List Bytes} (h : ∀ p ∈ packets, ValidFrame p) {l : Bytes}
    (hl : l <+: packets.flatMap framed) : ¬ getRequest <+: l := by
  intro hget
  obtain ⟨t, ht⟩ := hget.trans hl
  have hsize : admittedSize (packets.flatMap framed) = none := by
    rw [← ht, ← admittedSize_take]
    exact (by decide : admittedSize getRequest = none)
  cases packets with
  | nil => simp [getRequest] at ht
  | cons packet packets =>
    rw [List.flatMap_cons, framed, List.append_assoc, admittedSize_htonl (h packet (by simp))]
      at hsize
    cases hsize

/-! ## The round trip -/

namespace TcpServer

/-- The bytes kept for a connection that is not a viewer. -/
def held (g : TcpServer) (fd : Fd) : Bytes :=
  (g.pendingProbe[fd]?).getD [] ++ ((g.producers[fd]?).map ProducerState.recvBuffer).getD []

variable {g : TcpServer} {fd : Fd} {conn : Conn}

/-- What the tables show of a connection whose stream is not refused. -/
theorem shows_held {i : Intake} {buffer : Bytes} (h : g.Shows fd conn i)
    (hheld : i.held = some buffer) :
    g.viewers.find? fd = none ∧ g.sockets[fd]? = some conn ∧ g.held fd = buffer := by
  cases i with
  | watching => cases hheld
  | gone => cases hheld
  | _ =>
    simp only [Shows, entry, Prod.mk.injEq] at h
    obtain ⟨hviewer, hproducer, hprobe, hsocket⟩ := h
    refine ⟨hviewer, hsocket, ?_⟩
    simpa [TcpServer.held, hproducer, hprobe, Intake.held] using hheld

/-- The reads of a freshly accepted connection whose stream is acceptable so far. -/
theorem readAll_accepted (conn : Conn) (hviewer : g.viewers.find? fd = none)
    (hproducer : g.producers[fd]? = none)
    {reads : List Bytes} (hget : ¬ getRequest <+: reads.flatten)
    (haccepted : (framer.drain reads.flatten).refused = false) :
    let g' := (g.accept fd conn).readAll fd reads
    g'.viewers.find? fd = none ∧ (4 ≤ reads.flatten.length → g'.producers.contains fd = true) ∧
      g'.sockets[fd]? = some conn ∧
      g'.handled = g.handled ++ (framer.drain reads.flatten).items ∧
      g'.held fd = (framer.drain reads.flatten).rest := by
  intro g'
  have hfresh : (g.accept fd conn).Shows fd conn (.probing []) := accept_shows hviewer hproducer
  obtain ⟨hshows, hhandled⟩ := readAll_sim reads hfresh
  obtain ⟨hheld, hitems, hkind⟩ := @Intake.reads_spec [] (by decide) reads hget
  have hfeed := Deframer.feed_of_accepted (Intake.framer_next_short (l := []) (by decide)) reads
    haccepted
  rw [hfeed] at hheld hitems
  obtain ⟨hv, hs, hbuffer⟩ := shows_held hshows hheld
  refine ⟨hv, ?_, hs, ?_, hbuffer⟩
  · intro hlong
    rw [List.nil_append, if_neg (by omega)] at hkind
    rcases hkind with hgone | ⟨rest, hproducing⟩
    · rw [hgone] at hheld
      cases hheld
    · rw [hproducing] at hshows
      simp only [Shows, entry, Prod.mk.injEq] at hshows
      rw [Std.TreeMap.contains_eq_isSome_getElem?, hshows.2.1]
      rfl
  · rw [hhandled, hitems]
    rfl

/-- **The framing round trip.** Packets that the client reports as sent are on the wire, each behind
its length and nothing else. Read by the gateway in any pieces, the connection is taken for a producer
and is kept, the frames handed on are exactly the packets whose last byte has been read, and the
bytes behind them are held. -/
theorem framing_round_trip {client : FramedTcpClient} {packets : List Bytes}
    (hsize : ∀ p ∈ packets, 1 ≤ p.length ∧ p.length ≤ maxFrameSize) {outcomes : List SendOutcome}
    {sent : SendReport} (hsent : client.sendPackets packets outcomes = some sent)
    (hok : sent.ok = true) (hviewer : g.viewers.find? fd = none)
    (hproducer : g.producers[fd]? = none) {reads : List Bytes} (hreads : reads.flatten <+: sent.wire) :
    let k := reads.flatten.length
    let g' := (g.accept fd conn).readAll fd reads
    sent.wire = packets.flatMap framed ∧
      g'.viewers.contains fd = false ∧ (4 ≤ k → g'.producers.contains fd = true) ∧
      g'.sockets[fd]? = some conn ∧
      g'.handled = g.handled ++ packetsWithin k packets ∧
      (packetsWithin k packets).flatMap framed ++ g'.held fd = sent.wire.take k := by
  intro k g'
  have hwire : sent.wire = packets.flatMap framed := client.sendPackets_wire hsent hok
  refine ⟨hwire, ?_⟩
  rw [hwire] at hreads ⊢
  have hstream : reads.flatten = (packets.flatMap framed).take k :=
    List.prefix_iff_eq_take.mp hreads
  obtain ⟨hitems, haccepted⟩ := drain_take hsize k
  have hget := not_get_of_framed hsize hreads
  rw [← hstream] at hitems haccepted
  obtain ⟨hv, hp, hs, hhandled, hheld⟩ :=
    readAll_accepted conn hviewer hproducer hget haccepted
  refine ⟨?_, hp, hs, ?_, ?_⟩
  · simp [ViewerTable.contains, g', hv]
  · rw [hhandled, hitems]
  · rw [hheld, ← hitems, ← hstream]
    exact (drain_framed_append reads.flatten).1

/-- Two short writes and an interrupted call on the camera's side, reads that cut the prefixes on
the gateway's side: the second packet is still incomplete. -/
theorem framing_round_trip_two_packets :
    let reads : List Bytes := [[0, 0], [0, 1, 0xAA, 0, 0], [0]]
    let g' := (initial.accept 7 0).readAll 7 reads
    [0, 0, 0, 1, 0xAA, 0, 0, 0, 2, 0xBB, 0xCC] = [[0xAA], [0xBB, 0xCC]].flatMap framed ∧
      g'.viewers.contains 7 = false ∧ (4 ≤ 8 → g'.producers.contains 7 = true) ∧
      g'.sockets[7]? = some 0 ∧ g'.handled = [] ++ packetsWithin 8 [[0xAA], [0xBB, 0xCC]] ∧
      (packetsWithin 8 [[0xAA], [0xBB, 0xCC]]).flatMap framed ++ g'.held 7 =
        [0, 0, 0, 1, 0xAA, 0, 0, 0] :=
  framing_round_trip
    (show ∀ p ∈ [[0xAA], [0xBB, 0xCC]], 1 ≤ p.length ∧ p.length ≤ maxFrameSize by decide)
    (show (FramedTcpClient.mk 3).sendPackets [[0xAA], [0xBB, 0xCC]]
        [.accepts 9, .fails .eintr, .accepts 1, .accepts 3, .fails .eagain, .accepts 1, .accepts 1,
          .accepts 1] =
      some ⟨true, [0, 0, 0, 1, 0xAA, 0, 0, 0, 2, 0xBB, 0xCC], []⟩ by decide)
    rfl (by decide) (by decide)
    (show [[0, 0], [0, 1, 0xAA, 0, 0], [0]].flatten <+:
      [0, 0, 0, 1, 0xAA, 0, 0, 0, 2, 0xBB, 0xCC] by decide)

end TcpServer

/-! ## Arbitrary producer streams -/

/-- The decomposition of a byte string into its whole valid frames, taken off the front as long as
there is one, and the rest. -/
structure Decomposition (stream : Bytes) (frames : List Bytes) (rest : Bytes) : Prop where
  eq : stream = frames.flatMap framed ++ rest
  valid : ∀ f ∈ frames, ValidFrame f
  maximal : ∀ f t, ValidFrame f → rest ≠ framed f ++ t

/-- Every byte string has its decomposition. -/
theorem exists_decomposition (stream : Bytes) :
    ∃ frames rest, Decomposition stream frames rest := by
  obtain ⟨happ, hvalid⟩ := drain_framed_append stream
  refine ⟨_, _, happ.symm, hvalid, ?_⟩
  intro f t hf heq
  have hitem : framer.next (framer.drain stream).rest = .item f (framed f).length := by
    rw [heq]
    exact Deframer.next_frame (by decide) t (length_htonl _)
      (by simpa using admittedSize_htonl hf [])
  cases hrefused : (framer.drain stream).refused with
  | true => rw [Deframer.next_rest_of_refused hrefused] at hitem; cases hitem
  | false => rw [Deframer.next_rest_of_accepted hrefused] at hitem; cases hitem

/-- A rest that starts with an invalid prefix starts with no valid frame. -/
theorem not_framed_of_invalid {rest : Bytes} (h : InvalidPrefix rest) (f t : Bytes)
    (hf : ValidFrame f) : rest ≠ framed f ++ t := by
  rintro rfl
  have hnone := h.2
  rw [framed, List.append_assoc, admittedSize_htonl hf] at hnone
  cases hnone

theorem Decomposition.drain {stream rest : Bytes} {frames : List Bytes}
    (h : Decomposition stream frames rest) :
    framer.drain stream = ⟨frames, rest, decide (InvalidPrefix rest)⟩ := by
  rw [h.eq, drain_flatMap_framed h.valid]
  by_cases hinvalid : InvalidPrefix rest
  · rw [Deframer.drain_refuse (framer_next_invalid hinvalid)]
    simp [hinvalid]
  · cases hnext : framer.next rest with
    | wait => rw [Deframer.drain_wait hnext]; simp [hinvalid]
    | refuse =>
      obtain ⟨hlen, hnone⟩ := Deframer.lookPrefixed_refuse hnext
      rw [admittedSize_take] at hnone
      exact absurd ⟨hlen, hnone⟩ hinvalid
    | item a n =>
      obtain ⟨hvalid, hrest⟩ := framer_item hnext
      exact absurd hrest (h.maximal a _ hvalid)

/-- **A prefix of a stream with an invalid prefix**: it is refused once the four bytes of the
prefix are in it, and before that drains to the frames complete in it. -/
theorem Decomposition.drain_take {stream rest : Bytes} {frames : List Bytes}
    (h : Decomposition stream frames rest) (hinvalid : InvalidPrefix rest) (k : Nat) :
    (framer.drain (stream.take k)).items = packetsWithin k frames ∧
      (framer.drain (stream.take k)).refused =
        decide ((frames.flatMap framed).length + 4 ≤ k) := by
  rw [h.eq]
  by_cases hk : k ≤ (frames.flatMap framed).length
  · rw [List.take_append_of_le_length hk, decide_eq_false (by omega)]
    exact EdgeVision.drain_take h.valid k
  · have htake : (frames.flatMap framed ++ rest).take k =
        frames.flatMap framed ++ rest.take (k - (frames.flatMap framed).length) := by
      rw [List.take_append, List.take_of_length_le (by omega)]
    rw [htake, drain_flatMap_framed h.valid, packetsWithin_of_le (by omega)]
    obtain ⟨hlen, hnone⟩ := hinvalid
    by_cases hwhole : (frames.flatMap framed).length + 4 ≤ k
    · have hrefuse : framer.next (rest.take (k - (frames.flatMap framed).length)) = .refuse := by
        apply framer_next_invalid
        refine ⟨by simp only [List.length_take]; omega, ?_⟩
        rw [← admittedSize_take, List.take_take, Nat.min_eq_left (by omega), admittedSize_take,
          hnone]
      rw [Deframer.drain_refuse hrefuse, decide_eq_true hwhole, List.append_nil]
      exact ⟨rfl, rfl⟩
    · have hwait : framer.next (rest.take (k - (frames.flatMap framed).length)) = .wait :=
        Intake.framer_next_short (by simp only [List.length_take]; omega)
      rw [Deframer.drain_wait hwait, decide_eq_false hwhole, List.append_nil]
      exact ⟨rfl, rfl⟩

/-- The read in which the `t`-th byte of a stream arrives. -/
theorem exists_read_of_le {reads : List Bytes} {t : Nat} (hpos : 0 < t)
    (h : t ≤ reads.flatten.length) :
    ∃ before c after, reads = before ++ c :: after ∧ before.flatten.length < t ∧
      t ≤ (before ++ [c]).flatten.length := by
  induction reads generalizing t with
  | nil => simp at h; omega
  | cons c reads ih =>
    by_cases hc : t ≤ c.length
    · exact ⟨[], c, reads, rfl, by simpa using hpos, by simpa using hc⟩
    · have hrest : t - c.length ≤ reads.flatten.length := by
        simp only [List.flatten_cons, List.length_append] at h
        omega
      obtain ⟨before, c', after, rfl, hlt, hle⟩ := ih (by omega) hrest
      refine ⟨c :: before, c', after, rfl, ?_, ?_⟩
      · simp only [List.flatten_cons, List.length_append]
        omega
      · simp only [List.cons_append, List.flatten_cons, List.length_append] at hle ⊢
        omega

/-- Only one read brings the `t`-th byte. -/
theorem read_unique {before after before' after' : List Bytes} {c c' : Bytes} {t : Nat}
    (heq : before ++ c :: after = before' ++ c' :: after')
    (hlt : before.flatten.length < t) (hle : t ≤ (before ++ [c]).flatten.length)
    (hlt' : before'.flatten.length < t) (hle' : t ≤ (before' ++ [c']).flatten.length) :
    before = before' := by
  have key : ∀ {b a b' a' : List Bytes} {d d' : Bytes}, t ≤ (b ++ [d]).flatten.length →
      b'.flatten.length < t → (∃ x, b' = b ++ x ∧ d :: a = x ++ d' :: a') → b = b' := by
    rintro b a b' a' d d' hd hb' ⟨x, rfl, hx⟩
    cases x with
    | nil => simp
    | cons y x =>
      rw [List.cons_append] at hx
      obtain ⟨rfl, -⟩ := List.cons.inj hx
      simp only [List.flatten_append, List.flatten_cons, List.flatten_nil, List.length_append,
        List.append_nil] at hd hb'
      omega
  rcases List.append_eq_append_iff.mp heq with h | h
  · exact key hle hlt' h
  · exact (key hle' hlt h).symm

namespace TcpServer

variable {g : TcpServer} {fd : Fd} {conn : Conn}

/-- What the gateway makes of a connection's bytes: the frames that `handleCompleteFrame` has been
called with, and whether the connection is kept. -/
def outcome (g : TcpServer) (fd : Fd) (conn : Conn) (reads : List Bytes) : List Bytes × Bool :=
  let g' := (g.accept fd conn).readAll fd reads
  (g'.handled, g'.sockets.contains fd)

/-- No frame shares its last read with the first invalid prefix: the read that brings the last byte
of the prefix starts behind the last frame. -/
def PrefixReadAlone (frames : List Bytes) (rest : Bytes) (reads : List Bytes) : Prop :=
  InvalidPrefix rest → ∀ before c after, reads = before ++ c :: after →
    before.flatten.length < (frames.flatMap framed).length + 4 →
    (frames.flatMap framed).length + 4 ≤ (before ++ [c]).flatten.length →
    (frames.flatMap framed).length ≤ before.flatten.length

/-- The frames and the verdict for one way of reading a stream with an invalid prefix. -/
theorem outcome_of_invalid (hviewer : g.viewers.find? fd = none)
    (hproducer : g.producers[fd]? = none) {stream rest : Bytes} {frames : List Bytes}
    (hget : ¬ getRequest <+: stream) (h : Decomposition stream frames rest)
    (hinvalid : InvalidPrefix rest) {before after : List Bytes} {c : Bytes}
    (hreads : (before ++ c :: after).flatten = stream)
    (hlt : before.flatten.length < (frames.flatMap framed).length + 4)
    (hle : (frames.flatMap framed).length + 4 ≤ (before ++ [c]).flatten.length) :
    g.outcome fd conn (before ++ c :: after) =
      (g.handled ++ packetsWithin before.flatten.length frames, false) := by
  have hstream : stream = before.flatten ++ (c ++ after.flatten) := by
    rw [← hreads]
    simp
  have hbefore : before.flatten = stream.take before.flatten.length := by
    rw [hstream]
    exact List.take_left.symm
  have hupto : before.flatten ++ c = stream.take (before ++ [c]).flatten.length := by
    rw [hstream, ← List.append_assoc]
    exact (List.take_left' (by simp)).symm
  obtain ⟨hitems, haccepted⟩ := h.drain_take hinvalid before.flatten.length
  obtain ⟨-, hrefused⟩ := h.drain_take hinvalid (before ++ [c]).flatten.length
  rw [← hbefore, decide_eq_false (by omega)] at haccepted
  rw [← hbefore] at hitems
  rw [← hupto, decide_eq_true hle] at hrefused
  have hfresh : (g.accept fd conn).Shows fd conn (.probing []) := accept_shows hviewer hproducer
  obtain ⟨hshows, hhandled⟩ := readAll_sim (before ++ c :: after) hfresh
  have hfeed := Deframer.feed_of_refused (Intake.framer_next_short (l := []) (by decide)) after
    haccepted hrefused
  rw [List.nil_append] at hfeed
  rw [← hreads] at hget
  obtain ⟨hheld, hframes, hkind⟩ := @Intake.reads_spec [] (by decide) _ hget
  rw [hfeed] at hheld hframes
  have hlong : ¬ ([] ++ (before ++ c :: after).flatten).length < 4 := by
    simp only [List.flatten_append, List.flatten_cons, List.flatten_nil, List.nil_append,
      List.append_nil, List.length_append] at hle ⊢
    omega
  rw [if_neg hlong] at hkind
  rcases hkind with hgone | ⟨buffer, hproducing⟩
  · rw [hgone] at hshows
    simp only [Shows, entry, Prod.mk.injEq] at hshows
    simp only [outcome, hhandled, hframes, hitems, Std.TreeMap.contains_eq_isSome_getElem?,
      hshows.2.2.2]
    rfl
  · rw [hproducing] at hheld
    cases hheld

/-- One way of reading a stream gives the frames of its decomposition exactly when no frame shares
a read with the end of the first invalid prefix. -/
theorem outcome_exact_iff (hviewer : g.viewers.find? fd = none)
    (hproducer : g.producers[fd]? = none) {stream rest : Bytes} {frames : List Bytes}
    (hget : ¬ getRequest <+: stream) (h : Decomposition stream frames rest) {reads : List Bytes}
    (hreads : reads.flatten = stream) :
    g.outcome fd conn reads = (g.handled ++ frames, !decide (InvalidPrefix rest)) ↔
      PrefixReadAlone frames rest reads := by
  by_cases hinvalid : InvalidPrefix rest
  · have hlen : (frames.flatMap framed).length + 4 ≤ reads.flatten.length := by
      rw [hreads, h.eq, List.length_append]
      have := hinvalid.1
      omega
    obtain ⟨before, c, after, rfl, hlt, hle⟩ := exists_read_of_le (by omega) hlen
    rw [outcome_of_invalid hviewer hproducer hget h hinvalid hreads hlt hle]
    simp only [hinvalid, decide_true, Bool.not_true, Prod.mk.injEq, List.append_cancel_left_eq,
      and_true, packetsWithin_eq_self_iff]
    constructor
    · intro hq _ before' c' after' heq hlt' hle'
      rw [← read_unique heq hlt hle hlt' hle']
      exact hq
    · intro halone
      exact halone hinvalid before c after rfl hlt hle
  · have haccepted : (framer.drain reads.flatten).refused = false := by
      rw [hreads, h.drain]
      simpa using hinvalid
    rw [← hreads] at hget
    obtain ⟨-, -, hsocket, hhandled, -⟩ :=
      readAll_accepted conn hviewer hproducer hget haccepted
    rw [hreads, h.drain] at hhandled
    simp only [outcome, hhandled, Std.TreeMap.contains_eq_isSome_getElem?, hsocket, hinvalid,
      decide_false, Bool.not_false, Option.isSome_some, true_iff]
    exact fun hinv => absurd hinv hinvalid

/-- **Broadcast and the reads.** Two ways of reading a producer's stream give the same frames and
verdict, those of the decomposition of the stream, exactly when in neither of them a frame shares a
read with the end of the first invalid prefix. -/
theorem broadcast_exact_iff (hviewer : g.viewers.find? fd = none)
    (hproducer : g.producers[fd]? = none) {stream rest : Bytes} {frames : List Bytes}
    (hget : ¬ getRequest <+: stream) (h : Decomposition stream frames rest)
    {reads₁ reads₂ : List Bytes} (h₁ : reads₁.flatten = stream) (h₂ : reads₂.flatten = stream) :
    (g.outcome fd conn reads₁ = g.outcome fd conn reads₂ ∧
      g.outcome fd conn reads₁ = (g.handled ++ frames, !decide (InvalidPrefix rest))) ↔
    PrefixReadAlone frames rest reads₁ ∧ PrefixReadAlone frames rest reads₂ := by
  rw [← outcome_exact_iff hviewer hproducer hget h h₁,
    ← outcome_exact_iff hviewer hproducer hget h h₂]
  constructor
  · rintro ⟨hsame, hexact⟩
    exact ⟨hexact, hsame ▸ hexact⟩
  · rintro ⟨hexact₁, hexact₂⟩
    exact ⟨hexact₁.trans hexact₂.symm, hexact₁⟩

theorem broadcast_exact_iff_one_frame :
    (initial.outcome 7 0 [[0, 0, 0, 1, 0xAA], [0, 0, 0, 0]] =
        initial.outcome 7 0 [[0, 0], [0, 1, 0xAA, 0], [0, 0, 0]] ∧
      initial.outcome 7 0 [[0, 0, 0, 1, 0xAA], [0, 0, 0, 0]] =
        ([] ++ [[0xAA]], !decide (InvalidPrefix [0, 0, 0, 0]))) ↔
    PrefixReadAlone [[0xAA]] [0, 0, 0, 0] [[0, 0, 0, 1, 0xAA], [0, 0, 0, 0]] ∧
      PrefixReadAlone [[0xAA]] [0, 0, 0, 0] [[0, 0], [0, 1, 0xAA, 0], [0, 0, 0]] :=
  broadcast_exact_iff (by decide) (by decide) (by decide)
    ⟨rfl, by decide, not_framed_of_invalid (by decide)⟩ rfl rfl

/-- A good frame and a bad prefix behind it: read together the frame is lost, read one after the
other it is handed on. -/
theorem frame_lost_with_bad_prefix :
    [[0, 0, 0, 1, 0xAA, 0, 0, 0, 0]].flatten = [[0, 0, 0, 1, 0xAA], [0, 0, 0, 0]].flatten ∧
    initial.outcome 7 0 [[0, 0, 0, 1, 0xAA, 0, 0, 0, 0]] = ([], false) ∧
    initial.outcome 7 0 [[0, 0, 0, 1, 0xAA], [0, 0, 0, 0]] = ([[0xAA]], false) := by
  decide +kernel

end TcpServer

end EdgeVision
