import EdgeVision.Camera.EncodeThread
import EdgeVision.Verify.Framing

/-!
# Packet sizes from the encoder to the gateway

The encoder's packets are bounded by the stream buffer alone, the client sends any packet behind the
low 32 bits of its size, and the gateway admits 1 to `maxFrameSize` bytes. The packets of a run of
the encode thread are therefore reassembled and the camera's connection is kept exactly when none of
them is longer than `maxFrameSize` (`packets_agreed_iff`). A stream buffer of that size would be
enough (`packets_agreed_of_buffer`); the one of a full-HD encoder is larger, and a packet that fits
it costs the camera its connection (`oversized_packet_drops_camera`).
-/

namespace EdgeVision

open Lib

/-- The gateway takes the packets of a run as the camera means them, on a connection that it has
just accepted: the four bytes in front of each packet denote its size and, in whatever pieces the
wire is read, exactly the packets are handed on, no bytes are left over and the connection is
kept. -/
structure PacketsAgreed (g : TcpServer) (fd : Fd) (conn : Conn) (packets : List Bytes)
    (wire : Bytes) : Prop where
  denotes : ∀ before packet after, packets = before ++ packet :: after →
    (ntohl (wire.drop (before.flatMap framed).length)).toNat = packet.length
  taken : ∀ reads : List Bytes, (∀ c ∈ reads, 1 ≤ c.length ∧ c.length ≤ readBufferSize) →
    reads.flatten = wire →
    let g' := (g.accept fd conn).readAll fd reads
    g'.sockets[fd]? = some conn ∧ g'.handled = g.handled ++ packets ∧ g'.held fd = []

namespace TcpServer

variable {g : TcpServer} {fd : Fd} {conn : Conn} {packets : List Bytes}

/-- Packets of admitted sizes are taken as they are meant. -/
theorem packetsAgreed_of_valid (hviewer : g.viewers.find? fd = none)
    (hproducer : g.producers[fd]? = none) (hvalid : ∀ p ∈ packets, ValidFrame p) :
    PacketsAgreed g fd conn packets (packets.flatMap framed) := by
  refine ⟨?_, ?_⟩
  · rintro before packet after rfl
    have hpacket : ValidFrame packet := hvalid packet (by simp)
    rw [List.flatMap_append, List.drop_left, List.flatMap_cons, framed, List.append_assoc,
      ntohl_htonl, toNat_prefix hpacket.2]
  · intro reads _ hreads
    have hwait : framer.next [] = .wait := Intake.framer_next_short (by decide)
    have hdrain : framer.drain reads.flatten = ⟨packets, [], false⟩ := by
      have := drain_flatMap_framed hvalid []
      rw [List.append_nil, Deframer.drain_wait hwait, List.append_nil] at this
      rw [hreads, this]
    have hget : ¬ getRequest <+: reads.flatten :=
      not_get_of_framed hvalid (hreads ▸ List.prefix_refl _)
    obtain ⟨-, -, hsocket, hhandled, hheld⟩ :=
      readAll_accepted conn hviewer hproducer hget (by rw [hdrain])
    rw [hdrain] at hhandled hheld
    exact ⟨hsocket, hhandled, hheld⟩

/-- A connection that starts with a request hands on no frame. -/
theorem readAll_get (hviewer : g.viewers.find? fd = none) (hproducer : g.producers[fd]? = none)
    {reads : List Bytes} (hget : getRequest <+: reads.flatten) :
    ((g.accept fd conn).readAll fd reads).handled = g.handled := by
  have hfresh : (g.accept fd conn).Shows fd conn (.probing []) := accept_shows hviewer hproducer
  obtain ⟨-, hhandled⟩ := readAll_sim reads hfresh
  rw [hhandled, Intake.reads_get (by decide) reads hget]
  exact List.append_nil _

/-- A refused prefix costs the connection, however the stream is read. -/
theorem outcome_dropped (hviewer : g.viewers.find? fd = none)
    (hproducer : g.producers[fd]? = none) {stream rest : Bytes} {frames : List Bytes}
    (hget : ¬ getRequest <+: stream) (h : Decomposition stream frames rest)
    (hinvalid : InvalidPrefix rest) {reads : List Bytes} (hreads : reads.flatten = stream) :
    (g.outcome fd conn reads).2 = false := by
  have hlen : (frames.flatMap framed).length + 4 ≤ reads.flatten.length := by
    rw [hreads, h.eq, List.length_append]
    have := hinvalid.1
    omega
  obtain ⟨before, c, after, rfl, hlt, hle⟩ := exists_read_of_le (by omega) hlen
  rw [outcome_of_invalid hviewer hproducer hget h hinvalid hreads hlt hle]

/-- Behind valid packets, a packet that is too long is refused, or its prefix does not denote its
size. -/
theorem not_agreed_of_long (hviewer : g.viewers.find? fd = none)
    (hproducer : g.producers[fd]? = none) {good later : List Bytes} {bad : Bytes}
    (hgood : ∀ p ∈ good, ValidFrame p) (hbad : maxFrameSize < bad.length) :
    ¬ PacketsAgreed g fd conn (good ++ bad :: later) ((good ++ bad :: later).flatMap framed) := by
  intro hagreed
  let rest : Bytes := (bad :: later).flatMap framed
  have hwire : (good ++ bad :: later).flatMap framed = good.flatMap framed ++ rest :=
    List.flatMap_append
  have hdenotes := hagreed.denotes good bad later rfl
  rw [hwire, List.drop_left] at hdenotes
  have hinvalid : InvalidPrefix rest := by
    refine ⟨?_, ?_⟩
    · simp only [rest, List.flatMap_cons, List.length_append, length_framed]
      omega
    · have hlong : bad.length = 0 ∨ maxFrameSize < bad.length := .inr hbad
      simp only [admittedSize, hdenotes, hlong, if_true]
  -- byte by byte, which is one way of reading that the kernel may choose
  let stream : Bytes := (good ++ bad :: later).flatMap framed
  let reads : List Bytes := stream.map fun b => [b]
  have hreads : reads.flatten = stream := by simp [reads, ← List.flatMap_def]
  obtain ⟨hsocket, hhandled, -⟩ := hagreed.taken reads (by simp [reads, readBufferSize]) hreads
  by_cases hget : getRequest <+: stream
  · rw [readAll_get hviewer hproducer (hreads ▸ hget)] at hhandled
    simp at hhandled
  · have hcut : Decomposition stream good rest :=
      ⟨hwire, hgood, not_framed_of_invalid hinvalid⟩
    have hdropped : (g.outcome fd conn reads).2 = false :=
      outcome_dropped hviewer hproducer hget hcut hinvalid hreads
    simp only [outcome, Std.TreeMap.contains_eq_isSome_getElem?, hsocket] at hdropped
    cases hdropped

section Run

variable {σ : Type} {client : FramedTcpClient} {venc : Venc σ} {enc : H264Encoder} {s : σ}
  {images : List Bytes} {outcomes : List SendOutcome} {sent : SendReport}

/-- **Client and gateway agree on the packets of a run exactly when none is longer than
`maxFrameSize`.** -/
theorem packets_agreed_iff
    (hrun : encodeThread client venc enc s images outcomes = some (packets, sent))
    (hok : sent.ok = true) (hviewer : g.viewers.find? fd = none)
    (hproducer : g.producers[fd]? = none) :
    PacketsAgreed g fd conn packets sent.wire ↔ ∀ p ∈ packets, p.length ≤ maxFrameSize := by
  have hne := encodeThread_ne_nil hrun
  rw [encodeThread_wire hrun hok]
  constructor
  · intro hagreed
    by_contra hlong
    have hfound : (packets.find? fun p => decide (maxFrameSize < p.length)).isSome := by
      simpa [List.find?_isSome] using hlong
    obtain ⟨bad, hbad⟩ := Option.isSome_iff_exists.mp hfound
    obtain ⟨hlength, good, later, rfl, hgood⟩ := List.find?_eq_some_iff_append.mp hbad
    refine not_agreed_of_long hviewer hproducer (fun p hp => ?_) (by simpa using hlength) hagreed
    have hle : p.length ≤ maxFrameSize := by simpa using hgood p hp
    exact ⟨List.length_pos_iff.mpr (hne p (by simp [hp])), hle⟩
  · intro hle
    exact packetsAgreed_of_valid hviewer hproducer fun p hp =>
      ⟨List.length_pos_iff.mpr (hne p hp), hle p hp⟩

/-- A stream buffer of at most `maxFrameSize` bytes is enough for client and gateway to agree. -/
theorem packets_agreed_of_buffer {bufSize : Nat} (hfits : venc.StreamFits bufSize)
    (hsmall : bufSize ≤ maxFrameSize)
    (hrun : encodeThread client venc enc s images outcomes = some (packets, sent))
    (hok : sent.ok = true) (hviewer : g.viewers.find? fd = none)
    (hproducer : g.producers[fd]? = none) : PacketsAgreed g fd conn packets sent.wire := by
  have hlength : ∀ p ∈ packets, p.length ≤ bufSize :=
    forall_encodeThread (fun _ _ _ _ hencode => H264Encoder.length_encode_le hfits hencode) hrun
  rw [encodeThread_wire hrun hok]
  exact packetsAgreed_of_valid hviewer hproducer fun p hp =>
    ⟨List.length_pos_iff.mpr (encodeThread_ne_nil hrun p hp),
      Nat.le_trans (hlength p hp) hsmall⟩

end Run

end TcpServer

/-! ## A packet that the gateway refuses -/

/-- The encoder for the default 1920×1080 image, with rows padded to 1088 lines. -/
def fullHdEncoder : H264Encoder where
  width := 1920
  height := 1080
  pts := 0
  inputBufferSize := 1920 * 1088 * 3 / 2
  inputBufferSize_lt := by decide
  virWidth := 1920
  virHeight := 1088
  inputPixelFormat := .yuv420sp
  inputBuffer := some []

/-- A library that returns the same stream, in one pack, for every frame. -/
def onePackVenc (stream : Bytes) : Venc Unit where
  flushCache _ := (rkSuccess, ())
  sendFrame _ _ := (rkSuccess, ())
  getStream _ := (rkSuccess, [⟨0, 0, stream.length⟩], ())
  virAddr _ _ := some stream
  releaseStream _ _ := ()

theorem onePackVenc_fits (stream : Bytes) : (onePackVenc stream).StreamFits stream.length := by
  intro s packs s' hgot
  cases hgot
  exact Nat.le_refl _

theorem encode_onePackVenc {enc : H264Encoder} (hbuffer : enc.inputBuffer.isNone = false)
    {stream : Bytes} (h : stream ≠ []) (yuvData : Bytes) :
    (enc.encode (onePackVenc stream) () yuvData).1 = (true, stream) := by
  simp [H264Encoder.encode, hbuffer, onePackVenc, Venc.assemble, h]

/-- One image, encoded by such a library and sent through a socket with room for everything. -/
theorem encodeThread_onePackVenc {packet : Bytes} (h : packet ≠ []) (image : Bytes) :
    encodeThread ⟨3⟩ (onePackVenc packet) fullHdEncoder () [image]
      [.accepts 4, .accepts packet.length] = some ([packet], ⟨true, framed packet, []⟩) := by
  have hpos : 0 < packet.length := List.length_pos_iff.mpr h
  have htake : ∀ x : UInt32, (htonl x).take 4 = htonl x := fun _ => rfl
  have hencode := @encode_onePackVenc fullHdEncoder rfl packet h image
  have hsend : (FramedTcpClient.mk 3).sendPacket packet [.accepts 4, .accepts packet.length] =
      some ⟨true, framed packet, []⟩ := by
    simp [FramedTcpClient.sendPacket, sendAll, sendAllFrom, framed, hpos, htake]
  rcases hcall : fullHdEncoder.encode (onePackVenc packet) () image with ⟨result, enc, s⟩
  rw [hcall] at hencode
  cases hencode
  simp [encodeThread, hcall, hsend]

/-- A packet of one byte. -/
theorem TcpServer.packets_agreed_one_byte :
    PacketsAgreed .initial 7 0 [[0xAA]] (framed [0xAA]) ↔
      ∀ p ∈ [([0xAA] : Bytes)], p.length ≤ maxFrameSize :=
  TcpServer.packets_agreed_iff (encodeThread_onePackVenc (by decide) []) rfl (by decide) (by decide)

/-- The prefix of `maxFrameSize + 1` bytes is refused, however it is read. -/
theorem refused_of_length {packet : Bytes} (h : packet.length = maxFrameSize + 1)
    {reads : List Bytes} (hreads : reads.flatten = framed packet) :
    (TcpServer.initial.outcome 7 0 reads).2 = false := by
  have hpre : htonl (UInt32.ofNat (maxFrameSize + 1)) = [0, 32, 0, 1] := by decide
  have hframed : framed packet = [0, 32, 0, 1] ++ packet := by rw [framed, h, hpre]
  have hinvalid : InvalidPrefix (framed packet) := by
    refine ⟨by simp, ?_⟩
    rw [hframed, ← admittedSize_take]
    exact (by decide : admittedSize [0, 32, 0, 1] = none)
  have hget : ¬ getRequest <+: framed packet := by
    rw [hframed]
    simp [getRequest]
  have hcut : Decomposition (framed packet) [] (framed packet) :=
    ⟨rfl, by simp, not_framed_of_invalid hinvalid⟩
  exact TcpServer.outcome_dropped (by decide) (by decide) hget hcut hinvalid hreads

/-- A packet of `maxFrameSize + 1` bytes fits the stream buffer of the full-HD encoder, is encoded
for any image and reported as sent, and the gateway closes the camera's connection on it, in
whatever pieces it is read. -/
theorem oversized_packet_drops_camera : ∃ packet : Bytes, packet.length = maxFrameSize + 1 ∧
    (onePackVenc packet).StreamFits fullHdEncoder.inputBufferSize ∧
    (∀ image : Bytes, encodeThread ⟨3⟩ (onePackVenc packet) fullHdEncoder () [image]
      [.accepts 4, .accepts packet.length] = some ([packet], ⟨true, framed packet, []⟩)) ∧
    (∀ reads : List Bytes, reads.flatten = framed packet →
      (TcpServer.initial.outcome 7 0 reads).2 = false) ∧
    ¬ PacketsAgreed .initial 7 0 [packet] (framed packet) := by
  refine ⟨List.replicate (maxFrameSize + 1) 0, List.length_replicate, ?_⟩
  have hlen : (List.replicate (maxFrameSize + 1) (0 : UInt8)).length = maxFrameSize + 1 :=
    List.length_replicate
  generalize List.replicate (maxFrameSize + 1) (0 : UInt8) = packet at hlen ⊢
  have hne : packet ≠ [] := List.ne_nil_of_length_eq_add_one hlen
  refine ⟨?_, encodeThread_onePackVenc hne, fun _ => refused_of_length hlen, ?_⟩
  · intro s packs s' hgot
    apply Nat.le_trans (onePackVenc_fits packet s packs s' hgot)
    rw [hlen]
    decide
  · have hlong : maxFrameSize < packet.length := by omega
    have hnot : ¬ PacketsAgreed .initial 7 0 ([] ++ [packet]) (([] ++ [packet]).flatMap framed) :=
      TcpServer.not_agreed_of_long (by decide) (by decide) (by simp) hlong
    simpa using hnot

end EdgeVision
