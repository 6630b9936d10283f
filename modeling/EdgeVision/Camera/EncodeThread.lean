import EdgeVision.Camera.H264Encoder
import EdgeVision.Stream.FramedTcpClient

/-!
# The encode thread

The loop of `encode_thread` over the images taken from the encode queue, as the overlay leaves them:
every image is encoded, an image for which `encode` returns false is passed over, and every packet
is sent until a `sendPacket` returns false. The metrics touch neither a packet nor the socket and
are left out.
-/

namespace EdgeVision

variable {σ : Type}

/-- The `while` loop from here on, with the packets that `sendPacket` reports as sent. The loop ends
with the images, or at the first `sendPacket` that returns false. -/
def encodeThread (client : FramedTcpClient) (venc : Venc σ) :
    H264Encoder → σ → List Bytes → List SendOutcome → Option (List Bytes × SendReport)
  | _, _, [], outcomes => some ([], ⟨true, [], outcomes⟩)
  | enc, s, image :: images, outcomes =>
    match enc.encode venc s image with
    | ((false, _), enc, s) => encodeThread client venc enc s images outcomes
    | ((true, h264Packet), enc, s) =>
      (client.sendPacket h264Packet outcomes).bind fun first =>
        if first.ok then
          (encodeThread client venc enc s images first.outcomes).map fun rest =>
            (h264Packet :: rest.1, { rest.2 with wire := first.wire ++ rest.2.wire })
        else some ([], first)

section Run

variable {client : FramedTcpClient} {venc : Venc σ} {enc : H264Encoder} {s : σ}
  {images packets : List Bytes} {outcomes : List SendOutcome} {sent : SendReport}

/-- What holds of every packet that `encode` can return holds of every packet sent. -/
theorem forall_encodeThread {P : Bytes → Prop}
    (hP : ∀ enc s image packet, (H264Encoder.encode enc venc s image).1 = (true, packet) →
      P packet)
    (h : encodeThread client venc enc s images outcomes = some (packets, sent)) :
    ∀ p ∈ packets, P p := by
  induction images generalizing enc s packets outcomes sent with
  | nil => cases h; simp
  | cons image images ih =>
    rw [encodeThread] at h
    split at h
    · exact ih h
    · rename_i packet enc' s' hencode
      obtain ⟨first, -, h⟩ := Option.bind_eq_some_iff.mp h
      split at h
      · obtain ⟨rest, hrest, hrun⟩ := Option.map_eq_some_iff.mp h
        cases hrun
        intro p hp
        rcases List.mem_cons.mp hp with rfl | hp
        · exact hP enc s image p (by rw [hencode])
        · exact ih hrest p hp
      · cases h; simp

/-- An encoded packet is never empty. -/
theorem encodeThread_ne_nil
    (h : encodeThread client venc enc s images outcomes = some (packets, sent)) :
    ∀ p ∈ packets, p ≠ [] :=
  forall_encodeThread (fun _ _ _ _ hencode => (H264Encoder.encode_true hencode).1) h

/-- **A run without a failed send has put its packets on the wire**, in order, each behind its
prefix. -/
theorem encodeThread_wire
    (h : encodeThread client venc enc s images outcomes = some (packets, sent))
    (hok : sent.ok = true) : sent.wire = packets.flatMap framed := by
  induction images generalizing enc s packets outcomes sent with
  | nil => cases h; rfl
  | cons image images ih =>
    rw [encodeThread] at h
    split at h
    · exact ih h hok
    · obtain ⟨first, hfirst, h⟩ := Option.bind_eq_some_iff.mp h
      split at h
      · rename_i hsent
        obtain ⟨rest, hrest, hrun⟩ := Option.map_eq_some_iff.mp h
        cases hrun
        rw [List.flatMap_cons, ← client.sendPacket_wire hfirst hsent, ← ih hrest hok]
      · rename_i hfail
        cases h
        exact absurd hok hfail

end Run

end EdgeVision
