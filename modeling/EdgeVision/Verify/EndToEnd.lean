import EdgeVision.Stream.Deployment
import EdgeVision.Verify.Delivery
import EdgeVision.Verify.QueueFlow

/-!
# From the camera to the viewers

What the gateway hands on from the camera's connection are the packets that the encode thread has
made of captured frames, in the order of their capture, and nothing else: a packet that
`sendPacket` gives up is never handed on, and one that it reports as sent is, as soon as the gateway
has read what the socket has accepted (`packets_delivered`).

The argument goes along the way of a packet: the encode thread's frames (`InOrder`), the socket of
the camera (`OnWire`), and what the gateway has read of it.
-/

namespace EdgeVision

open Lib

/-! ## The frames of the encode thread -/

/-- The frame that the encode thread has popped and not encoded. -/
def EncodePc.inHand : EncodePc → List CapturedFrame
  | apply frame => [frame]
  | draw frame _ _ => [frame]
  | encode frame => [frame]
  | _ => []

theorem DetectionOverlay.applySnapshot_sequence (overlay : DetectionOverlay)
    (outOfRangeCast : ExtRat → Int) (snapshot : Snapshot) (frame : CapturedFrame) :
    (overlay.applySnapshot outOfRangeCast snapshot frame).sequence = frame.sequence := by
  unfold applySnapshot
  split_ifs <;> rfl

/-- The numbers of frames. -/
def numbers (frames : List CapturedFrame) : List Nat := frames.map CapturedFrame.sequence

/-- The encode thread encodes frames in the order in which it pops them. -/
def InOrder (camera : Pipeline) (encoded : List CapturedFrame) : Prop :=
  (numbers (encoded ++ camera.encode.inHand)).Sublist (numbers camera.encodeQueue.popped)

namespace InOrder

variable {c : Settings} {s t : Pipeline} {encoded : List CapturedFrame}

theorem keep (h : InOrder s encoded) (hkeeps : s.KeepsEncode t) : InOrder t encoded := by
  unfold InOrder
  rw [hkeeps.encode, hkeeps.encodePopped]
  exact h

/-- A frame that is not encoded is passed over. -/
theorem encodeStep {ok : Bool} {packet : Option Bytes} (h : InOrder s encoded)
    (hstep : s.encodeStep c ok packet = some t) : InOrder t encoded := by
  have hover : (numbers encoded).Sublist (numbers s.encodeQueue.popped) :=
    ((List.sublist_append_left encoded _).map _).trans h
  cases hpc : s.encode <;> simp only [Pipeline.encodeStep, hpc] at hstep
  case pop =>
    obtain ⟨r, hpop, rfl⟩ := Option.map_eq_some_iff.mp hstep
    obtain ⟨r', -, rfl⟩ := Option.map_eq_some_iff.mp hpop
    simp only [InOrder, numbers, hpc, EncodePc.inHand, List.append_nil] at h ⊢
    cases r'.1 with
    | none => simpa [EncodePc.inHand] using h
    | some frame => simpa [EncodePc.inHand] using h.append (List.Sublist.refl [frame.sequence])
  case apply frame =>
    unfold InOrder at h
    rw [hpc] at h
    split at hstep <;> cases hstep <;> exact h
  case draw frame snapshot updates =>
    cases hstep
    simpa [InOrder, numbers, hpc, EncodePc.inHand, Pipeline.finishApply,
      DetectionOverlay.applySnapshot_sequence] using h
  case connectOnce =>
    cases hstep
    cases ok <;> simpa [InOrder, EncodePc.inHand] using hover
  case test =>
    cases hstep
    cases s.running <;> simpa [InOrder, EncodePc.inHand] using hover
  case encode frame =>
    cases hstep
    cases packet <;> simpa [InOrder, EncodePc.inHand] using hover
  case sendPacket p =>
    cases hstep
    cases ok <;> simpa [InOrder, EncodePc.inHand] using hover
  all_goals cases hstep
  all_goals simpa [InOrder, EncodePc.inHand, LoggedQueue.stop] using hover

/-- A frame that is encoded comes behind the others. -/
theorem encode {frame : CapturedFrame} {ok : Bool} {p : Bytes} (h : InOrder s encoded)
    (hpc : s.encode = .encode frame) (hstep : s.encodeStep c ok (some p) = some t) :
    InOrder t (encoded ++ [frame]) := by
  simp only [Pipeline.encodeStep, hpc, Option.some.injEq] at hstep
  subst hstep
  simpa [InOrder, hpc, EncodePc.inHand] using h

end InOrder

/-! ## The camera's socket -/

/-- Where the encode thread stands with packets that are not reported as sent, the bytes of them
that are accepted, and whether a `send` has failed. -/
def EncodePc.Stands (unsent : List Bytes) (accepted : Nat) (gaveUp : Bool) : EncodePc → Prop
  | recordEncode h264Packet => unsent = [h264Packet] ∧ accepted = 0 ∧ gaveUp = false
  | sendPacket h264Packet => unsent = [h264Packet] ∧ accepted ≤ 4 + h264Packet.length ∧
      (gaveUp = true → accepted < 4 + h264Packet.length)
  | sendFailed => (unsent.flatMap framed).length ≤ accepted → unsent = []
  | exited => (unsent.flatMap framed).length ≤ accepted → unsent = []
  | _ => unsent = []

theorem EncodePc.Stands.encodeStep {c : Settings} {s t : Pipeline} {ok : Bool}
    {packet : Option Bytes} {unsent : List Bytes} {accepted : Nat} {gaveUp : Bool}
    (h : s.encode.Stands unsent accepted gaveUp) (hstep : s.encodeStep c ok packet = some t)
    (hencode : ∀ frame p, s.encode = .encode frame → packet ≠ some p)
    (hsend : ∀ p, s.encode = .sendPacket p → ok = false ∧ gaveUp = true) :
    t.encode.Stands unsent accepted gaveUp := by
  cases hpc : s.encode <;> simp only [Pipeline.encodeStep, hpc] at hstep
  all_goals simp only [hpc, Stands] at h
  case pop =>
    obtain ⟨r, -, rfl⟩ := Option.map_eq_some_iff.mp hstep
    cases r.1 <;> simp [Stands, h]
  case apply frame => split at hstep <;> cases hstep <;> simp [Stands, Pipeline.finishApply, h]
  case encode frame =>
    cases hstep
    cases packet with
    | none => simpa [Stands] using h
    | some p => exact absurd rfl (hencode frame p hpc)
  case recordEncode p =>
    cases hstep
    obtain ⟨rfl, rfl, rfl⟩ := h
    simp [Stands]
  case sendPacket p =>
    cases hstep
    obtain ⟨rfl, rfl⟩ := hsend p hpc
    obtain ⟨rfl, -, hlt⟩ := h
    have hlt := hlt rfl
    simp only [Stands, List.flatMap_cons, List.flatMap_nil, List.append_nil, length_framed]
    exact fun hle => absurd hle (Nat.not_le.mpr hlt)
  case connectOnce =>
    cases hstep
    cases ok <;> simp [Stands, h]
  case test =>
    cases hstep
    cases s.running <;> simp [Stands, h]
  case stopAi =>
    cases hstep
    exact fun _ => h
  all_goals cases hstep
  all_goals exact h

/-- Outside a call of `sendPacket` no packet is out in full without being reported as sent. -/
theorem EncodePc.Stands.out {pc : EncodePc} {unsent : List Bytes} {accepted : Nat} {gaveUp : Bool}
    (h : pc.Stands unsent accepted gaveUp) (hpc : ∀ p, pc ≠ .sendPacket p)
    (hle : (unsent.flatMap framed).length ≤ accepted) : unsent = [] := by
  cases pc with
  | sendPacket p => exact absurd rfl (hpc p)
  | recordEncode p =>
    obtain ⟨rfl, rfl, -⟩ := h
    simp at hle
  | sendFailed => exact h hle
  | exited => exact h hle
  | _ => exact h

/-- The packets, what is on the wire of them, and where the encode thread stands. -/
structure OnWire (d : Deployment) (unsent : List Bytes) : Prop where
  short : unsent.length ≤ 1
  packets : d.encoded.map Prod.snd = d.sent ++ unsent
  wire : d.wire = d.sent.flatMap framed ++ (unsent.flatMap framed).take d.accepted
  stands : d.camera.encode.Stands unsent d.accepted d.gaveUp

namespace OnWire

variable {c : Settings} {d e : Deployment} {unsent : List Bytes}

theorem wire_prefix (h : OnWire d unsent) : d.wire <+: (d.encoded.map Prod.snd).flatMap framed := by
  rw [h.packets, h.wire, List.flatMap_append]
  exact (List.prefix_append_right_inj _).mpr (List.take_prefix _ _)

/-- A `send` goes on with the packet in hand. -/
theorem sendStep {outcome : SendOutcome} (h : OnWire d unsent)
    (hstep : d.sendStep outcome = some e) : OnWire e unsent := by
  unfold Deployment.sendStep at hstep
  split at hstep
  · rename_i h264Packet hpc
    have hstands := h.stands
    rw [hpc] at hstands
    obtain ⟨rfl, hle, -⟩ := hstands
    split at hstep
    · rename_i hgoing
      split at hstep
      · cases hstep
        refine ⟨h.short, h.packets, h.wire, ?_⟩
        show d.camera.encode.Stands _ _ _
        rw [hpc]
        exact ⟨rfl, hle, fun _ => hgoing.2⟩
      · rename_i accepted hcall
        cases hstep
        obtain ⟨hmore, hle'⟩ := sendCall_bounds hcall hle
        refine ⟨h.short, h.packets, ?_, ?_⟩
        · have hwire := h.wire
          simp only [List.flatMap_cons, List.flatMap_nil, List.append_nil] at hwire ⊢
          rw [hwire, List.append_assoc, ← List.take_add, Nat.add_sub_cancel' hmore]
        · show d.camera.encode.Stands _ _ _
          rw [hpc]
          exact ⟨rfl, hle', fun hup => absurd hup (by simp [hgoing.1])⟩
    · cases hstep
  · cases hstep

end OnWire

/-! ## Steps of the camera -/

namespace Deployment

variable {c : Settings} {cam : Conn} {d e : Deployment}

/-- A step of the camera's threads: `encode` returns a packet, `sendPacket` reports one as sent, or
neither. -/
theorem cameraStep_cases {a : PipelineLabel} (h : d.cameraStep c a = some e) :
    ∃ camera, d.camera.step c a = some camera ∧ d.returns a = true ∧
      ((∃ frame ok p, d.camera.encode = .encode frame ∧ a = .encode ok (some p) ∧
          e = { d with
            camera, accepted := 0, gaveUp := false, encoded := d.encoded ++ [(frame, p)] }) ∨
        (∃ p packet, d.camera.encode = .sendPacket p ∧ a = .encode true packet ∧
          e = { d with camera, sent := d.sent ++ [p] }) ∨
        e = { d with camera } ∧ ∀ ok packet, a = .encode ok packet →
          (∀ frame p, d.camera.encode = .encode frame → packet ≠ some p) ∧
          ∀ p, d.camera.encode = .sendPacket p → ok = false) := by
  unfold cameraStep at h
  split at h
  · rename_i hreturns
    obtain ⟨camera, hcamera, heq⟩ := Option.map_eq_some_iff.mp h
    refine ⟨camera, hcamera, hreturns, ?_⟩
    split at heq
    · rename_i frame ok p hpc
      exact .inl ⟨frame, ok, p, hpc, rfl, heq.symm⟩
    · rename_i p packet hpc
      exact .inr (.inl ⟨p, packet, hpc, rfl, heq.symm⟩)
    · rename_i hencode hsend
      refine .inr (.inr ⟨heq.symm, fun ok packet ha => ⟨fun frame p hpc hp => ?_, fun p hpc => ?_⟩⟩)
      · exact hencode frame ok p hpc (hp ▸ ha)
      · cases ok with
        | false => rfl
        | true => exact (hsend p packet hpc ha).elim
  · cases h

/-- The packets are valid frames, the epoll thread enters read bytes only for a connection that is
open and not being closed by the sender, and what it reads from the camera's connection is what comes
next on the wire. -/
def Sound (cam : Conn) (d : Deployment) : DeploymentLabel → Prop
  | .camera (.encode _ (some p)) => ValidFrame p
  | .camera _ => True
  | .send _ => True
  | .gateway a => d.relay.ConnectionOpen a ∧
      (d.relay.history.record d.relay.system a).rx cam <+: d.wire

instance (cam : Conn) (d : Deployment) : ∀ a, Decidable (Sound cam d a)
  | .camera (.encode _ (some p)) => inferInstanceAs (Decidable (ValidFrame p))
  | .camera (.encode _ none) | .camera .signal | .camera .main | .camera (.capture _)
  | .camera (.ai _) | .send _ => .isTrue trivial
  | .gateway a => inferInstanceAs (Decidable (d.relay.ConnectionOpen a ∧ _ <+: d.wire))

/-! ## Every step -/

/-- What holds at every moment between the camera and the gateway. -/
structure Carries (c : Settings) (cam : Conn) (d : Deployment) : Prop where
  flows : d.camera.Flows c
  inOrder : InOrder d.camera (d.encoded.map Prod.fst)
  onWire : ∃ unsent, OnWire d unsent
  valid : ∀ p ∈ d.encoded.map Prod.snd, ValidFrame p
  delivering : d.relay.Delivering
  heard : d.relay.history.rx cam <+: d.wire

theorem initial_carries (c : Settings) (cam : Conn) : Carries c cam (initial c) where
  flows := .initial c
  inOrder := List.Sublist.refl _
  onWire := ⟨[], Nat.zero_le 1, rfl, rfl, rfl⟩
  valid := by simp [initial]
  delivering := Relay.initial_delivering
  heard := List.prefix_refl _

namespace Carries

theorem camera {a : PipelineLabel} (h : Carries c cam d) (hsound : Sound cam d (.camera a))
    (hstep : d.cameraStep c a = some e) : Carries c cam e := by
  obtain ⟨camera, hcamera, hreturns, hcases⟩ := cameraStep_cases hstep
  have hflows := h.flows.step hcamera
  obtain ⟨unsent, hshort, hpackets, hwire, hstands⟩ := h.onWire
  rcases hcases with ⟨frame, ok, p, hpc, rfl, rfl⟩ | ⟨p, packet, hpc, rfl, rfl⟩ | ⟨rfl, hother⟩
  · -- `encode` returns a packet
    have hnone : unsent = [] := by simpa [hpc, EncodePc.Stands] using hstands
    subst hnone
    have hencode : camera.encode = .recordEncode p := by
      simp only [Pipeline.step, Pipeline.encodeStep, hpc, Option.some.injEq] at hcamera
      rw [← hcamera]
      rfl
    refine ⟨hflows, ?_, ⟨[p], Nat.le_refl 1, ?_, ?_, ?_⟩, ?_, h.delivering, h.heard⟩
    · simpa using h.inOrder.encode hpc hcamera
    · simpa using hpackets
    · simpa using hwire
    · simp [hencode, EncodePc.Stands]
    · simp only [List.map_append, List.map_cons, List.map_nil]
      intro q hq
      rcases List.mem_append.mp hq with hq | hq
      · exact h.valid q hq
      · exact List.mem_singleton.mp hq ▸ hsound
  · -- `sendPacket` reports its packet as sent
    have hall : d.accepted = 4 + p.length := by
      simp only [returns, hpc, Bool.and_eq_true, beq_iff_eq] at hreturns
      exact hreturns.2
    simp only [hpc, EncodePc.Stands] at hstands
    obtain ⟨rfl, -, -⟩ := hstands
    have hencode : camera.encode = .recordBytesSent p := by
      simp only [Pipeline.step, Pipeline.encodeStep, hpc, Option.some.injEq] at hcamera
      rw [← hcamera]
      rfl
    refine ⟨hflows, h.inOrder.encodeStep hcamera, ⟨[], Nat.zero_le 1, ?_, ?_, ?_⟩, h.valid,
      h.delivering, h.heard⟩
    · simpa using hpackets
    · rw [hwire, hall, List.take_of_length_le (by simp)]
      simp
    · simp [hencode, EncodePc.Stands]
  · -- the packets stay as they are
    have hkept : InOrder camera (d.encoded.map Prod.fst) ∧
        camera.encode.Stands unsent d.accepted d.gaveUp := by
      cases a with
      | signal =>
        cases hcamera
        exact ⟨h.inOrder, hstands⟩
      | main =>
        obtain ⟨-, hkeeps, -⟩ := Pipeline.mainStep_keeps hcamera
        exact ⟨h.inOrder.keep hkeeps, hkeeps.encode ▸ hstands⟩
      | capture image =>
        obtain ⟨hkeeps, -⟩ := Pipeline.captureStep_keeps hcamera
        exact ⟨h.inOrder.keep hkeeps, hkeeps.encode ▸ hstands⟩
      | ai rknn =>
        obtain ⟨-, hkeeps⟩ := Pipeline.aiStep_keeps hcamera
        exact ⟨h.inOrder.keep hkeeps, hkeeps.encode ▸ hstands⟩
      | encode ok packet =>
        obtain ⟨hpacket, hok⟩ := hother ok packet rfl
        refine ⟨h.inOrder.encodeStep hcamera, hstands.encodeStep hcamera hpacket fun p hpc => ?_⟩
        obtain rfl := hok p hpc
        simp only [returns, hpc] at hreturns
        exact ⟨rfl, hreturns⟩
    exact ⟨hflows, hkept.1, ⟨unsent, hshort, hpackets, hwire, hkept.2⟩, h.valid, h.delivering,
      h.heard⟩

theorem send {outcome : SendOutcome} (h : Carries c cam d) (hstep : d.sendStep outcome = some e) :
    Carries c cam e := by
  obtain ⟨unsent, honWire⟩ := h.onWire
  have hnext := honWire.sendStep hstep
  have hsame : e.camera = d.camera ∧ e.encoded = d.encoded ∧ e.relay = d.relay ∧
      d.wire <+: e.wire := by
    unfold sendStep at hstep
    split at hstep
    · split at hstep
      · split at hstep <;> cases hstep
        · exact ⟨rfl, rfl, rfl, List.prefix_refl _⟩
        · exact ⟨rfl, rfl, rfl, List.prefix_append _ _⟩
      · cases hstep
    · cases hstep
  obtain ⟨hcamera, hencoded, hrelay, hwire⟩ := hsame
  exact ⟨hcamera ▸ h.flows, by rw [hcamera, hencoded]; exact h.inOrder, ⟨unsent, hnext⟩,
    hencoded ▸ h.valid, hrelay ▸ h.delivering, hrelay ▸ h.heard.trans hwire⟩

theorem gateway {a : Label} {r : Relay} (h : Carries c cam d)
    (hsound : Sound cam d (.gateway a)) (hstep : d.relay.step a = some r) :
    Carries c cam { d with relay := r } := by
  obtain ⟨unsent, hshort, hpackets, hwire, hstands⟩ := h.onWire
  have hheard : r.history.rx cam <+: d.wire := by
    obtain ⟨t, -, rfl⟩ := Option.map_eq_some_iff.mp hstep
    exact hsound.2
  exact ⟨h.flows, h.inOrder, ⟨unsent, hshort, hpackets, hwire, hstands⟩, h.valid,
    h.delivering.step hsound.1 hstep, hheard⟩

theorem step {a : DeploymentLabel} (h : Carries c cam d) (hsound : Sound cam d a)
    (hstep : d.step c a = some e) : Carries c cam e := by
  cases a with
  | camera a => exact h.camera hsound hstep
  | send outcome => exact h.send hstep
  | gateway a =>
    obtain ⟨r, hr, rfl⟩ := Option.map_eq_some_iff.mp hstep
    exact h.gateway hsound hr

/-- What was read from the camera's connection decomposes into the packets complete in it. -/
theorem drained (h : Carries c cam d) : (framer.drain (d.relay.history.rx cam)).items =
    packetsWithin (d.relay.history.rx cam).length (d.encoded.map Prod.snd) := by
  obtain ⟨unsent, honWire⟩ := h.onWire
  conv_lhs => rw [List.prefix_iff_eq_take.mp (h.heard.trans honWire.wire_prefix)]
  exact (drain_take h.valid _).1

theorem framesFrom_prefix (h : Carries c cam d) :
    d.relay.history.framesFrom cam <+:
      packetsWithin (d.relay.history.rx cam).length (d.encoded.map Prod.snd) :=
  h.drained ▸ h.delivering.hearing.frames_prefix cam

/-- A packet that is not out in full is not handed on. -/
theorem framesFrom_sent (h : Carries c cam d)
    (hpc : ∀ p, d.camera.encode ≠ .sendPacket p) :
    d.relay.history.framesFrom cam <+: d.sent := by
  obtain ⟨unsent, honWire⟩ := h.onWire
  have hframes := h.framesFrom_prefix
  rw [honWire.packets] at hframes
  match unsent, honWire with
  | [], _ => exact (List.append_nil d.sent) ▸ hframes.trans (packetsWithin_prefix_self _ _)
  | [p], honWire =>
    have hlt : d.accepted < (framed p).length := by
      by_contra hle
      have hnil := honWire.stands.out hpc (by simpa using hle)
      cases hnil
    have hshort : d.wire.length < ((d.sent ++ [p]).flatMap framed).length := by
      rw [honWire.wire]
      simp only [List.flatMap_append, List.flatMap_cons, List.flatMap_nil, List.append_nil,
        List.length_append, List.length_take]
      omega
    have hrx := h.heard.length_le
    have hwithin := packetsWithin_prefix_self (d.relay.history.rx cam).length (d.sent ++ [p])
    rcases List.prefix_concat_iff.mp hwithin with heq | hsent
    · have hle := packetsWithin_eq_self_iff.mp heq
      omega
    · exact hframes.trans hsent
  | _ :: _ :: _, honWire => exact absurd honWire.short (by simp)

/-- Between two events, everything that has been read in full is handed on. -/
theorem framesFrom_eq (h : Carries c cam d) (hepoll : d.relay.system.epoll = .idle) {fd : Fd}
    (howner : d.relay.system.owner fd = some cam)
    (hsender : d.relay.system.sender.closing ≠ some fd) :
    d.relay.history.framesFrom cam =
      packetsWithin (d.relay.history.rx cam).length (d.encoded.map Prod.snd) :=
  h.drained ▸ (h.delivering.hearing.shown hepoll howner hsender).2

theorem of_reaches (h : Reaches (Deployment.step c) (Sound cam) (initial c) d) :
    Carries c cam d :=
  h.invariant (initial_carries c cam) fun _ _ _ hd hsound hstep => hd.step hsound hstep

end Carries

/-! ## What arrives -/

/-- What has become of the packets of the camera. -/
structure Delivered (cam : Conn) (d : Deployment) : Prop where
  /-- The packets are made of frames in the order of their capture, none twice. -/
  inOrder : (numbers (d.encoded.map Prod.fst)).Pairwise (· < ·)
  /-- These frames went through the encode queue. -/
  popped : (numbers (d.encoded.map Prod.fst)).Sublist (numbers d.camera.encodeQueue.popped)
  /-- What is handed on from the camera's connection are the first of the packets. -/
  relayed : d.relay.history.framesFrom cam <+: d.encoded.map Prod.snd
  /-- Outside a call of `sendPacket`, only packets that are reported as sent. -/
  reported : (∀ p, d.camera.encode ≠ .sendPacket p) → d.relay.history.framesFrom cam <+: d.sent
  /-- All of these, once the gateway has read what was accepted and stands between two events. -/
  complete : d.relay.history.rx cam = d.wire → d.relay.system.epoll = .idle →
    ∀ fd, d.relay.system.owner fd = some cam → d.relay.system.sender.closing ≠ some fd →
      d.sent <+: d.relay.history.framesFrom cam
  /-- Where only the camera sends frames, what a viewer is sent is made of its packets. -/
  viewed : (∀ p ∈ d.relay.history.log, p.1 = some cam) → ∀ viewer,
    ∃ before after kept : List Bytes, before ++ after <+: d.encoded.map Prod.snd ∧
      kept.Sublist (Viewer.openingChunks (configOf before) (keyFrameOf before) ++ after) ∧
      d.relay.history.tx viewer <+: kept.flatten

/-- **From the camera to the viewers**, in the runs that are `Sound`: the encoder's packets have at
most 2 MiB, the epoll thread enters read bytes only for a connection that is open and not being
closed by the sender, and what it reads from the camera's connection is what comes next on the wire.
Beside that the threads on both sides, the cuts of the connection and the other connections are free. -/
theorem packets_delivered (h : Reaches (step c) (Sound cam) (initial c) d) : Delivered cam d := by
  have hcarries := Carries.of_reaches h
  obtain ⟨unsent, honWire⟩ := hcarries.onWire
  have hpopped : (numbers (d.encoded.map Prod.fst)).Sublist
      (numbers d.camera.encodeQueue.popped) :=
    ((List.sublist_append_left _ _).map _).trans hcarries.inOrder
  have hrelayed := hcarries.framesFrom_prefix.trans (packetsWithin_prefix_self _ _)
  constructor
  case inOrder =>
    have hlaw := hcarries.flows.encodeQueue.law c.encodeQueueCapacity_pos
      hcarries.flows.order.encodeOrder
    exact (List.pairwise_map.mpr hlaw.popOrder).sublist hpopped
  case popped => exact hpopped
  case relayed => exact hrelayed
  case reported => exact fun hpc => hcarries.framesFrom_sent hpc
  case complete =>
    intro hrx hepoll fd howner hsender
    rw [hcarries.framesFrom_eq hepoll howner hsender, hrx, honWire.packets, packetsWithin_append]
    · exact List.prefix_append _ _
    · rw [honWire.wire, List.length_append]
      exact Nat.le_add_right _ _
  case viewed =>
    intro honly viewer
    obtain ⟨done, hdelivers⟩ := hcarries.delivering.delivers
    obtain ⟨before, after, later, kept, hhandled, hkept, hwire⟩ :=
      (hdelivers.served viewer).append d.relay.system.epoll.pending
    have hall : d.relay.history.framesFrom cam = d.relay.system.gateway.handled := by
      rw [hcarries.delivering.hearing.heard.handled, History.framesFrom,
        List.filter_eq_self.mpr fun p hp => by simp [honly p hp]]
    rw [← hdelivers.streaming.handled, ← hall] at hhandled
    exact ⟨before, after, kept, (hhandled ▸ List.prefix_append _ _).trans hrelayed, hkept, hwire⟩

/-- A frame is captured and encoded, the camera's socket accepts its packet in three pieces, and the
gateway reads it in two. -/
def deliveringRun : List DeploymentLabel :=
  List.map DeploymentLabel.camera
      ([.capture none, .capture (some (0, [1, 2])), .capture none] ++
        List.replicate 4 (.encode true none) ++
        [.encode true (some [0xAA]), .encode true none]) ++
    [.send (.accepts 3), .send (.fails .eagain), .send (.accepts 9)] ++
    List.map DeploymentLabel.gateway (Relay.cameraLabels 7 [0, 0, 0, 1] ++ [.epoll]) ++
    [.send (.accepts 9), .camera (.encode true none)] ++
    List.map DeploymentLabel.gateway
      ([.wait [.readable 7], .event, .read (.bytes [0xAA])] ++ List.replicate 7 .epoll)

theorem packets_delivered_one : ∃ d : Deployment,
    Reaches (step smallSettings) (Sound 0) (initial smallSettings) d ∧
    d.relay.history.framesFrom 0 = [[0xAA]] ∧ d.sent = [[0xAA]] ∧ Delivered 0 d := by
  have hrun : (runLabels (step smallSettings) (Sound 0) (initial smallSettings) deliveringRun).map
      (fun d => (d.relay.history.framesFrom 0, d.sent)) = some ([[0xAA]], [[0xAA]]) := by
    decide +kernel
  obtain ⟨d, hd, heq⟩ := Reaches.exists_of_runLabels hrun
  obtain ⟨hframes, hsent⟩ := Prod.mk.inj heq
  exact ⟨d, hd, hframes, hsent, packets_delivered hd⟩

end Deployment

end EdgeVision
