import EdgeVision.Camera.VencChannel

/-!
# Frames and their packets

A call of `encode` takes a stream from the channel after it has sent a frame. As long as every frame
that is sent has its stream taken by the same call, the channel is empty between calls, and a packet
is the stream of the frame of its call (`packets_belong`). A `GetStream` that fails breaks that: the
stream stays, and the next call returns it for its own frame (`packet_of_earlier_frame`).
-/

namespace EdgeVision

variable {κ : Type}

/-- A stream with all its addresses is put together in full. -/
theorem assemble_packsOf {coder : Coder κ} {outcomes : CallOutcomes} {channel : VencChannel κ}
    (hmapped : outcomes.unmapped = []) :
    (coder.venc outcomes).assemble channel (packsOf channel.current) = channel.current.flatten := by
  have hfst : channel.current.zipIdx.flatMap Prod.fst = channel.current.flatten := by
    rw [List.flatMap_def, List.zipIdx_map_fst]
  rw [Venc.assemble, packsOf, List.flatMap_map, ← hfst]
  apply List.flatMap_congr
  rintro ⟨pack, index⟩ hpack
  have hget := List.mem_zipIdx_iff_getElem?.mp hpack
  simp only [Coder.venc, hmapped, List.not_mem_nil, if_false, hget, List.drop_zero,
    List.take_length]

/-- A call that sends a frame also takes its stream, all of whose packs have an address. -/
def Completes (run : EncodeRun κ) (call : Bytes × CallOutcomes) : Prop :=
  run.encoder.inputBuffer.isSome = true → call.2.flush = rkSuccess → call.2.send = rkSuccess →
    call.2.get = rkSuccess ∧ call.2.unmapped = []

instance (run : EncodeRun κ) (call : Bytes × CallOutcomes) : Decidable (Completes run call) :=
  inferInstanceAs (Decidable (_ → _ → _ → _))

/-- A call all of whose library calls succeed returns the stream that it took. -/
theorem H264Encoder.encode_taken {σ : Type} {enc : H264Encoder} {venc : Venc σ} {s s₁ s₂ s₃ : σ}
    {image : Bytes} {packs : List Pack} (hbuffer : enc.inputBuffer.isSome = true)
    (hflush : venc.flushCache s = (rkSuccess, s₁))
    (hsend : venc.sendFrame s₁ (enc.videoFrame image) = (rkSuccess, s₂))
    (hget : venc.getStream s₂ = (rkSuccess, packs, s₃)) :
    (enc.encode venc s image).1.2 = venc.assemble s₃ packs ∧
      (enc.encode venc s image).2.2 = venc.releaseStream s₃ packs := by
  have hready : enc.inputBuffer.isNone = false := by
    rw [← Option.not_isSome, hbuffer, Bool.not_true]
  unfold videoFrame at hsend
  simp only [encode, hready, Bool.false_eq_true, if_false, hflush, hsend, hget, ne_eq,
    not_true_eq_false, and_self]

/-- A call that sends no frame returns false, and leaves the streams of the channel. -/
theorem encode_unsent (coder : Coder κ) (channel : VencChannel κ) (image : Bytes)
    {enc : H264Encoder} {outcomes : CallOutcomes}
    (hunsent : enc.inputBuffer = none ∨ outcomes.flush ≠ rkSuccess ∨ outcomes.send ≠ rkSuccess) :
    (enc.encode (coder.venc outcomes) channel image).1.1 = false ∧
      (enc.encode (coder.venc outcomes) channel image).2.2.streams = channel.streams := by
  unfold H264Encoder.encode Coder.venc
  rcases hunsent with hbuffer | hflush | hsend
  · simp only [hbuffer, Option.isNone_none, if_true, and_self]
  · split
    · exact ⟨rfl, rfl⟩
    · simp only [ne_eq, hflush, not_false_eq_true, if_true, and_self]
  · split
    · exact ⟨rfl, rfl⟩
    · simp only [ne_eq, hsend, not_false_eq_true, if_true]
      split
      · exact ⟨rfl, rfl⟩
      · exact ⟨rfl, rfl⟩

/-- A call on an empty channel that completes leaves the channel empty, and what it returns is the
stream of its frame. -/
theorem encode_empty (coder : Coder κ) {run : EncodeRun κ} {call : Bytes × CallOutcomes}
    (hempty : run.channel.streams = []) (hcompletes : Completes run call) :
    let returned := run.encoder.encode (coder.venc call.2) run.channel call.1
    returned.2.2.streams = [] ∧
      (returned.1.1 = true → returned.1.2 =
        (coder run.channel.coderState (run.encoder.videoFrame call.1)).1.flatten) := by
  intro returned
  by_cases hsent : run.encoder.inputBuffer = none ∨ call.2.flush ≠ rkSuccess ∨
      call.2.send ≠ rkSuccess
  · obtain ⟨hfalse, hstreams⟩ := encode_unsent coder run.channel call.1 hsent
    refine ⟨hstreams.trans hempty, fun htrue => ?_⟩
    rw [hfalse] at htrue
    cases htrue
  · simp only [not_or, not_not] at hsent
    obtain ⟨hbuffer, hflush, hsend⟩ := hsent
    have hready := Option.isSome_iff_ne_none.mpr hbuffer
    obtain ⟨hget, hmapped⟩ := hcompletes hready hflush hsend
    let coded := coder run.channel.coderState (run.encoder.videoFrame call.1)
    have hqueued : (coder.venc call.2).sendFrame run.channel (run.encoder.videoFrame call.1) =
        (rkSuccess, ⟨coded.2, [coded.1], run.channel.current⟩) := by
      simp only [Coder.venc, hsend, if_true, hempty, List.nil_append, coded]
    have htaken : (coder.venc call.2).getStream ⟨coded.2, [coded.1], run.channel.current⟩ =
        (rkSuccess, packsOf coded.1, ⟨coded.2, [], coded.1⟩) := by
      simp only [Coder.venc, hget, if_true]
    obtain ⟨hout, hchannel⟩ :=
      H264Encoder.encode_taken hready (Prod.ext hflush rfl) hqueued htaken
    refine ⟨?_, fun _ => ?_⟩
    · rw [hchannel]
      rfl
    · exact hout.trans (assemble_packsOf hmapped)

/-- The packet of a call that returned true is the bitstream of its frame, and a call that failed
has left no stream behind. -/
structure EncodeCall.Paired (call : EncodeCall) : Prop where
  packet : call.ok = true → call.outH264 = call.bitstream
  nothing_left : call.ok = false → call.left = []

/-- **A packet belongs to the frame of its call**, in every run in which every frame that is sent
has its stream taken by the same call. -/
theorem packets_belong {coder : Coder κ} (encoder : H264Encoder) (coderState : κ)
    {run : EncodeRun κ}
    (h : Lib.Reaches (EncodeRun.step coder) Completes (EncodeRun.start encoder coderState) run) :
    ∀ call ∈ run.calls, call.Paired := by
  have hinv : run.channel.streams = [] ∧ ∀ call ∈ run.calls, call.Paired := by
    refine h.invariant (I := fun run => run.channel.streams = [] ∧
      ∀ call ∈ run.calls, call.Paired) ⟨rfl, nofun⟩ ?_
    rintro run call next ⟨hempty, hpaired⟩ hcompletes hstep
    cases hstep
    obtain ⟨hleft, hpacket⟩ := encode_empty coder hempty hcompletes
    refine ⟨hleft, fun c hc => ?_⟩
    rcases List.mem_append.mp hc with hc | hc
    · exact hpaired c hc
    · cases List.mem_singleton.mp hc
      exact ⟨hpacket, fun _ => hleft⟩
  exact hinv.2

/-- An encoder for images of one pixel row by one, and a coder that writes the first byte of a
picture. -/
def tinyEncoder : H264Encoder where
  width := 1
  height := 1
  pts := 0
  inputBufferSize := 1
  inputBufferSize_lt := by decide
  virWidth := 1
  virHeight := 1
  inputPixelFormat := .yuv420sp
  inputBuffer := some [0]

def firstByteCoder : Coder Unit := fun _ frame => ([frame.picture.take 1], ())

theorem packets_belong_two_frames :
    ∃ run, Lib.Reaches (EncodeRun.step firstByteCoder) Completes (EncodeRun.start tinyEncoder ()) run ∧
      run.calls.map (fun call => (call.ok, call.outH264)) = [(true, [7]), (false, []), (true, [9])] ∧
      ∀ call ∈ run.calls, call.Paired := by
  have hlabels : (Lib.runLabels (EncodeRun.step firstByteCoder) Completes
      (EncodeRun.start tinyEncoder ())
      [([7], ⟨0, 0, 0, []⟩), ([8], ⟨0, -1, 0, []⟩), ([9], ⟨0, 0, 0, []⟩)]).map
        (fun run => run.calls.map fun call => (call.ok, call.outH264)) =
      some [(true, [7]), (false, []), (true, [9])] := by
    decide +kernel
  obtain ⟨run, hrun, hcalls⟩ := Lib.Reaches.exists_of_runLabels hlabels
  exact ⟨run, hrun, hcalls, packets_belong tinyEncoder () hrun⟩

/-- The first call sends its frame and gets no stream in time. The second one then returns the
stream of the first frame for its own, and leaves its own to the third. -/
theorem packet_of_earlier_frame :
    ∃ run, Lib.Reaches (EncodeRun.step firstByteCoder) Lib.anyStep (EncodeRun.start tinyEncoder ())
        run ∧
      run.calls.map (fun call => (call.ok, call.outH264, call.bitstream)) =
        [(false, [], [7]), (true, [7], [8])] ∧
      ¬ ∀ call ∈ run.calls, call.Paired := by
  have hlabels : (Lib.runLabels (EncodeRun.step firstByteCoder) Lib.anyStep
      (EncodeRun.start tinyEncoder ()) [([7], ⟨0, 0, -1, []⟩), ([8], ⟨0, 0, 0, []⟩)]).map
        EncodeRun.calls =
      some [⟨false, [], [7], [[[7]]]⟩, ⟨true, [7], [8], [[[8]]]⟩] := by
    decide +kernel
  obtain ⟨run, hrun, hcalls⟩ := Lib.Reaches.exists_of_runLabels hlabels
  refine ⟨run, hrun, by rw [hcalls]; rfl, fun hpaired => ?_⟩
  rw [hcalls] at hpaired
  have hpacket := (hpaired ⟨true, [7], [8], [[[8]]]⟩ (by decide)).packet rfl
  exact absurd hpacket (by decide)

end EdgeVision
