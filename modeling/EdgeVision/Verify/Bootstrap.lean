import EdgeVision.Gateway.TcpServer
import EdgeVision.Verify.NalScan

/-!
# The bootstrap cache

`bootstrap_config` and `bootstrap_frame` are functions of the frames handled so far (`configOf`,
`keyFrameOf`). A frame with any NAL unit of the types 6, 7, 8 replaces the whole configuration, so
a parameter set that was seen is kept exactly as long as no such frame comes without it
(`parameter_sets_kept_iff`).
-/

namespace EdgeVision

/-- The configuration after one more frame. -/
def nextConfig (config frame : Bytes) : Bytes :=
  let config' := extractBootstrapConfig frame
  if config'.isEmpty then config else config'

/-- The configuration that a list of frames leaves in an empty cache. -/
def configOf (frames : List Bytes) : Bytes := frames.foldl nextConfig []

def nextKeyFrame (keyFrame frame : Bytes) : Bytes :=
  if containsNalType frame 5 then frame else keyFrame

/-- The key frame that a list of frames leaves in an empty cache. -/
def keyFrameOf (frames : List Bytes) : Bytes := frames.foldl nextKeyFrame []

@[simp] theorem configOf_append (frames : List Bytes) (frame : Bytes) :
    configOf (frames ++ [frame]) = nextConfig (configOf frames) frame := by
  simp [configOf]

@[simp] theorem keyFrameOf_append (frames : List Bytes) (frame : Bytes) :
    keyFrameOf (frames ++ [frame]) = nextKeyFrame (keyFrameOf frames) frame := by
  simp [keyFrameOf]

namespace TcpServer

variable (g : TcpServer)

theorem removeViewer_bootstrap (fd : Fd) :
    (g.removeViewer fd).bootstrapConfig = g.bootstrapConfig ∧
      (g.removeViewer fd).bootstrapFrame = g.bootstrapFrame := by
  unfold removeViewer
  simp only
  split <;> exact ⟨rfl, rfl⟩

theorem removeAll_bootstrap (fds : List Fd) :
    (g.removeAll fds).bootstrapConfig = g.bootstrapConfig ∧
      (g.removeAll fds).bootstrapFrame = g.bootstrapFrame := by
  induction fds generalizing g with
  | nil => exact ⟨rfl, rfl⟩
  | cons fd fds ih =>
    obtain ⟨hconfig, hframe⟩ := ih (g.removeViewer fd)
    obtain ⟨hconfig', hframe'⟩ := g.removeViewer_bootstrap fd
    exact ⟨hconfig.trans hconfig', hframe.trans hframe'⟩

theorem handleCompleteFrame_bootstrap (frame : Bytes) :
    (g.handleCompleteFrame frame).bootstrapConfig = nextConfig g.bootstrapConfig frame ∧
      (g.handleCompleteFrame frame).bootstrapFrame = nextKeyFrame g.bootstrapFrame frame := by
  simp only [handleCompleteFrame, queueFrameForViewers, removeAll_bootstrap]
  exact ⟨rfl, rfl⟩

/-- The bootstrap cache is a fold over the frames handled. -/
theorem handleFrames_bootstrap (frames : List Bytes) :
    (g.handleFrames frames).bootstrapConfig = frames.foldl nextConfig g.bootstrapConfig ∧
      (g.handleFrames frames).bootstrapFrame = frames.foldl nextKeyFrame g.bootstrapFrame := by
  induction frames generalizing g with
  | nil => exact ⟨rfl, rfl⟩
  | cons frame frames ih =>
    obtain ⟨hconfig, hframe⟩ := g.handleCompleteFrame_bootstrap frame
    rw [List.foldl_cons, List.foldl_cons, ← hconfig, ← hframe]
    exact ih (g.handleCompleteFrame frame)

end TcpServer

/-! ## Parameter sets -/

/-- The frame replaces the configuration: it has a NAL unit of type 6, 7 or 8. -/
def CarriesConfig (frame : Bytes) : Prop := ∃ type ∈ [6, 7, 8], containsNalType frame type = true

/-- A configuration is extracted exactly from the frames that carry one. -/
theorem extractBootstrapConfig_isEmpty_iff (frame : Bytes) :
    (extractBootstrapConfig frame).isEmpty = false ↔ CarriesConfig frame := by
  simp only [CarriesConfig, containsNalType_iff]
  rw [extractBootstrapConfig_eq, List.isEmpty_eq_false_iff, ne_eq, List.flatMap_eq_nil_iff]
  push Not
  constructor
  · rintro ⟨p, hp, -⟩
    rw [List.mem_filter] at hp
    exact ⟨nalType p.header, (isConfigType_iff _).mp hp.2, p, hp.1, rfl⟩
  · rintro ⟨_, htype, p, hp, rfl⟩
    exact ⟨p, List.mem_filter.mpr ⟨hp, (isConfigType_iff _).mpr htype⟩, by simp [NalPiece.bytes]⟩

section ParameterSet

variable {type : UInt8} (htype : isConfigType type = true)
include htype

/-- A frame that carries a configuration decides alone which parameter sets are cached. -/
theorem containsNalType_nextConfig (config frame : Bytes) :
    (CarriesConfig frame →
      containsNalType (nextConfig config frame) type = containsNalType frame type) ∧
    (¬ CarriesConfig frame → nextConfig config frame = config ∧
      containsNalType frame type = false) := by
  constructor
  · intro hcarries
    rw [← extractBootstrapConfig_isEmpty_iff] at hcarries
    simp only [nextConfig, hcarries, Bool.false_eq_true, if_false]
    rw [containsNalType_extractBootstrapConfig, htype, Bool.true_and]
  · intro hcarries
    have habsent : containsNalType frame type = false := by
      by_contra hne
      rw [Bool.not_eq_false] at hne
      exact hcarries ⟨type, (isConfigType_iff type).mp htype, hne⟩
    rw [← extractBootstrapConfig_isEmpty_iff, Bool.not_eq_false] at hcarries
    exact ⟨by simp only [nextConfig, hcarries, if_true], habsent⟩

omit htype in
/-- Behind the first frame with a NAL unit of this type, no frame carries a configuration without
one. -/
def NoneWithout (type : UInt8) (frames : List Bytes) : Prop :=
  ∀ before frame after, frames = before ++ frame :: after →
    (∃ f ∈ before, containsNalType f type = true) → CarriesConfig frame →
    containsNalType frame type = true

omit htype in
theorem NoneWithout.of_prefix {seen frames : List Bytes} (h : NoneWithout type frames)
    (hseen : seen <+: frames) : NoneWithout type seen := by
  obtain ⟨later, rfl⟩ := hseen
  rintro before frame after rfl
  exact h before frame (after ++ later) (by simp)

/-- **A parameter set is kept exactly as long as no frame carries a configuration without it.** -/
theorem kept_iff (frames : List Bytes) :
    (∀ seen, seen <+: frames → (∃ f ∈ seen, containsNalType f type = true) →
      containsNalType (configOf seen) type = true) ↔ NoneWithout type frames := by
  constructor
  · rintro hkept before frame after rfl ⟨f, hf, hfound⟩ hcarries
    have := hkept (before ++ [frame]) ⟨after, by simp⟩ ⟨f, by simp [hf], hfound⟩
    rwa [configOf_append, (containsNalType_nextConfig htype _ frame).1 hcarries] at this
  · intro h seen hseen
    have hsafe := h.of_prefix hseen
    clear hseen h
    induction seen using List.reverseRecOn with
    | nil => rintro ⟨f, hf, -⟩; cases hf
    | append_singleton seen frame ih =>
      rintro ⟨f, hf, hfound⟩
      have hbefore := ih (hsafe.of_prefix ⟨[frame], rfl⟩)
      rw [List.mem_append, List.mem_singleton] at hf
      obtain ⟨hdecides, hkeeps⟩ := containsNalType_nextConfig htype (configOf seen) frame
      rw [configOf_append]
      by_cases hcarries : CarriesConfig frame
      · rw [hdecides hcarries]
        rcases hf with hf | rfl
        · exact hsafe seen frame [] rfl ⟨f, hf, hfound⟩ hcarries
        · exact hfound
      · obtain ⟨hsame, habsent⟩ := hkeeps hcarries
        rw [hsame]
        rcases hf with hf | rfl
        · exact hbefore ⟨f, hf, hfound⟩
        · rw [habsent] at hfound; cases hfound

end ParameterSet

namespace TcpServer

variable {g : TcpServer}

/-- What is expected of the cache over a sequence of frames: after each of them it contains an SPS
once one was seen, a PPS once one was seen, and once both were seen, every viewer that joins is
queued both, right behind the header and before the cached key frame. -/
def ParameterSetsKept (g : TcpServer) (frames : List Bytes) : Prop :=
  ∀ seen, seen <+: frames →
    let g' := g.handleFrames seen
    let sps := ∃ f ∈ seen, containsNalType f 7 = true
    let pps := ∃ f ∈ seen, containsNalType f 8 = true
    (sps → containsNalType g'.bootstrapConfig 7 = true) ∧
    (pps → containsNalType g'.bootstrapConfig 8 = true) ∧
    (sps → pps → ∀ fd, ∃ config, containsNalType config 7 = true ∧
      containsNalType config 8 = true ∧
      (g'.makeViewer fd).sendQueue = [Viewer.httpHeader, config] ++
        if g'.bootstrapFrame.isEmpty then [] else [g'.bootstrapFrame])

/-- **Parameter sets are kept exactly when no frame carries a configuration without those seen
before it.** -/
theorem parameter_sets_kept_iff (hempty : g.bootstrapConfig = []) (frames : List Bytes) :
    g.ParameterSetsKept frames ↔ NoneWithout 7 frames ∧ NoneWithout 8 frames := by
  rw [← kept_iff (by decide) frames, ← kept_iff (by decide) frames]
  have hconfig : ∀ seen, (g.handleFrames seen).bootstrapConfig = configOf seen := fun seen => by
    rw [(g.handleFrames_bootstrap seen).1, hempty]
    rfl
  constructor
  · intro h
    exact ⟨fun seen hseen hsps => hconfig seen ▸ (h seen hseen).1 hsps,
      fun seen hseen hpps => hconfig seen ▸ (h seen hseen).2.1 hpps⟩
  · rintro ⟨hsps, hpps⟩ seen hseen
    simp only [hconfig]
    refine ⟨hsps seen hseen, hpps seen hseen, fun h₇ h₈ fd => ?_⟩
    have hboth := hsps seen hseen h₇
    have hne : (configOf seen).isEmpty = false := by
      cases hc : configOf seen with
      | nil => rw [hc] at hboth; revert hboth; decide +kernel
      | cons _ _ => rfl
    refine ⟨configOf seen, hboth, hpps seen hseen h₈, ?_⟩
    simp [makeViewer, Viewer.joined, Viewer.openingChunks, hconfig, hne]

theorem parameter_sets_kept_sps_pps :
    initial.ParameterSetsKept [[0, 0, 0, 1, 0x67], [0, 0, 0, 1, 0x68]] ↔
      NoneWithout 7 [[0, 0, 0, 1, 0x67], [0, 0, 0, 1, 0x68]] ∧
        NoneWithout 8 [[0, 0, 0, 1, 0x67], [0, 0, 0, 1, 0x68]] :=
  parameter_sets_kept_iff rfl _

/-- An SPS and a PPS in one frame and an SEI in the next: the cache has forgotten both, and a viewer
that joins gets the SEI alone before the key frame. -/
theorem parameter_sets_forgotten :
    let sps : Bytes := [0, 0, 0, 1, 0x67, 0x42]
    let pps : Bytes := [0, 0, 0, 1, 0x68, 0xCE]
    let idr : Bytes := [0, 0, 0, 1, 0x65, 0x88]
    let sei : Bytes := [0, 0, 0, 1, 0x06, 0x05]
    let slice : Bytes := [0, 0, 0, 1, 0x41, 0x9A]
    let g' := initial.handleFrames [sps ++ pps ++ idr, sei ++ slice]
    ¬ initial.ParameterSetsKept [sps ++ pps ++ idr, sei ++ slice] ∧
    containsNalType (sps ++ pps ++ idr) 7 = true ∧
    containsNalType (sps ++ pps ++ idr) 8 = true ∧
    containsNalType g'.bootstrapConfig 7 = false ∧
    containsNalType g'.bootstrapConfig 8 = false ∧
    (g'.makeViewer 9).sendQueue = [Viewer.httpHeader, sei, sps ++ pps ++ idr] := by
  intro sps pps idr sei slice g'
  have hseen : ∃ f ∈ [sps ++ pps ++ idr, sei ++ slice], containsNalType f 7 = true := by
    decide +kernel
  have hlost : containsNalType g'.bootstrapConfig 7 = false := by decide +kernel
  refine ⟨fun h => ?_, by decide +kernel, by decide +kernel, hlost, by decide +kernel,
    by decide +kernel⟩
  have := (h _ (List.prefix_refl _)).1 hseen
  rw [show containsNalType g'.bootstrapConfig 7 = false from hlost] at this
  cases this

end TcpServer

end EdgeVision
