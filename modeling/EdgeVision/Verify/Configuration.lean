import EdgeVision.Camera.Startup
import EdgeVision.Verify.QueueFlow

/-!
# Which configurations are safe

A configuration is safe when the arithmetic on it is: no division by zero, no overflow, no pop of an
empty deque and no rate of zero. The repairs of `fromEnvironment` make six values positive, and what
they return they leave alone (`repair_idem`). They leave out `fps`, put no upper bound on the
metrics interval, and multiply the interval of the inference before it is repaired. So an
environment gives a safe configuration exactly when these three do no harm
(`fromEnvironment_safe_iff`).
-/

namespace EdgeVision

open Lib CString

theorem isInt_max {x y : Int} (hx : IsInt x) (hy : IsInt y) : IsInt (max x y) := by
  rcases max_choice x y with h | h
  · rwa [h]
  · rwa [h]

namespace AppConfig

variable {outOfRange : Int → Int32} {env : Environment} {config repaired : AppConfig}

/-! ## The repairs -/

theorem fallback_pos {other : Int} (h : 1 ≤ other) (value : Int) : 1 ≤ fallback value other := by
  unfold fallback
  split
  · exact h
  · omega

theorem fallback_of_pos {value : Int} (h : 1 ≤ value) (other : Int) :
    fallback value other = value :=
  if_neg (by omega)

theorem isInt_fallback {value other : Int} (hvalue : IsInt value) (hother : IsInt other) :
    IsInt (fallback value other) := by
  unfold fallback
  split
  · exact hother
  · exact hvalue

/-- The stale frames are those that were set, or come from a product that is an `int`. -/
theorem staleFrames_cases {frames : Int} (h : config.staleFrames = some frames) :
    (config.overlayStaleFrames ≤ 0 ∧ IsInt (config.ai.inferEveryNFrames * 3) ∧
        frames = max 30 (config.ai.inferEveryNFrames * 3)) ∨
      (1 ≤ config.overlayStaleFrames ∧ frames = config.overlayStaleFrames) := by
  unfold staleFrames at h
  split at h
  · rename_i hunset
    obtain ⟨product, hproduct, rfl⟩ := Option.map_eq_some_iff.mp h
    obtain ⟨hint, rfl⟩ := checkedInt_eq_some_iff.mp hproduct
    exact .inl ⟨hunset, hint, rfl⟩
  · cases h
    exact .inr ⟨by omega, rfl⟩

/-- The repairs succeed when the product is an `int`, or not needed. -/
theorem repair_isSome
    (h : config.overlayStaleFrames ≤ 0 → IsInt (config.ai.inferEveryNFrames * 3)) :
    ∃ repaired, config.repair = some repaired := by
  by_cases hunset : config.overlayStaleFrames ≤ 0
  · have hproduct := checkedInt_eq_some_iff.mpr ⟨h hunset, rfl⟩
    exact ⟨_, by rw [repair, staleFrames, if_pos hunset, hproduct]; rfl⟩
  · exact ⟨_, by rw [repair, staleFrames, if_neg hunset]; rfl⟩

theorem repair_positive (h : config.repair = some repaired) : repaired.Positive := by
  obtain ⟨frames, hframes, rfl⟩ := Option.map_eq_some_iff.mp h
  constructor
  case metricsIntervalSec => exact fallback_pos (by decide) _
  case encodeQueueCapacity => exact fallback_pos (by decide) _
  case aiQueueCapacity => exact fallback_pos (by decide) _
  case overlayBoxThickness => exact fallback_pos (by decide) _
  case overlayStaleFrames =>
    rcases staleFrames_cases hframes with ⟨-, -, rfl⟩ | ⟨hset, rfl⟩
    · exact le_max_of_le_left (by decide)
    · exact hset
  case inferEveryNFrames => exact fallback_pos (by decide) _

/-- Positive values are left alone. -/
theorem repair_of_positive (h : config.Positive) : config.repair = some config := by
  have hset : ¬ config.overlayStaleFrames ≤ 0 := by
    have hpos := h.overlayStaleFrames
    omega
  rw [repair, staleFrames, if_neg hset, Option.map_some, fallback_of_pos h.metricsIntervalSec,
    fallback_of_pos h.encodeQueueCapacity, fallback_of_pos h.aiQueueCapacity,
    fallback_of_pos h.overlayBoxThickness, fallback_of_pos h.inferEveryNFrames]

theorem repair_idem (h : config.repair = some repaired) : repaired.repair = some repaired :=
  repair_of_positive (repair_positive h)

/-- What is not repaired: the frame rate, and a positive interval of the metrics. -/
theorem repair_fps (h : config.repair = some repaired) : repaired.fps = config.fps := by
  obtain ⟨frames, -, rfl⟩ := Option.map_eq_some_iff.mp h
  rfl

theorem repair_metricsIntervalSec (h : config.repair = some repaired) :
    repaired.metricsIntervalSec = fallback config.metricsIntervalSec 5 := by
  obtain ⟨frames, -, rfl⟩ := Option.map_eq_some_iff.mp h
  rfl

/-- The defaults pass the repairs. -/
theorem fromEnvironment_unset (outOfRange : Int → Int32) :
    fromEnvironment outOfRange (fun _ => none) = some defaults := by
  have hpositive : defaults.Positive := by constructor <;> decide
  exact repair_of_positive hpositive

/-! ## The members of type `int` -/

/-- The members that are of type `int` in the source are in its range. -/
structure Ints (config : AppConfig) : Prop where
  sensorId : IsInt config.sensorId
  fps : IsInt config.fps
  gatewayPort : IsInt config.gatewayPort
  encodeQueueCapacity : IsInt config.encodeQueueCapacity
  aiQueueCapacity : IsInt config.aiQueueCapacity
  metricsIntervalSec : IsInt config.metricsIntervalSec
  overlayBoxThickness : IsInt config.overlayBoxThickness
  overlayStaleFrames : IsInt config.overlayStaleFrames
  inferEveryNFrames : IsInt config.ai.inferEveryNFrames
  maxResults : IsInt config.ai.maxResults

theorem isInt_readIntEnv (env : Environment) (key : String) {defaultValue : Int}
    (h : IsInt defaultValue) : IsInt (readIntEnv env key outOfRange defaultValue) := by
  unfold readIntEnv readEnv
  split
  · exact h
  · split
    · exact h
    · exact isInt_atoi outOfRange _

theorem defaults_ints : defaults.Ints := by constructor <;> decide

theorem readAll_ints (outOfRange : Int → Int32) (env : Environment) :
    (readAll outOfRange env).Ints where
  sensorId := isInt_readIntEnv env _ defaults_ints.sensorId
  fps := isInt_readIntEnv env _ defaults_ints.fps
  gatewayPort := isInt_readIntEnv env _ defaults_ints.gatewayPort
  encodeQueueCapacity := isInt_readIntEnv env _ defaults_ints.encodeQueueCapacity
  aiQueueCapacity := isInt_readIntEnv env _ defaults_ints.aiQueueCapacity
  metricsIntervalSec := isInt_readIntEnv env _ defaults_ints.metricsIntervalSec
  overlayBoxThickness := isInt_readIntEnv env _ defaults_ints.overlayBoxThickness
  overlayStaleFrames := isInt_readIntEnv env _ defaults_ints.overlayStaleFrames
  inferEveryNFrames := isInt_readIntEnv env _ defaults_ints.inferEveryNFrames
  maxResults := isInt_readIntEnv env _ defaults_ints.maxResults

theorem repair_ints (hints : config.Ints) (h : config.repair = some repaired) : repaired.Ints := by
  obtain ⟨frames, hframes, rfl⟩ := Option.map_eq_some_iff.mp h
  constructor
  case sensorId => exact hints.sensorId
  case fps => exact hints.fps
  case gatewayPort => exact hints.gatewayPort
  case encodeQueueCapacity => exact isInt_fallback hints.encodeQueueCapacity (by decide)
  case aiQueueCapacity => exact isInt_fallback hints.aiQueueCapacity (by decide)
  case metricsIntervalSec => exact isInt_fallback hints.metricsIntervalSec (by decide)
  case overlayBoxThickness => exact isInt_fallback hints.overlayBoxThickness (by decide)
  case overlayStaleFrames =>
    rcases staleFrames_cases hframes with ⟨-, hproduct, rfl⟩ | ⟨-, rfl⟩
    · exact isInt_max (by decide) hproduct
    · exact hints.overlayStaleFrames
  case inferEveryNFrames => exact isInt_fallback hints.inferEveryNFrames (by decide)
  case maxResults => exact hints.maxResults

/-! ## Conversions to unsigned types -/

theorem toNat_ofInt64 {n : Int} (hint : IsInt n) (hpos : 1 ≤ n) :
    (UInt64.ofInt n).toNat = n.toNat := by
  have hvalue := IStream.toNat_ofInt n
  unfold IsInt at hint
  omega

theorem ofInt32_pos {n : Int} (hint : IsInt n) (hpos : 1 ≤ n) : 0 < UInt32.ofInt n := by
  have hvalue : ((UInt32.ofInt n).toNat : Int) = n % 2 ^ 32 := by
    simp only [UInt32.ofInt, UInt32.toNat_ofNat']
    omega
  unfold IsInt at hint
  rw [UInt32.lt_iff_toNat_lt]
  change 0 < (UInt32.ofInt n).toNat
  omega

/-! ## The queues -/

/-- No call changes the capacity. -/
theorem step_capacity {q q' : FrameQueue} {call : FrameQueueCall} (h : q.step call = some q') :
    q'.capacity = q.capacity := by
  cases call with
  | push frame =>
    cases h
    unfold FrameQueue.push
    split <;> rfl
  | waitAndPop =>
    obtain ⟨popped, hpop, rfl⟩ := Option.map_eq_some_iff.mp h
    unfold FrameQueue.waitAndPop at hpop
    split at hpop
    · cases hpop
      rfl
    · cases hpop
  | stop =>
    cases h
    rfl

/-- With room for a frame, a full queue has a front. -/
theorem not_popsEmpty_of_pos {q : FrameQueue} (hpos : 1 ≤ q.capacity) : ¬ q.PopsEmpty := by
  rintro ⟨hfull, hempty⟩
  rw [hempty] at hfull
  exact absurd (hpos.trans hfull) (by decide)

/-- A queue made for a positive `int`, after any calls. -/
theorem not_popsEmpty_of_reaches {n : Int} (hint : IsInt n) (hpos : 1 ≤ n) {q : FrameQueue}
    (h : Reaches FrameQueue.step anyStep (.init (UInt64.ofInt n).toNat) q) : ¬ q.PopsEmpty := by
  have hcapacity : 1 ≤ q.capacity := by
    refine Reaches.invariant (I := fun q => 1 ≤ q.capacity) ?_ ?_ h
    · change 1 ≤ (UInt64.ofInt n).toNat
      rw [toNat_ofInt64 hint hpos]
      omega
    · intro q call q' hq _ hstep
      rwa [step_capacity hstep]
  exact not_popsEmpty_of_pos hcapacity

/-! ## The threads -/

section Threads

variable (hints : config.Ints) (h : config.Positive)

include hints h

theorem interval_ne_zero : UInt64.ofInt config.ai.inferEveryNFrames ≠ 0 := by
  have hvalue := toNat_ofInt64 hints.inferEveryNFrames h.inferEveryNFrames
  have hpos := h.inferEveryNFrames
  intro hzero
  rw [hzero] at hvalue
  change 0 = config.ai.inferEveryNFrames.toNat at hvalue
  omega

theorem inferThisFrame_isSome (aiReady : Bool) (sequence : UInt64) :
    (config.inferThisFrame aiReady sequence).isSome := by
  have hne := interval_ne_zero hints h
  unfold inferThisFrame
  split
  · rw [if_neg hne]
    rfl
  · rfl

/-- The test of the capture thread in 64 bits is the one of the settings. -/
theorem inferThisFrame_settings (c : Settings) {frame : CapturedFrame}
    (hframe : frame.sequence < 2 ^ 64) :
    config.inferThisFrame c.aiReady (UInt64.ofNat frame.sequence) =
      some ((settings h c).infersFrame frame) := by
  have hne := interval_ne_zero hints h
  have hvalue := toNat_ofInt64 hints.inferEveryNFrames h.inferEveryNFrames
  have hmod : (UInt64.ofNat frame.sequence % UInt64.ofInt config.ai.inferEveryNFrames == 0) =
      (frame.sequence % config.ai.inferEveryNFrames.toNat == 0) := by
    rw [Bool.eq_iff_iff, beq_iff_eq, beq_iff_eq, ← UInt64.toNat_inj, UInt64.toNat_mod, hvalue,
      UInt64.toNat_ofNat_of_lt' hframe]
    rfl
  unfold inferThisFrame Settings.infersFrame settings
  cases hon : c.aiReady && config.ai.enabled with
  | false => simp
  | true => simp [hne, hmod]

/-- The threads start with the queues and the overlay that `main` constructs. -/
theorem initial_settings (c : Settings) :
    (Pipeline.initial (settings h c)).encodeQueue.queue = config.encodeQueue ∧
      (Pipeline.initial (settings h c)).aiQueue.queue = config.aiQueue ∧
      (Pipeline.initial (settings h c)).overlay = config.overlay := by
  refine ⟨?_, ?_, rfl⟩
  · rw [encodeQueue, toNat_ofInt64 hints.encodeQueueCapacity h.encodeQueueCapacity]
    rfl
  · rw [aiQueue, toNat_ofInt64 hints.aiQueueCapacity h.aiQueueCapacity]
    rfl

omit hints in
/-- In a run of the threads too no push pops an empty deque. -/
theorem runs_not_popsEmpty {c : Settings} {s : Pipeline}
    (hrun : Runs (settings h c) (.initial (settings h c)) s) :
    ¬ s.encodeQueue.queue.PopsEmpty ∧ ¬ s.aiQueue.queue.PopsEmpty := by
  have hflows := Pipeline.Flows.run hrun
  constructor
  · apply not_popsEmpty_of_pos
    rw [hflows.encodeQueue.capacity_eq]
    exact (settings h c).encodeQueueCapacity_pos
  · apply not_popsEmpty_of_pos
    rw [hflows.aiQueue.capacity_eq]
    exact (settings h c).aiQueueCapacity_pos

end Threads

/-! ## Safe configurations -/

/-- The values that the arithmetic depends on are positive, and the arithmetic is sound. -/
structure Safe (config : AppConfig) : Prop extends config.Positive where
  fps : 1 ≤ config.fps
  metricsRounds : config.metricsRounds = some (config.metricsIntervalSec * 10)
  inferThisFrame : ∀ aiReady sequence, (config.inferThisFrame aiReady sequence).isSome
  encodeQueue : ∀ q, Reaches FrameQueue.step anyStep config.encodeQueue q → ¬ q.PopsEmpty
  aiQueue : ∀ q, Reaches FrameQueue.step anyStep config.aiQueue q → ¬ q.PopsEmpty
  u32Gop : 0 < config.h264Cbr.u32Gop
  fr32DstFrameRateNum : 0 < config.h264Cbr.fr32DstFrameRateNum
  u32SrcFrameRateNum : 0 < config.h264Cbr.u32SrcFrameRateNum

/-- Where the values are positive, the frame rate and the bound of the metrics are what is left. -/
theorem Positive.safe (h : config.Positive) (hints : config.Ints) (hfps : 1 ≤ config.fps)
    (hrounds : IsInt (config.metricsIntervalSec * 10)) : config.Safe where
  toPositive := h
  fps := hfps
  metricsRounds := checkedInt_eq_some_iff.mpr ⟨hrounds, rfl⟩
  inferThisFrame := inferThisFrame_isSome hints h
  encodeQueue _ := not_popsEmpty_of_reaches hints.encodeQueueCapacity h.encodeQueueCapacity
  aiQueue _ := not_popsEmpty_of_reaches hints.aiQueueCapacity h.aiQueueCapacity
  u32Gop := ofInt32_pos hints.fps hfps
  fr32DstFrameRateNum := ofInt32_pos hints.fps hfps
  u32SrcFrameRateNum := ofInt32_pos hints.fps hfps

/-! ## Environments -/

/-- The number in the text of a variable, if it is set to some. -/
def numberOf (outOfRange : Int → Int32) (env : Environment) (key : String) : Option Int :=
  ((env key).filter fun value => !value.isEmpty).map fun value => atoi outOfRange value.toList

theorem readIntEnv_eq (env : Environment) (key : String) (defaultValue : Int) :
    readIntEnv env key outOfRange defaultValue =
      (numberOf outOfRange env key).getD defaultValue := by
  unfold readIntEnv readEnv numberOf
  cases env key with
  | none => rfl
  | some value => cases hempty : value.isEmpty <;> simp [Option.filter, hempty]

/-- A number in decimal digits is the number set. -/
theorem numberOf_decimal {n : Int} (hint : IsInt n) {key : String}
    (hset : env key = some (String.ofList (IStream.decimal n))) :
    numberOf outOfRange env key = some n := by
  have hne : (String.ofList (IStream.decimal n)).isEmpty = false := by
    rw [String.isEmpty_eq_false_iff, Ne, String.ofList_eq_empty_iff]
    exact List.append_ne_nil_of_right_ne_nil _ (@Nat.toDigits_ne_nil n.natAbs 10)
  have hread := @atoi_decimal outOfRange n hint [] (by simp [IStream.Ends])
  rw [List.append_nil] at hread
  simp [numberOf, hset, Option.filter, hne, hread]

/-- The frame rate is the number set, whatever it is. -/
theorem fps_of_decimal {n : Int} (hint : IsInt n)
    (hset : env "AICAM_FPS" = some (String.ofList (IStream.decimal n)))
    (h : fromEnvironment outOfRange env = some config) : config.fps = n := by
  have hread : (readAll outOfRange env).fps = n := by
    change readIntEnv env "AICAM_FPS" outOfRange 30 = n
    rw [readIntEnv_eq, numberOf_decimal hint hset, Option.getD_some]
  rw [repair_fps h, hread]

/-- What holds of the default is read when it holds of every number that is set. -/
theorem readIntEnv_iff {P : Int → Prop} {key : String} {defaultValue : Int} (h : P defaultValue) :
    P (readIntEnv env key outOfRange defaultValue) ↔ ∀ n ∈ numberOf outOfRange env key, P n := by
  rw [readIntEnv_eq]
  cases numberOf outOfRange env key with
  | none => simp [h]
  | some n => simp

/-- What is asked of the variables, beside the repairs. -/
structure Workable (outOfRange : Int → Int32) (env : Environment) : Prop where
  fps : ∀ fps ∈ numberOf outOfRange env "AICAM_FPS", 1 ≤ fps
  metricsInterval : ∀ seconds ∈ numberOf outOfRange env "AICAM_METRICS_INTERVAL",
    seconds ≤ 214748364
  inferEveryN : ∀ frames ∈ numberOf outOfRange env "AICAM_OVERLAY_STALE_FRAMES", frames ≤ 0 →
    ∀ n ∈ numberOf outOfRange env "AICAM_INFER_EVERY_N", -715827882 ≤ n ∧ n ≤ 715827882

/-- The tenfold of a repaired interval is an `int` when that of the interval set is not too large. -/
theorem isInt_rounds_iff {value : Int} (hint : IsInt value) :
    IsInt (fallback value 5 * 10) ↔ value ≤ 214748364 := by
  unfold IsInt fallback at *
  split <;> omega

theorem isInt_threefold_iff (value : Int) :
    IsInt (value * 3) ↔ -715827882 ≤ value ∧ value ≤ 715827882 := by
  unfold IsInt
  omega

theorem readAll_fps_iff :
    1 ≤ (readAll outOfRange env).fps ↔ ∀ fps ∈ numberOf outOfRange env "AICAM_FPS", 1 ≤ fps :=
  readIntEnv_iff (P := fun n => 1 ≤ n) (by decide)

theorem readAll_metrics_iff :
    IsInt (fallback (readAll outOfRange env).metricsIntervalSec 5 * 10) ↔
      ∀ seconds ∈ numberOf outOfRange env "AICAM_METRICS_INTERVAL", seconds ≤ 214748364 := by
  rw [isInt_rounds_iff (readAll_ints outOfRange env).metricsIntervalSec]
  exact readIntEnv_iff (P := fun n => n ≤ 214748364) (by decide)

/-- The product of the repairs is an `int`, where it is formed. -/
theorem readAll_product_iff :
    ((readAll outOfRange env).overlayStaleFrames ≤ 0 →
        IsInt ((readAll outOfRange env).ai.inferEveryNFrames * 3)) ↔
      ∀ frames ∈ numberOf outOfRange env "AICAM_OVERLAY_STALE_FRAMES", frames ≤ 0 →
        ∀ n ∈ numberOf outOfRange env "AICAM_INFER_EVERY_N",
          -715827882 ≤ n ∧ n ≤ 715827882 := by
  have hinterval : IsInt ((readAll outOfRange env).ai.inferEveryNFrames * 3) ↔
      ∀ n ∈ numberOf outOfRange env "AICAM_INFER_EVERY_N", -715827882 ≤ n ∧ n ≤ 715827882 := by
    rw [isInt_threefold_iff]
    exact readIntEnv_iff (P := fun n => -715827882 ≤ n ∧ n ≤ 715827882) (by decide)
  rw [hinterval]
  exact readIntEnv_iff (P := fun frames => frames ≤ 0 → _) (fun h => absurd h (by decide))

theorem workable_of_safe (h : fromEnvironment outOfRange env = some config) (hsafe : config.Safe) :
    Workable outOfRange env where
  fps := by
    have hfps := hsafe.fps
    rw [repair_fps h] at hfps
    exact readAll_fps_iff.mp hfps
  metricsInterval := by
    obtain ⟨hrounds, -⟩ := checkedInt_eq_some_iff.mp hsafe.metricsRounds
    rw [repair_metricsIntervalSec h] at hrounds
    exact readAll_metrics_iff.mp hrounds
  inferEveryN := by
    obtain ⟨frames, hframes, -⟩ := Option.map_eq_some_iff.mp h
    refine readAll_product_iff.mp fun hunset => ?_
    rcases staleFrames_cases hframes with ⟨-, hproduct, -⟩ | ⟨hset, -⟩
    · exact hproduct
    · exact absurd hset (Int.not_le.mpr (Int.lt_add_one_of_le hunset))

theorem Workable.safe (h : Workable outOfRange env) :
    ∃ config, fromEnvironment outOfRange env = some config ∧ config.Safe := by
  obtain ⟨config, hconfig⟩ := repair_isSome (readAll_product_iff.mpr h.inferEveryN)
  have hfps : 1 ≤ config.fps := by
    rw [repair_fps hconfig]
    exact readAll_fps_iff.mpr h.fps
  have hrounds : IsInt (config.metricsIntervalSec * 10) := by
    rw [repair_metricsIntervalSec hconfig]
    exact readAll_metrics_iff.mpr h.metricsInterval
  have hints := repair_ints (readAll_ints outOfRange env) hconfig
  exact ⟨config, hconfig, (repair_positive hconfig).safe hints hfps hrounds⟩

/-- **Which environments give a safe configuration**: the frame rate, if it is set, is positive, the
tenfold of the interval of the metrics is an `int`, and so is the threefold of the interval of the
inference when the stale frames are left to it. -/
theorem fromEnvironment_safe_iff (outOfRange : Int → Int32) (env : Environment) :
    (∃ config, fromEnvironment outOfRange env = some config ∧ config.Safe) ↔
      Workable outOfRange env :=
  ⟨fun ⟨_, hconfig, hsafe⟩ => workable_of_safe hconfig hsafe, Workable.safe⟩

/-- An environment with the given variables. -/
def assigned (assignments : List (String × String)) : Environment :=
  fun key => assignments.lookup key

/-- A frame rate of zero and a long interval of the metrics are kept, and for a long interval of the
inference, with the stale frames left to it, the product overflows. -/
theorem fromEnvironment_not_safe :
    (¬ ∃ config, fromEnvironment Int32.ofInt (assigned [("AICAM_FPS", "0")]) = some config ∧
        config.Safe) ∧
      (¬ ∃ config, fromEnvironment Int32.ofInt
          (assigned [("AICAM_METRICS_INTERVAL", "300000000")]) = some config ∧ config.Safe) ∧
      fromEnvironment Int32.ofInt (assigned [("AICAM_INFER_EVERY_N", "1000000000"),
        ("AICAM_OVERLAY_STALE_FRAMES", "0")]) = none := by
  refine ⟨?_, ?_, by decide +kernel⟩
  · rintro ⟨config, hconfig, hsafe⟩
    exact absurd ((workable_of_safe hconfig hsafe).fps 0 (by decide +kernel)) (by decide)
  · rintro ⟨config, hconfig, hsafe⟩
    exact absurd ((workable_of_safe hconfig hsafe).metricsInterval 300000000 (by decide +kernel))
      (by decide)

end AppConfig

end EdgeVision
