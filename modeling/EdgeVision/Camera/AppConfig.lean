import EdgeVision.Ai.RknnDetector
import EdgeVision.Lib.CString

/-!
# The configuration

`AppConfig::fromEnvironment`: the `AICAM_*` variables with their defaults, and the repair of values
that make no sense. A variable that is not set has no text; a character is a byte of the text. An
`int` is an integer, a `none` is an overflow, and a float is read and written without rounding.
-/

namespace EdgeVision

open Lib

/-! ## Variables -/

/-- What `std::getenv` returns for a name. -/
abbrev Environment := String → Option String

section

variable (env : Environment) (key : String)

/-- A variable with a text that is not empty is parsed, any other has the default. -/
def readEnv {α : Type} (parse : String → α) (defaultValue : α) : α :=
  match env key with
  | none => defaultValue
  | some value => if value.isEmpty then defaultValue else parse value

def readIntEnv (outOfRange : Int → Int32) (defaultValue : Int) : Int :=
  readEnv env key (fun value => CString.atoi outOfRange value.toList) defaultValue

def readFloatEnv (defaultValue : ExtRat) : ExtRat :=
  readEnv env key (fun value => CString.atof value.toList) defaultValue

def readBoolEnv (defaultValue : Bool) : Bool :=
  readEnv env key
    (fun text => text == "1" || text == "true" || text == "TRUE" || text == "yes") defaultValue

/-- A text may be empty. -/
def readStringEnv (defaultValue : String) : String := (env key).getD defaultValue

end

/-! ## The structures -/

/-- `AiConfig` with the settings that the detector does not read once it is initialised. -/
structure AiSettings extends AiConfig where
  enabled : Bool
  modelPath : String
  labelsPath : String
  inferEveryNFrames : Int
  deriving DecidableEq, Repr

structure AppConfig where
  sensorId : Int
  fps : Int
  iqDir : String
  gatewayIp : String
  gatewayPort : Int
  encodeQueueCapacity : Int
  aiQueueCapacity : Int
  verboseEncodeLog : Bool
  eventJsonlPath : String
  metricsJsonlPath : String
  metricsIntervalSec : Int
  overlayEnable : Bool
  overlayBoxThickness : Int
  overlayStaleFrames : Int
  ai : AiSettings
  deriving DecidableEq, Repr

namespace AppConfig

/-- The initialisers of the members. -/
def defaults : AppConfig where
  sensorId := 0
  fps := 30
  iqDir := "/etc/iqfiles"
  gatewayIp := "127.0.0.1"
  gatewayPort := 8080
  encodeQueueCapacity := 5
  aiQueueCapacity := 3
  verboseEncodeLog := false
  eventJsonlPath := "logs/events.jsonl"
  metricsJsonlPath := "logs/metrics.jsonl"
  metricsIntervalSec := 5
  overlayEnable := true
  overlayBoxThickness := 4
  overlayStaleFrames := 30
  ai :=
    { enabled := false
      modelPath := ""
      labelsPath := ""
      scoreThreshold := .fin (35 / 100)
      nmsThreshold := .fin (45 / 100)
      inferEveryNFrames := 5
      maxResults := 20
      hasObjectness := true
      boxFormat := "xywh" }

/-! ## `fromEnvironment` -/

/-- The first half: every variable is read. Inference is on by default when there is a model. -/
def readAll (outOfRange : Int → Int32) (env : Environment) : AppConfig :=
  let readInt := fun key defaultValue => readIntEnv env key outOfRange defaultValue
  let modelPath := readStringEnv env "AICAM_RKNN_MODEL" ""
  { sensorId := readInt "AICAM_SENSOR_ID" defaults.sensorId
    fps := readInt "AICAM_FPS" defaults.fps
    iqDir := readStringEnv env "AICAM_IQ_DIR" defaults.iqDir
    gatewayIp := readStringEnv env "AICAM_GATEWAY_IP" defaults.gatewayIp
    gatewayPort := readInt "AICAM_GATEWAY_PORT" defaults.gatewayPort
    encodeQueueCapacity := readInt "AICAM_ENCODE_QUEUE" defaults.encodeQueueCapacity
    aiQueueCapacity := readInt "AICAM_AI_QUEUE" defaults.aiQueueCapacity
    verboseEncodeLog := readBoolEnv env "AICAM_VERBOSE_ENCODE" defaults.verboseEncodeLog
    eventJsonlPath := readStringEnv env "AICAM_EVENT_JSONL" defaults.eventJsonlPath
    metricsJsonlPath := readStringEnv env "AICAM_METRICS_JSONL" defaults.metricsJsonlPath
    metricsIntervalSec := readInt "AICAM_METRICS_INTERVAL" defaults.metricsIntervalSec
    overlayEnable := readBoolEnv env "AICAM_OVERLAY_ENABLE" defaults.overlayEnable
    overlayBoxThickness := readInt "AICAM_OVERLAY_THICKNESS" defaults.overlayBoxThickness
    overlayStaleFrames := readInt "AICAM_OVERLAY_STALE_FRAMES" defaults.overlayStaleFrames
    ai :=
      { modelPath
        labelsPath := readStringEnv env "AICAM_LABELS" ""
        scoreThreshold := readFloatEnv env "AICAM_SCORE_THRESHOLD" defaults.ai.scoreThreshold
        nmsThreshold := readFloatEnv env "AICAM_NMS_THRESHOLD" defaults.ai.nmsThreshold
        inferEveryNFrames := readInt "AICAM_INFER_EVERY_N" defaults.ai.inferEveryNFrames
        maxResults := readInt "AICAM_MAX_RESULTS" defaults.ai.maxResults
        hasObjectness := readBoolEnv env "AICAM_HAS_OBJECTNESS" defaults.ai.hasObjectness
        boxFormat := readStringEnv env "AICAM_BOX_FORMAT" defaults.ai.boxFormat
        enabled := readBoolEnv env "AICAM_AI_ENABLE" (!modelPath.isEmpty) } }

/-- A value that is not positive is replaced. -/
def fallback (value other : Int) : Int := if value ≤ 0 then other else value

/-- The repair of `overlay_stale_frames`; the product is only formed when it is needed. -/
def staleFrames (config : AppConfig) : Option Int :=
  if config.overlayStaleFrames ≤ 0 then
    (checkedInt (config.ai.inferEveryNFrames * 3)).map (max 30)
  else some config.overlayStaleFrames

/-- The second half: the repairs. The stale frames come before the interval that they depend on. -/
def repair (config : AppConfig) : Option AppConfig :=
  config.staleFrames.map fun overlayStaleFrames =>
    { config with
      metricsIntervalSec := fallback config.metricsIntervalSec 5
      encodeQueueCapacity := fallback config.encodeQueueCapacity 5
      aiQueueCapacity := fallback config.aiQueueCapacity 3
      overlayBoxThickness := fallback config.overlayBoxThickness 4
      overlayStaleFrames
      ai := { config.ai with inferEveryNFrames := fallback config.ai.inferEveryNFrames 1 } }

def fromEnvironment (outOfRange : Int → Int32) (env : Environment) : Option AppConfig :=
  (readAll outOfRange env).repair

end AppConfig

end EdgeVision
