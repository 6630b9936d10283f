import EdgeVision.Ai.RknnDetector
import EdgeVision.Common.TimeUtils
import EdgeVision.Lib.GeneralFormat

/-!
# The event log

`EventLogger`: a line of JSON for each result, as the bytes that are appended to the file. A string
of the source is its UTF-8 here, and `escapeJson` goes over its bytes.
-/

namespace EdgeVision

open Lib

/-- The bytes of a literal. -/
def bytes (text : String) : Bytes := utf8 text.toList

/-- An `AiResult` with the times that the detector measures. -/
structure EventResult extends AiResult where
  preprocessMs : ExtRat
  inferenceMs : ExtRat
  postprocessMs : ExtRat

/-- What a stream prints for a floating-point number. -/
def printFloat : ExtRat → List Char
  | .fin q => formatGeneral q
  | .inf neg => if neg then "-inf".toList else "inf".toList
  | .nan => "nan".toList

/-- The file that is appended to; `none` when it is not open. -/
structure EventLogger where
  stream : Option Bytes
  deriving DecidableEq, Repr

namespace EventLogger

def escapeByte (ch : UInt8) : Bytes :=
  if ch = 92 then bytes "\\\\"
  else if ch = 34 then bytes "\\\""
  else if ch = 10 then bytes "\\n"
  else if ch = 13 then bytes "\\r"
  else if ch = 9 then bytes "\\t"
  else [ch]

def escapeJson (input : Bytes) : Bytes := input.flatMap escapeByte

def detectionText (det : Detection) : Bytes :=
  bytes "\x7b" ++
    bytes "\"class_id\":" ++ utf8 (IStream.decimal det.classId) ++ bytes "," ++
    bytes "\"label\":\"" ++ escapeJson (bytes det.label) ++ bytes "\"," ++
    bytes "\"score\":" ++ utf8 (printFloat det.score) ++ bytes "," ++
    bytes "\"x1\":" ++ utf8 (printFloat det.x1) ++ bytes "," ++
    bytes "\"y1\":" ++ utf8 (printFloat det.y1) ++ bytes "," ++
    bytes "\"x2\":" ++ utf8 (printFloat det.x2) ++ bytes "," ++
    bytes "\"y2\":" ++ utf8 (printFloat det.y2) ++
    bytes "\x7d"

/-- The loop over the detections: a comma before each but the first. -/
def detectionsText (detections : List Detection) : Bytes :=
  (detections.mapIdx fun i det => (if i ≠ 0 then bytes "," else []) ++ detectionText det).flatten

def eventText (result : EventResult) : Bytes :=
  bytes "\x7b" ++
    bytes "\"timestamp\":\"" ++ utf8 (formatUnixMicros result.captureTimeUs) ++ bytes "\"," ++
    bytes "\"frame_sequence\":" ++ utf8 (IStream.decimal result.frameSequence) ++ bytes "," ++
    bytes "\"backend\":\"" ++ escapeJson (bytes result.backend) ++ bytes "\"," ++
    bytes "\"preprocess_ms\":" ++ utf8 (printFloat result.preprocessMs) ++ bytes "," ++
    bytes "\"inference_ms\":" ++ utf8 (printFloat result.inferenceMs) ++ bytes "," ++
    bytes "\"postprocess_ms\":" ++ utf8 (printFloat result.postprocessMs) ++ bytes "," ++
    bytes "\"note\":\"" ++ escapeJson (bytes result.note) ++ bytes "\"," ++
    bytes "\"detections\":[" ++ detectionsText result.detections ++
    bytes "]\x7d\n"

def write (logger : EventLogger) (result : EventResult) : EventLogger where
  stream := logger.stream.map fun written => written ++ eventText result

end EventLogger

end EdgeVision
