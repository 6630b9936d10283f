import EdgeVision.Event.EventLogger
import EdgeVision.Metrics.MetricsCollector

/-!
# The metrics log

`MetricsWriter`: a line of JSON for each snapshot, as the bytes that are appended to the file.
-/

namespace EdgeVision

open Lib

/-- The file that is appended to; `none` when it is not open. -/
structure MetricsWriter where
  stream : Option Bytes
  deriving DecidableEq, Repr

namespace MetricsWriter

def snapshotText (snapshot : MetricsSnapshot) : Bytes :=
  bytes "\x7b" ++
    bytes "\"timestamp\":\"" ++ utf8 (formatUnixMicros snapshot.timestampUs.toNat) ++ bytes "\"," ++
    bytes "\"capture_fps\":" ++ utf8 (printFloat (.fin snapshot.captureFps)) ++ bytes "," ++
    bytes "\"encode_fps\":" ++ utf8 (printFloat (.fin snapshot.encodeFps)) ++ bytes "," ++
    bytes "\"ai_fps\":" ++ utf8 (printFloat (.fin snapshot.aiFps)) ++ bytes "," ++
    bytes "\"average_encode_ms\":" ++ utf8 (printFloat (.fin snapshot.averageEncodeMs)) ++
    bytes "," ++
    bytes "\"average_inference_ms\":" ++ utf8 (printFloat (.fin snapshot.averageInferenceMs)) ++
    bytes "," ++
    bytes "\"cpu_percent\":" ++ utf8 (printFloat (.fin snapshot.cpuPercent)) ++ bytes "," ++
    bytes "\"rss_mb\":" ++ utf8 (printFloat (.fin snapshot.rssMb)) ++ bytes "," ++
    bytes "\"bytes_sent\":" ++ utf8 (IStream.decimal snapshot.bytesSent.toNat) ++ bytes "," ++
    bytes "\"events_written\":" ++ utf8 (IStream.decimal snapshot.eventsWritten.toNat) ++
    bytes "," ++
    bytes "\"encode_queue_drops\":" ++ utf8 (IStream.decimal snapshot.encodeQueueDrops.toNat) ++
    bytes "," ++
    bytes "\"ai_queue_drops\":" ++ utf8 (IStream.decimal snapshot.aiQueueDrops.toNat) ++
    bytes "\x7d\n"

def write (writer : MetricsWriter) (snapshot : MetricsSnapshot) : MetricsWriter where
  stream := writer.stream.map fun written => written ++ snapshotText snapshot

end MetricsWriter

end EdgeVision
