import EdgeVision.Lib.Rounding
import EdgeVision.Metrics.ProcSample

/-!
# Run-time metrics

`MetricsCollector`: the atomic counters, and what `sample` makes of them. A `double` is a rational,
and `fl` is the rounding of its operations and of the conversions to it: none of them divides by
zero, and their results are zero or far from the ends of the format. Counters and times are the
64-bit numbers of the source.
-/

namespace EdgeVision

open Lib

/-- The atomic members. -/
inductive Counter where
  | capturedFrames
  | encodedFrames
  | aiFrames
  | bytesSent
  | eventsWritten
  | encodeQueueDrops
  | aiQueueDrops
  | encodeTimeUsTotal
  | inferenceTimeUsTotal
  deriving DecidableEq, Repr

/-- A value for every atomic member. -/
abbrev Counters := Counter → UInt64

def Counters.fetchAdd (counters : Counters) (counter : Counter) (n : UInt64) : Counters :=
  fun other => if other = counter then counters other + n else counters other

/-- `safeRate`, over an interval in seconds. -/
def safeRate (fl : Rounding) (current previous : UInt64) (intervalSeconds : Rat) : Rat :=
  if intervalSeconds ≤ 0 ∨ current < previous then 0
  else fl (fl (current - previous).toNat / intervalSeconds)

structure MetricsSnapshot where
  timestampUs : UInt64
  captureFps : Rat
  encodeFps : Rat
  aiFps : Rat
  averageEncodeMs : Rat
  averageInferenceMs : Rat
  cpuPercent : Rat
  rssMb : Rat
  bytesSent : UInt64
  eventsWritten : UInt64
  encodeQueueDrops : UInt64
  aiQueueDrops : UInt64
  deriving DecidableEq, Repr

/-- What a sample reads: the clock, the counters, and `/proc`. -/
structure Readings where
  timestampUs : UInt64
  counters : Counters
  proc : ProcSample

/-- The members that a sample keeps for the next one. -/
structure Reference where
  lastCaptureFrames : UInt64
  lastEncodedFrames : UInt64
  lastAiFrames : UInt64
  lastEncodeTimeUsTotal : UInt64
  lastInferenceTimeUsTotal : UInt64
  lastSampleTimeUs : UInt64
  lastProcSample : ProcSample

/-- The members as the constructor leaves them. -/
def Reference.init (now : UInt64) (proc : ProcSample) : Reference := ⟨0, 0, 0, 0, 0, now, proc⟩

/-- What `sysconf` has told the constructor. -/
structure SystemConstants where
  pageSize : Int
  cpuCores : Int

/-- The average over the frames since the last sample, zero without any. -/
def averageMs (fl : Rounding) (timeUsTotal lastTimeUsTotal frames lastFrames : UInt64) : Rat :=
  let framesDelta := frames - lastFrames
  if 0 < framesDelta then
    fl (fl (fl (timeUsTotal - lastTimeUsTotal).toNat / fl framesDelta.toNat) / 1000)
  else 0

def cpuPercent (fl : Rounding) (sys : SystemConstants) (proc last : ProcSample) : Rat :=
  let totalDelta := proc.totalJiffies - last.totalJiffies
  let procDelta := proc.processJiffies - last.processJiffies
  if 0 < totalDelta ∧ 0 < sys.cpuCores then
    fl (fl (fl (fl procDelta.toNat / fl totalDelta.toNat) * 100) * fl sys.cpuCores)
  else 0

/-- The product of `rss_pages` and `page_size_` is one of 64-bit unsigned numbers. -/
def rssMb (fl : Rounding) (sys : SystemConstants) (proc : ProcSample) : Rat :=
  fl (fl (fl (proc.rssPages * UInt64.ofInt sys.pageSize).toNat / 1024) / 1024)

/-- The snapshot that `sample` makes of its readings. -/
def sampleSnapshot (fl : Rounding) (sys : SystemConstants) (last : Reference) (now : Readings) :
    MetricsSnapshot :=
  let intervalSeconds := fl (fl (now.timestampUs - last.lastSampleTimeUs).toNat / 1000000)
  let bothValid := now.proc.valid && last.lastProcSample.valid
  { timestampUs := now.timestampUs
    captureFps := safeRate fl (now.counters .capturedFrames) last.lastCaptureFrames intervalSeconds
    encodeFps := safeRate fl (now.counters .encodedFrames) last.lastEncodedFrames intervalSeconds
    aiFps := safeRate fl (now.counters .aiFrames) last.lastAiFrames intervalSeconds
    averageEncodeMs := averageMs fl (now.counters .encodeTimeUsTotal) last.lastEncodeTimeUsTotal
      (now.counters .encodedFrames) last.lastEncodedFrames
    averageInferenceMs := averageMs fl (now.counters .inferenceTimeUsTotal)
      last.lastInferenceTimeUsTotal (now.counters .aiFrames) last.lastAiFrames
    cpuPercent := if bothValid then cpuPercent fl sys now.proc last.lastProcSample else 0
    rssMb := if bothValid then rssMb fl sys now.proc else 0
    bytesSent := now.counters .bytesSent
    eventsWritten := now.counters .eventsWritten
    encodeQueueDrops := now.counters .encodeQueueDrops
    aiQueueDrops := now.counters .aiQueueDrops }

/-- What `sample` keeps of its readings. -/
def Readings.reference (now : Readings) : Reference where
  lastCaptureFrames := now.counters .capturedFrames
  lastEncodedFrames := now.counters .encodedFrames
  lastAiFrames := now.counters .aiFrames
  lastEncodeTimeUsTotal := now.counters .encodeTimeUsTotal
  lastInferenceTimeUsTotal := now.counters .inferenceTimeUsTotal
  lastSampleTimeUs := now.timestampUs
  lastProcSample := now.proc

/-- A call of `sample` with these readings. -/
def sample (fl : Rounding) (sys : SystemConstants) (last : Reference) (now : Readings) :
    MetricsSnapshot × Reference :=
  (sampleSnapshot fl sys last now, now.reference)

end EdgeVision
