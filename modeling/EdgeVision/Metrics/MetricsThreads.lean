import EdgeVision.Lib.Reach
import EdgeVision.Metrics.MetricsCollector

/-!
# The metrics between threads

Every operation on an atomic counter is one step. `recordEncode` and `recordAi` are two increments,
and any number of calls may lie between theirs. `sample` reads the clock and then the counters one
by one, in the order of the source, and its mutex lets one call in at a time. The averages are exact
quotients here: the rounding of `double` is left out.

The state also keeps what happened: the frame times recorded, in the order of the frame increments,
and the samples returned.
-/

namespace EdgeVision

/-- The two kinds of frames whose times are recorded. -/
inductive FrameKind where
  | encode
  | ai
  deriving DecidableEq, Repr

namespace FrameKind

def frames : FrameKind → Counter
  | encode => .encodedFrames
  | ai => .aiFrames

def timeUsTotal : FrameKind → Counter
  | encode => .encodeTimeUsTotal
  | ai => .inferenceTimeUsTotal

def lastFrames : FrameKind → Reference → UInt64
  | encode, ref => ref.lastEncodedFrames
  | ai, ref => ref.lastAiFrames

def lastTimeUsTotal : FrameKind → Reference → UInt64
  | encode, ref => ref.lastEncodeTimeUsTotal
  | ai, ref => ref.lastInferenceTimeUsTotal

/-- The average that a snapshot reports, in milliseconds. -/
def average : FrameKind → MetricsSnapshot → Rat
  | encode, snapshot => snapshot.averageEncodeMs
  | ai, snapshot => snapshot.averageInferenceMs

end FrameKind

/-- The time of a frame in milliseconds, one that the conversion to microseconds is defined for. -/
structure FrameTime where
  ms : Rat
  nonneg : 0 ≤ ms
  fits : ms * 1000 < 18446744073709551616

/-- `static_cast<uint64_t>(ms * 1000.0)`, with the product exact. -/
def FrameTime.micros (time : FrameTime) : Nat := ⌊time.ms * 1000⌋.toNat

/-- The methods that increment one counter. -/
inductive SingleRecord where
  | capture
  | bytesSent (bytes : UInt64)
  | eventWritten
  | encodeQueueDrop
  | aiQueueDrop

def SingleRecord.fetchAdd (counters : Counters) : SingleRecord → Counters
  | capture => counters.fetchAdd .capturedFrames 1
  | bytesSent bytes => counters.fetchAdd .bytesSent bytes
  | eventWritten => counters.fetchAdd .eventsWritten 1
  | encodeQueueDrop => counters.fetchAdd .encodeQueueDrops 1
  | aiQueueDrop => counters.fetchAdd .aiQueueDrops 1

/-- The loads of `sample`, in order. -/
def sampleLoads : List Counter :=
  [.capturedFrames, .encodedFrames, .aiFrames, .encodeTimeUsTotal, .inferenceTimeUsTotal,
    .bytesSent, .eventsWritten, .encodeQueueDrops, .aiQueueDrops]

/-- A call of `sample` that has made its first `next` loads; `seen` is how many frames had been
recorded at the load of their counter. -/
structure Sampling where
  timestampUs : UInt64
  loaded : Counters
  next : Nat
  seen : FrameKind → Nat

/-- A sample that was returned, with the frames that it counted and those recorded before it
returned. -/
structure SampleEntry where
  snapshot : MetricsSnapshot
  framesDelta : FrameKind → UInt64
  frames : FrameKind → List FrameTime
  soFar : FrameKind → List FrameTime

structure MetricsState where
  counters : Counters
  last : Reference
  /-- The calls between their two increments. -/
  inFlight : List (FrameKind × FrameTime)
  sampling : Option Sampling
  recorded : FrameKind → List FrameTime
  /-- The frames that the last sample has counted up to. -/
  counted : FrameKind → Nat
  samples : List SampleEntry

namespace MetricsState

def init (now : UInt64) (proc : ProcSample) : MetricsState where
  counters := fun _ => 0
  last := .init now proc
  inFlight := []
  sampling := none
  recorded := fun _ => []
  counted := fun _ => 0
  samples := []

/-- A step of some thread. -/
inductive Step where
  /-- The first increment of `recordEncode` or `recordAi`. -/
  | countFrame (kind : FrameKind) (time : FrameTime)
  /-- The second increment of one of the calls in flight. -/
  | addTime (i : Nat)
  | record (event : SingleRecord)
  /-- `sample` takes its mutex and reads the clock. -/
  | startSample (timestampUs : UInt64)
  | load
  /-- The rest of `sample`, with what `/proc` shows. -/
  | finishSample (proc : ProcSample)

variable (s : MetricsState)

def countFrame (kind : FrameKind) (time : FrameTime) : MetricsState :=
  { s with
    counters := s.counters.fetchAdd kind.frames 1
    inFlight := s.inFlight ++ [(kind, time)]
    recorded := fun k => if k = kind then s.recorded k ++ [time] else s.recorded k }

def addTime (i : Nat) (call : FrameKind × FrameTime) : MetricsState :=
  { s with
    counters := s.counters.fetchAdd call.1.timeUsTotal (UInt64.ofNat call.2.micros)
    inFlight := s.inFlight.eraseIdx i }

def startSample (timestampUs : UInt64) : MetricsState :=
  { s with sampling := some ⟨timestampUs, fun _ => 0, 0, fun _ => 0⟩ }

def load (call : Sampling) (counter : Counter) : MetricsState :=
  { s with
    sampling := some
      { call with
        loaded := fun c => if c = counter then s.counters counter else call.loaded c
        next := call.next + 1
        seen := fun k => if k.frames = counter then (s.recorded k).length else call.seen k } }

@[simp] theorem load_recorded (call : Sampling) (counter : Counter) :
    (s.load call counter).recorded = s.recorded := rfl

@[simp] theorem load_counted (call : Sampling) (counter : Counter) :
    (s.load call counter).counted = s.counted := rfl

@[simp] theorem load_inFlight (call : Sampling) (counter : Counter) :
    (s.load call counter).inFlight = s.inFlight := rfl

def finishSample (sys : SystemConstants) (call : Sampling) (proc : ProcSample) : MetricsState :=
  let returned := sample .exact sys s.last ⟨call.timestampUs, call.loaded, proc⟩
  { s with
    last := returned.2
    sampling := none
    counted := call.seen
    samples := s.samples ++
      [{ snapshot := returned.1
         framesDelta := fun k => call.loaded k.frames - k.lastFrames s.last
         frames := fun k => ((s.recorded k).take (call.seen k)).drop (s.counted k)
         soFar := s.recorded }] }

def step (sys : SystemConstants) : Step → Option MetricsState
  | .countFrame kind time => some (s.countFrame kind time)
  | .addTime i => s.inFlight[i]?.map (s.addTime i)
  | .record event => some { s with counters := event.fetchAdd s.counters }
  | .startSample timestampUs => if s.sampling.isNone then some (s.startSample timestampUs) else none
  | .load => s.sampling.bind fun call => sampleLoads[call.next]?.map (s.load call)
  | .finishSample proc =>
    s.sampling.bind fun call =>
      if call.next = sampleLoads.length then some (s.finishSample sys call proc) else none

end MetricsState

end EdgeVision
