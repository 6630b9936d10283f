import EdgeVision.Camera.Pipeline
import EdgeVision.Event.EventLogger
import EdgeVision.Lib.LineLog

/-!
# The AI thread and its log

The threads of `Camera.Pipeline` with what the AI thread does in `event_logger.write`, which it calls
for a result with detections between `recordAi` and `recordEventWritten`: the line goes into the
buffer of the stream and from there into the file, piece by piece, while the other threads go on, and
the AI thread goes on once it is flushed. The process starts on the file that earlier ones have left;
where the file could not be opened a call writes nothing.
-/

namespace EdgeVision

open Lib

structure Recording where
  pipeline : Pipeline
  log : LineLog UInt8 EventResult
  /-- What `write` is to be called with. -/
  due : Option AiResult

/-- A step of a thread outside `write`, the call of `write` for a result with the times that `infer`
has measured, or a step of the stream. -/
inductive RecordingLabel where
  | thread (a : PipelineLabel)
  | write (preprocessMs inferenceMs postprocessMs : ExtRat)
  | put (n : Nat)
  | spill (n : Nat)
  | flush

/-- The result that the next step of the AI thread calls `write` for. -/
def AiPc.toWrite : AiPc → Option AiResult
  | recordAi result => if result.detections.isEmpty then none else some result
  | _ => none

namespace Recording

def start (c : Settings) (isOpen : Bool) (log : LineLog UInt8 EventResult) : Recording :=
  ⟨.initial c, log.restart isOpen, none⟩

variable (c : Settings) (s : Recording)

/-- The AI thread is within `write`. -/
def writing : Bool := s.due.isSome || s.log.current.isSome

def logStep (a : LogLabel EventResult) : Option (LineLog UInt8 EventResult) :=
  s.log.step EventLogger.eventText a

def step : RecordingLabel → Option Recording
  | .thread (.ai rknn) =>
    if s.writing then none
    else
      (s.pipeline.step c (.ai rknn)).map fun pipeline =>
        { s with pipeline, due := s.pipeline.ai.toWrite }
  | .thread a => (s.pipeline.step c a).map fun pipeline => { s with pipeline }
  | .write preprocessMs inferenceMs postprocessMs =>
    s.due.bind fun result =>
      (s.logStep (.write ⟨result, preprocessMs, inferenceMs, postprocessMs⟩)).map fun log =>
        { s with log, due := none }
  | .put n => (s.logStep (.put n)).map fun log => { s with log }
  | .spill n => (s.logStep (.spill n)).map fun log => { s with log }
  | .flush => (s.logStep .flush).map fun log => { s with log }

end Recording

end EdgeVision
