import EdgeVision.Camera.Pipeline
import EdgeVision.Stream.SendCalls

/-!
# The camera process

The threads of `Camera.Pipeline` with the two that are left out there: the metrics thread, and
`main` once it has stopped the queues, which joins one thread after the other and returns. A join
waits until its thread has exited; the AI thread is joinable only if there is one, and where there
is none it counts as exited. `rounds` is the bound of the loop in which the metrics thread waits.

`sendPacket` is its calls of `send`: it returns when the socket has accepted the packet or a `send`
has failed. A `send` that is interrupted or finds no room is made again, for as long as it takes:
`sendAll` does not look at `g_running`.
-/

namespace EdgeVision

/-- Where the metrics thread stands; `tick` is the test of its inner loop, `check` the test behind
it. -/
inductive MetricsPc where
  | test
  | tick (i : Nat)
  | sleep (i : Nat)
  | check
  | write
  | lastWrite
  | exited
  deriving DecidableEq, Repr

/-- The thread that `main` joins next. -/
inductive JoinPc where
  | capture
  | encode
  | ai
  | metrics
  | returned
  deriving DecidableEq, Repr

/-- The call of `sendPacket`. -/
structure Sending where
  /-- What the socket has accepted of the packet in hand, its prefix included. -/
  accepted : Nat
  /-- A `send` has failed for good. -/
  gaveUp : Bool
  deriving DecidableEq, Repr

/-- A step of the encode thread that gets a packet from `encode` comes to a new call. -/
def Sending.after (sending : Sending) : EncodePc → PipelineLabel → Sending
  | .encode _, .encode _ (some _) => ⟨0, false⟩
  | _, _ => sending

structure Process where
  pipeline : Pipeline
  sending : Sending
  metrics : MetricsPc
  join : JoinPc
  /-- The calls of `metrics_writer.write`. -/
  written : Nat
  deriving DecidableEq, Repr

inductive ProcessLabel where
  | thread (a : PipelineLabel)
  | send (outcome : SendOutcome)
  | metrics
  | join

namespace Process

def initial (c : Settings) : Process := ⟨.initial c, ⟨0, false⟩, .test, .capture, 0⟩

variable (c : Settings) (rounds : Int) (s : Process)

/-- `sendPacket` returns true once everything is accepted, and false once a `send` has failed. -/
def returns (a : PipelineLabel) : Bool :=
  match s.pipeline.encode, a with
  | .sendPacket h264Packet, .encode true _ =>
    !s.sending.gaveUp && decide (4 + h264Packet.length ≤ s.sending.accepted)
  | .sendPacket _, .encode false _ => s.sending.gaveUp
  | _, _ => true

def threadStep (a : PipelineLabel) : Option Process :=
  if s.returns a then
    (s.pipeline.step c a).map fun p =>
      { s with pipeline := p, sending := s.sending.after s.pipeline.encode a }
  else none

/-- A call of `send` within `sendPacket`. -/
def sendStep (outcome : SendOutcome) : Option Process :=
  match s.pipeline.encode with
  | .sendPacket h264Packet =>
    if s.sending.gaveUp = false ∧ s.sending.accepted < 4 + h264Packet.length then
      match sendCall h264Packet s.sending.accepted outcome with
      | none => some { s with sending := { s.sending with gaveUp := true } }
      | some accepted => some { s with sending := { s.sending with accepted } }
    else none
  | _ => none

def metricsStep : Option Process :=
  match s.metrics with
  | .test => some { s with metrics := if s.pipeline.running then .tick 0 else .lastWrite }
  | .tick i =>
    some { s with metrics := if i < rounds ∧ s.pipeline.running then .sleep i else .check }
  | .sleep i => some { s with metrics := .tick (i + 1) }
  | .check => some { s with metrics := if s.pipeline.running then .write else .lastWrite }
  | .write => some { s with metrics := .test, written := s.written + 1 }
  | .lastWrite => some { s with metrics := .exited, written := s.written + 1 }
  | .exited => none

/-- A join of an exited thread, once `main` is past its loop and has stopped the queues. -/
def joinStep : Option Process :=
  if s.pipeline.main = .join then
    match s.join with
    | .capture =>
      if s.pipeline.capture = .exited then some { s with join := .encode } else none
    | .encode => if s.pipeline.encode = .exited then some { s with join := .ai } else none
    | .ai => if s.pipeline.ai = .exited then some { s with join := .metrics } else none
    | .metrics => if s.metrics = .exited then some { s with join := .returned } else none
    | .returned => none
  else none

def step : ProcessLabel → Option Process
  | .thread a => s.threadStep c a
  | .send outcome => s.sendStep outcome
  | .metrics => s.metricsStep rounds
  | .join => s.joinStep

end Process

end EdgeVision
