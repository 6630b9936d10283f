import EdgeVision.Camera.Pipeline
import EdgeVision.Gateway.History
import EdgeVision.Stream.SendCalls

/-!
# The camera and the gateway together

The threads of the camera, the two threads of the gateway, and the connection between them. The
camera's socket accepts the packet in hand one `send` at a time, and `sendPacket` returns what its
calls of `send` have come to; the gateway reads what the socket has accepted, later and in pieces of
its own. The other connections of the gateway may bring anything.

`encoded` and `sent` are the packets that `encode` has returned and `sendPacket` has reported as
sent; the program keeps neither.
-/

namespace EdgeVision

structure Deployment where
  camera : Pipeline
  /-- What the camera's socket has accepted of the packet in hand, its prefix included. -/
  accepted : Nat
  /-- A `send` has failed for good. -/
  gaveUp : Bool
  /-- What the camera's socket has accepted. -/
  wire : Bytes
  relay : Relay
  encoded : List (CapturedFrame × Bytes)
  sent : List Bytes

inductive DeploymentLabel where
  | camera (a : PipelineLabel)
  | send (outcome : SendOutcome)
  | gateway (a : Label)

namespace Deployment

def initial (c : Settings) : Deployment where
  camera := .initial c
  accepted := 0
  gaveUp := false
  wire := []
  relay := .initial
  encoded := []
  sent := []

variable (c : Settings) (d : Deployment)

/-- `sendPacket` returns true once everything is accepted, and false once a `send` has failed. -/
def returns (a : PipelineLabel) : Bool :=
  match d.camera.encode, a with
  | .sendPacket h264Packet, .encode true _ => !d.gaveUp && d.accepted == 4 + h264Packet.length
  | .sendPacket _, .encode false _ => d.gaveUp
  | _, _ => true

/-- A step of the camera's threads. -/
def cameraStep (a : PipelineLabel) : Option Deployment :=
  if d.returns a then
    (d.camera.step c a).map fun camera =>
      match d.camera.encode, a with
      | .encode frame, .encode _ (some h264Packet) =>
        { d with
          camera, accepted := 0, gaveUp := false, encoded := d.encoded ++ [(frame, h264Packet)] }
      | .sendPacket h264Packet, .encode true _ =>
        { d with camera, sent := d.sent ++ [h264Packet] }
      | _, _ => { d with camera }
  else none

/-- A call of `send` within `sendPacket`. -/
def sendStep (outcome : SendOutcome) : Option Deployment :=
  match d.camera.encode with
  | .sendPacket h264Packet =>
    if d.gaveUp = false ∧ d.accepted < 4 + h264Packet.length then
      match sendCall h264Packet d.accepted outcome with
      | none => some { d with gaveUp := true }
      | some accepted =>
        some { d with
          accepted
          wire := d.wire ++
            ((framed h264Packet).drop d.accepted).take (accepted - d.accepted) }
    else none
  | _ => none

def step : DeploymentLabel → Option Deployment
  | .camera a => d.cameraStep c a
  | .send outcome => d.sendStep outcome
  | .gateway a => (d.relay.step a).map fun relay => { d with relay }

end Deployment

end EdgeVision
