import EdgeVision.Gateway.TcpServer
import EdgeVision.Lib.Reach

/-!
# One connection in the event loop

The loop of `start` as a producer sees it that sends its bytes and then closes its sending side. The
kernel's side of the connection is the bytes on their way, the bytes received and not read, and
whether the FIN has been received. `epoll_wait` is level-triggered and reports `EPOLLIN` as long as
bytes are unread or the FIN has been received, and `EPOLLRDHUP` with it from the FIN on; more may
arrive before the events are handled. A read returns any number of the unread bytes that the buffer
holds. The other connections and the sender thread take their steps in between.
-/

namespace EdgeVision

open Lib

/-- The events reported for a descriptor. -/
structure EventMask where
  epollIn : Bool
  epollRdHup : Bool
  deriving DecidableEq, Repr

structure EventLoop where
  gateway : TcpServer
  inFlight : Bytes
  unread : Bytes
  fin : Bool
  /-- What `epoll_wait` has reported for the connection and `start` has not handled. -/
  events : Option EventMask
  /-- The frames that `handleCompleteFrame` has been called with in reads of the connection. -/
  own : List Bytes

/-- A step: bytes or the FIN arrive, `epoll_wait` reports the connection, its events are handled and
a read returns `n` bytes; or another connection is accepted, read from or hung up, or the sender
thread makes its round. -/
inductive EventLoopLabel where
  | arrive (n : Nat)
  | arriveFin
  | wait
  | handle (n : Nat)
  | acceptOther (fd' : Fd) (conn' : Conn)
  | readOther (fd' : Fd) (buffer : Bytes)
  | hangUpOther (fd' : Fd)
  | round (outcomes : Fd → List SendOutcome)

namespace EventLoop

/-- A connection just accepted by the server `g`, whose peer will have sent `wire` when it closes. -/
def start (g : TcpServer) (fd : Fd) (conn : Conn) (wire : Bytes) : EventLoop where
  gateway := g.accept fd conn
  inFlight := wire
  unread := []
  fin := false
  events := none
  own := []

variable (fd : Fd) (s : EventLoop)

/-- There is something to report. -/
def readable : Bool := !s.unread.isEmpty || s.fin

/-- The body of the loop over the events, for the connection. -/
def handleEvents (events : EventMask) (n : Nat) : Option EventLoop :=
  if events.epollRdHup then
    some { s with gateway := s.gateway.removeViewer fd, events := none }
  else if !s.unread.isEmpty then
    if 1 ≤ n ∧ n ≤ min s.unread.length readBufferSize then
      let gateway := s.gateway.readFrom fd (s.unread.take n)
      some { s with
        gateway
        unread := s.unread.drop n
        events := none
        own := s.own ++ gateway.handled.drop s.gateway.handled.length }
    else none
  else if s.fin then
    -- `bytes_read == 0`
    some { s with gateway := s.gateway.removeViewer fd, events := none }
  else
    -- `EAGAIN`
    some { s with events := none }

def step : EventLoopLabel → Option EventLoop
  | .arrive n =>
    if 1 ≤ n ∧ n ≤ s.inFlight.length then
      some { s with
        unread := s.unread ++ s.inFlight.take n
        inFlight := s.inFlight.drop n }
    else none
  | .arriveFin => if s.inFlight.isEmpty then some { s with fin := true } else none
  | .wait =>
    if s.gateway.sockets.contains fd && s.readable && s.events.isNone then
      some { s with events := some ⟨true, s.fin⟩ }
    else none
  | .handle n => s.events.bind fun events => s.handleEvents fd events n
  | .acceptOther fd' conn' =>
    if fd' = fd then none else some { s with gateway := s.gateway.accept fd' conn' }
  | .readOther fd' buffer =>
    if fd' = fd then none else some { s with gateway := s.gateway.readFrom fd' buffer }
  | .hangUpOther fd' =>
    if fd' = fd then none else some { s with gateway := s.gateway.removeViewer fd' }
  | .round outcomes =>
    some { s with
      gateway :=
        (s.gateway.senderRound outcomes).2.removeAll (s.gateway.senderRound outcomes).1 }

/-- The guard of the runs in which no hang-up is handled while received bytes are unread. -/
def HangUpDrained (s : EventLoop) : EventLoopLabel → Prop
  | .handle _ => ∀ events ∈ s.events, events.epollRdHup = true → s.unread = []
  | _ => True

instance (s : EventLoop) (a : EventLoopLabel) : Decidable (HangUpDrained s a) := by
  cases a <;> unfold HangUpDrained <;> infer_instance

end EventLoop

end EdgeVision
