import EdgeVision.Gateway.Threads

/-!
# The history of the connections

The two threads together with what has gone over each connection: the bytes read from it and the
bytes its socket accepted, and the frames that `handleCompleteFrame` was called with, each under the
connection whose read brought it. The program keeps none of this; a `History` is written next to
the steps and no step reads it.
-/

namespace EdgeVision

/-- The bytes that the socket accepts in a round. -/
def Viewer.roundBytes (v : Viewer) : List SendOutcome → Bytes
  | [] => []
  | outcome :: outcomes =>
    match v.sendOnce outcome with
    | (v', accepted, .again) => accepted ++ v'.roundBytes outcomes
    | (_, accepted, _) => accepted

structure History where
  /-- The number that `accept` returned for a connection. -/
  number : Conn → Option Fd
  /-- The bytes read from a connection. -/
  rx : Conn → Bytes
  /-- The bytes that the socket of a connection accepted. -/
  tx : Conn → Bytes
  /-- The connection of the last read. -/
  source : Option Conn
  /-- The calls of `handleCompleteFrame`. -/
  log : List (Option Conn × Bytes)

/-- The frames that the epoll thread has taken off a buffer and not called `handleCompleteFrame`
with yet. -/
def EpollPc.upcoming : EpollPc → List Bytes
  | .frames later => later
  | .cacheIdr _ later => later
  | .queueFrame _ later => later
  | .removing _ _ later => later
  | _ => []

namespace History

def initial : History where
  number := fun _ => none
  rx := fun _ => []
  tx := fun _ => []
  source := none
  log := []

variable (h : History)

/-- The frames of one connection that `handleCompleteFrame` was called with. -/
def framesFrom (c : Conn) : List Bytes := (h.log.filter fun p => p.1 == some c).map Prod.snd

/-- They, and those that are taken off its buffer already. -/
def taken (pc : EpollPc) (c : Conn) : List Bytes :=
  h.framesFrom c ++ if h.source = some c then pc.upcoming else []

/-- What the sockets accept in a round. -/
def accepted (s : System) (outcomes : Fd → List SendOutcome) (c : Conn) : Bytes :=
  match h.number c with
  | none => []
  | some fd =>
    if s.owner fd = some c then
      match s.gateway.viewers.find? fd with
      | none => []
      | some v => v.roundBytes (s.gateway.answers outcomes fd)
    else []

/-- The bytes of a read, under the connection that the number belongs to. -/
def hear (conn : Option Conn) (buffer : Bytes) : History :=
  { h with
    rx := fun c => if conn = some c then h.rx c ++ buffer else h.rx c
    source := conn }

/-- What a step adds to the history. -/
def record (s : System) : Label → History
  | .accept fd => { h with number := fun c => if c = s.nextConn then some fd else h.number c }
  | .read (.bytes buffer) =>
    match s.epoll with
    | .reading fd => h.hear (s.owner fd) buffer
    | _ => h
  | .epoll =>
    match s.epoll with
    | .frames (frame :: _) => { h with log := h.log ++ [(h.source, frame)] }
    | _ => h
  | .round outcomes => { h with tx := fun c => h.tx c ++ h.accepted s outcomes c }
  | _ => h

end History

/-- The two threads with the history of the connections. -/
structure Relay where
  system : System
  history : History

namespace Relay

def initial : Relay := ⟨.initial, .initial⟩

def step (r : Relay) (a : Label) : Option Relay :=
  (r.system.step a).map fun t => ⟨t, r.history.record r.system a⟩

end Relay

end EdgeVision
