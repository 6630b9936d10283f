import EdgeVision.Lib.Reach
import EdgeVision.Gateway.TcpServer

/-!
# The two threads of the gateway

The epoll thread (`start`) and the sender thread (`senderLoop`) take the mutex-protected blocks of
`Gateway.TcpServer` one at a time, in any order. A `Label` names the thread that moves and what the
kernel answers: which events `epoll_wait` reports, which number `accept` returns, what a `read`
brings, what the `send`s of a round achieve. A closed number may be returned by a later `accept`.

Every pending removal carries the connection it is meant for (`cause`), which the program itself
does not know: the one whose hang-up, end of input, invalid stream or failed `send` led to it.
`failedConn` remembers the connection whose `send` failed when a viewer was made inactive.
-/

namespace EdgeVision

/-! ## Removals -/

/-- How far a call of `removeViewer` has come: at the block on `viewers`, at the block on the other
two tables (with `should_close` so far), or at `epoll_ctl` and `close`. -/
inductive RemovalStage where
  | viewers
  | tables (shouldClose : Bool)
  | close
  deriving DecidableEq, Repr

/-- A call of `removeViewer(fd)` with the connection it is meant for. -/
structure Removal where
  fd : Fd
  cause : Option Conn
  stage : RemovalStage
  deriving DecidableEq, Repr

namespace Removal

/-- A call that has not taken its first block. -/
def call (p : Fd × Option Conn) : Removal := ⟨p.1, p.2, .viewers⟩

/-- The next block of `removeViewer`, and what is left of the call. -/
def advance (r : Removal) (g : TcpServer) : Option Removal × TcpServer :=
  match r.stage with
  | .viewers => (some { r with stage := .tables (g.eraseViewer r.fd).1 }, (g.eraseViewer r.fd).2)
  | .tables shouldClose =>
    (if shouldClose || (g.eraseTables r.fd).1 then some { r with stage := .close } else none,
      (g.eraseTables r.fd).2)
  | .close => (none, g.closeSocket r.fd)

/-- Whether the next block erases an entry or closes an open descriptor. -/
def touches (r : Removal) (g : TcpServer) : Bool :=
  match r.stage with
  | .viewers => g.viewers.contains r.fd
  | .tables _ => g.producers.contains r.fd || g.pendingProbe.contains r.fd
  | .close => g.sockets.contains r.fd

/-- The call is past the point where it found an entry, and will close the descriptor. -/
def closes (r : Removal) : Bool :=
  match r.stage with
  | .viewers => false
  | .tables shouldClose => shouldClose
  | .close => true

/-- A call keeps its number and what it is for, and does not come back to its first block. -/
theorem advance_same {r r' : Removal} {g : TcpServer} (h : (r.advance g).1 = some r') :
    r'.fd = r.fd ∧ r'.cause = r.cause ∧ r'.stage ≠ .viewers := by
  unfold advance at h
  split at h
  · cases h
    exact ⟨rfl, rfl, by simp⟩
  · simp only at h
    split at h
    · cases h
      exact ⟨rfl, rfl, by simp⟩
    · cases h
  · cases h

end Removal

/-! ## Events and answers of the kernel -/

/-- What `epoll_wait` reports: the listening socket, or a client descriptor that has hung up
(`EPOLLERR`, `EPOLLHUP`, `EPOLLRDHUP`) or is readable. -/
inductive Event where
  | listen
  | hangUp (fd : Fd) (conn : Conn)
  | readable (fd : Fd)
  deriving DecidableEq, Repr

/-- The client descriptor of an event. -/
def Event.fd? : Event → Option Fd
  | listen => none
  | hangUp fd _ => some fd
  | readable fd => some fd

/-- The event is about an open descriptor, and names the connection behind it. -/
def Event.isOpen (g : TcpServer) : Event → Bool
  | listen => true
  | hangUp fd conn => g.sockets[fd]? == some conn
  | readable fd => g.sockets.contains fd

/-- What `read` returns: bytes, end of input, `EAGAIN` or `EINTR`, or another error. -/
inductive ReadResult where
  | bytes (buffer : Bytes)
  | eof
  | again
  | failed
  deriving DecidableEq, Repr

/-- The size of the array `events`. -/
def maxEvents : Nat := 1024

/-! ## Where the threads stand -/

/-- The block that the epoll thread takes next. -/
inductive EpollPc where
  | idle
  | accepting
  | accepted (fd : Fd)
  | reading (fd : Fd)
  | lookViewers (fd : Fd) (buffer : Bytes) (conn : Option Conn)
  | lookProducers (fd : Fd) (buffer : Bytes) (conn : Option Conn)
  | probe (fd : Fd) (buffer : Bytes) (conn : Option Conn)
  | reassemble (fd : Fd) (data : Bytes) (conn : Option Conn)
  | bootstrap (fd : Fd)
  | join (viewer : Viewer)
  | frames (frames : List Bytes)
  | cacheIdr (frame : Bytes) (frames : List Bytes)
  | queueFrame (frame : Bytes) (frames : List Bytes)
  | removing (r : Removal) (dead : List (Fd × Option Conn)) (frames : List Bytes)
  deriving DecidableEq, Repr

/-- The removals of a list of dead viewers, then the frames that are left. -/
def EpollPc.removeDead (frames : List Bytes) : List (Fd × Option Conn) → EpollPc
  | [] => .frames frames
  | p :: dead => .removing (.call p) dead frames

/-- The block that the sender thread takes next. -/
inductive SenderPc where
  | idle
  | removing (r : Removal) (dead : List (Fd × Option Conn))
  deriving DecidableEq, Repr

def SenderPc.removeDead : List (Fd × Option Conn) → SenderPc
  | [] => .idle
  | p :: dead => .removing (.call p) dead

namespace Removal

variable (r : Removal) (g : TcpServer) (dead : List (Fd × Option Conn))

/-- Where the epoll thread goes on after the next block of a removal. -/
def epollAfter (frames : List Bytes) : EpollPc :=
  match (r.advance g).1 with
  | some r' => .removing r' dead frames
  | none => .removeDead frames dead

/-- Where the sender thread goes on after the next block of a removal. -/
def senderAfter : SenderPc :=
  match (r.advance g).1 with
  | some r' => .removing r' dead
  | none => .removeDead dead

end Removal

structure System where
  gateway : TcpServer
  nextConn : Conn
  batch : List Event
  epoll : EpollPc
  sender : SenderPc
  failedConn : Fd → Option Conn

inductive Label where
  | wait (events : List Event)
  | event
  | accept (fd : Fd)
  | acceptNone
  | read (result : ReadResult)
  | epoll
  | round (outcomes : Fd → List SendOutcome)
  | sender

namespace System

def initial : System where
  gateway := .initial
  nextConn := 0
  batch := []
  epoll := .idle
  sender := .idle
  failedConn := fun _ => none

variable (s : System)

/-- The kernel reports open descriptors, each once. -/
def Reports (events : List Event) : Prop :=
  events.length ≤ maxEvents ∧ (events.filterMap Event.fd?).Nodup ∧
    ∀ e ∈ events, e.isOpen s.gateway = true

instance (events : List Event) : Decidable (s.Reports events) :=
  inferInstanceAs (Decidable (_ ∧ _ ∧ _))

/-- What `read` may return: on a closed descriptor only an error. -/
def Answers (fd : Fd) : ReadResult → Prop
  | .bytes buffer => s.gateway.sockets.contains fd = true ∧ 0 < buffer.length ∧
      buffer.length ≤ readBufferSize
  | .eof => s.gateway.sockets.contains fd = true
  | .again => s.gateway.sockets.contains fd = true
  | .failed => True

instance (fd : Fd) (result : ReadResult) : Decidable (s.Answers fd result) := by
  cases result <;> unfold Answers <;> infer_instance

/-- The connection that a descriptor belongs to at this moment. -/
def owner (fd : Fd) : Option Conn := s.gateway.sockets[fd]?

/-- `start` after `read`. -/
def afterRead (fd : Fd) : ReadResult → EpollPc
  | .bytes buffer => .lookViewers fd buffer (s.owner fd)
  | .eof => .removing (.call (fd, s.owner fd)) [] []
  | .again => .idle
  | .failed => .removing (.call (fd, s.owner fd)) [] []

/-- The next block of the epoll thread, where there is one that needs no answer of the kernel. -/
def epollStep : Option System :=
  match s.epoll with
  | .accepted fd => some { s with gateway := s.gateway.startProbe fd, epoll := .accepting }
  | .lookViewers fd buffer conn =>
    some { s with
      epoll := if s.gateway.viewers.contains fd then .idle else .lookProducers fd buffer conn }
  | .lookProducers fd buffer conn =>
    some { s with
      epoll := if s.gateway.producers.contains fd then .reassemble fd buffer conn
        else .probe fd buffer conn }
  | .probe fd buffer conn =>
    some { s with
      gateway := (s.gateway.probeBlock fd buffer).2
      epoll := match (s.gateway.probeBlock fd buffer).1 with
        | .undecided => .idle
        | .viewer => .bootstrap fd
        | .producer firstChunk => if firstChunk.isEmpty then .idle
          else .reassemble fd firstChunk conn }
  | .reassemble fd data conn =>
    some { s with
      gateway := (s.gateway.reassembleBlock fd data).2
      epoll := if (s.gateway.reassembleBlock fd data).1.invalidStream
        then .removing (.call (fd, conn)) [] []
        else .frames (s.gateway.reassembleBlock fd data).1.readyFrames }
  | .bootstrap fd => some { s with epoll := .join (s.gateway.makeViewer fd) }
  | .join viewer => some { s with gateway := s.gateway.seat viewer, epoll := .idle }
  | .frames [] => some { s with epoll := .idle }
  | .frames (frame :: frames) =>
    some { s with gateway := s.gateway.cacheConfig frame, epoll := .cacheIdr frame frames }
  | .cacheIdr frame frames =>
    some { s with gateway := s.gateway.cacheIdr frame, epoll := .queueFrame frame frames }
  | .queueFrame frame frames =>
    some { s with
      gateway := (s.gateway.broadcast frame).2
      epoll := .removeDead frames
        ((s.gateway.broadcast frame).1.map fun fd => (fd, s.failedConn fd)) }
  | .removing r dead frames =>
    some { s with
      gateway := (r.advance s.gateway).2
      epoll := r.epollAfter s.gateway dead frames }
  | _ => none

/-- The next block of the sender thread in its removals. -/
def senderStep : Option System :=
  match s.sender with
  | .idle => none
  | .removing r dead =>
    some { s with
      gateway := (r.advance s.gateway).2
      sender := r.senderAfter s.gateway dead }

def step : Label → Option System
  | .wait events =>
    if s.epoll = .idle ∧ s.batch = [] ∧ s.Reports events then some { s with batch := events }
    else none
  | .event =>
    match s.epoll, s.batch with
    | .idle, .listen :: batch => some { s with batch := batch, epoll := .accepting }
    | .idle, .hangUp fd conn :: batch =>
      some { s with batch := batch, epoll := .removing (.call (fd, some conn)) [] [] }
    | .idle, .readable fd :: batch => some { s with batch := batch, epoll := .reading fd }
    | _, _ => none
  | .accept fd =>
    if s.epoll = .accepting ∧ s.gateway.sockets.contains fd = false then
      some { s with
        gateway := s.gateway.openSocket fd s.nextConn
        nextConn := s.nextConn + 1
        epoll := .accepted fd }
    else none
  | .acceptNone => if s.epoll = .accepting then some { s with epoll := .idle } else none
  | .read result =>
    match s.epoll with
    | .reading fd => if s.Answers fd result then some { s with epoll := s.afterRead fd result }
      else none
    | _ => none
  | .epoll => s.epollStep
  | .round outcomes =>
    if s.sender = .idle then
      let dead := (s.gateway.senderRound outcomes).1
      some { s with
        gateway := (s.gateway.senderRound outcomes).2
        sender := .removeDead (dead.map fun fd => (fd, s.owner fd))
        failedConn := fun fd => if fd ∈ dead then s.owner fd else s.failedConn fd }
    else none
  | .sender => s.senderStep

/-- The steps that accept `fd` and make a viewer of it. -/
def joinLabels (fd : Fd) : List Label :=
  [.wait [.listen], .event, .accept fd, .epoll, .acceptNone, .wait [.readable fd], .event,
    .read (.bytes getRequest), .epoll, .epoll, .epoll, .epoll, .epoll]

/-! ## What a step does -/

/-- The steps one by one, each with what it finds and what it leaves. -/
inductive Transition (s : System) : Label → System → Prop where
  | wait {events : List Event} (hpc : s.epoll = .idle) (hbatch : s.batch = [])
      (hreports : s.Reports events) : Transition s (.wait events) { s with batch := events }
  | listen {batch : List Event} (hpc : s.epoll = .idle) (hbatch : s.batch = .listen :: batch) :
      Transition s .event { s with batch := batch, epoll := .accepting }
  | hangUp {fd : Fd} {conn : Conn} {batch : List Event} (hpc : s.epoll = .idle)
      (hbatch : s.batch = .hangUp fd conn :: batch) :
      Transition s .event
        { s with batch := batch, epoll := .removing (.call (fd, some conn)) [] [] }
  | readable {fd : Fd} {batch : List Event} (hpc : s.epoll = .idle)
      (hbatch : s.batch = .readable fd :: batch) :
      Transition s .event { s with batch := batch, epoll := .reading fd }
  | accept {fd : Fd} (hpc : s.epoll = .accepting)
      (hclosed : s.gateway.sockets.contains fd = false) :
      Transition s (.accept fd) { s with
        gateway := s.gateway.openSocket fd s.nextConn
        nextConn := s.nextConn + 1
        epoll := .accepted fd }
  | acceptNone (hpc : s.epoll = .accepting) : Transition s .acceptNone { s with epoll := .idle }
  | read {fd : Fd} {result : ReadResult} (hpc : s.epoll = .reading fd)
      (hanswer : s.Answers fd result) :
      Transition s (.read result) { s with epoll := s.afterRead fd result }
  | accepted {fd : Fd} (hpc : s.epoll = .accepted fd) :
      Transition s .epoll { s with gateway := s.gateway.startProbe fd, epoll := .accepting }
  | isViewer {fd : Fd} {buffer : Bytes} {conn : Option Conn}
      (hpc : s.epoll = .lookViewers fd buffer conn) (hfound : s.gateway.viewers.contains fd = true) :
      Transition s .epoll { s with epoll := .idle }
  | notViewer {fd : Fd} {buffer : Bytes} {conn : Option Conn}
      (hpc : s.epoll = .lookViewers fd buffer conn)
      (hfound : s.gateway.viewers.contains fd = false) :
      Transition s .epoll { s with epoll := .lookProducers fd buffer conn }
  | isProducer {fd : Fd} {buffer : Bytes} {conn : Option Conn}
      (hpc : s.epoll = .lookProducers fd buffer conn)
      (hfound : s.gateway.producers.contains fd = true) :
      Transition s .epoll { s with epoll := .reassemble fd buffer conn }
  | notProducer {fd : Fd} {buffer : Bytes} {conn : Option Conn}
      (hpc : s.epoll = .lookProducers fd buffer conn)
      (hfound : s.gateway.producers.contains fd = false) :
      Transition s .epoll { s with epoll := .probe fd buffer conn }
  | undecided {fd : Fd} {buffer probe : Bytes} {conn : Option Conn}
      (hpc : s.epoll = .probe fd buffer conn)
      (hprobe : probe = (s.gateway.pendingProbe[fd]?).getD [] ++ buffer)
      (hshort : probe.length < probeBytes) :
      Transition s .epoll { s with
        gateway := { s.gateway with pendingProbe := s.gateway.pendingProbe.insert fd probe }
        epoll := .idle }
  | becomeViewer {fd : Fd} {buffer : Bytes} {conn : Option Conn}
      (hpc : s.epoll = .probe fd buffer conn) :
      Transition s .epoll { s with
        gateway := { s.gateway with pendingProbe := s.gateway.pendingProbe.erase fd }
        epoll := .bootstrap fd }
  | becomeProducer {fd : Fd} {buffer probe : Bytes} {conn : Option Conn}
      (hpc : s.epoll = .probe fd buffer conn) :
      Transition s .epoll { s with
        gateway := { s.gateway with
          pendingProbe := s.gateway.pendingProbe.erase fd
          producers := s.gateway.producers.insert fd ⟨[]⟩ }
        epoll := .reassemble fd probe conn }
  | invalid {fd : Fd} {data : Bytes} {conn : Option Conn}
      (hpc : s.epoll = .reassemble fd data conn)
      (hinvalid : (s.gateway.reassembleBlock fd data).1.invalidStream = true) :
      Transition s .epoll { s with
        gateway := (s.gateway.reassembleBlock fd data).2
        epoll := .removing (.call (fd, conn)) [] [] }
  | ready {fd : Fd} {data : Bytes} {conn : Option Conn}
      (hpc : s.epoll = .reassemble fd data conn)
      (hvalid : (s.gateway.reassembleBlock fd data).1.invalidStream = false) :
      Transition s .epoll { s with
        gateway := (s.gateway.reassembleBlock fd data).2
        epoll := .frames (s.gateway.reassembleBlock fd data).1.readyFrames }
  | bootstrap {fd : Fd} (hpc : s.epoll = .bootstrap fd) :
      Transition s .epoll { s with epoll := .join (s.gateway.makeViewer fd) }
  | join {viewer : Viewer} (hpc : s.epoll = .join viewer) :
      Transition s .epoll { s with gateway := s.gateway.seat viewer, epoll := .idle }
  | framesDone (hpc : s.epoll = .frames []) : Transition s .epoll { s with epoll := .idle }
  | cacheConfig {frame : Bytes} {frames : List Bytes} (hpc : s.epoll = .frames (frame :: frames)) :
      Transition s .epoll
        { s with gateway := s.gateway.cacheConfig frame, epoll := .cacheIdr frame frames }
  | cacheIdr {frame : Bytes} {frames : List Bytes} (hpc : s.epoll = .cacheIdr frame frames) :
      Transition s .epoll
        { s with gateway := s.gateway.cacheIdr frame, epoll := .queueFrame frame frames }
  | queueFrame {frame : Bytes} {frames : List Bytes} (hpc : s.epoll = .queueFrame frame frames) :
      Transition s .epoll { s with
        gateway := (s.gateway.broadcast frame).2
        epoll := .removeDead frames
          ((s.gateway.broadcast frame).1.map fun fd => (fd, s.failedConn fd)) }
  | epollRemoval {r : Removal} {dead : List (Fd × Option Conn)} {frames : List Bytes}
      (hpc : s.epoll = .removing r dead frames) :
      Transition s .epoll { s with
        gateway := (r.advance s.gateway).2
        epoll := r.epollAfter s.gateway dead frames }
  | round {outcomes : Fd → List SendOutcome} (hpc : s.sender = .idle) :
      Transition s (.round outcomes) { s with
        gateway := (s.gateway.senderRound outcomes).2
        sender := .removeDead ((s.gateway.senderRound outcomes).1.map fun fd => (fd, s.owner fd))
        failedConn := fun fd =>
          if fd ∈ (s.gateway.senderRound outcomes).1 then s.owner fd else s.failedConn fd }
  | senderRemoval {r : Removal} {dead : List (Fd × Option Conn)} (hpc : s.sender = .removing r dead) :
      Transition s .sender { s with
        gateway := (r.advance s.gateway).2
        sender := r.senderAfter s.gateway dead }

variable {s}

theorem epollStep_transition {t : System} (h : s.epollStep = some t) : Transition s .epoll t := by
  unfold epollStep at h
  split at h
  · cases h
    exact .accepted ‹_›
  · rename_i fd buffer conn hpc
    cases h
    cases hfound : s.gateway.viewers.contains fd with
    | true => exact .isViewer hpc hfound
    | false => exact .notViewer hpc hfound
  · rename_i fd buffer conn hpc
    cases h
    cases hfound : s.gateway.producers.contains fd with
    | true => exact .isProducer hpc hfound
    | false => exact .notProducer hpc hfound
  · rename_i fd buffer conn hpc
    cases h
    unfold TcpServer.probeBlock
    simp only
    split
    · rename_i hlong
      split
      · exact .becomeViewer hpc
      · have hne : ((s.gateway.pendingProbe[fd]?).getD [] ++ buffer).isEmpty = false := by
          rw [List.isEmpty_eq_false_iff]
          rintro hnil
          rw [hnil] at hlong
          cases hlong
        simp only [hne, Bool.false_eq_true, if_false]
        exact .becomeProducer hpc
    · exact .undecided hpc rfl (by omega)
  · rename_i fd data conn hpc
    cases h
    cases hinvalid : (s.gateway.reassembleBlock fd data).1.invalidStream with
    | true => exact .invalid hpc hinvalid
    | false => exact .ready hpc hinvalid
  · cases h
    exact .bootstrap ‹_›
  · cases h
    exact .join ‹_›
  · cases h
    exact .framesDone ‹_›
  · cases h
    exact .cacheConfig ‹_›
  · cases h
    exact .cacheIdr ‹_›
  · cases h
    exact .queueFrame ‹_›
  · cases h
    exact .epollRemoval ‹_›
  · cases h

/-- **Every step is one of the transitions.** -/
theorem transition_of_step {a : Label} {t : System} (h : s.step a = some t) :
    Transition s a t := by
  cases a with
  | wait events =>
    simp only [step] at h
    split at h
    · rename_i hok
      cases h
      exact .wait hok.1 hok.2.1 hok.2.2
    · cases h
  | event =>
    simp only [step] at h
    split at h
    · cases h
      exact .listen ‹_› ‹_›
    · cases h
      exact .hangUp ‹_› ‹_›
    · cases h
      exact .readable ‹_› ‹_›
    · cases h
  | accept fd =>
    simp only [step] at h
    split at h
    · rename_i hok
      cases h
      exact .accept hok.1 hok.2
    · cases h
  | acceptNone =>
    simp only [step] at h
    split at h
    · cases h
      exact .acceptNone ‹_›
    · cases h
  | read result =>
    simp only [step] at h
    split at h
    · split at h
      · cases h
        exact .read ‹_› ‹_›
      · cases h
    · cases h
  | epoll => exact epollStep_transition h
  | round outcomes =>
    simp only [step] at h
    split at h
    · cases h
      exact .round ‹_›
    · cases h
  | sender =>
    simp only [step, senderStep] at h
    split at h
    · cases h
    · cases h
      exact .senderRemoval ‹_›

end System

end EdgeVision
