import EdgeVision.Gateway.AnnexB
import EdgeVision.Gateway.Viewer

/-!
# The gateway server

The state of `TcpServer` and its member functions. Every function is written as the mutex-protected
blocks that make it up, each a function on the state, and as their composition, which is what the
function does when no other thread runs in between. `Gateway.Threads` takes the same blocks one at
a time.

Next to the server's own tables the state holds what its system calls see of the kernel, the open
client descriptors with the connection behind each (`sockets`), and the list of frames that
`handleCompleteFrame` has been called with (`handled`), which no function reads.
-/

namespace EdgeVision

open Std

/-- An accepted connection. Descriptor numbers are handed out again, connections are not. -/
abbrev Conn := Nat

structure ProducerState where
  recvBuffer : Bytes
  deriving DecidableEq, Repr

structure TcpServer where
  viewers : ViewerTable
  producers : TreeMap Fd ProducerState
  pendingProbe : TreeMap Fd Bytes
  bootstrapConfig : Bytes
  bootstrapFrame : Bytes
  sockets : TreeMap Fd Conn
  handled : List Bytes

/-- The result of the reassembly loop. -/
structure Reassembly where
  readyFrames : List Bytes
  recvBuffer : Bytes
  invalidStream : Bool
  deriving DecidableEq, Repr

/-- The `while` loop of `handleProducerBytes`. -/
def reassemble (recvBuffer : Bytes) : Reassembly :=
  if recvBuffer.length < 4 then ⟨[], recvBuffer, false⟩
  else
    let frameSize := (ntohl recvBuffer).toNat
    if frameSize = 0 ∨ maxFrameSize < frameSize then ⟨[], recvBuffer, true⟩
    else
      let totalNeeded := 4 + frameSize
      if recvBuffer.length < totalNeeded then ⟨[], recvBuffer, false⟩
      else
        let r := reassemble (recvBuffer.drop totalNeeded)
        { r with readyFrames := (recvBuffer.take totalNeeded).drop 4 :: r.readyFrames }
termination_by recvBuffer.length
decreasing_by
  simp only [List.length_drop]
  omega

/-- What the probe block decides about a connection. -/
inductive Classification where
  | undecided
  | viewer
  | producer (firstChunk : Bytes)
  deriving DecidableEq, Repr

/-- The size of the array `buffer`. -/
def readBufferSize : Nat := 65536

/-- `"GET "`. -/
def getRequest : Bytes := [0x47, 0x45, 0x54, 0x20]

namespace TcpServer

/-- The server as its constructor leaves it. -/
def initial : TcpServer where
  viewers := .empty
  producers := ∅
  pendingProbe := ∅
  bootstrapConfig := []
  bootstrapFrame := []
  sockets := ∅
  handled := []

variable (g : TcpServer)

/-! ## The blocks of `removeViewer` -/

/-- Under `viewers_mtx`: the viewer's entry. The Boolean is whether there was one. -/
def eraseViewer (fd : Fd) : Bool × TcpServer :=
  (g.viewers.contains fd, { g with viewers := g.viewers.erase fd })

/-- Under `producers_mtx`: the producer's and the probe's entry. -/
def eraseTables (fd : Fd) : Bool × TcpServer :=
  (g.producers.contains fd || g.pendingProbe.contains fd,
    { g with producers := g.producers.erase fd, pendingProbe := g.pendingProbe.erase fd })

/-- `epoll_ctl(EPOLL_CTL_DEL)` and `close`. -/
def closeSocket (fd : Fd) : TcpServer := { g with sockets := g.sockets.erase fd }

def removeViewer (fd : Fd) : TcpServer :=
  let viewer := g.eraseViewer fd
  let tables := viewer.2.eraseTables fd
  if viewer.1 || tables.1 then tables.2.closeSocket fd else tables.2

/-! ## Frames: the blocks of `handleCompleteFrame` and `queueFrameForViewers` -/

/-- The call itself, with the block that replaces `bootstrap_config`. -/
def cacheConfig (frame : Bytes) : TcpServer :=
  let config := extractBootstrapConfig frame
  { g with
    handled := g.handled ++ [frame]
    bootstrapConfig := if config.isEmpty then g.bootstrapConfig else config }

/-- The block that replaces `bootstrap_frame` when the frame holds an IDR slice. -/
def cacheIdr (frame : Bytes) : TcpServer :=
  { g with bootstrapFrame := if containsNalType frame 5 then frame else g.bootstrapFrame }

/-- Under `viewers_mtx`: the loop of `queueFrameForViewers`, with its `dead_fds`. -/
def broadcast (frame : Bytes) : List Fd × TcpServer :=
  ((g.viewers.toList.filter fun v => !v.active).map Viewer.fd,
    { g with viewers := g.viewers.update (fun v => v.queueFrame frame) fun v => by simp })

def removeAll (fds : List Fd) : TcpServer := fds.foldl removeViewer g

def queueFrameForViewers (frame : Bytes) : TcpServer :=
  let round := g.broadcast frame
  round.2.removeAll round.1

def handleCompleteFrame (frame : Bytes) : TcpServer :=
  ((g.cacheConfig frame).cacheIdr frame).queueFrameForViewers frame

/-! ## Producer input -/

/-- Under `producers_mtx`: append to the producer's buffer and take whole frames off it. -/
def reassembleBlock (fd : Fd) (data : Bytes) : Reassembly × TcpServer :=
  let state := (g.producers[fd]?).getD ⟨[]⟩
  let r := reassemble (state.recvBuffer ++ data)
  let recvBuffer := if r.invalidStream then [] else r.recvBuffer
  (r, { g with producers := g.producers.insert fd ⟨recvBuffer⟩ })

def handleFrames (frames : List Bytes) : TcpServer := frames.foldl handleCompleteFrame g

def handleProducerBytes (fd : Fd) (data : Bytes) : Bool × TcpServer :=
  let block := g.reassembleBlock fd data
  if block.1.invalidStream then (false, block.2)
  else (true, block.2.handleFrames block.1.readyFrames)

/-- `if (!handleProducerBytes(...)) removeViewer(...)`. -/
def producerInput (fd : Fd) (data : Bytes) : TcpServer :=
  let handled := g.handleProducerBytes fd data
  if handled.1 then handled.2 else handled.2.removeViewer fd

/-! ## Classification -/

/-- Under `producers_mtx`: the probe block of `start`. -/
def probeBlock (fd : Fd) (buffer : Bytes) : Classification × TcpServer :=
  let probe := (g.pendingProbe[fd]?).getD [] ++ buffer
  if probeBytes ≤ probe.length then
    if probe.take 4 = getRequest then
      (.viewer, { g with pendingProbe := g.pendingProbe.erase fd })
    else
      (.producer probe,
        { g with
          pendingProbe := g.pendingProbe.erase fd
          producers := g.producers.insert fd ⟨[]⟩ })
  else (.undecided, { g with pendingProbe := g.pendingProbe.insert fd probe })

/-- The viewer made under `bootstrap_mtx`. -/
def makeViewer (fd : Fd) : Viewer := Viewer.joined fd g.bootstrapConfig g.bootstrapFrame

/-- Under `viewers_mtx`: `viewers[fd] = viewer`. -/
def seat (viewer : Viewer) : TcpServer := { g with viewers := g.viewers.insert viewer }

def handleViewerRequest (fd : Fd) : TcpServer := g.seat (g.makeViewer fd)

/-- The branch of `start` for `bytes_read > 0`. -/
def handleRead (fd : Fd) (buffer : Bytes) : TcpServer :=
  if g.viewers.contains fd then g
  else if g.producers.contains fd then g.producerInput fd buffer
  else
    match g.probeBlock fd buffer with
    | (.undecided, g) => g
    | (.viewer, g) => g.handleViewerRequest fd
    | (.producer firstChunk, g) =>
      if firstChunk.isEmpty then g else g.producerInput fd firstChunk

/-- A read on `fd`; once the descriptor is closed there are none. -/
def readFrom (fd : Fd) (buffer : Bytes) : TcpServer :=
  if g.sockets.contains fd then g.handleRead fd buffer else g

/-- The reads on `fd`, in order. -/
def readAll (fd : Fd) (reads : List Bytes) : TcpServer := reads.foldl (fun g c => g.readFrom fd c) g

/-- `accept` returning `fd`. -/
def openSocket (fd : Fd) (conn : Conn) : TcpServer :=
  { g with sockets := g.sockets.insert fd conn }

/-- Under `producers_mtx`: `pending_probe[client_fd] = {}`. -/
def startProbe (fd : Fd) : TcpServer := { g with pendingProbe := g.pendingProbe.insert fd [] }

def accept (fd : Fd) (conn : Conn) : TcpServer := (g.openSocket fd conn).startProbe fd

/-! ## Sending -/

/-- The answers to the `send` calls of a round: on a closed descriptor they are `EBADF`. -/
def answers (outcomes : Fd → List SendOutcome) (fd : Fd) : List SendOutcome :=
  if g.sockets.contains fd then outcomes fd else [.fails .other]

/-- Under `viewers_mtx`: one round of `senderLoop` over the viewers, with its `dead_fds`. -/
def senderRound (outcomes : Fd → List SendOutcome) : List Fd × TcpServer :=
  ((g.viewers.toList.filter fun v => (v.sendRound (g.answers outcomes v.fd)).2).map Viewer.fd,
    { g with
      viewers := g.viewers.update (fun v => (v.sendRound (g.answers outcomes v.fd)).1)
        fun v => by simp })

end TcpServer

end EdgeVision
