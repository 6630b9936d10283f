import EdgeVision.Stream.Wire

/-!
# The ring buffer

`RingBuffer`: all frames of a fixed size, in memory that the constructor has taken, with a write
cursor, a read cursor and a count. Cursors and count are natural numbers: none of them gets beyond
the capacity, an `int`. Its methods run under the mutex.
-/

namespace EdgeVision

structure RingBuffer where
  buffer : List Bytes
  capacity : Nat
  frameSize : Nat
  writeIdx : Nat
  readIdx : Nat
  count : Nat
  deriving DecidableEq, Repr

namespace RingBuffer

def init (capacity frameSize : Nat) : RingBuffer :=
  ⟨List.replicate capacity (List.replicate frameSize 0), capacity, frameSize, 0, 0, 0⟩

/-- A slot after the copy of `data` into it, which is no longer than the slot. -/
def memcpy (slot data : Bytes) : Bytes := data ++ slot.drop data.length

variable (ring : RingBuffer)

/-- A push into a full buffer drops the oldest frame, and warns of it. -/
def push (data : Bytes) : Bool × RingBuffer :=
  let copied := { ring with
    buffer := ring.buffer.modify ring.writeIdx fun slot => memcpy slot data
    writeIdx := (ring.writeIdx + 1) % ring.capacity }
  if ring.count < ring.capacity then (false, { copied with count := ring.count + 1 })
  else (true, { copied with readIdx := (ring.readIdx + 1) % ring.capacity })

/-- The frame that a push drops, if it drops one. -/
def evicted : Option Bytes :=
  if ring.count < ring.capacity then none else ring.buffer[ring.readIdx]?

/-- A pop: `none` while it waits, else the frame. -/
def pop : Option (Bytes × RingBuffer) :=
  if 0 < ring.count then
    ring.buffer[ring.readIdx]?.map fun outData =>
      (outData,
        { ring with readIdx := (ring.readIdx + 1) % ring.capacity, count := ring.count - 1 })
  else none

end RingBuffer

end EdgeVision
