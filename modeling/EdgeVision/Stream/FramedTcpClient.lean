import EdgeVision.Stream.Wire

/-!
# The camera's length-prefixed TCP client

`FramedTcpClient::sendPacket` and its retry loop `sendAll`. The loop is driven by the list of
answers that the kernel gives to its `send` calls; it has not returned (`none`) when the answers
run out before the data does.
-/

namespace EdgeVision

/-- What a send loop that has returned did: its result, the bytes the socket accepted from it, and
the answers it left unused. -/
structure SendReport where
  ok : Bool
  wire : Bytes
  outcomes : List SendOutcome
  deriving DecidableEq, Repr

/-- The `while (total_sent < size)` loop of `sendAll`, from `totalSent` on. -/
def sendAllFrom (data : Bytes) : Nat → List SendOutcome → Option SendReport
  | totalSent, [] => if totalSent < data.length then none else some ⟨true, [], []⟩
  | totalSent, outcome :: outcomes =>
    if totalSent < data.length then
      match outcome with
      | .accepts room =>
        let sent := min room (data.length - totalSent)
        if 0 < sent then
          (sendAllFrom data (totalSent + sent) outcomes).map fun r =>
            { r with wire := (data.drop totalSent).take sent ++ r.wire }
        else some ⟨false, [], outcomes⟩
      | .fails .eintr => sendAllFrom data totalSent outcomes
      | .fails .eagain => sendAllFrom data totalSent outcomes
      | .fails .other => some ⟨false, [], outcomes⟩
    else some ⟨true, [], outcome :: outcomes⟩

def sendAll (data : Bytes) (outcomes : List SendOutcome) : Option SendReport :=
  sendAllFrom data 0 outcomes

/-- The client's socket descriptor, -1 when there is no connection. -/
structure FramedTcpClient where
  sock : Int
  deriving DecidableEq, Repr

namespace FramedTcpClient

def closeConnection (client : FramedTcpClient) : FramedTcpClient :=
  if 0 ≤ client.sock then { client with sock := -1 } else client

def isConnected (client : FramedTcpClient) : Bool := decide (0 ≤ client.sock)

def sendPacket (client : FramedTcpClient) (packet : Bytes) (outcomes : List SendOutcome) :
    Option SendReport :=
  if client.sock < 0 then some ⟨false, [], outcomes⟩
  else
    -- `static_cast<uint32_t>(packet.size())` keeps the low 32 bits of the size
    let payloadSize := UInt32.ofNat packet.length
    (sendAll (htonl payloadSize) outcomes).bind fun header =>
      if header.ok then
        (sendAll packet header.outcomes).map fun body =>
          { body with wire := header.wire ++ body.wire }
      else some header

/-- Packets sent one after the other while every call returns true. -/
def sendPackets (client : FramedTcpClient) : List Bytes → List SendOutcome → Option SendReport
  | [], outcomes => some ⟨true, [], outcomes⟩
  | packet :: packets, outcomes =>
    (client.sendPacket packet outcomes).bind fun first =>
      if first.ok then
        (client.sendPackets packets first.outcomes).map fun rest =>
          { rest with wire := first.wire ++ rest.wire }
      else some first

end FramedTcpClient

/-! ## What a completed send leaves on the wire -/

/-- **A send loop that returns true has put exactly the rest of its data on the wire**, whatever
short writes and retries it met. -/
theorem sendAllFrom_wire {data : Bytes} {totalSent : Nat} {outcomes : List SendOutcome}
    {r : SendReport} (h : sendAllFrom data totalSent outcomes = some r) (hok : r.ok = true) :
    r.wire = data.drop totalSent := by
  induction outcomes generalizing totalSent r with
  | nil =>
    simp only [sendAllFrom] at h
    split at h
    · cases h
    · cases h
      exact (List.drop_eq_nil_of_le (by omega)).symm
  | cons outcome outcomes ih =>
    simp only [sendAllFrom] at h
    split at h
    · cases outcome with
      | accepts room =>
        simp only at h
        split at h
        · obtain ⟨r', hr', rfl⟩ := Option.map_eq_some_iff.mp h
          simp only [ih hr' hok]
          rw [← List.drop_drop, List.take_append_drop]
        · cases h; cases hok
      | fails errno =>
        cases errno with
        | eintr => exact ih h hok
        | eagain => exact ih h hok
        | other => cases h; cases hok
    · cases h
      exact (List.drop_eq_nil_of_le (by omega)).symm

theorem sendAll_wire {data : Bytes} {outcomes : List SendOutcome} {r : SendReport}
    (h : sendAll data outcomes = some r) (hok : r.ok = true) : r.wire = data := by
  simpa using sendAllFrom_wire h hok

/-- The bytes of one packet on the wire. -/
def framed (packet : Bytes) : Bytes := htonl (UInt32.ofNat packet.length) ++ packet

@[simp] theorem length_framed (packet : Bytes) : (framed packet).length = 4 + packet.length := by
  simp [framed]

namespace FramedTcpClient

/-- **A packet reported as sent is on the wire behind its prefix.** -/
theorem sendPacket_wire {client : FramedTcpClient} {packet : Bytes} {outcomes : List SendOutcome}
    {r : SendReport} (h : client.sendPacket packet outcomes = some r) (hok : r.ok = true) :
    r.wire = framed packet := by
  unfold sendPacket at h
  split at h
  · cases h; cases hok
  · obtain ⟨header, hheader, h⟩ := Option.bind_eq_some_iff.mp h
    split at h
    · rename_i hsent
      obtain ⟨body, hbody, rfl⟩ := Option.map_eq_some_iff.mp h
      simp only [framed, sendAll_wire hheader hsent, sendAll_wire hbody hok]
    · rename_i hfail
      cases h
      exact absurd hok hfail

/-- Packets all reported as sent are on the wire in order. -/
theorem sendPackets_wire {client : FramedTcpClient} {packets : List Bytes}
    {outcomes : List SendOutcome} {r : SendReport}
    (h : client.sendPackets packets outcomes = some r) (hok : r.ok = true) :
    r.wire = packets.flatMap framed := by
  induction packets generalizing outcomes r with
  | nil =>
    simp only [sendPackets, Option.some.injEq] at h
    subst h
    rfl
  | cons packet packets ih =>
    obtain ⟨first, hfirst, h⟩ := Option.bind_eq_some_iff.mp h
    split at h
    · rename_i hsent
      obtain ⟨rest, hrest, rfl⟩ := Option.map_eq_some_iff.mp h
      simp only [sendPacket_wire hfirst hsent, ih hrest hok, List.flatMap_cons]
    · rename_i hfail
      cases h
      exact absurd hok hfail

end FramedTcpClient

end EdgeVision
