import EdgeVision.Stream.FramedTcpClient

/-!
# A packet on its way

`sendPacket` one call of `send` at a time. The prefix and the packet are sent by two calls of
`sendAll`, so that a `send` never offers bytes of both; what has been accepted of them is one number
all the same. `sendPacket_eq_sendCalls` says that these calls, one after the other, are `sendPacket`.
-/

namespace EdgeVision

/-- What is left of the buffer that `sendAll` sends, once the socket has accepted this much of the
prefix and the packet. -/
def offered (packet : Bytes) (accepted : Nat) : Nat :=
  if accepted < 4 then 4 - accepted else 4 + packet.length - accepted

/-- One `send`: how much is accepted after it, or none when `sendPacket` gives up. -/
def sendCall (packet : Bytes) (accepted : Nat) : SendOutcome → Option Nat
  | .accepts room =>
    let sent := min room (offered packet accepted)
    if 0 < sent then some (accepted + sent) else none
  | .fails .eintr => some accepted
  | .fails .eagain => some accepted
  | .fails .other => none

/-- The calls of `send` from here on, with what they put on the wire. -/
def sendCalls (packet : Bytes) : Nat → List SendOutcome → Option SendReport
  | accepted, [] => if accepted < 4 + packet.length then none else some ⟨true, [], []⟩
  | accepted, outcome :: outcomes =>
    if accepted < 4 + packet.length then
      match sendCall packet accepted outcome with
      | none => some ⟨false, [], outcomes⟩
      | some accepted' =>
        (sendCalls packet accepted' outcomes).map fun r =>
          { r with wire := ((framed packet).drop accepted).take (accepted' - accepted) ++ r.wire }
    else some ⟨true, [], outcome :: outcomes⟩

variable {packet : Bytes} {accepted accepted' : Nat} {outcome : SendOutcome}

theorem offered_le (h : accepted ≤ 4 + packet.length) :
    accepted + offered packet accepted ≤ 4 + packet.length := by
  unfold offered
  split <;> omega

/-- A `send` takes nothing back and goes no further than the packet. -/
theorem sendCall_bounds (h : sendCall packet accepted outcome = some accepted')
    (hle : accepted ≤ 4 + packet.length) :
    accepted ≤ accepted' ∧ accepted' ≤ 4 + packet.length := by
  cases outcome with
  | accepts room =>
    obtain ⟨-, heq⟩ := Option.ite_none_right_eq_some.mp h
    cases heq
    have hoffered := offered_le hle
    omega
  | fails errno => cases errno <;> cases h <;> exact ⟨Nat.le_refl _, hle⟩

/-- Behind the prefix, the calls are those of `sendAll` on the packet. -/
theorem sendAllFrom_eq_sendCalls (totalSent : Nat) (outcomes : List SendOutcome) :
    sendAllFrom packet totalSent outcomes = sendCalls packet (4 + totalSent) outcomes := by
  induction outcomes generalizing totalSent with
  | nil => simp only [sendAllFrom, sendCalls, Nat.add_lt_add_iff_left]
  | cons outcome outcomes ih =>
    simp only [sendAllFrom, sendCalls, Nat.add_lt_add_iff_left]
    split
    · cases outcome with
      | accepts room =>
        have hoffered : offered packet (4 + totalSent) = packet.length - totalSent := by
          rw [offered, if_neg (by omega)]
          omega
        have hdrop : (framed packet).drop (4 + totalSent) = packet.drop totalSent := by
          rw [← List.drop_drop, framed, List.drop_left' (length_htonl _)]
        simp only [sendCall, hoffered]
        split
        · simp only [ih, hdrop, Nat.add_assoc, Nat.add_sub_add_left, Nat.add_sub_cancel_left]
        · rfl
      | fails errno => cases errno <;> simp [sendCall, ih]
    · rfl

/-- The two calls of `sendAll`, from the byte of the prefix that the first one has come to. -/
theorem sendAll_sendAll_eq_sendCalls {totalSent : Nat} (h : totalSent ≤ 4)
    (outcomes : List SendOutcome) :
    ((sendAllFrom (htonl (UInt32.ofNat packet.length)) totalSent outcomes).bind fun header =>
      if header.ok then
        (sendAll packet header.outcomes).map fun body =>
          { body with wire := header.wire ++ body.wire }
      else some header) = sendCalls packet totalSent outcomes := by
  -- the prefix is out: the first call returns and the second begins
  have hprefix : ∀ outcomes : List SendOutcome,
      (sendAll packet outcomes).map (fun body => { body with wire := [] ++ body.wire }) =
        sendCalls packet 4 outcomes := by
    intro outcomes
    rw [sendAll, sendAllFrom_eq_sendCalls]
    simp
  induction outcomes generalizing totalSent with
  | nil =>
    by_cases hlt : totalSent < 4
    · simp [sendAllFrom, sendCalls, hlt, Nat.lt_add_right]
    · obtain rfl : totalSent = 4 := by omega
      simpa [sendAllFrom] using hprefix []
  | cons outcome outcomes ih =>
    by_cases hlt : totalSent < 4
    · have hmore : totalSent < 4 + packet.length := by omega
      simp only [sendAllFrom, sendCalls, length_htonl, hlt, hmore, if_true]
      cases outcome with
      | accepts room =>
        have hoffered : offered packet totalSent = 4 - totalSent := if_pos hlt
        by_cases hsent : 0 < min room (4 - totalSent)
        · have hwire : ((framed packet).drop totalSent).take (min room (4 - totalSent)) =
              ((htonl (UInt32.ofNat packet.length)).drop totalSent).take
                (min room (4 - totalSent)) := by
            rw [framed, List.drop_append_of_le_length (by rw [length_htonl]; omega),
              List.take_append_of_le_length (by rw [List.length_drop, length_htonl]; omega)]
          simp only [sendCall, hoffered, hsent, if_true, Nat.add_sub_cancel_left, hwire,
            ← ih (show totalSent + min room (4 - totalSent) ≤ 4 by omega)]
          cases sendAllFrom (htonl (UInt32.ofNat packet.length))
            (totalSent + min room (4 - totalSent)) outcomes with
          | none => rfl
          | some header => cases hok : header.ok <;> simp [hok, Function.comp_def]
        · simp [sendCall, hoffered, hsent]
      | fails errno =>
        cases errno
        case other => rfl
        all_goals simp [sendCall, ← ih h]
    · obtain rfl : totalSent = 4 := by omega
      simpa [sendAllFrom] using hprefix (outcome :: outcomes)

/-- **A call of `sendPacket` is its calls of `send`.** -/
theorem FramedTcpClient.sendPacket_eq_sendCalls {client : FramedTcpClient}
    (h : 0 ≤ client.sock) (outcomes : List SendOutcome) :
    client.sendPacket packet outcomes = sendCalls packet 0 outcomes := by
  rw [sendPacket, if_neg (Int.not_lt.mpr h)]
  exact sendAll_sendAll_eq_sendCalls (Nat.zero_le 4) outcomes

end EdgeVision
