import Mathlib.Data.List.Basic

/-!
# Bytes on a connection

The network-order length prefix that the camera writes and the gateway reads, and the answers that
the kernel gives to `send`. A `send` that accepts bytes accepts as many as the socket has room for
and never more than it was offered, so the outcome records the room.
-/

namespace EdgeVision

abbrev Bytes := List UInt8

/-- The four bytes that `htonl` leaves in memory, most significant first. -/
def htonl (hostlong : UInt32) : Bytes :=
  [UInt8.ofNat (hostlong.toNat / 16777216), UInt8.ofNat (hostlong.toNat / 65536),
    UInt8.ofNat (hostlong.toNat / 256), UInt8.ofNat hostlong.toNat]

/-- `ntohl` of the four bytes that `memcpy` takes from the front of a buffer. -/
def ntohl : Bytes → UInt32
  | b₀ :: b₁ :: b₂ :: b₃ :: _ =>
    UInt32.ofNat (b₀.toNat * 16777216 + b₁.toNat * 65536 + b₂.toNat * 256 + b₃.toNat)
  | _ => 0

@[simp] theorem length_htonl (x : UInt32) : (htonl x).length = 4 := rfl

@[simp] theorem ntohl_htonl (x : UInt32) (rest : Bytes) : ntohl (htonl x ++ rest) = x := by
  have hx : x.toNat < 4294967296 := x.toNat_lt
  apply UInt32.toNat_inj.mp
  simp only [htonl, ntohl, List.cons_append, UInt32.toNat_ofNat', UInt8.toNat_ofNat']
  omega

/-- The prefix of a buffer is determined by the size it denotes. -/
theorem htonl_ntohl {l : Bytes} (h : 4 ≤ l.length) : htonl (ntohl l) = l.take 4 := by
  match l, h with
  | b₀ :: b₁ :: b₂ :: b₃ :: rest, _ =>
    have h₀ := b₀.toNat_lt
    have h₁ := b₁.toNat_lt
    have h₂ := b₂.toNat_lt
    have h₃ := b₃.toNat_lt
    simp only [htonl, ntohl, UInt32.toNat_ofNat', List.take_succ_cons, List.take_zero,
      List.cons.injEq, and_true]
    refine ⟨?_, ?_, ?_, ?_⟩ <;> apply UInt8.toNat_inj.mp <;> simp only [UInt8.toNat_ofNat'] <;> omega

theorem ntohl_take (l : Bytes) : ntohl (l.take 4) = ntohl l := by
  match l with
  | [] => rfl
  | [_] => rfl
  | [_, _] => rfl
  | [_, _, _] => rfl
  | _ :: _ :: _ :: _ :: _ => rfl

/-- The `errno` values that the two send loops tell apart; `EWOULDBLOCK` is `EAGAIN` on Linux. -/
inductive Errno where
  | eintr
  | eagain
  | other
  deriving DecidableEq, Repr

/-- How the kernel answers one `send`: it accepts bytes up to the room in the socket buffer, or
returns -1. -/
inductive SendOutcome where
  | accepts (room : Nat)
  | fails (errno : Errno)
  deriving DecidableEq, Repr

end EdgeVision
