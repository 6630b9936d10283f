import Mathlib.Data.UInt

/-!
# UTF-8

A text is a list of characters, its UTF-8 form a list of bytes. A character below 128 is its own
byte, and no other character has a byte below 128 in it, so that a function on bytes that leaves the
bytes from 128 on alone is one on characters (`flatMap_utf8`).
-/

namespace EdgeVision.Lib

def utf8 (text : List Char) : List UInt8 := text.flatMap String.utf8EncodeChar

/-- The text of some bytes, if they are UTF-8. -/
def decodeUtf8 (bytes : List UInt8) : Option (List Char) :=
  bytes.toByteArray.utf8Decode?.map Array.toList

namespace Utf8

theorem append (text more : List Char) : utf8 (text ++ more) = utf8 text ++ utf8 more :=
  List.flatMap_append

theorem cons (c : Char) (text : List Char) :
    utf8 (c :: text) = String.utf8EncodeChar c ++ utf8 text := List.flatMap_cons

theorem decode (text : List Char) : decodeUtf8 (utf8 text) = some text := by
  have hdecode := @List.utf8Decode?_utf8Encode text
  rw [List.utf8Encode] at hdecode
  rw [decodeUtf8, utf8, hdecode]
  simp

theorem encode_of_lt {c : Char} (h : c.toNat < 128) :
    String.utf8EncodeChar c = [UInt8.ofNat c.toNat] := by
  have hval : c.val.toNat ≤ 127 := Nat.le_of_lt_succ h
  simp only [String.utf8EncodeChar]
  rw [if_pos hval]
  rfl

theorem toNat_byte {n : Nat} (h : 128 ≤ n ∧ n < 256) : 128 ≤ (UInt8.ofNat n).toNat := by
  rw [UInt8.toNat_ofNat_of_lt' h.2]
  exact h.1

theorem byte_of_le {c : Char} (h : 128 ≤ c.toNat) :
    ∀ b ∈ String.utf8EncodeChar c, 128 ≤ b.toNat := by
  intro b hb
  have hval : ¬ c.val.toNat ≤ 127 := Nat.not_le_of_lt h
  simp only [String.utf8EncodeChar] at hb
  rw [if_neg hval] at hb
  generalize c.val.toNat = v at hb
  split at hb
  · simp only [List.mem_cons, List.not_mem_nil, or_false] at hb
    rcases hb with rfl | rfl <;> exact toNat_byte ⟨by omega, by omega⟩
  · split at hb
    · simp only [List.mem_cons, List.not_mem_nil, or_false] at hb
      rcases hb with rfl | rfl | rfl <;> exact toNat_byte ⟨by omega, by omega⟩
    · simp only [List.mem_cons, List.not_mem_nil, or_false] at hb
      rcases hb with rfl | rfl | rfl | rfl <;> exact toNat_byte ⟨by omega, by omega⟩

/-- A byte below 128 stands for its own character only. -/
theorem notMem {c : Char} (hc : c.toNat < 128) {text : List Char} (h : c ∉ text) :
    UInt8.ofNat c.toNat ∉ utf8 text := by
  intro hmem
  obtain ⟨d, hd, hbyte⟩ := List.mem_flatMap.mp hmem
  have hvalue : (UInt8.ofNat c.toNat).toNat = c.toNat := UInt8.toNat_ofNat_of_lt' (hc.trans (by decide))
  rcases Nat.lt_or_ge d.toNat 128 with hlow | hhigh
  · rw [encode_of_lt hlow, List.mem_singleton] at hbyte
    have hsame : c.toNat = d.toNat := by
      rw [← hvalue, hbyte, UInt8.toNat_ofNat_of_lt' (hlow.trans (by decide))]
    exact h (Char.toNat_inj.mp hsame ▸ hd)
  · have hle := byte_of_le hhigh _ hbyte
    omega

/-- A function on bytes that leaves those from 128 on alone. -/
theorem flatMap_utf8 {f : UInt8 → List UInt8} {g : Char → List Char}
    (hlow : ∀ c : Char, c.toNat < 128 → f (UInt8.ofNat c.toNat) = utf8 (g c))
    (hhigh : ∀ c : Char, 128 ≤ c.toNat → g c = [c]) (hbyte : ∀ b : UInt8, 128 ≤ b.toNat → f b = [b])
    (text : List Char) : (utf8 text).flatMap f = utf8 (text.flatMap g) := by
  induction text with
  | nil => rfl
  | cons c text ih =>
    rw [cons, List.flatMap_append, ih, List.flatMap_cons, append]
    congr 1
    rcases Nat.lt_or_ge c.toNat 128 with hc | hc
    · rw [encode_of_lt hc, List.flatMap_singleton, hlow c hc]
    · have hkeep : (String.utf8EncodeChar c).flatMap f =
          (String.utf8EncodeChar c).flatMap fun b => [b] :=
        List.flatMap_congr fun b hb => hbyte b (byte_of_le hc b hb)
      rw [hkeep, hhigh c hc, cons, List.flatMap_singleton']
      exact (List.append_nil _).symm

end Utf8

end EdgeVision.Lib
