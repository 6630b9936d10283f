import EdgeVision.Lib.IStream
import EdgeVision.Lib.JsonText
import EdgeVision.Lib.Rounding
import Mathlib.Data.List.DropRight

/-!
# Printed numbers

How an output stream prints numbers by default: an integer in decimal digits, a floating-point
number in the general format with six significant digits, rounded to even, without trailing zeros,
and with an exponent when it is below -4 or above 5. The number that is printed is a rational, so
there is one zero. What is printed is a number of JSON (`numberText_decimal`,
`numberText_formatGeneral`).
-/

namespace EdgeVision.Lib

/-- The six digits of a positive number as an integer, and the exponent of the first one. -/
def significant (a : Rat) : Nat × Int :=
  let e := Int.log 10 a
  let m := (roundHalfEven (a * 10 ^ (5 - e))).toNat
  if m = 1000000 then (100000, e + 1) else (m, e)

/-- A decimal point and the digits behind it, without trailing zeros. -/
def fractionText (digits : List Char) : List Char :=
  if (digits.rdropWhile (· == '0')).isEmpty then []
  else '.' :: digits.rdropWhile (· == '0')

def exponentText (x : Int) : List Char :=
  (if x < 0 then '-' else '+') ::
    ((if x.natAbs < 10 then ['0'] else []) ++ Nat.toDigits 10 x.natAbs)

/-- The digits of a positive number, with the point or an exponent. -/
def formatDigits (digits : List Char) (x : Int) : List Char :=
  if 0 ≤ x ∧ x < 6 then
    digits.take (x.toNat + 1) ++ fractionText (digits.drop (x.toNat + 1))
  else if -4 ≤ x ∧ x < 0 then
    '0' :: fractionText (List.replicate (x.natAbs - 1) '0' ++ digits)
  else digits.take 1 ++ (fractionText (digits.drop 1) ++ 'e' :: exponentText x)

def formatGeneral (q : Rat) : List Char :=
  if q = 0 then ['0']
  else
    (if q < 0 then ['-'] else []) ++
      formatDigits (Nat.toDigits 10 (significant |q|).1) (significant |q|).2

example : formatGeneral (617 / 50) = "12.34".toList := by decide +kernel

/-! ## They are numbers of JSON -/

open Json

theorem head?_toDigits {n : Nat} (h : 0 < n) : (Nat.toDigits 10 n).head? ≠ some '0' := by
  induction n using Nat.strong_induction_on with
  | _ n ih =>
    rcases Nat.lt_or_ge n 10 with hlt | hge
    · rw [Nat.toDigits_of_lt_base hlt]
      have hall : ∀ d < 10, 0 < d → d.digitChar ≠ '0' := by decide
      simpa using hall n hlt h
    · have hrest := ih (n / 10) (by omega) (by omega)
      rw [Nat.toDigits_of_base_le (by decide) hge, List.head?_append]
      obtain ⟨c, more, hcons⟩ := List.exists_cons_of_ne_nil (@Nat.toDigits_ne_nil (n / 10) 10)
      rw [hcons] at hrest ⊢
      exact hrest

theorem isDigits_toDigits (n : Nat) : isDigits (Nat.toDigits 10 n) = true :=
  isDigits_iff.mpr ⟨Nat.toDigits_ne_nil, fun _ hc => IStream.isDigit_of_mem_digits hc⟩

theorem isInt_toDigits (n : Nat) : isInt (Nat.toDigits 10 n) = true := by
  rw [isInt, isDigits_toDigits, Bool.true_and]
  rcases Nat.eq_zero_or_pos n with rfl | hpos
  · decide
  · simp [head?_toDigits hpos]

theorem numberText_decimal (n : Int) : NumberText (IStream.decimal n) := by
  have hparts : NumberText
      ((if n < 0 then ['-'] else []) ++ (Nat.toDigits 10 n.natAbs ++ ([] ++ []))) :=
    numberText_of_parts (by split <;> simp) (isInt_toDigits n.natAbs) (.inl rfl) (.inl rfl)
  simpa [IStream.decimal] using hparts

theorem fractionText_of_digits {digits : List Char} (h : ∀ c ∈ digits, c.isDigit = true) :
    FractionText (fractionText digits) := by
  unfold fractionText
  split
  · exact .inl rfl
  · rename_i hne
    refine .inr ⟨_, rfl, isDigits_iff.mpr ⟨by simpa using hne, fun c hc => h c ?_⟩⟩
    exact (List.rdropWhile_prefix _ _).subset hc

theorem exponentText_isDigits (x : Int) : ExponentText ('e' :: exponentText x) := by
  refine .inr ⟨_, _, rfl, by split <;> simp, isDigits_iff.mpr ⟨by simp [Nat.toDigits_ne_nil], ?_⟩⟩
  intro c hc
  rcases List.mem_append.mp hc with hc | hc
  · split at hc
    · rw [List.mem_singleton.mp hc]
      rfl
    · cases hc
  · exact IStream.isDigit_of_mem_digits hc

/-- The first digits of a number are one. -/
theorem isInt_take {digits : List Char} (hdigits : isDigits digits = true)
    (hhead : digits.head? ≠ some '0') (k : Nat) : isInt (digits.take (k + 1)) = true := by
  obtain ⟨hne, hall⟩ := isDigits_iff.mp hdigits
  obtain ⟨c, more, rfl⟩ := List.exists_cons_of_ne_nil hne
  have htake : isDigits ((c :: more).take (k + 1)) = true :=
    isDigits_iff.mpr ⟨by simp, fun d hd => hall d (List.mem_of_mem_take hd)⟩
  rw [isInt, htake, Bool.true_and]
  simp only [List.take_succ_cons, List.head?_cons] at hhead ⊢
  simp [hhead]

theorem numberText_formatDigits {digits : List Char} {sign : List Char}
    (hsign : sign = [] ∨ sign = ['-']) (hdigits : isDigits digits = true)
    (hhead : digits.head? ≠ some '0') (x : Int) : NumberText (sign ++ formatDigits digits x) := by
  obtain ⟨-, hall⟩ := isDigits_iff.mp hdigits
  have hdrop (k : Nat) : FractionText (fractionText (digits.drop k)) :=
    fractionText_of_digits fun c hc => hall c (List.mem_of_mem_drop hc)
  unfold formatDigits
  split
  · have hparts := numberText_of_parts hsign (isInt_take hdigits hhead x.toNat)
      (hdrop (x.toNat + 1)) (.inl rfl)
    rwa [List.append_nil] at hparts
  · split
    · have hfrac : FractionText (fractionText (List.replicate (x.natAbs - 1) '0' ++ digits)) := by
        refine fractionText_of_digits fun c hc => ?_
        rcases List.mem_append.mp hc with hc | hc
        · rw [List.eq_of_mem_replicate hc]
          rfl
        · exact hall c hc
      have hzero : isInt ['0'] = true := rfl
      have hparts := numberText_of_parts hsign hzero hfrac (.inl rfl)
      rwa [List.append_nil] at hparts
    · exact numberText_of_parts hsign (isInt_take hdigits hhead 0) (hdrop 1)
        (exponentText_isDigits x)

/-- A positive number has a first digit. -/
theorem significant_pos {a : Rat} (h : 0 < a) : 0 < (significant a).1 := by
  have hlog : (10 : Rat) ^ Int.log 10 a ≤ a := by exact_mod_cast Int.zpow_log_le_self (by decide) h
  have hscaled : (1 : Rat) ≤ a * 10 ^ (5 - Int.log 10 a) := by
    calc (1 : Rat) ≤ 10 ^ (5 : Int) := by norm_num
      _ = 10 ^ Int.log 10 a * 10 ^ (5 - Int.log 10 a) := by
        rw [← zpow_add₀ (by norm_num)]
        congr 1
        omega
      _ ≤ a * 10 ^ (5 - Int.log 10 a) :=
        mul_le_mul_of_nonneg_right hlog (zpow_nonneg (by norm_num) _)
  have hfloor : 1 ≤ ⌊a * 10 ^ (5 - Int.log 10 a)⌋ := by
    rw [Int.le_floor]
    exact_mod_cast hscaled
  have hround := floor_le_roundHalfEven (a * 10 ^ (5 - Int.log 10 a))
  simp only [significant]
  split
  · exact Nat.succ_pos _
  · simp only
    omega

theorem numberText_formatGeneral (q : Rat) : NumberText (formatGeneral q) := by
  unfold formatGeneral
  split
  · exact ⟨rfl, List.forall_mem_singleton.mpr rfl⟩
  · rename_i hne
    refine numberText_formatDigits (by split <;> simp) (isDigits_toDigits _) ?_ _
    exact head?_toDigits (significant_pos (abs_pos.mpr hne))

end EdgeVision.Lib
