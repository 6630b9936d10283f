import Mathlib.Data.List.TakeDrop
import Mathlib.Data.UInt

/-!
# Formatted extraction

The extraction operators of an input stream, over the characters that are left in it. `none` is an
extraction that fails; a stream stays failed, so what follows it fails too. A character is a byte of
the text.

A number takes a maximal run of digits out of the text. A decimal number is read back from where it
stands (`unsigned64_decimal`, `signed64_decimal`), and a text has as many numbers as it has runs of
digits, at most (`digitRuns`).
-/

namespace EdgeVision.Lib.IStream

/-- An extraction: the value, and the characters left. -/
abbrev Extract (α : Type) := List Char → Option (α × List Char)

def isSpace (c : Char) : Bool := c == ' ' || (9 ≤ c.toNat && c.toNat ≤ 13)

def char : Extract Char := fun text =>
  match text.dropWhile isSpace with
  | [] => none
  | c :: rest => some (c, rest)

def word : Extract (List Char) := fun text =>
  let rest := text.dropWhile isSpace
  if rest.isEmpty then none
  else some (rest.takeWhile fun c => !isSpace c, rest.dropWhile fun c => !isSpace c)

/-- An optional sign; true is a minus. -/
def sign : List Char → Bool × List Char
  | '-' :: rest => (true, rest)
  | '+' :: rest => (false, rest)
  | text => (false, text)

/-- The sign and the digits of a number. -/
def magnitude : Extract (Bool × Nat) := fun text =>
  let signed := sign (text.dropWhile isSpace)
  let digits := signed.2.takeWhile Char.isDigit
  if digits.isEmpty then none
  else some ((signed.1, Nat.ofDigitChars 10 digits 0), signed.2.dropWhile Char.isDigit)

/-- A 64-bit unsigned number; a negative one that fits is wrapped around. -/
def unsigned64 : Extract UInt64 := fun text =>
  (magnitude text).bind fun read =>
    if 2 ^ 64 ≤ read.1.2 then none
    else some (if read.1.1 then 0 - UInt64.ofNat read.1.2 else UInt64.ofNat read.1.2, read.2)

def signedValue (read : Bool × Nat) : Int := if read.1 then -(read.2 : Int) else read.2

/-- A 64-bit signed number. -/
def signed64 : Extract Int := fun text =>
  (magnitude text).bind fun read =>
    if -2 ^ 63 ≤ signedValue read.1 ∧ signedValue read.1 < 2 ^ 63 then
      some (signedValue read.1, read.2)
    else none

/-- `n` extractions in a row, for what they leave. -/
def skip {α : Type} (extract : Extract α) : Nat → List Char → Option (List Char)
  | 0, text => some text
  | n + 1, text => (extract text).bind fun read => skip extract n read.2

/-- The line up to the next end of line, if there is any text. -/
def getline (text : List Char) : Option (List Char) :=
  if text.isEmpty then none else some (text.takeWhile (· ≠ '\n'))

/-! ## Decimal numbers -/

/-- The text of a number. -/
def decimal (n : Int) : List Char :=
  (if n < 0 then ['-'] else []) ++ Nat.toDigits 10 n.natAbs

/-- The text does not go on with a digit. -/
def Ends (text : List Char) : Prop := ∀ c ∈ text.head?, c.isDigit = false

theorem isDigit_of_mem_digits {n : Nat} {c : Char} (h : c ∈ Nat.toDigits 10 n) :
    c.isDigit = true :=
  Nat.isDigit_of_mem_toDigits (by decide) (by decide) h

theorem isSpace_of_isDigit {c : Char} (h : c.isDigit = true) : isSpace c = false := by
  have hrange : 48 ≤ c.toNat ∧ c.toNat ≤ 57 := by
    simpa [Char.isDigit, UInt32.le_iff_toNat_le] using h
  have hne : c ≠ ' ' := by
    rintro rfl
    exact absurd hrange.1 (by decide)
  simp only [isSpace, Bool.or_eq_false_iff, beq_eq_false_iff_ne, Bool.and_eq_false_iff,
    decide_eq_false_iff_not]
  exact ⟨hne, .inr (by omega)⟩

theorem sign_of_isDigit {c : Char} {rest : List Char} (h : c.isDigit = true) :
    sign (c :: rest) = (false, c :: rest) := by
  unfold sign
  split
  · rename_i heq
    cases heq
    cases h
  · rename_i heq
    cases heq
    cases h
  · rfl

theorem takeWhile_digits (n : Nat) {rest : List Char} (hrest : Ends rest) :
    (Nat.toDigits 10 n ++ rest).takeWhile Char.isDigit = Nat.toDigits 10 n ∧
      (Nat.toDigits 10 n ++ rest).dropWhile Char.isDigit = rest := by
  have hall : ∀ c ∈ Nat.toDigits 10 n, c.isDigit = true := fun c hc => isDigit_of_mem_digits hc
  rw [List.takeWhile_append_of_pos hall, List.dropWhile_append_of_pos hall]
  cases rest with
  | nil => simp
  | cons c rest => simp [hrest c rfl]

/-- A decimal number behind some blanks is read back. -/
theorem magnitude_decimal {blanks rest : List Char} (hblanks : ∀ c ∈ blanks, isSpace c = true)
    (n : Int) (hrest : Ends rest) :
    magnitude (blanks ++ decimal n ++ rest) = some ((decide (n < 0), n.natAbs), rest) := by
  obtain ⟨htake, hdrop⟩ := takeWhile_digits n.natAbs hrest
  have hsigned : sign ((blanks ++ decimal n ++ rest).dropWhile isSpace) =
      (decide (n < 0), Nat.toDigits 10 n.natAbs ++ rest) := by
    rw [List.append_assoc, List.dropWhile_append_of_pos hblanks, decimal]
    by_cases hneg : n < 0
    · simp [hneg, isSpace, sign]
    · obtain ⟨c, digits, hdigits⟩ := List.exists_cons_of_ne_nil (@Nat.toDigits_ne_nil n.natAbs 10)
      have hc : c.isDigit = true := isDigit_of_mem_digits (hdigits ▸ List.mem_cons_self)
      simp [hneg, hdigits, isSpace_of_isDigit hc, sign_of_isDigit hc]
  simp only [magnitude, hsigned, htake, hdrop, Nat.ofDigitChars_ten_toDigits]
  rw [if_neg]
  simp

theorem toNat_ofInt (n : Int) : ((UInt64.ofInt n).toNat : Int) = n % 2 ^ 64 := by
  simp only [UInt64.ofInt, UInt64.toNat_ofNat']
  omega

theorem ofInt_natCast (n : Nat) : UInt64.ofInt n = UInt64.ofNat n := by
  have hvalue := toNat_ofInt n
  apply UInt64.toNat_inj.mp
  rw [UInt64.toNat_ofNat']
  omega

theorem unsigned64_decimal {blanks rest : List Char} (hblanks : ∀ c ∈ blanks, isSpace c = true)
    {n : Int} (hlo : -2 ^ 64 < n) (hhi : n < 2 ^ 64) (hrest : Ends rest) :
    unsigned64 (blanks ++ decimal n ++ rest) = some (UInt64.ofInt n, rest) := by
  have hfits : ¬ 2 ^ 64 ≤ n.natAbs := by omega
  rw [unsigned64, magnitude_decimal hblanks n hrest, Option.bind_some, if_neg hfits]
  by_cases hneg : n < 0
  · have hvalue : (0 : UInt64) - UInt64.ofNat n.natAbs = UInt64.ofInt n := by
      rw [← ofInt_natCast, Int.ofNat_natAbs_of_nonpos (by omega), UInt64.ofInt_neg, zero_sub,
        neg_neg]
    simp only [hneg, decide_true, if_true, hvalue]
  · have hvalue : UInt64.ofNat n.natAbs = UInt64.ofInt n := by
      rw [← ofInt_natCast, Int.natAbs_of_nonneg (by omega)]
    simp only [hneg, decide_false, Bool.false_eq_true, if_false, hvalue]

/-- The sign and the digits of a number give it back. -/
theorem signedValue_decimal (n : Int) : signedValue (decide (n < 0), n.natAbs) = n := by
  unfold signedValue
  by_cases hneg : n < 0
  · simp only [hneg, decide_true, if_true]
    omega
  · simp only [hneg, decide_false, Bool.false_eq_true, if_false]
    omega

theorem signed64_decimal {blanks rest : List Char} (hblanks : ∀ c ∈ blanks, isSpace c = true)
    {n : Int} (hlo : -2 ^ 63 ≤ n) (hhi : n < 2 ^ 63) (hrest : Ends rest) :
    signed64 (blanks ++ decimal n ++ rest) = some (n, rest) := by
  rw [signed64, magnitude_decimal hblanks n hrest, Option.bind_some, signedValue_decimal]
  exact if_pos ⟨hlo, hhi⟩

/-! ## Runs of digits -/

/-- The runs of digits that begin in the text, when the character before it is a digit or not. -/
def digitRunsFrom : Bool → List Char → Nat
  | _, [] => 0
  | inRun, c :: rest =>
    (if c.isDigit && !inRun then 1 else 0) + digitRunsFrom c.isDigit rest

/-- The runs of digits of a text. -/
def digitRuns (text : List Char) : Nat := digitRunsFrom false text

theorem digitRunsFrom_le (inRun : Bool) (text : List Char) :
    digitRunsFrom true text ≤ digitRunsFrom inRun text ∧
      digitRunsFrom inRun text ≤ digitRunsFrom true text + 1 := by
  cases text with
  | nil => simp [digitRunsFrom]
  | cons c rest => cases inRun <;> cases hc : c.isDigit <;> simp [digitRunsFrom, hc]; omega

theorem digitRuns_cons_of_not {c : Char} (hc : c.isDigit = false) (rest : List Char) :
    digitRuns (c :: rest) = digitRuns rest := by
  simp [digitRuns, digitRunsFrom, hc]

theorem digitRuns_tail_le (c : Char) (rest : List Char) :
    digitRuns rest ≤ digitRuns (c :: rest) := by
  unfold digitRuns
  have hle := (digitRunsFrom_le false rest).2
  cases hc : c.isDigit <;> simp [digitRunsFrom, hc]
  omega

theorem digitRuns_dropWhile_le (p : Char → Bool) (text : List Char) :
    digitRuns (text.dropWhile p) ≤ digitRuns text := by
  induction text with
  | nil => simp
  | cons c rest ih =>
    rw [List.dropWhile_cons]
    split
    · exact ih.trans (digitRuns_tail_le c rest)
    · exact Nat.le_refl _

theorem digitRunsFrom_take_le (inRun : Bool) (n : Nat) (text : List Char) :
    digitRunsFrom inRun (text.take n) ≤ digitRunsFrom inRun text := by
  induction n generalizing text inRun with
  | zero => simp [digitRunsFrom]
  | succ n ih =>
    cases text with
    | nil => simp
    | cons c rest => exact Nat.add_le_add_left (ih c.isDigit rest) _

theorem digitRunsFrom_append_le (inRun : Bool) (text more : List Char) :
    digitRunsFrom inRun (text ++ more) ≤ digitRunsFrom inRun text + digitRuns more := by
  induction text generalizing inRun with
  | nil =>
    rw [List.nil_append]
    cases inRun with
    | false => exact Nat.le_add_left _ _
    | true => exact ((digitRunsFrom_le false more).1).trans (Nat.le_add_left _ _)
  | cons c rest ih =>
    rw [List.cons_append, digitRunsFrom, digitRunsFrom]
    have hrest := ih c.isDigit
    omega

/-- The runs lie a character apart. -/
theorem two_mul_digitRunsFrom_le (text : List Char) :
    2 * digitRunsFrom true text ≤ text.length ∧ 2 * digitRunsFrom false text ≤ text.length + 1 := by
  induction text with
  | nil => simp [digitRunsFrom]
  | cons c rest ih => cases hc : c.isDigit <;> simp [digitRunsFrom, hc] <;> omega

/-- Taking a run of digits out takes one run out. -/
theorem digitRuns_dropWhile_isDigit (text : List Char) :
    digitRuns (text.dropWhile Char.isDigit) = digitRunsFrom true text := by
  induction text with
  | nil => rfl
  | cons c rest ih =>
    rw [List.dropWhile_cons]
    cases hc : c.isDigit <;> simp [digitRuns, digitRunsFrom, hc]
    exact ih

theorem digitRuns_decimal_le (n : Int) (text : List Char) :
    digitRuns (' ' :: decimal n ++ text) ≤ 1 + digitRuns text := by
  have hdigits : digitRuns (Nat.toDigits 10 n.natAbs ++ text) ≤ 1 + digitRuns text := by
    have hall : ∀ c ∈ Nat.toDigits 10 n.natAbs, c.isDigit = true :=
      fun c hc => isDigit_of_mem_digits hc
    have hdrop := digitRuns_dropWhile_isDigit (Nat.toDigits 10 n.natAbs ++ text)
    rw [List.dropWhile_append_of_pos hall] at hdrop
    have hle := (digitRunsFrom_le false (Nat.toDigits 10 n.natAbs ++ text)).2
    have hskip := digitRuns_dropWhile_le Char.isDigit text
    unfold digitRuns at *
    omega
  unfold decimal
  rw [List.cons_append, digitRuns_cons_of_not (by decide)]
  split
  · rw [List.append_assoc, List.singleton_append, digitRuns_cons_of_not (by decide)]
    exact hdigits
  · exact hdigits

theorem magnitude_digitRuns {text rest : List Char} {read : Bool × Nat}
    (h : magnitude text = some (read, rest)) : digitRuns rest + 1 ≤ digitRuns text := by
  have hsign (t : List Char) : digitRuns (sign t).2 ≤ digitRuns t := by
    unfold sign
    split
    · exact digitRuns_tail_le _ _
    · exact digitRuns_tail_le _ _
    · exact Nat.le_refl _
  have hblanks := digitRuns_dropWhile_le isSpace text
  have hsigned := hsign (text.dropWhile isSpace)
  unfold magnitude at h
  generalize (sign (text.dropWhile isSpace)) = signed at h hsigned
  simp only at h
  split at h
  · cases h
  · rename_i hdigits
    cases h
    have hrun : digitRuns (signed.2.dropWhile Char.isDigit) + 1 = digitRuns signed.2 := by
      rw [digitRuns_dropWhile_isDigit]
      cases hsplit : signed.2 with
      | nil => simp [hsplit] at hdigits
      | cons c rest =>
        have hc : c.isDigit = true := by
          by_contra hno
          simp [hsplit, hno] at hdigits
        simp [digitRuns, digitRunsFrom, hc]
        omega
    omega

theorem unsigned64_digitRuns {text rest : List Char} {value : UInt64}
    (h : unsigned64 text = some (value, rest)) : digitRuns rest + 1 ≤ digitRuns text := by
  obtain ⟨read, hread, h⟩ := Option.bind_eq_some_iff.mp h
  split at h
  · cases h
  · cases h
    exact magnitude_digitRuns hread

theorem signed64_digitRuns {text rest : List Char} {value : Int}
    (h : signed64 text = some (value, rest)) : digitRuns rest + 1 ≤ digitRuns text := by
  obtain ⟨read, hread, h⟩ := Option.bind_eq_some_iff.mp h
  split at h
  · cases h
    exact magnitude_digitRuns hread
  · cases h

theorem skip_digitRuns {α : Type} {extract : Extract α}
    (hextract : ∀ text value rest, extract text = some (value, rest) →
      digitRuns rest + 1 ≤ digitRuns text) (n : Nat) {text rest : List Char}
    (h : skip extract n text = some rest) : digitRuns rest + n ≤ digitRuns text := by
  induction n generalizing text with
  | zero =>
    cases h
    exact Nat.le_refl _
  | succ n ih =>
    obtain ⟨read, hread, h⟩ := Option.bind_eq_some_iff.mp h
    have hfirst := hextract text read.1 read.2 hread
    have hmore := ih h
    omega

theorem char_digitRuns {text rest : List Char} {c : Char} (h : char text = some (c, rest)) :
    digitRuns rest ≤ digitRuns (text.drop 1) := by
  cases text with
  | nil => cases h
  | cons first more =>
    unfold char at h
    rw [List.dropWhile_cons] at h
    split at h
    · cases h
    · rename_i heq
      split at heq
      · have hblanks := digitRuns_dropWhile_le isSpace more
        cases h
        rw [heq] at hblanks
        exact (digitRuns_tail_le _ _).trans hblanks
      · cases heq
        cases h
        exact Nat.le_refl _

end EdgeVision.Lib.IStream
