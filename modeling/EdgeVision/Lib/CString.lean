import EdgeVision.Lib.ExtRat
import EdgeVision.Lib.IStream

/-!
# Numbers in C strings

`atoi` and `atof`: the number that a text starts with, behind some blanks, and zero when it starts
with none. The language leaves open what `atoi` returns for a number outside the range of `int`;
here `outOfRange` says it. `atof` returns the number before rounding.
-/

namespace EdgeVision.Lib.CString

open IStream

/-- The integers of the type `int`. -/
def IsInt (n : Int) : Prop := -2147483648 ≤ n ∧ n ≤ 2147483647

instance (n : Int) : Decidable (IsInt n) := inferInstanceAs (Decidable (_ ∧ _))

def atoi (outOfRange : Int → Int32) (text : List Char) : Int :=
  match magnitude text with
  | none => 0
  | some (read, _) =>
    if IsInt (signedValue read) then signedValue read else (outOfRange (signedValue read)).toInt

/-! ## Floating-point numbers -/

/-- The value of a digit, in lower case. -/
def digitValue (c : Char) : Nat := if c.isDigit then c.toNat - 48 else c.toNat - 87

def isDigitOf (base : Nat) (c : Char) : Bool :=
  (c.isDigit || decide (97 ≤ c.toNat)) && decide (digitValue c < base)

/-- The digits before a point and behind it, and the characters left. -/
def pointed (base : Nat) (text : List Char) : (List Char × List Char) × List Char :=
  match text.dropWhile (isDigitOf base) with
  | '.' :: rest =>
    ((text.takeWhile (isDigitOf base), rest.takeWhile (isDigitOf base)),
      rest.dropWhile (isDigitOf base))
  | rest => ((text.takeWhile (isDigitOf base), []), rest)

/-- The exponent behind its mark; a mark without digits is none. -/
def exponent (mark : Char) : List Char → Int
  | [] => 0
  | c :: rest =>
    if c = mark then
      signedValue ((sign rest).1, Nat.ofDigitChars 10 ((sign rest).2.takeWhile Char.isDigit) 0)
    else 0

/-- Digits in a base, with a point and an exponent or not; the exponent scales by `radix`. -/
def numeral (base radix : Nat) (mark : Char) (text : List Char) : Option ExtRat :=
  let read := pointed base text
  let digits := read.1.1 ++ read.1.2
  if digits.isEmpty then none
  else
    let significand := digits.foldl (fun value c => base * value + digitValue c) 0
    some (.fin ((significand : Rat) / (base : Rat) ^ read.1.2.length *
      (radix : Rat) ^ exponent mark read.2))

/-- A number without its sign: infinite, no number, hexadecimal or decimal. -/
def unsignedNumber (text : List Char) : ExtRat :=
  if "inf".toList.isPrefixOf text then .inf false
  else if "nan".toList.isPrefixOf text then .nan
  else
    let hexadecimal := if "0x".toList.isPrefixOf text then numeral 16 2 'p' (text.drop 2) else none
    (hexadecimal.or (numeral 10 10 'e' text)).getD (.fin 0)

def atof (text : List Char) : ExtRat :=
  let signed := sign ((text.map Char.toLower).dropWhile isSpace)
  if signed.1 then -unsignedNumber signed.2 else unsignedNumber signed.2

example : atof " -12.50E-1x".toList = .fin (-5 / 4) := by decide +kernel

/-! ## What `atoi` returns -/

variable (outOfRange : Int → Int32)

theorem isInt_toInt (n : Int32) : IsInt n.toInt := by
  have hlo := n.le_toInt
  have hhi := n.toInt_lt
  unfold IsInt
  omega

/-- What is returned is an `int`, whatever the text. -/
theorem isInt_atoi (text : List Char) : IsInt (atoi outOfRange text) := by
  unfold atoi
  split
  · decide
  · split
    · assumption
    · exact isInt_toInt _

/-- An `int` is read back from its decimal digits. -/
theorem atoi_decimal {n : Int} (hn : IsInt n) {rest : List Char} (hrest : Ends rest) :
    atoi outOfRange (decimal n ++ rest) = n := by
  have hread := @magnitude_decimal [] rest (by simp) n hrest
  rw [List.nil_append] at hread
  simp only [atoi, hread, signedValue_decimal, if_pos hn]

end EdgeVision.Lib.CString
