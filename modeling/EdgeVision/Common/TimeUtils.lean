import EdgeVision.Lib.IStream

/-!
# Times as text

`formatUnixMicros`: a time in UTC, by the calendar that `gmtime_r` uses. The clock counts
nanoseconds in 64 bits with a sign, and conversions wrap around.
-/

namespace EdgeVision

open Lib

/-- The fields of a `tm` that are printed. -/
structure Tm where
  year : Int
  month : Nat
  day : Nat
  hour : Nat
  minute : Nat
  second : Nat
  deriving DecidableEq, Repr

/-- The Gregorian date of a number of days since 1970. The years are counted from March on, in eras
of 400 years. -/
def civilFromDays (days : Int) : Int × Nat × Nat :=
  let era := (days + 719468) / 146097
  let dayOfEra := ((days + 719468) % 146097).toNat
  let yearOfEra := (dayOfEra - dayOfEra / 1460 + dayOfEra / 36524 - dayOfEra / 146096) / 365
  let dayOfYear := dayOfEra - (365 * yearOfEra + yearOfEra / 4 - yearOfEra / 100)
  let marchMonth := (5 * dayOfYear + 2) / 153
  let month := if marchMonth < 10 then marchMonth + 3 else marchMonth - 9
  (era * 400 + yearOfEra + (if month ≤ 2 then 1 else 0), month,
    dayOfYear - (153 * marchMonth + 2) / 5 + 1)

def gmtime (seconds : Int) : Tm where
  year := (civilFromDays (seconds / 86400)).1
  month := (civilFromDays (seconds / 86400)).2.1
  day := (civilFromDays (seconds / 86400)).2.2
  hour := (seconds % 86400).toNat / 3600
  minute := (seconds % 86400).toNat / 60 % 60
  second := (seconds % 86400).toNat % 60

/-- A number with zeros in front of it. -/
def padded (width n : Nat) : List Char :=
  List.replicate (width - (Nat.toDigits 10 n).length) '0' ++ Nat.toDigits 10 n

/-- `%Y-%m-%dT%H:%M:%S` -/
def putTime (tm : Tm) : List Char :=
  IStream.decimal tm.year ++ '-' :: padded 2 tm.month ++ '-' :: padded 2 tm.day ++
    'T' :: padded 2 tm.hour ++ ':' :: padded 2 tm.minute ++ ':' :: padded 2 tm.second

/-- The seconds of a time point, towards zero. -/
def toTimeT (micros : Nat) : Int :=
  (Int.bmod (Int.bmod micros (2 ^ 64) * 1000) (2 ^ 64)).tdiv 1000000000

def formatUnixMicros (micros : Nat) : List Char :=
  putTime (gmtime (toTimeT micros)) ++ '.' :: padded 6 (micros % 1000000) ++ ['Z']

example : formatUnixMicros 1709164800000001 = "2024-02-29T00:00:00.000001Z".toList := by decide

end EdgeVision
