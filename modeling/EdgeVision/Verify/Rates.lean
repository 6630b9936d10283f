import EdgeVision.Metrics.MetricsCollector
import Mathlib.Tactic.Linarith
import Mathlib.Tactic.Positivity

/-!
# Rates over a history of the clock

A sample divides the growth of a counter by the time since the last sample. The time is a difference
of two unsigned readings of a clock that may step back, and a step back comes out as a very long
time. The rates are right for a whole history of samples exactly if no counter has grown over a step
back of the clock (`rates_right_iff`). A right rate is the quotient that the rounded operations give,
which is the quotient itself up to the spread of the rounding.
-/

namespace EdgeVision

open Lib

/-- The rates of a snapshot. -/
inductive Rate where
  | capture
  | encode
  | ai
  deriving DecidableEq, Repr

namespace Rate

def counter : Rate → Counter
  | capture => .capturedFrames
  | encode => .encodedFrames
  | ai => .aiFrames

def last : Rate → Reference → UInt64
  | capture, ref => ref.lastCaptureFrames
  | encode, ref => ref.lastEncodedFrames
  | ai, ref => ref.lastAiFrames

def fps : Rate → MetricsSnapshot → Rat
  | capture, snapshot => snapshot.captureFps
  | encode, snapshot => snapshot.encodeFps
  | ai, snapshot => snapshot.aiFps

theorem last_reference (rate : Rate) (now : Readings) :
    rate.last now.reference = now.counters rate.counter := by
  cases rate <;> rfl

end Rate

/-- A call of `sample`: what the last call has left, and the readings. -/
structure SampleCall where
  last : Reference
  now : Readings

/-- The calls that take these readings, one after the other. -/
def sampleCalls (fl : Rounding) (sys : SystemConstants) :
    Reference → List Readings → List SampleCall
  | _, [] => []
  | last, now :: readings => ⟨last, now⟩ :: sampleCalls fl sys (sample fl sys last now).2 readings

namespace SampleCall

variable (call : SampleCall)

def Advanced : Prop := call.last.lastSampleTimeUs < call.now.timestampUs

instance : Decidable call.Advanced := inferInstanceAs (Decidable (_ < _))

/-- The microseconds since the last sample, when the clock has advanced. -/
def micros : Rat := (call.now.timestampUs.toNat : Rat) - call.last.lastSampleTimeUs.toNat

/-- The seconds. -/
def elapsed : Rat := call.micros / 1000000

/-- The growth of a counter since the last sample. -/
def growth (rate : Rate) : Rat :=
  ((call.now.counters rate.counter).toNat : Rat) - (rate.last call.last).toNat

/-- A counter is not below its last value. -/
def Grows : Prop := ∀ rate : Rate, rate.last call.last ≤ call.now.counters rate.counter

/-- What a rate should be: the growth over the elapsed time, each operation rounded, when the clock
has advanced, and zero when it has not. -/
structure Right (fl : Rounding) (rate : Rate) (fps : Rat) : Prop where
  quotient : call.Advanced → fps = fl (fl (call.growth rate) / fl (fl call.micros / 1000000))
  /-- The rounding changes it by a factor near one. -/
  near : call.Advanced → fps ≤ fl.spread ^ 2 * (call.growth rate / call.elapsed) ∧
    call.growth rate / call.elapsed ≤ fl.spread ^ 2 * fps
  still : ¬ call.Advanced → fps = 0

/-- The clock has not stepped back while a counter has grown. -/
def Forward : Prop :=
  call.last.lastSampleTimeUs ≤ call.now.timestampUs ∨
    ∀ rate : Rate, call.now.counters rate.counter = rate.last call.last

/-- The time that the code computes. -/
def interval (fl : Rounding) : Rat :=
  fl (fl (call.now.timestampUs - call.last.lastSampleTimeUs).toNat / 1000000)

theorem fps_eq (fl : Rounding) (sys : SystemConstants) (rate : Rate) :
    rate.fps (sample fl sys call.last call.now).1 =
      safeRate fl (call.now.counters rate.counter) (rate.last call.last) (call.interval fl) := by
  cases rate <;> rfl

variable {call}

/-- Without rounding the rate is the quotient. -/
theorem right_exact_iff {rate : Rate} {fps : Rat} : call.Right .exact rate fps ↔
    fps = if call.Advanced then call.growth rate / call.elapsed else 0 := by
  by_cases hadvanced : call.Advanced
  · rw [if_pos hadvanced]
    constructor
    · exact fun h => h.quotient hadvanced
    · rintro rfl
      exact ⟨fun _ => rfl, fun _ => by simp, fun hstill => absurd hadvanced hstill⟩
  · rw [if_neg hadvanced]
    exact ⟨fun h => h.still hadvanced,
      fun h => ⟨(absurd · hadvanced), (absurd · hadvanced), fun _ => h⟩⟩

theorem micros_pos (h : call.Advanced) : 0 < call.micros := by
  have hlt : (call.last.lastSampleTimeUs.toNat : Rat) < call.now.timestampUs.toNat := by
    exact_mod_cast UInt64.lt_iff_toNat_lt.mp h
  exact sub_pos.mpr hlt

theorem elapsed_pos (h : call.Advanced) : 0 < call.elapsed :=
  div_pos (micros_pos h) (by norm_num)

theorem growth_nonneg (hgrows : call.Grows) (rate : Rate) : 0 ≤ call.growth rate := by
  have hcount : ((rate.last call.last).toNat : Rat) ≤ (call.now.counters rate.counter).toNat := by
    exact_mod_cast UInt64.le_iff_toNat_le.mp (hgrows rate)
  exact sub_nonneg.mpr hcount

theorem interval_of_advanced (fl : Rounding) (h : call.Advanced) :
    call.interval fl = fl (fl call.micros / 1000000) := by
  have hle : call.last.lastSampleTimeUs ≤ call.now.timestampUs := UInt64.le_of_lt h
  unfold interval micros
  rw [UInt64.toNat_sub_of_le _ _ hle, Nat.cast_sub (UInt64.le_iff_toNat_le.mp hle)]

/-- Only an unchanged clock gives no time. -/
theorem interval_pos (fl : Rounding) (h : call.now.timestampUs ≠ call.last.lastSampleTimeUs) :
    0 < call.interval fl := by
  have hne : (call.now.timestampUs - call.last.lastSampleTimeUs).toNat ≠ 0 := by
    intro hzero
    exact h (sub_eq_zero.mp (UInt64.toNat_inj.mp hzero))
  have hpos : (0 : Rat) < (call.now.timestampUs - call.last.lastSampleTimeUs).toNat := by
    exact_mod_cast Nat.pos_of_ne_zero hne
  exact fl.pos (div_pos (fl.pos hpos) (by norm_num))

theorem interval_same (fl : Rounding) (h : call.now.timestampUs = call.last.lastSampleTimeUs) :
    call.interval fl = 0 := by
  simp [interval, h]

/-- With counters that grow the rate is the growth over the computed time, if that is positive. -/
theorem safeRate_eq (fl : Rounding) (hgrows : call.Grows) (rate : Rate) :
    safeRate fl (call.now.counters rate.counter) (rate.last call.last) (call.interval fl) =
      if call.interval fl ≤ 0 then 0 else fl (fl (call.growth rate) / call.interval fl) := by
  have hle := hgrows rate
  have hnot : ¬ call.now.counters rate.counter < rate.last call.last := UInt64.not_lt.mpr hle
  unfold safeRate growth
  simp only [hnot, or_false]
  rw [UInt64.toNat_sub_of_le _ _ hle, Nat.cast_sub (UInt64.le_iff_toNat_le.mp hle)]

/-- Two roundings of the time: it is near the elapsed one. -/
theorem interval_near (fl : Rounding) (h : call.Advanced) :
    (1 - fl.unit) ^ 2 * call.elapsed ≤ call.interval fl ∧
      call.interval fl ≤ (1 + fl.unit) ^ 2 * call.elapsed := by
  have hmicros := (micros_pos h).le
  have hquot : 0 ≤ fl call.micros / 1000000 := div_nonneg (fl.nonneg hmicros) (by norm_num)
  have hbelow : 0 ≤ 1 - fl.unit := sub_nonneg.mpr fl.unit_lt_one.le
  have habove : 0 ≤ 1 + fl.unit := add_nonneg zero_le_one fl.unit_nonneg
  rw [interval_of_advanced fl h, elapsed]
  constructor
  · calc (1 - fl.unit) ^ 2 * (call.micros / 1000000)
        = (1 - fl.unit) * ((1 - fl.unit) * call.micros / 1000000) := by ring
      _ ≤ (1 - fl.unit) * (fl call.micros / 1000000) := by
          have hge := fl.ge_of_nonneg hmicros
          gcongr
      _ ≤ fl (fl call.micros / 1000000) := fl.ge_of_nonneg hquot
  · calc fl (fl call.micros / 1000000)
        ≤ (1 + fl.unit) * (fl call.micros / 1000000) := fl.le_of_nonneg hquot
      _ ≤ (1 + fl.unit) * ((1 + fl.unit) * call.micros / 1000000) := by
          have hle := fl.le_of_nonneg hmicros
          gcongr
      _ = (1 + fl.unit) ^ 2 * (call.micros / 1000000) := by ring

/-- A rounded quotient is near the exact one. -/
theorem quotient_near (fl : Rounding) (hgrows : call.Grows) (h : call.Advanced) (rate : Rate) :
    let fps := fl (fl (call.growth rate) / call.interval fl)
    fps ≤ fl.spread ^ 2 * (call.growth rate / call.elapsed) ∧
      call.growth rate / call.elapsed ≤ fl.spread ^ 2 * fps := by
  intro fps
  obtain ⟨hlow, hhigh⟩ := interval_near fl h
  have helapsed := elapsed_pos h
  have hgrowth := growth_nonneg hgrows rate
  have hbelow : 0 < 1 - fl.unit := sub_pos.mpr fl.unit_lt_one
  have habove : 0 < 1 + fl.unit := add_pos_of_pos_of_nonneg one_pos fl.unit_nonneg
  have hinterval : 0 < call.interval fl := lt_of_lt_of_le (by positivity) hlow
  have hquot : 0 ≤ fl (call.growth rate) / call.interval fl :=
    div_nonneg (fl.nonneg hgrowth) hinterval.le
  constructor
  · calc fps ≤ (1 + fl.unit) * (fl (call.growth rate) / call.interval fl) := fl.le_of_nonneg hquot
      _ ≤ (1 + fl.unit) * ((1 + fl.unit) * call.growth rate /
            ((1 - fl.unit) ^ 2 * call.elapsed)) := by
          have hle := fl.le_of_nonneg hgrowth
          gcongr
      _ = fl.spread ^ 2 * (call.growth rate / call.elapsed) := by
          rw [Rounding.spread]
          field_simp
  · have hround := fl.nonneg hgrowth
    calc call.growth rate / call.elapsed
        = fl.spread ^ 2 * ((1 - fl.unit) * ((1 - fl.unit) * call.growth rate /
            ((1 + fl.unit) ^ 2 * call.elapsed))) := by
          rw [Rounding.spread]
          field_simp
      _ ≤ fl.spread ^ 2 * ((1 - fl.unit) * (fl (call.growth rate) / call.interval fl)) := by
          have hge := fl.ge_of_nonneg hgrowth
          gcongr
      _ ≤ fl.spread ^ 2 * fps := by
          have hge := fl.ge_of_nonneg hquot
          gcongr

/-- **One sample**: its rates are right exactly if it is not one of a step back with growth. -/
theorem rates_right (fl : Rounding) (sys : SystemConstants) (hgrows : call.Grows) :
    (∀ rate : Rate, call.Right fl rate (rate.fps (sample fl sys call.last call.now).1)) ↔
      call.Forward := by
  simp only [fps_eq, safeRate_eq fl hgrows]
  by_cases hadvanced : call.Advanced
  · have hpos := interval_pos fl (UInt64.ne_of_lt hadvanced).symm
    refine iff_of_true (fun rate => ?_) (.inl (UInt64.le_of_lt hadvanced))
    rw [if_neg (not_le.mpr hpos)]
    constructor
    case quotient => exact fun _ => by rw [interval_of_advanced fl hadvanced]
    case near => exact fun _ => quotient_near fl hgrows hadvanced rate
    case still => exact fun hstill => absurd hadvanced hstill
  · have hright (rate : Rate) (fps : Rat) : call.Right fl rate fps ↔ fps = 0 :=
      ⟨fun h => h.still hadvanced, fun h => ⟨(absurd · hadvanced), (absurd · hadvanced), fun _ => h⟩⟩
    simp only [hright]
    by_cases hsame : call.now.timestampUs = call.last.lastSampleTimeUs
    · refine iff_of_true (fun rate => ?_) (.inl (UInt64.le_of_eq hsame.symm))
      rw [interval_same fl hsame, if_pos le_rfl]
    · have hpos := interval_pos fl hsame
      have hback : ¬ call.last.lastSampleTimeUs ≤ call.now.timestampUs := by
        intro hle
        exact hadvanced (UInt64.lt_of_le_of_ne hle (Ne.symm hsame))
      have hzero (rate : Rate) : fl (fl (call.growth rate) / call.interval fl) = 0 ↔
          call.now.counters rate.counter = rate.last call.last := by
        have hgrowth := growth_nonneg hgrows rate
        rw [fl.round_eq_zero_iff (div_nonneg (fl.nonneg hgrowth) hpos.le), div_eq_zero_iff,
          or_iff_left hpos.ne', fl.round_eq_zero_iff hgrowth, growth, sub_eq_zero, Nat.cast_inj,
          UInt64.toNat_inj]
      simp only [not_le.mpr hpos, if_false, hzero, Forward, hback, false_or]

end SampleCall

/-- The frames that the rates of the samples with an advanced clock stand for. -/
def framesAccounted (fl : Rounding) (sys : SystemConstants) (rate : Rate)
    (calls : List SampleCall) : Rat :=
  (calls.map fun call =>
    if call.Advanced then rate.fps (sample fl sys call.last call.now).1 * call.elapsed else 0).sum

/-- What the samples leave for the next one. -/
def lastReference (last : Reference) (readings : List Readings) : Reference :=
  readings.foldl (fun _ now => now.reference) last

section Account

variable (fl : Rounding) (sys : SystemConstants) (rate : Rate)

/-- What one sample accounts for. -/
theorem accounted_le {call : SampleCall} (hgrows : call.Grows) :
    (if call.Advanced then rate.fps (sample fl sys call.last call.now).1 * call.elapsed else 0) ≤
      fl.spread ^ 2 * call.growth rate := by
  split
  · rename_i hadvanced
    have hright := (SampleCall.rates_right fl sys hgrows).mpr (.inl (UInt64.le_of_lt hadvanced)) rate
    have hpos := SampleCall.elapsed_pos hadvanced
    calc rate.fps (sample fl sys call.last call.now).1 * call.elapsed
        ≤ fl.spread ^ 2 * (call.growth rate / call.elapsed) * call.elapsed :=
          mul_le_mul_of_nonneg_right (hright.near hadvanced).1 hpos.le
      _ = fl.spread ^ 2 * call.growth rate := by rw [mul_assoc, div_mul_cancel₀ _ hpos.ne']
  · exact mul_nonneg (sq_nonneg _) (SampleCall.growth_nonneg hgrows rate)

/-- Samples with an advanced clock never account for more frames than were recorded, up to the
rounding. -/
theorem framesAccounted_le (last : Reference) (readings : List Readings)
    (hgrows : ∀ call ∈ sampleCalls fl sys last readings, call.Grows) :
    framesAccounted fl sys rate (sampleCalls fl sys last readings) ≤
      fl.spread ^ 2 *
        (((rate.last (lastReference last readings)).toNat : Rat) - (rate.last last).toNat) := by
  induction readings generalizing last with
  | nil => simp [framesAccounted, sampleCalls, lastReference]
  | cons now readings ih =>
    rw [sampleCalls, List.forall_mem_cons] at hgrows
    obtain ⟨hhere, hrest⟩ := hgrows
    have hfirst := accounted_le fl sys rate hhere
    have hle := ih now.reference hrest
    have hsum : framesAccounted fl sys rate (sampleCalls fl sys last (now :: readings)) =
        (if SampleCall.Advanced ⟨last, now⟩ then
          rate.fps (sample fl sys last now).1 * SampleCall.elapsed ⟨last, now⟩ else 0) +
        framesAccounted fl sys rate (sampleCalls fl sys now.reference readings) := by
      rw [framesAccounted, sampleCalls, List.map_cons, List.sum_cons]
      rfl
    rw [Rate.last_reference] at hle
    rw [hsum, lastReference, List.foldl_cons]
    unfold SampleCall.growth at hfirst
    unfold lastReference at hle
    rw [mul_sub] at hfirst hle ⊢
    linarith

end Account

/-- **When the rates are right**: over any sequence of samples with counters that grow, every rate
is the growth over the elapsed time as rounded operations give it, or zero when the clock has not
advanced, and the samples account for no more frames than were recorded, up to the rounding, exactly
if no sample finds that the clock has stepped back while a counter has grown. Without rounding the
spread is one. -/
theorem rates_right_iff (fl : Rounding) (sys : SystemConstants) (last : Reference)
    (readings : List Readings)
    (hgrows : ∀ call ∈ sampleCalls fl sys last readings, call.Grows) :
    (∀ call ∈ sampleCalls fl sys last readings, ∀ rate : Rate,
        call.Right fl rate (rate.fps (sample fl sys call.last call.now).1)) ∧
      (∀ rate : Rate, framesAccounted fl sys rate (sampleCalls fl sys last readings) ≤
        fl.spread ^ 2 *
          (((rate.last (lastReference last readings)).toNat : Rat) - (rate.last last).toNat)) ↔
    ∀ call ∈ sampleCalls fl sys last readings, call.Forward := by
  constructor
  · intro h call hcall
    exact (SampleCall.rates_right fl sys (hgrows call hcall)).mp (h.1 call hcall)
  · intro h
    refine ⟨fun call hcall => ?_, fun rate => framesAccounted_le fl sys rate last readings hgrows⟩
    exact (SampleCall.rates_right fl sys (hgrows call hcall)).mpr (h call hcall)

/-- The readings of a sample that has seen so many frames on every path. -/
def readingsAt (timestampUs frames : UInt64) : Readings where
  timestampUs
  counters
    | .capturedFrames | .encodedFrames | .aiFrames => frames
    | _ => 0
  proc := ⟨0, 0, 0, false⟩

/-- Three seconds with five frames in `double`, then a step back without any. -/
theorem rates_right_two_samples :
    let sys : SystemConstants := ⟨4096, 4⟩
    let last := Reference.init 1000000 ⟨0, 0, 0, false⟩
    let readings := [readingsAt 4000000 5, readingsAt 2000000 5]
    (sampleCalls .binary64 sys last readings).map
        (fun call => Rate.capture.fps (sample .binary64 sys call.last call.now).1) =
      [7505999378950827 / 2 ^ 52, 0] ∧
      ∀ call ∈ sampleCalls .binary64 sys last readings, ∀ rate : Rate,
        call.Right .binary64 rate (rate.fps (sample .binary64 sys call.last call.now).1) := by
  intro sys last readings
  have hcalls : sampleCalls .binary64 sys last readings =
      [⟨last, readingsAt 4000000 5⟩, ⟨(readingsAt 4000000 5).reference, readingsAt 2000000 5⟩] :=
    rfl
  refine ⟨by decide +kernel, ((rates_right_iff .binary64 sys last readings ?_).mpr ?_).1⟩
  · rw [hcalls]
    simp only [List.forall_mem_cons, List.not_mem_nil, false_imp_iff, implies_true, and_true]
    refine ⟨fun rate => ?_, fun rate => ?_⟩
    · cases rate <;> decide
    · cases rate <;> decide
  · rw [hcalls]
    simp only [List.forall_mem_cons, List.not_mem_nil, false_imp_iff, implies_true, and_true]
    refine ⟨.inl (by decide), .inr fun rate => ?_⟩
    cases rate <;> rfl

/-- One frame while the clock steps back by a microsecond: the rate is not zero. -/
theorem rate_over_step_back :
    let sys : SystemConstants := ⟨4096, 4⟩
    let call : SampleCall := ⟨Reference.init 1000000 ⟨0, 0, 0, false⟩, readingsAt 999999 1⟩
    call.now.timestampUs < call.last.lastSampleTimeUs ∧
      Rate.capture.fps (sample .binary64 sys call.last call.now).1 = 15625 / 2 ^ 58 ∧
      ¬ ∀ rate : Rate,
        call.Right .binary64 rate (rate.fps (sample .binary64 sys call.last call.now).1) := by
  intro sys call
  refine ⟨by decide, by decide +kernel, fun h => ?_⟩
  have hcapture := (h .capture).still (by decide)
  revert hcapture
  decide +kernel

end EdgeVision
