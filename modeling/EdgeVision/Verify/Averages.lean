import EdgeVision.Metrics.MetricsThreads
import Mathlib.Algebra.BigOperators.Group.List.Lemmas
import Mathlib.Algebra.BigOperators.Ring.List
import Mathlib.Algebra.Order.BigOperators.Group.List
import Mathlib.Tactic.FieldSimp
import Mathlib.Tactic.Linarith

/-!
# Averages between threads

The average of a sample is the time recorded since the last sample over the frames recorded since
then. Time and frames are counters of their own. When `sample` loads the two without a call of the
same kind between its increments, and with none in between the loads, the times it sees are those of
the frames it sees, over any run (`averages_right`). Otherwise a frame is counted in one sample and
its time in another (`frame_without_its_time`).
-/

namespace EdgeVision

open Lib

/-- The microseconds of all frames. -/
def totalMicros (times : List FrameTime) : Nat := (times.map FrameTime.micros).sum

@[simp] theorem totalMicros_append (times times' : List FrameTime) :
    totalMicros (times ++ times') = totalMicros times + totalMicros times' := by
  simp [totalMicros]

/-- The microseconds of the calls in flight, of one kind. -/
def pendingMicros (kind : FrameKind) (inFlight : List (FrameKind × FrameTime)) : Nat :=
  (inFlight.map fun call => if call.1 = kind then call.2.micros else 0).sum

theorem pendingMicros_none {kind : FrameKind} {inFlight : List (FrameKind × FrameTime)}
    (h : ∀ call ∈ inFlight, call.1 ≠ kind) : pendingMicros kind inFlight = 0 := by
  apply List.sum_eq_zero
  intro n hn
  obtain ⟨call, hcall, rfl⟩ := List.mem_map.mp hn
  exact if_neg (h call hcall)

theorem pendingMicros_append (kind : FrameKind) (inFlight : List (FrameKind × FrameTime))
    (call : FrameKind × FrameTime) :
    pendingMicros kind (inFlight ++ [call]) =
      pendingMicros kind inFlight + if call.1 = kind then call.2.micros else 0 := by
  simp [pendingMicros]

theorem pendingMicros_eraseIdx {kind : FrameKind} {inFlight : List (FrameKind × FrameTime)} {i : Nat}
    {call : FrameKind × FrameTime} (h : inFlight[i]? = some call) :
    pendingMicros kind (inFlight.eraseIdx i) + (if call.1 = kind then call.2.micros else 0) =
      pendingMicros kind inFlight := by
  obtain ⟨hi, rfl⟩ := List.getElem?_eq_some_iff.mp h
  have hperm := List.getElem_cons_eraseIdx_perm hi
  have hsum := (hperm.map fun call => if call.1 = kind then call.2.micros else 0).sum_eq
  rw [List.map_cons, List.sum_cons] at hsum
  unfold pendingMicros
  omega

namespace FrameKind

/-- The places of the two loads of a kind. -/
def framesAt : FrameKind → Nat
  | encode => 1
  | ai => 2

def timeAt : FrameKind → Nat
  | encode => 3
  | ai => 4

variable (kind : FrameKind)

theorem framesAt_lt_timeAt : kind.framesAt < kind.timeAt := by cases kind <;> decide

theorem timeAt_lt : kind.timeAt < sampleLoads.length := by cases kind <;> decide

theorem frames_ne_timeUsTotal (other : FrameKind) : kind.frames ≠ other.timeUsTotal := by
  cases kind <;> cases other <;> decide

variable {kind}

theorem frames_inj {other : FrameKind} : kind.frames = other.frames ↔ kind = other := by
  cases kind <;> cases other <;> decide

theorem timeUsTotal_inj {other : FrameKind} : kind.timeUsTotal = other.timeUsTotal ↔ kind = other := by
  cases kind <;> cases other <;> decide

/-- Each counter is loaded once. -/
theorem load_frames_iff {i : Nat} {counter : Counter} (h : sampleLoads[i]? = some counter) :
    kind.frames = counter ↔ i = kind.framesAt := by
  obtain ⟨hi, rfl⟩ := List.getElem?_eq_some_iff.mp h
  have hlt : i < 9 := hi
  revert i
  cases kind <;> decide

theorem load_timeUsTotal_iff {i : Nat} {counter : Counter} (h : sampleLoads[i]? = some counter) :
    kind.timeUsTotal = counter ↔ i = kind.timeAt := by
  obtain ⟨hi, rfl⟩ := List.getElem?_eq_some_iff.mp h
  have hlt : i < 9 := hi
  revert i
  cases kind <;> decide

theorem frames_fetchAdd (counters : Counters) (event : SingleRecord) :
    event.fetchAdd counters kind.frames = counters kind.frames := by
  cases event <;> cases kind <;> rfl

theorem timeUsTotal_fetchAdd (counters : Counters) (event : SingleRecord) :
    event.fetchAdd counters kind.timeUsTotal = counters kind.timeUsTotal := by
  cases event <;> cases kind <;> rfl

end FrameKind

/-! ## Samples that are left alone -/

namespace MetricsState

/-- A call of `sample` has loaded the frames of this kind and not yet their time. -/
def BetweenLoads (s : MetricsState) (kind : FrameKind) : Prop :=
  ∃ call ∈ s.sampling, kind.framesAt < call.next ∧ call.next ≤ kind.timeAt

/-- No call of this kind is between its increments, and what was recorded since the last sample fits
in the counters. -/
structure Settled (s : MetricsState) (kind : FrameKind) : Prop where
  none_in_flight : ∀ call ∈ s.inFlight, call.1 ≠ kind
  frames_fit : (s.recorded kind).length - s.counted kind < 2 ^ 64
  micros_fit : totalMicros ((s.recorded kind).drop (s.counted kind)) < 2 ^ 64

/-- A sample that loads the frames of a kind finds them settled, and no increment of that kind comes
before it has loaded their time. -/
def Undisturbed (s : MetricsState) : Step → Prop
  | .countFrame kind _ => ¬ s.BetweenLoads kind
  | .addTime i => ∀ call ∈ s.inFlight[i]?, ¬ s.BetweenLoads call.1
  | .load => ∀ call ∈ s.sampling, ∀ kind : FrameKind, call.next = kind.framesAt → s.Settled kind
  | _ => True

/-! ## The invariant -/

/-- The counters of a kind and the values kept by the last sample, in terms of what was recorded. -/
structure Tallied (kind : FrameKind) (s : MetricsState) : Prop where
  frames : s.counters kind.frames = UInt64.ofNat (s.recorded kind).length
  time : s.counters kind.timeUsTotal + UInt64.ofNat (pendingMicros kind s.inFlight) =
    UInt64.ofNat (totalMicros (s.recorded kind))
  counted_le : s.counted kind ≤ (s.recorded kind).length
  lastFrames : kind.lastFrames s.last = UInt64.ofNat (s.counted kind)
  lastTime : kind.lastTimeUsTotal s.last =
    UInt64.ofNat (totalMicros ((s.recorded kind).take (s.counted kind)))

/-- What a call of `sample` has loaded so far. -/
structure LoadedRight (kind : FrameKind) (s : MetricsState) (call : Sampling) : Prop where
  frames : kind.framesAt < call.next →
    call.loaded kind.frames = UInt64.ofNat (call.seen kind) ∧
      s.counted kind ≤ call.seen kind ∧ call.seen kind ≤ (s.recorded kind).length ∧
      call.seen kind - s.counted kind < 2 ^ 64 ∧
      totalMicros (((s.recorded kind).take (call.seen kind)).drop (s.counted kind)) < 2 ^ 64
  quiet : kind.framesAt < call.next → call.next ≤ kind.timeAt →
    call.seen kind = (s.recorded kind).length ∧ ∀ c ∈ s.inFlight, c.1 ≠ kind
  time : kind.timeAt < call.next →
    call.loaded kind.timeUsTotal =
      UInt64.ofNat (totalMicros ((s.recorded kind).take (call.seen kind)))

structure Consistent (kind : FrameKind) (s : MetricsState) : Prop where
  tallied : s.Tallied kind
  loaded : ∀ call, s.sampling = some call → s.LoadedRight kind call

section Steps

variable {sys : SystemConstants} {kind : FrameKind} {s t : MetricsState}

/-- A call of the same kind: what has been counted of the records stays. -/
theorem Consistent.countFrame_self (h : s.Consistent kind) (time : FrameTime)
    (hquiet : ¬ s.BetweenLoads kind) : (s.countFrame kind time).Consistent kind := by
  have htake {n : Nat} (hn : n ≤ (s.recorded kind).length) :
      (s.recorded kind ++ [time]).take n = (s.recorded kind).take n :=
    List.take_append_of_le_length hn
  constructor
  case tallied =>
    constructor
    case frames => simp [MetricsState.countFrame, Counters.fetchAdd, h.tallied.frames]
    case time =>
      have htime := h.tallied.time
      simp only [MetricsState.countFrame, Counters.fetchAdd, (kind.frames_ne_timeUsTotal kind).symm,
        if_false, if_true, pendingMicros_append, totalMicros_append, UInt64.ofNat_add, ← htime]
      simp [totalMicros, add_assoc]
    case counted_le =>
      simpa [MetricsState.countFrame] using Nat.le_succ_of_le h.tallied.counted_le
    case lastFrames => exact h.tallied.lastFrames
    case lastTime =>
      simp only [MetricsState.countFrame, if_true, htake h.tallied.counted_le]
      exact h.tallied.lastTime
  case loaded =>
    intro call hcall
    have hloaded := h.loaded call hcall
    constructor
    case frames =>
      intro hnext
      obtain ⟨hvalue, hle, hseen, hfits, hmicros⟩ := hloaded.frames hnext
      simp only [MetricsState.countFrame, if_true, htake hseen]
      refine ⟨hvalue, hle, ?_, hfits, hmicros⟩
      simpa using Nat.le_succ_of_le hseen
    case quiet =>
      intro hnext hle
      exact absurd ⟨call, hcall, hnext, hle⟩ hquiet
    case time =>
      intro hnext
      have hseen := (hloaded.frames (kind.framesAt_lt_timeAt.trans hnext)).2.2.1
      simp only [MetricsState.countFrame, if_true, htake hseen]
      exact hloaded.time hnext

theorem Consistent.countFrame_other (h : s.Consistent kind) {k : FrameKind} (hk : k ≠ kind)
    (time : FrameTime) : (s.countFrame k time).Consistent kind := by
  have hkind : kind ≠ k := Ne.symm hk
  constructor
  case tallied =>
    constructor
    case frames =>
      simp only [MetricsState.countFrame, Counters.fetchAdd, FrameKind.frames_inj, hkind, if_false]
      exact h.tallied.frames
    case time =>
      simp only [MetricsState.countFrame, Counters.fetchAdd,
        (k.frames_ne_timeUsTotal kind).symm, if_false, pendingMicros_append, hk, hkind,
        Nat.add_zero]
      exact h.tallied.time
    case counted_le =>
      simp only [MetricsState.countFrame, hkind, if_false]
      exact h.tallied.counted_le
    case lastFrames => exact h.tallied.lastFrames
    case lastTime =>
      simp only [MetricsState.countFrame, hkind, if_false]
      exact h.tallied.lastTime
  case loaded =>
    intro call hcall
    have hloaded := h.loaded call hcall
    constructor
    case frames =>
      simp only [MetricsState.countFrame, hkind, if_false]
      exact hloaded.frames
    case quiet =>
      intro hnext hle
      obtain ⟨hseen, hnone⟩ := hloaded.quiet hnext hle
      simp only [MetricsState.countFrame, hkind, if_false]
      refine ⟨hseen, fun c hc => ?_⟩
      rcases List.mem_append.mp hc with hc | hc
      · exact hnone c hc
      · cases List.mem_singleton.mp hc
        exact hk
    case time =>
      simp only [MetricsState.countFrame, hkind, if_false]
      exact hloaded.time

theorem Consistent.countFrame (h : s.Consistent kind) {k : FrameKind} (time : FrameTime)
    (hquiet : ¬ s.BetweenLoads k) : (s.countFrame k time).Consistent kind := by
  by_cases hk : k = kind
  · subst hk
    exact h.countFrame_self time hquiet
  · exact h.countFrame_other hk time

theorem Consistent.addTime (h : s.Consistent kind) {i : Nat} {c : FrameKind × FrameTime}
    (hc : s.inFlight[i]? = some c) : (s.addTime i c).Consistent kind := by
  constructor
  case tallied =>
    constructor
    case frames =>
      simp only [MetricsState.addTime, Counters.fetchAdd, kind.frames_ne_timeUsTotal c.1, if_false]
      exact h.tallied.frames
    case time =>
      have htime := h.tallied.time
      rw [← pendingMicros_eraseIdx hc, UInt64.ofNat_add] at htime
      simp only [MetricsState.addTime, Counters.fetchAdd, FrameKind.timeUsTotal_inj]
      by_cases hk : c.1 = kind
      · simp only [hk, if_true] at htime ⊢
        rw [← htime, add_assoc, add_comm (UInt64.ofNat c.2.micros)]
      · simp only [hk, Ne.symm hk, if_false] at htime ⊢
        simpa using htime
    case counted_le => exact h.tallied.counted_le
    case lastFrames => exact h.tallied.lastFrames
    case lastTime => exact h.tallied.lastTime
  case loaded =>
    intro call hcall
    have hloaded := h.loaded call hcall
    constructor
    case frames => exact hloaded.frames
    case quiet =>
      intro hnext hle
      obtain ⟨hseen, hnone⟩ := hloaded.quiet hnext hle
      exact ⟨hseen, fun c hc => hnone c (List.mem_of_mem_eraseIdx hc)⟩
    case time => exact hloaded.time

theorem Consistent.load (h : s.Consistent kind) {call : Sampling} {counter : Counter}
    (hcall : s.sampling = some call) (hcounter : sampleLoads[call.next]? = some counter)
    (hsettled : call.next = kind.framesAt → s.Settled kind) :
    (s.load call counter).Consistent kind := by
  have hloaded := h.loaded call hcall
  have hlt := kind.framesAt_lt_timeAt
  refine ⟨⟨h.tallied.frames, h.tallied.time, h.tallied.counted_le, h.tallied.lastFrames,
    h.tallied.lastTime⟩, ?_⟩
  rintro next hnext
  cases hnext
  constructor
  case frames =>
    intro hafter
    by_cases hhere : call.next = kind.framesAt
    · have hfresh := hsettled hhere
      simp only [(FrameKind.load_frames_iff hcounter).mpr hhere, if_true, load_recorded,
        load_counted, List.take_length]
      exact ⟨((FrameKind.load_frames_iff hcounter).mpr hhere) ▸ h.tallied.frames,
        h.tallied.counted_le, Nat.le_refl _, hfresh.frames_fit, hfresh.micros_fit⟩
    · have hbefore : kind.framesAt < call.next := by
        have hle : kind.framesAt ≤ call.next := Nat.lt_succ_iff.mp hafter
        omega
      simp only [mt (FrameKind.load_frames_iff hcounter).mp hhere, if_false]
      exact hloaded.frames hbefore
  case quiet =>
    intro hafter hle
    by_cases hhere : call.next = kind.framesAt
    · simp only [(FrameKind.load_frames_iff hcounter).mpr hhere, if_true, load_recorded]
      exact ⟨trivial, (hsettled hhere).none_in_flight⟩
    · have hafter' : kind.framesAt ≤ call.next := Nat.lt_succ_iff.mp hafter
      have hle' : call.next + 1 ≤ kind.timeAt := hle
      simp only [mt (FrameKind.load_frames_iff hcounter).mp hhere, if_false]
      exact hloaded.quiet (by omega) (by omega)
  case time =>
    intro hafter
    have hafter' : kind.timeAt ≤ call.next := Nat.lt_succ_iff.mp hafter
    have hpast : call.next ≠ kind.framesAt := by omega
    simp only [mt (FrameKind.load_frames_iff hcounter).mp hpast, if_false]
    by_cases hhere : call.next = kind.timeAt
    · obtain ⟨hseen, hnone⟩ := hloaded.quiet (by omega) (by omega)
      have htime := h.tallied.time
      rw [pendingMicros_none hnone] at htime
      simp only [(FrameKind.load_timeUsTotal_iff hcounter).mpr hhere, if_true, load_recorded, hseen,
        List.take_length]
      rw [← htime, ← (FrameKind.load_timeUsTotal_iff hcounter).mpr hhere]
      exact (add_zero _).symm
    · simp only [mt (FrameKind.load_timeUsTotal_iff hcounter).mp hhere, if_false]
      exact hloaded.time (by omega)

theorem Consistent.startSample (h : s.Consistent kind) (timestampUs : UInt64) :
    (s.startSample timestampUs).Consistent kind := by
  refine ⟨⟨h.tallied.frames, h.tallied.time, h.tallied.counted_le, h.tallied.lastFrames,
    h.tallied.lastTime⟩, ?_⟩
  rintro call hcall
  cases hcall
  exact ⟨nofun, nofun, nofun⟩

theorem Consistent.record (h : s.Consistent kind) (event : SingleRecord) :
    ({ s with counters := event.fetchAdd s.counters } : MetricsState).Consistent kind := by
  refine ⟨⟨?_, ?_, h.tallied.counted_le, h.tallied.lastFrames, h.tallied.lastTime⟩, ?_⟩
  · exact (FrameKind.frames_fetchAdd s.counters event).trans h.tallied.frames
  · simp only [FrameKind.timeUsTotal_fetchAdd]
    exact h.tallied.time
  · intro call hcall
    have hloaded := h.loaded call hcall
    exact ⟨hloaded.frames, hloaded.quiet, hloaded.time⟩

theorem Consistent.finishSample (h : s.Consistent kind) {call : Sampling}
    (hcall : s.sampling = some call) (hdone : call.next = sampleLoads.length) (proc : ProcSample) :
    (s.finishSample sys call proc).Consistent kind := by
  have htimeAt := kind.timeAt_lt
  have hlt := kind.framesAt_lt_timeAt
  have hloaded := h.loaded call hcall
  obtain ⟨hframes, -, hseen, -, -⟩ := hloaded.frames (by omega)
  have htime := hloaded.time (by omega)
  refine ⟨⟨h.tallied.frames, h.tallied.time, hseen, ?_, ?_⟩, nofun⟩
  · cases kind <;> exact hframes
  · cases kind <;> exact htime

theorem consistent_init (now : UInt64) (proc : ProcSample) : (init now proc).Consistent kind := by
  refine ⟨⟨rfl, rfl, Nat.le_refl _, ?_, ?_⟩, nofun⟩
  · cases kind <;> rfl
  · cases kind <;> rfl

/-- One step keeps the invariant, if it disturbs no sample. -/
theorem Consistent.step (h : s.Consistent kind) {a : Step} (hok : s.Undisturbed a)
    (hstep : s.step sys a = some t) : t.Consistent kind := by
  cases a with
  | countFrame k time =>
    cases hstep
    exact h.countFrame time hok
  | addTime i =>
    obtain ⟨c, hc, rfl⟩ := Option.map_eq_some_iff.mp hstep
    exact h.addTime hc
  | record event =>
    cases hstep
    exact h.record event
  | startSample timestampUs =>
    simp only [MetricsState.step] at hstep
    split at hstep
    · cases hstep
      exact h.startSample timestampUs
    · cases hstep
  | load =>
    obtain ⟨call, hcall, hstep⟩ := Option.bind_eq_some_iff.mp hstep
    obtain ⟨counter, hcounter, rfl⟩ := Option.map_eq_some_iff.mp hstep
    exact h.load hcall hcounter (hok call hcall kind)
  | finishSample proc =>
    obtain ⟨call, hcall, hstep⟩ := Option.bind_eq_some_iff.mp hstep
    split at hstep
    · rename_i hdone
      cases hstep
      exact h.finishSample hcall hdone proc
    · cases hstep

end Steps

end MetricsState

/-! ## The averages -/

theorem toNat_sub_ofNat {a b : Nat} (hle : b ≤ a) (hfits : a - b < 2 ^ 64) :
    (UInt64.ofNat a - UInt64.ofNat b).toNat = a - b := by
  have hsplit : UInt64.ofNat a = UInt64.ofNat (a - b) + UInt64.ofNat b := by
    rw [← UInt64.ofNat_add, Nat.sub_add_cancel hle]
  rw [hsplit, add_sub_cancel_right, UInt64.toNat_ofNat_of_lt' hfits]

/-- An average times its frames is the time since the last sample. -/
theorem averageMs_mul {time lastTime frames lastFrames : Nat} (htime : lastTime ≤ time)
    (htimeFits : time - lastTime < 2 ^ 64) (hframes : lastFrames ≤ frames)
    (hframesFit : frames - lastFrames < 2 ^ 64) (hnone : frames = lastFrames → time = lastTime) :
    averageMs .exact (UInt64.ofNat time) (UInt64.ofNat lastTime) (UInt64.ofNat frames)
        (UInt64.ofNat lastFrames) * 1000 * (frames - lastFrames : Nat) = (time - lastTime : Nat) := by
  simp only [averageMs, Rounding.exact_apply, UInt64.lt_iff_toNat_lt,
    toNat_sub_ofNat hframes hframesFit, toNat_sub_ofNat htime htimeFits, UInt64.toNat_zero]
  by_cases hpos : 0 < frames - lastFrames
  · have hne : ((frames - lastFrames : Nat) : Rat) ≠ 0 := by exact_mod_cast hpos.ne'
    rw [if_pos hpos]
    field_simp
  · have hsame : frames = lastFrames := by omega
    simp [hsame, hnone hsame]

/-- A total lies between the smallest and the largest time, taken for each frame. -/
theorem totalMicros_between {times : List FrameTime} (h : times ≠ []) :
    (∃ shortest ∈ times, shortest.micros * times.length ≤ totalMicros times) ∧
      ∃ longest ∈ times, totalMicros times ≤ longest.micros * times.length := by
  have hconst : (times.map fun _ => totalMicros times).sum = totalMicros times * times.length := by
    simp [Nat.mul_comm]
  have hscaled : (times.map fun time => time.micros * times.length).sum =
      totalMicros times * times.length := List.sum_map_mul_right _ _ _
  constructor
  · exact List.exists_le_of_sum_le h _ _ (hscaled.trans hconst.symm).le
  · exact List.exists_le_of_sum_le h _ _ (hconst.trans hscaled.symm).le

/-- So does their mean. -/
theorem mean_between {times : List FrameTime} (h : times ≠ []) {mean : Rat}
    (hmean : mean * times.length = totalMicros times) :
    (∃ shortest ∈ times, (shortest.micros : Rat) ≤ mean) ∧
      ∃ longest ∈ times, mean ≤ longest.micros := by
  have hpos : (0 : Rat) < times.length := by exact_mod_cast List.length_pos_of_ne_nil h
  obtain ⟨⟨shortest, hshortest, hlow⟩, longest, hlongest, hhigh⟩ := totalMicros_between h
  have hlow' : (shortest.micros : Rat) * times.length ≤ totalMicros times := by exact_mod_cast hlow
  have hhigh' : (totalMicros times : Rat) ≤ longest.micros * times.length := by
    exact_mod_cast hhigh
  rw [← hmean] at hlow' hhigh'
  exact ⟨⟨shortest, hshortest, le_of_mul_le_mul_right hlow' hpos⟩,
    longest, hlongest, le_of_mul_le_mul_right hhigh' hpos⟩

namespace MetricsState

/-- The averages of one kind that the samples have reported so far. -/
structure AveragesRight (kind : FrameKind) (s : MetricsState) : Prop where
  /-- An average lies between two of the times recorded so far, in whole microseconds. -/
  between : ∀ entry ∈ s.samples, 0 < entry.framesDelta kind →
    (∃ shortest ∈ entry.soFar kind, (shortest.micros : Rat) ≤ kind.average entry.snapshot * 1000) ∧
      ∃ longest ∈ entry.soFar kind, kind.average entry.snapshot * 1000 ≤ longest.micros
  /-- An average times the frames of its sample is the time of these frames. -/
  own : ∀ entry ∈ s.samples, kind.average entry.snapshot * 1000 * (entry.framesDelta kind).toNat =
    totalMicros (entry.frames kind)
  /-- The frames of the samples are those recorded, in order, up to the last one counted. -/
  in_order : (s.samples.flatMap fun entry => entry.frames kind) =
    (s.recorded kind).take (s.counted kind)

/-- The averages of all samples stand for the time of all frames that they have counted. -/
theorem AveragesRight.total {kind : FrameKind} {s : MetricsState} (h : s.AveragesRight kind) :
    (s.samples.map fun entry =>
        kind.average entry.snapshot * (entry.framesDelta kind).toNat).sum * 1000 =
      totalMicros ((s.recorded kind).take (s.counted kind)) := by
  have hsamples : ∀ entries : List SampleEntry,
      (∀ entry ∈ entries, kind.average entry.snapshot * 1000 * (entry.framesDelta kind).toNat =
        totalMicros (entry.frames kind)) →
      (entries.map fun entry =>
          kind.average entry.snapshot * (entry.framesDelta kind).toNat).sum * 1000 =
        totalMicros (entries.flatMap fun entry => entry.frames kind) := by
    intro entries hown
    induction entries with
    | nil => simp [totalMicros]
    | cons entry entries ih =>
      obtain ⟨hentry, hrest⟩ := List.forall_mem_cons.mp hown
      rw [List.map_cons, List.sum_cons, List.flatMap_cons, totalMicros_append, Nat.cast_add,
        ← hentry, ← ih hrest]
      ring
  rw [hsamples s.samples h.own, h.in_order]

section Steps

variable {sys : SystemConstants} {kind : FrameKind} {s t : MetricsState}

/-- What is recorded later does not change the frames that were counted. -/
theorem AveragesRight.mono (h : s.AveragesRight kind) (hsamples : t.samples = s.samples)
    (hcounted : t.counted = s.counted)
    (hrecorded : (t.recorded kind).take (s.counted kind) = (s.recorded kind).take (s.counted kind)) :
    t.AveragesRight kind := by
  refine ⟨?_, ?_, ?_⟩
  · rw [hsamples]
    exact h.between
  · rw [hsamples]
    exact h.own
  · rw [hsamples, hcounted, hrecorded]
    exact h.in_order

theorem average_sample (call : Sampling) (proc : ProcSample) :
    kind.average (sample .exact sys s.last ⟨call.timestampUs, call.loaded, proc⟩).1 =
      averageMs .exact (call.loaded kind.timeUsTotal) (kind.lastTimeUsTotal s.last)
        (call.loaded kind.frames) (kind.lastFrames s.last) := by
  cases kind <;> rfl

theorem AveragesRight.finishSample (h : s.AveragesRight kind) (hcons : s.Consistent kind)
    {call : Sampling} (hcall : s.sampling = some call) (hdone : call.next = sampleLoads.length)
    (proc : ProcSample) : (s.finishSample sys call proc).AveragesRight kind := by
  have htimeAt := kind.timeAt_lt
  have hlt := kind.framesAt_lt_timeAt
  have hloaded := hcons.loaded call hcall
  obtain ⟨hframes, hle, hseen, hfits, hmicros⟩ := hloaded.frames (by omega)
  have htime := hloaded.time (by omega)
  let counted := s.counted kind
  let seen := call.seen kind
  let own := ((s.recorded kind).take seen).drop counted
  have hlength : own.length = seen - counted := by
    rw [List.length_drop, List.length_take, Nat.min_eq_left hseen]
  have hsplit : (s.recorded kind).take counted ++ own = (s.recorded kind).take seen := by
    have hprefix : ((s.recorded kind).take seen).take counted = (s.recorded kind).take counted := by
      rw [List.take_take, Nat.min_eq_left hle]
    rw [← hprefix, List.take_append_drop]
  have htotal : totalMicros ((s.recorded kind).take seen) =
      totalMicros ((s.recorded kind).take counted) + totalMicros own := by
    rw [← hsplit, totalMicros_append]
  have hdelta : (call.loaded kind.frames - kind.lastFrames s.last).toNat = own.length := by
    rw [hframes, hcons.tallied.lastFrames, toNat_sub_ofNat hle hfits, hlength]
  have haverage : kind.average (sample .exact sys s.last ⟨call.timestampUs, call.loaded, proc⟩).1 * 1000 *
      (own.length : Nat) = totalMicros own := by
    rw [average_sample, hframes, htime, hcons.tallied.lastFrames, hcons.tallied.lastTime, hlength]
    have hownFits : totalMicros own < 2 ^ 64 := hmicros
    have hown : totalMicros own = totalMicros ((s.recorded kind).take seen) -
        totalMicros ((s.recorded kind).take counted) := by omega
    rw [hown] at hownFits ⊢
    refine averageMs_mul (htotal ▸ Nat.le_add_right _ _) hownFits hle hfits fun hsame => ?_
    rw [hsame]
  constructor
  case between =>
    intro entry hentry hpos
    rcases List.mem_append.mp hentry with hentry | hentry
    · exact h.between entry hentry hpos
    · cases List.mem_singleton.mp hentry
      have hpos' : 0 < own.length := by
        rw [← hdelta]
        exact UInt64.lt_iff_toNat_lt.mp hpos
      have hsub : ∀ time ∈ own, time ∈ s.recorded kind := fun time htime =>
        List.mem_of_mem_take (List.mem_of_mem_drop htime)
      obtain ⟨⟨shortest, hshortest, hlow⟩, longest, hlongest, hhigh⟩ :=
        mean_between (List.ne_nil_of_length_pos hpos') haverage
      exact ⟨⟨shortest, hsub shortest hshortest, hlow⟩, longest, hsub longest hlongest, hhigh⟩
  case own =>
    intro entry hentry
    rcases List.mem_append.mp hentry with hentry | hentry
    · exact h.own entry hentry
    · cases List.mem_singleton.mp hentry
      simp only [hdelta]
      exact haverage
  case in_order =>
    simp only [MetricsState.finishSample, List.flatMap_append, h.in_order, List.flatMap_singleton]
    exact hsplit

theorem averagesRight_init (now : UInt64) (proc : ProcSample) :
    (init now proc).AveragesRight kind := by
  have hnone : ∀ entry, entry ∉ (init now proc).samples := fun entry => List.not_mem_nil
  exact ⟨fun entry h => absurd h (hnone entry), fun entry h => absurd h (hnone entry), rfl⟩

theorem AveragesRight.step (h : s.AveragesRight kind) (hcons : s.Consistent kind) {a : Step}
    (hstep : s.step sys a = some t) : t.AveragesRight kind := by
  cases a with
  | countFrame k time =>
    cases hstep
    refine h.mono rfl rfl ?_
    simp only [MetricsState.countFrame]
    split
    · rename_i hk
      rw [List.take_append_of_le_length (hcons.tallied.counted_le)]
    · rfl
  | addTime i =>
    obtain ⟨c, hc, rfl⟩ := Option.map_eq_some_iff.mp hstep
    exact h.mono rfl rfl rfl
  | record event =>
    cases hstep
    exact h.mono rfl rfl rfl
  | startSample timestampUs =>
    simp only [MetricsState.step] at hstep
    split at hstep
    · cases hstep
      exact h.mono rfl rfl rfl
    · cases hstep
  | load =>
    obtain ⟨call, hcall, hstep⟩ := Option.bind_eq_some_iff.mp hstep
    obtain ⟨counter, hcounter, rfl⟩ := Option.map_eq_some_iff.mp hstep
    exact h.mono rfl rfl rfl
  | finishSample proc =>
    obtain ⟨call, hcall, hstep⟩ := Option.bind_eq_some_iff.mp hstep
    split at hstep
    · rename_i hdone
      cases hstep
      exact h.finishSample hcons hcall hdone proc
    · cases hstep

end Steps

/-- **Reported averages are averages**, in every run whose samples are left alone: each lies between
two frame times recorded so far, and together with their frames they stand for the time of the
frames counted, no frame's time lost or moved to another sample. -/
theorem averages_right (sys : SystemConstants) (now : UInt64) (proc : ProcSample) {s : MetricsState}
    (h : Reaches (fun s a => s.step sys a) Undisturbed (init now proc) s) (kind : FrameKind) :
    s.AveragesRight kind ∧
      (s.samples.map fun entry =>
          kind.average entry.snapshot * (entry.framesDelta kind).toNat).sum * 1000 =
        totalMicros ((s.recorded kind).take (s.counted kind)) := by
  have hinv : s.Consistent kind ∧ s.AveragesRight kind := by
    refine h.invariant (I := fun s => s.Consistent kind ∧ s.AveragesRight kind) ?_ ?_
    · exact ⟨consistent_init now proc, averagesRight_init now proc⟩
    · rintro s a t ⟨hcons, hright⟩ hok hstep
      exact ⟨hcons.step hok hstep, hright.step hcons hstep⟩
  exact ⟨hinv.2, hinv.2.total⟩

/-! ## Two runs -/

section Decidability

variable (s : MetricsState)

instance (kind : FrameKind) : Decidable (s.BetweenLoads kind) :=
  inferInstanceAs (Decidable (∃ call ∈ s.sampling, _))

instance (kind : FrameKind) : Decidable (s.Settled kind) :=
  decidable_of_iff
    ((∀ call ∈ s.inFlight, call.1 ≠ kind) ∧
      (s.recorded kind).length - s.counted kind < 2 ^ 64 ∧
      totalMicros ((s.recorded kind).drop (s.counted kind)) < 2 ^ 64)
    ⟨fun h => ⟨h.1, h.2.1, h.2.2⟩,
      fun h => ⟨h.none_in_flight, h.frames_fit, h.micros_fit⟩⟩

instance (P : FrameKind → Prop) [∀ kind, Decidable (P kind)] : Decidable (∀ kind, P kind) :=
  decidable_of_iff (P .encode ∧ P .ai)
    ⟨fun h kind => by cases kind <;> [exact h.1; exact h.2], fun h => ⟨h _, h _⟩⟩

instance : (a : Step) → Decidable (s.Undisturbed a)
  | .countFrame kind _ => inferInstanceAs (Decidable (¬ s.BetweenLoads kind))
  | .addTime i => inferInstanceAs (Decidable (∀ call ∈ s.inFlight[i]?, ¬ s.BetweenLoads call.1))
  | .load =>
    inferInstanceAs (Decidable (∀ call ∈ s.sampling, ∀ kind : FrameKind,
      call.next = kind.framesAt → s.Settled kind))
  | .record _ => .isTrue trivial
  | .startSample _ => .isTrue trivial
  | .finishSample _ => .isTrue trivial

end Decidability

def fortyMs : FrameTime := ⟨40, by decide +kernel, by decide +kernel⟩

def twentyMs : FrameTime := ⟨20, by decide +kernel, by decide +kernel⟩

/-- A call of `sample` from its clock to its end, with nothing in between. -/
def wholeSample (timestampUs : UInt64) : List Step :=
  [.startSample timestampUs, .load, .load, .load, .load, .load, .load, .load, .load, .load,
    .finishSample ⟨0, 0, 0, false⟩]

theorem averages_right_two_samples :
    ∃ s, Reaches (fun s a => step s ⟨4096, 4⟩ a) Undisturbed (init 0 ⟨0, 0, 0, false⟩) s ∧
      (s.samples.map fun entry =>
        (FrameKind.encode.average entry.snapshot, entry.framesDelta .encode)) = [(30, 2), (40, 1)] ∧
      s.AveragesRight .encode := by
  have hlabels : (runLabels (fun s a => step s ⟨4096, 4⟩ a) Undisturbed (init 0 ⟨0, 0, 0, false⟩)
      ([.countFrame .encode fortyMs, .countFrame .encode twentyMs, .addTime 1, .addTime 0] ++
        wholeSample 1000000 ++ [.countFrame .encode fortyMs, .addTime 0] ++
        wholeSample 2000000)).map (fun s => s.samples.map fun entry =>
          (FrameKind.encode.average entry.snapshot, entry.framesDelta .encode)) =
      some [(30, 2), (40, 1)] := by
    decide +kernel
  obtain ⟨s, hrun, hsamples⟩ := Reaches.exists_of_runLabels hlabels
  exact ⟨s, hrun, hsamples, (averages_right ⟨4096, 4⟩ 0 ⟨0, 0, 0, false⟩ hrun .encode).1⟩

/-- A sample between the two increments of a call reports an average of zero for one frame. The next
one sees the time of that frame and no frame, and drops it. -/
theorem frame_without_its_time :
    ∃ s, Reaches (fun s a => step s ⟨4096, 4⟩ a) anyStep (init 0 ⟨0, 0, 0, false⟩) s ∧
      (s.samples.map fun entry =>
        (FrameKind.encode.average entry.snapshot, entry.framesDelta .encode)) = [(0, 1), (0, 0)] ∧
      (s.recorded .encode).map FrameTime.micros = [40000] ∧ ¬ s.AveragesRight .encode := by
  have hlabels : (runLabels (fun s a => step s ⟨4096, 4⟩ a) anyStep (init 0 ⟨0, 0, 0, false⟩)
      ([.countFrame .encode fortyMs] ++ wholeSample 1000000 ++ [.addTime 0] ++
        wholeSample 2000000)).map (fun s =>
          (s.samples.map (fun entry =>
            (FrameKind.encode.average entry.snapshot, entry.framesDelta .encode,
              (entry.frames .encode).map FrameTime.micros)),
            (s.recorded .encode).map FrameTime.micros)) =
      some ([(0, 1, [40000]), (0, 0, [])], [40000]) := by
    decide +kernel
  obtain ⟨s, hrun, hseen⟩ := Reaches.exists_of_runLabels hlabels
  obtain ⟨hsamples, hrecorded⟩ := Prod.mk.injEq .. ▸ hseen
  refine ⟨s, hrun, ?_, hrecorded, fun hright => ?_⟩
  · have hpairs := congrArg (List.map fun (seen : Rat × UInt64 × List Nat) => (seen.1, seen.2.1))
      hsamples
    rw [List.map_map] at hpairs
    exact hpairs
  · obtain ⟨entry, hentry, hvalues⟩ : ∃ entry ∈ s.samples,
        (FrameKind.encode.average entry.snapshot, entry.framesDelta .encode,
          (entry.frames .encode).map FrameTime.micros) = (0, 1, [40000]) := by
      apply List.mem_map.mp
      rw [hsamples]
      exact List.mem_cons_self
    simp only [Prod.mk.injEq] at hvalues
    obtain ⟨haverage, -, hframes⟩ := hvalues
    have hown := hright.own entry hentry
    rw [haverage, totalMicros, hframes, zero_mul, zero_mul] at hown
    exact absurd hown (by decide +kernel)

end MetricsState

end EdgeVision
