import EdgeVision.Lib.Halting

/-!
# Monitors

An object whose methods run under one mutex, with one condition variable: methods that change its
state and notify one waiter or all of them, and a method that waits until it can go on. Threads call
the methods as they like. A step is an acquisition or a release of the mutex, what a method does
under it, a notification, or a wake-up of its own accord.

The calls take effect one after the other (`Sequential`), so that each method may be taken as one
step. No wake-up is lost: once the calls that are under way have come to rest, which takes them no
more than a bounded number of steps, a thread that still sleeps could not go on
(`Kept.asleep`, `Kept.comes_to_rest`). It is for this that the methods that notify only one waiter
must let at most one more wait go on (`OneMore`).
-/

namespace EdgeVision.Lib

/-- The methods of an object: `take` waits where it returns none. -/
structure Monitor (σ A R : Type) where
  update : A → σ → R × σ
  notifiesAll : A → Bool
  take : σ → Option (R × σ)

namespace Monitor

variable {σ A R : Type}

inductive Call (A : Type) where
  | update (a : A)
  | take
  deriving DecidableEq, Repr

/-- Where a thread stands; `notifying` and `leaving` have something to return. -/
inductive Place (A R : Type) where
  | outside
  | entering (call : Call A)
  | inside (call : Call A)
  | notifying (all : Bool) (r : R)
  | leaving (r : R)
  | asleep
  | woken
  deriving DecidableEq, Repr

namespace Place

/-- The thread has the mutex. -/
def holds : Place A R → Bool
  | inside _ | notifying _ _ | leaving _ => true
  | outside | entering _ | asleep | woken => false

def isAsleep : Place A R → Bool
  | asleep => true
  | outside | entering _ | inside _ | notifying _ _ | leaving _ | woken => false

/-- The call has not come to rest. -/
def underway : Place A R → Bool
  | outside | asleep => false
  | entering _ | inside _ | notifying _ _ | leaving _ | woken => true

/-- A waiter looks again, or is about to be notified. -/
def looks : Place A R → Bool
  | woken | inside .take | notifying false _ => true
  | outside | entering _ | inside (.update _) | notifying true _ | leaving _ | asleep => false

def wake : Place A R → Place A R
  | asleep => woken
  | place => place

end Place

structure State (σ A R : Type) where
  data : σ
  threads : List (Place A R)
  /-- The calls that have taken effect, with what they return. -/
  calls : List (Call A × R)
  deriving DecidableEq, Repr

inductive Label (A : Type) where
  | call (i : Nat) (call : Call A)
  | lock (i : Nat)
  | run (i : Nat)
  /-- The waiter that is notified, if only one is and there is any. -/
  | notify (i : Nat) (waiter : Option Nat)
  | unlock (i : Nat)
  | spurious (i : Nat)
  deriving DecidableEq, Repr

namespace State

def initial (data : σ) (threads : Nat) : State σ A R := ⟨data, List.replicate threads .outside, []⟩

variable (m : Monitor σ A R) (s : State σ A R)

def put (i : Nat) (place : Place A R) : State σ A R := { s with threads := s.threads.set i place }

def lock (i : Nat) : Option (State σ A R) :=
  if s.threads.any Place.holds then none
  else
    match s.threads[i]? with
    | some (.entering call) => some (s.put i (.inside call))
    | some .woken => some (s.put i (.inside .take))
    | _ => none

/-- What a method does under the mutex; a wait that cannot go on gives the mutex up. -/
def run (i : Nat) : Option (State σ A R) :=
  match s.threads[i]? with
  | some (.inside (.update a)) =>
    some
      { data := (m.update a s.data).2
        threads := s.threads.set i (.notifying (m.notifiesAll a) (m.update a s.data).1)
        calls := s.calls ++ [(.update a, (m.update a s.data).1)] }
  | some (.inside .take) =>
    match m.take s.data with
    | none => some (s.put i .asleep)
    | some (r, data) =>
      some
        { data := data
          threads := s.threads.set i (.leaving r)
          calls := s.calls ++ [(.take, r)] }
  | _ => none

def notify (i : Nat) (waiter : Option Nat) : Option (State σ A R) :=
  match s.threads[i]? with
  | some (.notifying true r) =>
    some { s with threads := (s.threads.map Place.wake).set i (.leaving r) }
  | some (.notifying false r) =>
    match waiter with
    | none => if s.threads.any Place.isAsleep then none else some (s.put i (.leaving r))
    | some j =>
      match s.threads[j]? with
      | some .asleep => some ((s.put j .woken).put i (.leaving r))
      | _ => none
  | _ => none

def step : Label A → Option (State σ A R)
  | .call i call =>
    match s.threads[i]? with
    | some .outside => some (s.put i (.entering call))
    | _ => none
  | .lock i => s.lock i
  | .run i => s.run m i
  | .notify i waiter => s.notify i waiter
  | .unlock i =>
    match s.threads[i]? with
    | some (.leaving _) => some (s.put i .outside)
    | _ => none
  | .spurious i =>
    match s.threads[i]? with
    | some .asleep => some (s.put i .woken)
    | _ => none

end State

/-- The steps of the calls that are under way. -/
def inCalls (_ : State σ A R) : Label A → Prop
  | .lock _ | .run _ | .notify _ _ | .unlock _ => True
  | .call _ _ | .spurious _ => False

/-! ## What a step does -/

variable {m : Monitor σ A R} {s t : State σ A R} {a : Label A}

/-- The steps, one by one. -/
inductive Acts (m : Monitor σ A R) (s : State σ A R) : Label A → State σ A R → Prop where
  | call {i : Nat} {call : Call A} (h : s.threads[i]? = some .outside) :
      Acts m s (.call i call) (s.put i (.entering call))
  | lock {i : Nat} {call : Call A} (hfree : ∀ p ∈ s.threads, p.holds = false)
      (h : s.threads[i]? = some (.entering call)) : Acts m s (.lock i) (s.put i (.inside call))
  | relock {i : Nat} (hfree : ∀ p ∈ s.threads, p.holds = false)
      (h : s.threads[i]? = some .woken) : Acts m s (.lock i) (s.put i (.inside .take))
  | update {i : Nat} {a : A} (h : s.threads[i]? = some (.inside (.update a))) :
      Acts m s (.run i)
        { data := (m.update a s.data).2
          threads := s.threads.set i (.notifying (m.notifiesAll a) (m.update a s.data).1)
          calls := s.calls ++ [(.update a, (m.update a s.data).1)] }
  | wait {i : Nat} (h : s.threads[i]? = some (.inside .take)) (hnone : m.take s.data = none) :
      Acts m s (.run i) (s.put i .asleep)
  | take {i : Nat} {r : R} {data : σ} (h : s.threads[i]? = some (.inside .take))
      (htake : m.take s.data = some (r, data)) :
      Acts m s (.run i)
        { data := data
          threads := s.threads.set i (.leaving r)
          calls := s.calls ++ [(.take, r)] }
  | notifyAll {i : Nat} {waiter : Option Nat} {r : R}
      (h : s.threads[i]? = some (.notifying true r)) :
      Acts m s (.notify i waiter)
        { s with threads := (s.threads.map Place.wake).set i (.leaving r) }
  | notifyNone {i : Nat} {r : R} (h : s.threads[i]? = some (.notifying false r))
      (hnone : ∀ p ∈ s.threads, p.isAsleep = false) :
      Acts m s (.notify i none) (s.put i (.leaving r))
  | notifyOne {i j : Nat} {r : R} (h : s.threads[i]? = some (.notifying false r))
      (hj : s.threads[j]? = some .asleep) :
      Acts m s (.notify i (some j)) ((s.put j .woken).put i (.leaving r))
  | unlock {i : Nat} {r : R} (h : s.threads[i]? = some (.leaving r)) :
      Acts m s (.unlock i) (s.put i .outside)
  | spurious {i : Nat} (h : s.threads[i]? = some .asleep) :
      Acts m s (.spurious i) (s.put i .woken)

theorem acts_of_step (h : s.step m a = some t) : Acts m s a t := by
  cases a with
  | call i call =>
    simp only [State.step] at h
    split at h
    · exact Option.some.inj h ▸ .call ‹_›
    · cases h
  | lock i =>
    simp only [State.step, State.lock] at h
    split at h
    · cases h
    · rename_i hfree
      have hfree : ∀ p ∈ s.threads, p.holds = false := by simpa using hfree
      split at h
      · exact Option.some.inj h ▸ .lock hfree ‹_›
      · exact Option.some.inj h ▸ .relock hfree ‹_›
      · cases h
  | run i =>
    simp only [State.step, State.run] at h
    split at h
    · exact Option.some.inj h ▸ .update ‹_›
    · split at h
      · exact Option.some.inj h ▸ .wait ‹_› ‹_›
      · exact Option.some.inj h ▸ .take ‹_› ‹_›
    · cases h
  | notify i waiter =>
    simp only [State.step, State.notify] at h
    split at h
    · exact Option.some.inj h ▸ .notifyAll ‹_›
    · split at h
      · split at h
        · cases h
        · rename_i hnone
          exact Option.some.inj h ▸ .notifyNone ‹_› (by simpa using hnone)
      · split at h
        · exact Option.some.inj h ▸ .notifyOne ‹_› ‹_›
        · cases h
    · cases h
  | unlock i =>
    simp only [State.step] at h
    split at h
    · exact Option.some.inj h ▸ .unlock ‹_›
    · cases h
  | spurious i =>
    simp only [State.step] at h
    split at h
    · exact Option.some.inj h ▸ .spurious ‹_›
    · cases h

/-! ## Sums over the threads -/

def total (weight : Place A R → Nat) : List (Place A R) → Nat
  | [] => 0
  | place :: threads => weight place + total weight threads

section Total

variable {threads : List (Place A R)} {weight : Place A R → Nat}

theorem total_set (weight : Place A R → Nat) {i : Nat} {old : Place A R}
    (h : threads[i]? = some old) (new : Place A R) :
    total weight (threads.set i new) + weight old = total weight threads + weight new := by
  induction threads generalizing i with
  | nil => cases h
  | cons place threads ih =>
    cases i with
    | zero =>
      obtain rfl := Option.some.inj h
      simp only [total, List.set_cons_zero]
      omega
    | succ i =>
      have hrest := ih (List.getElem?_cons_succ ▸ h)
      simp only [total, List.set_cons_succ]
      omega

theorem total_eq_zero_iff :
    total weight threads = 0 ↔ ∀ place ∈ threads, weight place = 0 := by
  induction threads with
  | nil => simp [total]
  | cons place threads ih => simp [total, ih]

theorem total_pos {place : Place A R} (h : place ∈ threads) (hpos : 0 < weight place) :
    0 < total weight threads := by
  rw [Nat.pos_iff_ne_zero]
  intro hzero
  exact absurd (total_eq_zero_iff.mp hzero place h) (Nat.pos_iff_ne_zero.mp hpos)

/-- Waking everybody adds the weight of a waker for each that slept. -/
theorem total_wake (threads : List (Place A R)) {n : Nat}
    (hwake : ∀ p : Place A R, weight p.wake ≤ weight p + n) :
    total weight (threads.map Place.wake) ≤ total weight threads + n * threads.length := by
  induction threads with
  | nil => exact Nat.le_refl 0
  | cons place threads ih =>
    have hplace := hwake place
    simp only [total, List.map_cons, List.length_cons, Nat.mul_add]
    omega

theorem total_wake_eq (hwake : ∀ p : Place A R, weight p.wake = weight p) :
    total weight (threads.map Place.wake) = total weight threads := by
  induction threads with
  | nil => rfl
  | cons place threads ih => rw [List.map_cons, total, total, hwake, ih]

end Total

/-! ## The calls take effect one after the other -/

/-- Calls that are made one after the other, with what they return. -/
inductive Sequential (m : Monitor σ A R) : σ → List (Call A × R) → σ → Prop where
  | nil (s : σ) : Sequential m s [] s
  | update {s t : σ} {calls : List (Call A × R)} (h : Sequential m s calls t) (a : A) :
      Sequential m s (calls ++ [(.update a, (m.update a t).1)]) (m.update a t).2
  | take {s t u : σ} {calls : List (Call A × R)} {r : R} (h : Sequential m s calls t)
      (htake : m.take t = some (r, u)) : Sequential m s (calls ++ [(.take, r)]) u

/-- So many waits could go on, one after the other. -/
def Takes (m : Monitor σ A R) : Nat → σ → Prop
  | 0, _ => True
  | n + 1, s => ∃ r, m.take s = some r ∧ Takes m n r.2

theorem Takes.of_succ {n : Nat} {s : σ} (h : m.Takes (n + 1) s) : m.Takes n s := by
  induction n generalizing s with
  | zero => trivial
  | succ n ih =>
    obtain ⟨r, htake, hrest⟩ := h
    exact ⟨r, htake, ih hrest⟩

theorem Takes.of_le {n k : Nat} {s : σ} (h : m.Takes n s) (hle : k ≤ n) : m.Takes k s := by
  induction hle with
  | refl => exact h
  | step _ ih => exact ih h.of_succ

/-- A method that notifies only one waiter lets at most one more wait go on. -/
def OneMore (m : Monitor σ A R) : Prop :=
  ∀ a s n, m.notifiesAll a = false → m.Takes (n + 1) (m.update a s).2 → m.Takes n s

/-! ## What every state keeps -/

def holders (threads : List (Place A R)) : Nat := total (fun p => p.holds.toNat) threads

def sleepers (threads : List (Place A R)) : Nat := total (fun p => p.isAsleep.toNat) threads

def lookers (threads : List (Place A R)) : Nat := total (fun p => p.looks.toNat) threads

/-- Everybody who sleeps is about to be woken. -/
def AllNotified (threads : List (Place A R)) : Prop := ∃ r, .notifying true r ∈ threads

structure Kept (m : Monitor σ A R) (start : σ) (s : State σ A R) : Prop where
  exclusive : holders s.threads ≤ 1
  sequential : m.Sequential start s.calls s.data
  /-- While somebody sleeps, no more waits could go on than are looked after. -/
  awake : 0 < sleepers s.threads →
    AllNotified s.threads ∨ ¬ m.Takes (lookers s.threads + 1) s.data

theorem kept_initial (m : Monitor σ A R) (start : σ) (threads : Nat) :
    m.Kept start (.initial start threads) := by
  have hzero (weight : Place A R → Nat) (h : weight .outside = 0) :
      total weight (List.replicate threads .outside) = 0 :=
    total_eq_zero_iff.mpr fun p hp => List.eq_of_mem_replicate hp ▸ h
  constructor
  case exclusive => exact Nat.le_trans (Nat.le_of_eq (hzero _ rfl)) (Nat.zero_le 1)
  case sequential => exact .nil start
  case awake => exact fun h => absurd h (Nat.not_lt_of_le (Nat.le_of_eq (hzero _ rfl)))

/-- One thread moves on, without an end of its notifications. -/
theorem AllNotified.set {threads : List (Place A R)} {i : Nat} {old : Place A R}
    (h : AllNotified threads) (new : Place A R) (hold : threads[i]? = some old) (hne : ∀ r, old ≠ .notifying true r) :
    AllNotified (threads.set i new) := by
  obtain ⟨r, hr⟩ := h
  obtain ⟨j, hj⟩ := List.mem_iff_getElem?.mp hr
  refine ⟨r, List.mem_iff_getElem?.mpr ⟨j, ?_⟩⟩
  rw [List.getElem?_set_ne, hj]
  rintro rfl
  exact hne r (Option.some.inj (hold.symm.trans hj))

/-- A step of one thread that changes nothing but its place, and does not look away. -/
theorem Kept.put {start : σ} (h : m.Kept start s) {i : Nat} {old new : Place A R}
    (hold : s.threads[i]? = some old) (hne : ∀ r, old ≠ .notifying true r)
    (hholds : holders s.threads + new.holds.toNat ≤ 1 + old.holds.toNat)
    (hasleep : new.isAsleep.toNat ≤ old.isAsleep.toNat)
    (hlooks : old.looks.toNat ≤ new.looks.toNat) : m.Kept start (s.put i new) := by
  have hholders := total_set (fun p => p.holds.toNat) hold new
  have hsleepers := total_set (fun p => p.isAsleep.toNat) hold new
  have hlookers := total_set (fun p => p.looks.toNat) hold new
  constructor
  case exclusive =>
    simp only [holders, State.put] at hholds ⊢
    omega
  case sequential => exact h.sequential
  case awake =>
    intro hpos
    have hbefore : 0 < sleepers s.threads := by
      simp only [sleepers, State.put] at hpos ⊢
      omega
    rcases h.awake hbefore with hall | htakes
    · exact .inl (hall.set new hold hne)
    · refine .inr fun hmore => htakes (hmore.of_le ?_)
      simp only [lookers, State.put]
      omega

theorem Kept.update {start : σ} (h : m.Kept start s) {i : Nat} {a : A} {all : Bool}
    (hone : all = false → ∀ n, m.Takes (n + 1) (m.update a s.data).2 → m.Takes n s.data)
    (hold : s.threads[i]? = some (.inside (.update a))) : m.Kept start
      { data := (m.update a s.data).2
        threads := s.threads.set i (.notifying all (m.update a s.data).1)
        calls := s.calls ++ [(.update a, (m.update a s.data).1)] } := by
  let new : Place A R := .notifying all (m.update a s.data).1
  have hholders := total_set (fun p => p.holds.toNat) hold new
  have hsleepers := total_set (fun p => p.isAsleep.toNat) hold new
  constructor
  case exclusive =>
    refine Nat.le_trans (Nat.le_of_eq ?_) h.exclusive
    exact Nat.add_right_cancel hholders
  case sequential => exact .update h.sequential a
  case awake =>
    intro hpos
    cases all with
    | true =>
      have hlt : i < s.threads.length := (List.getElem?_eq_some_iff.mp hold).1
      exact .inl ⟨_, List.mem_set hlt _⟩
    | false =>
      have hbefore : 0 < sleepers s.threads := by
        have heq : sleepers (s.threads.set i new) = sleepers s.threads :=
          Nat.add_right_cancel hsleepers
        exact heq ▸ hpos
      rcases h.awake hbefore with hnotified | htakes
      · exact .inl (hnotified.set _ hold fun r hr => nomatch hr)
      · refine .inr fun htwo => htakes (hone rfl _ ?_)
        have hmore : lookers (s.threads.set i new) = lookers s.threads + 1 :=
          total_set (fun p => p.looks.toNat) hold new
        rw [← hmore]
        exact htwo

/-- A wait that cannot go on. -/
theorem Kept.wait {start : σ} (h : m.Kept start s) {i : Nat}
    (hold : s.threads[i]? = some (.inside .take)) (hnone : m.take s.data = none) :
    m.Kept start (s.put i .asleep) := by
  have hholders := total_set (fun p => p.holds.toNat) hold .asleep
  constructor
  case exclusive =>
    have hless : holders (s.threads.set i .asleep) + 1 = holders s.threads := hholders
    have hexclusive := h.exclusive
    simp only [State.put]
    omega
  case sequential => exact h.sequential
  case awake =>
    refine fun _ => .inr fun ⟨r, htake, _⟩ => ?_
    exact absurd (hnone.symm.trans htake) nofun

theorem Kept.take {start : σ} (h : m.Kept start s) {i : Nat} {r : R} {data : σ}
    (hold : s.threads[i]? = some (.inside .take)) (htake : m.take s.data = some (r, data)) :
    m.Kept start
      { data := data
        threads := s.threads.set i (.leaving r)
        calls := s.calls ++ [(.take, r)] } := by
  have hholders := total_set (fun p => p.holds.toNat) hold (.leaving r)
  have hsleepers := total_set (fun p => p.isAsleep.toNat) hold (.leaving r)
  have hlookers := total_set (fun p => p.looks.toNat) hold (.leaving r)
  constructor
  case exclusive =>
    refine Nat.le_trans (Nat.le_of_eq ?_) h.exclusive
    exact Nat.add_right_cancel hholders
  case sequential => exact .take h.sequential htake
  case awake =>
    intro hpos
    have hbefore : 0 < sleepers s.threads := by
      have heq : sleepers (s.threads.set i (.leaving r)) = sleepers s.threads :=
        Nat.add_right_cancel hsleepers
      exact heq ▸ hpos
    rcases h.awake hbefore with hnotified | htakes
    · exact .inl (hnotified.set _ hold fun r hr => nomatch hr)
    · refine .inr fun hmore => htakes ?_
      have hless : lookers (s.threads.set i (.leaving r)) + 1 = lookers s.threads := hlookers
      rw [hless] at hmore
      exact ⟨_, htake, hmore⟩

theorem sleepers_wake (threads : List (Place A R)) : sleepers (threads.map Place.wake) = 0 := by
  refine total_eq_zero_iff.mpr fun p hp => ?_
  obtain ⟨q, -, rfl⟩ := List.mem_map.mp hp
  cases q <;> rfl

theorem getElem?_wake {threads : List (Place A R)} {i : Nat} {place : Place A R}
    (h : threads[i]? = some place) : (threads.map Place.wake)[i]? = some place.wake := by
  rw [List.getElem?_map, h]
  rfl

theorem Kept.notifyAll {start : σ} (h : m.Kept start s) {i : Nat} {r : R}
    (hold : s.threads[i]? = some (.notifying true r)) :
    m.Kept start { s with threads := (s.threads.map Place.wake).set i (.leaving r) } := by
  have hwoken := getElem?_wake hold
  have hholders := total_set (fun p => p.holds.toNat) hwoken (.leaving r)
  have hsleepers := total_set (fun p => p.isAsleep.toNat) hwoken (.leaving r)
  constructor
  case exclusive =>
    have hsame : total (fun p => p.holds.toNat) (s.threads.map Place.wake) = holders s.threads :=
      total_wake_eq fun p => by cases p <;> rfl
    refine Nat.le_trans (Nat.le_of_eq ?_) h.exclusive
    exact (Nat.add_right_cancel hholders).trans hsame
  case sequential => exact h.sequential
  case awake =>
    intro hpos
    have hnobody : sleepers ((s.threads.map Place.wake).set i (.leaving r)) = 0 :=
      (Nat.add_right_cancel hsleepers).trans (sleepers_wake s.threads)
    exact absurd hpos (Nat.not_lt_of_le (Nat.le_of_eq hnobody))

/-- There is nobody to notify. -/
theorem Kept.notifyNone {start : σ} (h : m.Kept start s) {i : Nat} {r : R}
    (hold : s.threads[i]? = some (.notifying false r))
    (hnone : ∀ p ∈ s.threads, p.isAsleep = false) : m.Kept start (s.put i (.leaving r)) := by
  have hholders := total_set (fun p => p.holds.toNat) hold (.leaving r)
  have hsleepers := total_set (fun p => p.isAsleep.toNat) hold (.leaving r)
  constructor
  case exclusive =>
    refine Nat.le_trans (Nat.le_of_eq ?_) h.exclusive
    exact Nat.add_right_cancel hholders
  case sequential => exact h.sequential
  case awake =>
    intro hpos
    have hnobody : sleepers s.threads = 0 :=
      total_eq_zero_iff.mpr fun p hp => congrArg Bool.toNat (hnone p hp)
    have hsame : sleepers (s.threads.set i (.leaving r)) = sleepers s.threads :=
      Nat.add_right_cancel hsleepers
    exact absurd hpos (Nat.not_lt_of_le (Nat.le_of_eq (hsame.trans hnobody)))

/-- The thread that notifies, once another one has been woken. -/
theorem getElem?_put_ne {i j : Nat} {place old : Place A R} (new : Place A R)
    (hi : s.threads[i]? = some place)
    (hj : s.threads[j]? = some old) (hne : place ≠ old) :
    (s.put j new).threads[i]? = some place := by
  rw [State.put, List.getElem?_set_ne, hi]
  rintro rfl
  exact hne (Option.some.inj (hi.symm.trans hj))

theorem Kept.notifyOne {start : σ} (h : m.Kept start s) {i j : Nat} {r : R}
    (hold : s.threads[i]? = some (.notifying false r)) (hj : s.threads[j]? = some .asleep) :
    m.Kept start ((s.put j .woken).put i (.leaving r)) := by
  have hnext := getElem?_put_ne .woken hold hj (by simp)
  have hholders₁ := total_set (fun p => p.holds.toNat) hj .woken
  have hholders₂ := total_set (fun p => p.holds.toNat) hnext (.leaving r)
  have hsleepers₁ := total_set (fun p => p.isAsleep.toNat) hj .woken
  have hsleepers₂ := total_set (fun p => p.isAsleep.toNat) hnext (.leaving r)
  have hlookers₁ := total_set (fun p => p.looks.toNat) hj .woken
  have hlookers₂ := total_set (fun p => p.looks.toNat) hnext (.leaving r)
  constructor
  case exclusive =>
    refine Nat.le_trans (Nat.le_of_eq ?_) h.exclusive
    exact (Nat.add_right_cancel hholders₂).trans (Nat.add_right_cancel hholders₁)
  case sequential => exact h.sequential
  case awake =>
    intro _
    have hbefore : 0 < sleepers s.threads :=
      total_pos (List.mem_of_getElem? hj) Nat.zero_lt_one
    have hlookers : lookers ((s.put j .woken).put i (.leaving r)).threads = lookers s.threads := by
      simp only [lookers, State.put, Place.looks, Bool.toNat_false, Bool.toNat_true] at *
      omega
    rcases h.awake hbefore with hnotified | htakes
    · have hfirst := hnotified.set .woken hj fun r hr => nomatch hr
      exact .inl (AllNotified.set hfirst _ hnext fun r hr => nomatch hr)
    · exact .inr (hlookers ▸ htakes)

theorem holders_eq_zero {threads : List (Place A R)} (h : ∀ p ∈ threads, p.holds = false) :
    holders threads = 0 :=
  total_eq_zero_iff.mpr fun p hp => congrArg Bool.toNat (h p hp)

theorem Kept.step {start : σ} (hone : m.OneMore) (h : m.Kept start s) (hstep : s.step m a = some t) :
    m.Kept start t := by
  cases acts_of_step hstep with
  | call hold =>
    exact h.put hold (fun r hr => nomatch hr) h.exclusive (Nat.le_refl 0) (Nat.le_refl 0)
  | lock hfree hold =>
    have hholders : holders s.threads + 1 ≤ 1 :=
      Nat.succ_le_succ (Nat.le_of_eq (holders_eq_zero hfree))
    exact h.put hold (fun r hr => nomatch hr) hholders (Nat.le_refl 0) (Nat.zero_le _)
  | relock hfree hold =>
    have hholders : holders s.threads + 1 ≤ 1 :=
      Nat.succ_le_succ (Nat.le_of_eq (holders_eq_zero hfree))
    exact h.put hold (fun r hr => nomatch hr) hholders (Nat.le_refl 0) (Nat.le_refl 1)
  | update hold => exact h.update (fun hall n => hone _ _ n hall) hold
  | wait hold hnone => exact h.wait hold hnone
  | take hold htake => exact h.take hold htake
  | notifyAll hold => exact h.notifyAll hold
  | notifyNone hold hnone => exact h.notifyNone hold hnone
  | notifyOne hold hj => exact h.notifyOne hold hj
  | unlock hold =>
    have hholders : holders s.threads + 0 ≤ 1 + 1 := Nat.le_succ_of_le h.exclusive
    exact h.put hold (fun r hr => nomatch hr) hholders (Nat.le_refl 0) (Nat.le_refl 0)
  | spurious hold =>
    exact h.put hold (fun r hr => nomatch hr) h.exclusive (Nat.zero_le 1) (Nat.zero_le 1)

/-! ## Calls come to rest -/

/-- Every call has returned, or sleeps. -/
def AtRest (s : State σ A R) : Prop := ∀ p ∈ s.threads, p.underway = false

/-- **No wake-up is lost**: who sleeps when all is at rest could not go on. -/
theorem Kept.asleep {start : σ} (h : m.Kept start s) (hrest : AtRest s)
    (hasleep : .asleep ∈ s.threads) : m.take s.data = none := by
  have hlookers : lookers s.threads = 0 := by
    refine total_eq_zero_iff.mpr fun p hp => ?_
    have hunderway := hrest p hp
    cases p <;> first | rfl | cases hunderway
  rcases h.awake (total_pos hasleep Nat.zero_lt_one) with ⟨r, hr⟩ | htakes
  · exact absurd (hrest _ hr) nofun
  · rw [hlookers] at htakes
    cases htake : m.take s.data with
    | none => rfl
    | some r => exact absurd ⟨r, htake, trivial⟩ htakes

/-- The steps that a call takes at most until it comes to rest, among `n` threads. -/
def work (n : Nat) : Place A R → Nat
  | .outside | .asleep => 0
  | .leaving _ => 1
  | .inside .take => 2
  | .entering .take | .woken => 3
  | .notifying _ _ => 3 * n + 2
  | .inside (.update _) => 3 * n + 3
  | .entering (.update _) => 3 * n + 4

def workLeft (s : State σ A R) : Nat := total (work s.threads.length) s.threads

theorem length_step (hstep : s.step m a = some t) : t.threads.length = s.threads.length := by
  cases acts_of_step hstep <;> simp [State.put]

theorem work_wake (n : Nat) (p : Place A R) : work n p.wake ≤ work n p + 3 := by
  cases p <;> simp [Place.wake, work]

theorem workLeft_step (hok : inCalls s a) (hstep : s.step m a = some t) :
    workLeft t < workLeft s := by
  have hlength := length_step hstep
  unfold workLeft
  rw [hlength]
  cases acts_of_step hstep with
  | call hold => cases hok
  | spurious hold => cases hok
  | @lock i call hfree hold =>
    have hset := total_set (work s.threads.length) hold (.inside call)
    simp only [State.put]
    cases call <;> simp only [work] at hset <;> omega
  | relock hfree hold =>
    have hset := total_set (work s.threads.length) hold (.inside .take)
    simp only [work] at hset
    simp only [State.put]
    omega
  | @update i a hold =>
    have hset := total_set (work s.threads.length) hold
      (.notifying (m.notifiesAll a) (m.update a s.data).1)
    simp only [work] at hset
    simp only
    omega
  | wait hold hnone =>
    have hset := total_set (work s.threads.length) hold .asleep
    simp only [work] at hset
    simp only [State.put]
    omega
  | @take i r data hold htake =>
    have hset := total_set (work s.threads.length) hold (.leaving r)
    simp only [work] at hset
    simp only
    omega
  | @notifyAll i waiter r hold =>
    have hset := total_set (work s.threads.length) (getElem?_wake hold) (.leaving r)
    have hwake := total_wake s.threads (work_wake s.threads.length)
    simp only [work, Place.wake] at hset
    simp only
    omega
  | @notifyNone i r hold hnone =>
    have hset := total_set (work s.threads.length) hold (.leaving r)
    simp only [work] at hset
    simp only [State.put]
    omega
  | @notifyOne i j r hold hj =>
    have hnext := getElem?_put_ne .woken hold hj (by simp)
    have hfirst := total_set (work s.threads.length) hj .woken
    have hset := total_set (work s.threads.length) hnext (.leaving r)
    have hlt : i < s.threads.length := (List.getElem?_eq_some_iff.mp hold).1
    simp only [work, State.put] at hfirst hset ⊢
    omega
  | @unlock i r hold =>
    have hset := total_set (work s.threads.length) hold .outside
    simp only [work] at hset
    simp only [State.put]
    omega

/-- Whoever has the mutex can go on. -/
theorem holder_moves {i : Nat} {p : Place A R} (hp : s.threads[i]? = some p)
    (hholds : p.holds = true) : ∃ a, inCalls s a ∧ (s.step m a).isSome = true := by
  cases p with
  | outside | entering call | asleep | woken => cases hholds
  | inside call =>
    refine ⟨.run i, trivial, ?_⟩
    cases call with
    | update a => simp [State.step, State.run, hp]
    | take => cases htake : m.take s.data <;> simp [State.step, State.run, hp, htake]
  | leaving r => exact ⟨.unlock i, trivial, by simp [State.step, hp]⟩
  | notifying all r =>
    cases all with
    | true => exact ⟨.notify i none, trivial, by simp [State.step, State.notify, hp]⟩
    | false =>
      by_cases hasleep : .asleep ∈ s.threads
      · obtain ⟨j, hj⟩ := List.mem_iff_getElem?.mp hasleep
        exact ⟨.notify i (some j), trivial, by simp [State.step, State.notify, hp, hj]⟩
      · have hnone : s.threads.any Place.isAsleep = false := by
          rw [List.any_eq_false]
          rintro (_ | _ | _ | _ | _ | _ | _) hq
          case asleep => exact absurd hq hasleep
          all_goals simp [Place.isAsleep]
        exact ⟨.notify i none, trivial, by simp [State.step, State.notify, hp, hnone]⟩

/-- As long as a call is under way, some step is possible. -/
theorem progress (hrest : ¬ AtRest s) : ∃ a, inCalls s a ∧ (s.step m a).isSome = true := by
  by_cases hfree : ∀ p ∈ s.threads, p.holds = false
  · have hany : s.threads.any Place.holds = false := by simpa using hfree
    obtain ⟨p, hp, hunderway⟩ : ∃ p ∈ s.threads, p.underway = true := by
      simpa [AtRest] using hrest
    obtain ⟨i, hi⟩ := List.mem_iff_getElem?.mp hp
    have hholds := hfree p hp
    refine ⟨.lock i, trivial, ?_⟩
    cases p with
    | outside | asleep => cases hunderway
    | inside call | notifying all r | leaving r => cases hholds
    | entering call => simp [State.step, State.lock, hany, hi]
    | woken => simp [State.step, State.lock, hany, hi]
  · obtain ⟨p, hp, hholds⟩ : ∃ p ∈ s.threads, p.holds = true := by simpa using hfree
    obtain ⟨i, hi⟩ := List.mem_iff_getElem?.mp hp
    exact holder_moves hi hholds

/-- What is known of a state that threads have reached. -/
structure Works (m : Monitor σ A R) (start : σ) (s : State σ A R) : Prop where
  /-- No two threads have the mutex. -/
  exclusive : holders s.threads ≤ 1
  /-- The methods might have been called one after the other. -/
  sequential : m.Sequential start s.calls s.data
  /-- The calls that are under way come to rest, in any run and after so many steps at most, -/
  bounded : ∀ n t, Steps (State.step m) inCalls n s t → n ≤ workLeft s
  restful : ∀ t, Reaches (State.step m) inCalls s t → ¬ AtRest t →
    ∃ a, inCalls t a ∧ (t.step m a).isSome = true
  /-- and a thread that sleeps then has nothing to go on with. -/
  asleep : ∀ t, Reaches (State.step m) inCalls s t → AtRest t → .asleep ∈ t.threads →
    m.take t.data = none

/-- **Calls are as good as atomic, and no wake-up is lost.** -/
theorem works (hone : m.OneMore) {start : σ} {threads : Nat}
    (hrun : Reaches (State.step m) anyStep (.initial start threads) s) : m.Works start s := by
  have h : m.Kept start s := Reaches.invariant (kept_initial m start threads)
    (fun _ _ _ hu _ hstep => hu.step hone hstep) hrun
  constructor
  case exclusive => exact h.exclusive
  case sequential => exact h.sequential
  case bounded =>
    intro n t hsteps
    have hle := (hsteps.length_le (I := fun _ => True) (fun _ _ _ _ _ _ => trivial)
      (fun _ _ _ _ hok hstep => workLeft_step hok hstep) trivial).1
    omega
  case restful => exact fun _ _ hrest => progress hrest
  case asleep =>
    intro t hreach hrest hasleep
    have ht : m.Kept start t :=
      Reaches.invariant h (fun _ _ _ hu _ hstep => hu.step hone hstep) hreach
    exact ht.asleep hrest hasleep

end Monitor

end EdgeVision.Lib
