import EdgeVision.Metrics.MetricsCollector
import Mathlib.Data.List.TakeWhile

/-!
# The line of `/proc/self/stat`

The fields stand behind the last `)` of the line, whatever the name of the process. A line that is
whole gives fields 14, 15 and 24; one that is cut before field 24 has too few numbers for all the
extractions, and the sample is invalid (`proc_sample_right`). An invalid sample leaves no trace in a
snapshot, neither in its own nor in the next one.
-/

namespace EdgeVision

open Lib IStream

/-! ## The line -/

/-- The numbers from a field on, each behind a blank. -/
def statFields (fields : List Int) : List Char := fields.flatMap fun n => ' ' :: decimal n

/-- Field `k`, of those from field 4 on. -/
def statField (fields : List Int) (k : Nat) : Int := fields.getD (k - 4) 0

/-- A line that the kernel prints: the process, its name, its state and fields 4 to 52, each of
which fits the type that it is read into. -/
structure StatLine where
  pid : Nat
  comm : List Char
  state : Char
  fields : List Int
  comm_line : '\n' ∉ comm
  state_visible : isSpace state = false
  state_ne : state ≠ ')'
  count : fields.length = 49
  unsigned : ∀ k, 4 ≤ k ∧ k ≤ 15 ∨ k = 23 →
    -2 ^ 64 < statField fields k ∧ statField fields k < 2 ^ 64
  signed : ∀ k, 16 ≤ k ∧ k ≤ 22 ∨ k = 24 →
    -2 ^ 63 ≤ statField fields k ∧ statField fields k < 2 ^ 63

namespace StatLine

variable (line : StatLine)

/-- Field `k` of the line, for the fields that are numbers. -/
def field (k : Nat) : Int := statField line.fields k

/-- The line up to the name. -/
def opening : List Char := decimal line.pid ++ [' ', '(']

/-- The line up to the `)` behind the name. -/
def named : List Char := line.opening ++ line.comm

def text : List Char := line.named ++ ')' :: ' ' :: line.state :: statFields line.fields

/-- Where field 24 begins. -/
def field24At : Nat :=
  (line.named ++ ')' :: ' ' :: line.state :: statFields (line.fields.take 20)).length + 1

end StatLine

/-! ## Where the fields are -/

namespace ProcSample

theorem rfind_eq_none {ch : Char} {text : List Char} : rfind ch text = none ↔ ch ∉ text := by
  induction text with
  | nil => simp [rfind]
  | cons c rest ih =>
    unfold rfind
    cases hrest : rfind ch rest with
    | some i => simp_all
    | none =>
      rw [hrest] at ih
      have hnot := ih.mp rfl
      by_cases hc : c = ch
      · simp [hc]
      · simp [hc, Ne.symm hc, hnot]

theorem rfind_append {ch : Char} (before : List Char) {after : List Char} (h : ch ∉ after) :
    rfind ch (before ++ ch :: after) = some before.length := by
  induction before with
  | nil => simp [rfind, rfind_eq_none.mpr h]
  | cons c before ih => simp [rfind, ih]

theorem getElem?_of_rfind {ch : Char} {text : List Char} {i : Nat} (h : rfind ch text = some i) :
    text[i]? = some ch := by
  induction text generalizing i with
  | nil => cases h
  | cons c rest ih =>
    unfold rfind at h
    cases hrest : rfind ch rest with
    | some j =>
      simp only [hrest, Option.some.injEq] at h
      subst h
      exact ih hrest
    | none =>
      simp only [hrest] at h
      split at h
      · rename_i hc
        cases h
        simp [hc]
      · cases h

end ProcSample

theorem notMem_decimal {c : Char} (n : Int) (hc : c.isDigit = false) (hminus : c ≠ '-') :
    c ∉ decimal n := by
  unfold decimal
  intro h
  rcases List.mem_append.mp h with h | h
  · split at h
    · exact hminus (List.mem_singleton.mp h)
    · cases h
  · rw [isDigit_of_mem_digits h] at hc
    cases hc

theorem notMem_statFields {c : Char} (fields : List Int) (hc : c.isDigit = false)
    (hminus : c ≠ '-') (hblank : c ≠ ' ') : c ∉ statFields fields := by
  intro h
  obtain ⟨n, -, h⟩ := List.mem_flatMap.mp h
  rcases List.mem_cons.mp h with h | h
  · exact hblank h
  · exact notMem_decimal n hc hminus h

/-! ## A whole line -/

theorem ends_statFields (fields : List Int) : Ends (statFields fields) := by
  intro c hc
  cases fields with
  | nil => cases hc
  | cons n fields =>
    cases hc
    rfl

theorem isSpace_blank : ∀ c ∈ [' '], isSpace c = true := List.forall_mem_singleton.mpr rfl

theorem unsigned64_statFields {n : Int} (fields : List Int) (h : -2 ^ 64 < n ∧ n < 2 ^ 64) :
    unsigned64 (statFields (n :: fields)) = some (UInt64.ofInt n, statFields fields) := by
  have hread := unsigned64_decimal isSpace_blank h.1 h.2 (ends_statFields fields)
  simpa [statFields] using hread

theorem signed64_statFields {n : Int} (fields : List Int) (h : -2 ^ 63 ≤ n ∧ n < 2 ^ 63) :
    signed64 (statFields (n :: fields)) = some (n, statFields fields) := by
  have hread := signed64_decimal isSpace_blank h.1 h.2 (ends_statFields fields)
  simpa [statFields] using hread

theorem drop_statField {fields : List Int} {a : Nat} (h : a < fields.length) :
    fields.drop a = statField fields (a + 4) :: fields.drop (a + 1) := by
  rw [List.drop_eq_getElem_cons h, statField, Nat.add_sub_cancel]
  simp [List.getD, h]

/-- Fields that an extraction reads are skipped one by one. -/
theorem skip_statFields {α : Type} {extract : Extract α} {read : Int → α} {fits : Int → Prop}
    (hread : ∀ n fields, fits n →
      extract (statFields (n :: fields)) = some (read n, statFields fields))
    {fields : List Int} (k a : Nat) (hlen : a + k ≤ fields.length)
    (hfits : ∀ j, a + 4 ≤ j → j < a + 4 + k → fits (statField fields j)) :
    skip extract k (statFields (fields.drop a)) = some (statFields (fields.drop (a + k))) := by
  induction k generalizing a with
  | zero => rfl
  | succ k ih =>
    have hfirst := hread _ (fields.drop (a + 1)) (hfits (a + 4) le_rfl (by omega))
    have hmore := ih (a + 1) (by omega) fun j hlo hhi => hfits j (by omega) (by omega)
    rw [skip, drop_statField (by omega), hfirst, Option.bind_some, hmore]
    congr 3
    omega

namespace StatLine

variable (line : StatLine)

/-- The extractions read fields 14, 15 and 24. -/
theorem readFields_text :
    ProcSample.readFields (line.state :: statFields line.fields) =
      some (UInt64.ofInt (line.field 14) + UInt64.ofInt (line.field 15),
        if 0 < line.field 24 then UInt64.ofInt (line.field 24) else 0) := by
  have hcount := line.count
  have hstate : char (line.state :: statFields line.fields) =
      some (line.state, statFields (line.fields.drop 0)) := by
    simp [char, line.state_visible]
  have hfirst : skip unsigned64 10 (statFields (line.fields.drop 0)) =
      some (statFields (line.fields.drop 10)) :=
    skip_statFields (fun _ fields h => unsigned64_statFields fields h) 10 0 (by omega)
      fun j hlo hhi => line.unsigned j (.inl ⟨by omega, by omega⟩)
  have hutime : unsigned64 (statFields (line.fields.drop 10)) =
      some (UInt64.ofInt (line.field 14), statFields (line.fields.drop 11)) := by
    rw [drop_statField (by omega)]
    exact unsigned64_statFields _ (line.unsigned 14 (.inl ⟨by omega, by omega⟩))
  have hstime : unsigned64 (statFields (line.fields.drop 11)) =
      some (UInt64.ofInt (line.field 15), statFields (line.fields.drop 12)) := by
    rw [drop_statField (by omega)]
    exact unsigned64_statFields _ (line.unsigned 15 (.inl ⟨by omega, by omega⟩))
  have hsecond : skip signed64 7 (statFields (line.fields.drop 12)) =
      some (statFields (line.fields.drop 19)) :=
    skip_statFields (fun _ fields h => signed64_statFields fields h) 7 12 (by omega)
      fun j hlo hhi => line.signed j (.inl ⟨by omega, by omega⟩)
  have hvsize : unsigned64 (statFields (line.fields.drop 19)) =
      some (UInt64.ofInt (line.field 23), statFields (line.fields.drop 20)) := by
    rw [drop_statField (by omega)]
    exact unsigned64_statFields _ (line.unsigned 23 (.inr rfl))
  have hrss : signed64 (statFields (line.fields.drop 20)) =
      some (line.field 24, statFields (line.fields.drop 21)) := by
    rw [drop_statField (by omega)]
    exact signed64_statFields _ (line.signed 24 (.inr rfl))
  simp only [ProcSample.readFields, Option.bind_eq_bind, hstate, hfirst, hutime, hstime, hsecond,
    hvsize, hrss, Option.bind_some]

/-- Nothing behind the name is a `)`. -/
theorem notMem_behind (fields : List Int) : ')' ∉ ' ' :: line.state :: statFields fields := by
  have hfields : ')' ∉ statFields fields := notMem_statFields fields rfl (by decide) (by decide)
  simp [line.state_ne.symm, hfields]

theorem readSelfStat_text :
    ProcSample.readSelfStat line.text =
      some (UInt64.ofInt (line.field 14) + UInt64.ofInt (line.field 15),
        if 0 < line.field 24 then UInt64.ofInt (line.field 24) else 0) := by
  have hparen : ProcSample.rfind ')' line.text = some line.named.length :=
    ProcSample.rfind_append line.named (line.notMem_behind line.fields)
  have hdrop : line.text.drop (line.named.length + 2) = line.state :: statFields line.fields := by
    rw [text, List.drop_append]
    simp
  rw [ProcSample.readSelfStat, hparen]
  simp only [hdrop, line.readFields_text]
  rw [if_neg]
  simp only [text, List.length_append, List.length_cons]
  omega

theorem notMem_newline : '\n' ∉ line.text := by
  have hpid : '\n' ∉ decimal line.pid := notMem_decimal _ rfl (by decide)
  have hfields : '\n' ∉ statFields line.fields :=
    notMem_statFields line.fields rfl (by decide) (by decide)
  have hstate : '\n' ≠ line.state := by
    intro h
    have hvisible := line.state_visible
    rw [← h] at hvisible
    exact absurd hvisible (by decide)
  simp [text, named, opening, hpid, line.comm_line, hfields, hstate]

theorem ne_newline : ∀ c ∈ line.text, decide (c ≠ '\n') = true := by
  intro c hc
  rw [decide_eq_true_eq]
  rintro rfl
  exact line.notMem_newline hc

theorem getline_text (rest : List Char) : getline (line.text ++ '\n' :: rest) = some line.text := by
  rw [getline, List.takeWhile_append_of_pos line.ne_newline]
  simp

end StatLine

/-- What the sample of a whole line holds. -/
structure ReadsLine (line : StatLine) (totalJiffies : UInt64) (sample : ProcSample) : Prop where
  valid : sample.valid = true
  total : sample.totalJiffies = totalJiffies
  process : (sample.processJiffies.toNat : Int) = (line.field 14 + line.field 15) % 2 ^ 64
  rss : (sample.rssPages.toNat : Int) = max 0 (line.field 24)

theorem readProcSample_text {procStat : List Char} {totalJiffies : UInt64}
    (h : ProcSample.readTotalJiffies procStat = some totalJiffies) (line : StatLine)
    (rest : List Char) :
    ReadsLine line totalJiffies
      (readProcSample (some procStat) (some (line.text ++ '\n' :: rest))) := by
  have hread : readProcSample (some procStat) (some (line.text ++ '\n' :: rest)) =
      ⟨totalJiffies, UInt64.ofInt (line.field 14) + UInt64.ofInt (line.field 15),
        if 0 < line.field 24 then UInt64.ofInt (line.field 24) else 0, true⟩ := by
    simp only [readProcSample, Option.bind_some, h, line.getline_text, line.readSelfStat_text]
  have hfits := line.signed 24 (.inr rfl)
  rw [hread]
  refine ⟨rfl, rfl, ?_, ?_⟩
  · rw [← UInt64.ofInt_add, toNat_ofInt]
  · by_cases hpos : 0 < line.field 24
    · simp only [hpos, if_true, toNat_ofInt]
      unfold StatLine.field at *
      omega
    · simp only [hpos, if_false, UInt64.toNat_zero]
      omega

/-! ## A line that is cut -/

/-- The line has no `)`, or at most 20 numbers behind the last one and the state: it does not get to
field 24. -/
def StopsBefore24 (line : List Char) : Prop :=
  ∀ i, ProcSample.rfind ')' line = some i → digitRuns (line.drop (i + 3)) ≤ 20

theorem stopsBefore24_of_notMem {line : List Char} (h : ')' ∉ line) : StopsBefore24 line := by
  intro i hi
  rw [ProcSample.rfind_eq_none.mpr h] at hi
  cases hi

/-- Fields that are all read hold a number for each extraction behind the state. -/
theorem digitRuns_of_readFields {fields : List Char} {read : UInt64 × UInt64}
    (h : ProcSample.readFields fields = some read) : 21 ≤ digitRuns (fields.drop 1) := by
  simp only [ProcSample.readFields, Option.bind_eq_bind, Option.bind_eq_some_iff] at h
  obtain ⟨state, hstate, first, hfirst, utime, hutime, stime, hstime, second, hsecond, vsize,
    hvsize, rss, hrss, -⟩ := h
  have hunsigned : ∀ text value rest, unsigned64 text = some (value, rest) →
      digitRuns rest + 1 ≤ digitRuns text := fun _ _ _ => unsigned64_digitRuns
  have hsigned : ∀ text value rest, signed64 text = some (value, rest) →
      digitRuns rest + 1 ≤ digitRuns text := fun _ _ _ => signed64_digitRuns
  have h₀ := char_digitRuns hstate
  have h₁ := skip_digitRuns hunsigned 10 hfirst
  have h₂ := unsigned64_digitRuns hutime
  have h₃ := unsigned64_digitRuns hstime
  have h₄ := skip_digitRuns hsigned 7 hsecond
  have h₅ := unsigned64_digitRuns hvsize
  have h₆ := signed64_digitRuns hrss
  omega

theorem readSelfStat_of_stops {line : List Char} (h : StopsBefore24 line) :
    ProcSample.readSelfStat line = none := by
  unfold ProcSample.readSelfStat
  split
  · rfl
  · rename_i i hi
    split
    · rfl
    · cases hread : ProcSample.readFields (line.drop (i + 2)) with
      | none => rfl
      | some read =>
        have hmany := digitRuns_of_readFields hread
        rw [List.drop_drop] at hmany
        exact absurd (hmany.trans (h i hi)) (by decide)

theorem readProcSample_of_stops (procStat : Option (List Char)) {text : List Char}
    (h : StopsBefore24 (text.takeWhile (· ≠ '\n'))) :
    (readProcSample procStat (some text)).valid = false := by
  have hread : ((some text).bind getline).bind ProcSample.readSelfStat = none := by
    rw [Option.bind_some, getline]
    split
    · rfl
    · exact readSelfStat_of_stops h
  unfold readProcSample
  rw [hread]
  split <;> rfl

theorem digitRuns_statFields_le (fields : List Int) :
    digitRuns (statFields fields) ≤ fields.length := by
  induction fields with
  | nil => exact Nat.le_refl _
  | cons n fields ih =>
    have hfirst := digitRuns_decimal_le n (statFields fields)
    rw [List.length_cons]
    unfold statFields at *
    rw [List.flatMap_cons]
    omega

namespace StatLine

variable (line : StatLine)

theorem notMem_opening : ')' ∉ line.opening := by
  have hpid : ')' ∉ decimal line.pid := notMem_decimal _ rfl (by decide)
  simp [opening, hpid]

/-- A cut within a name that is too short to hold 21 numbers. -/
theorem stopsBefore24_named (hcomm : line.comm.length ≤ 43) (n : Nat) :
    StopsBefore24 (line.named.take n) := by
  intro i hi
  obtain ⟨hlt, hat⟩ := List.getElem?_eq_some_iff.mp (ProcSample.getElem?_of_rfind hi)
  rw [List.getElem_take] at hat
  have hlen : line.named.length = line.opening.length + line.comm.length := List.length_append
  have htake : (line.named.take n).length ≤ line.named.length := List.length_take_le' _ _
  -- the `)` that is found is one of the name
  have hopening : line.opening.length ≤ i := by
    by_contra hbefore
    have hmem : line.opening[i] = ')' := by
      rw [← hat]
      exact (List.getElem_append_left (by omega)).symm
    exact line.notMem_opening (hmem ▸ List.getElem_mem _)
  have hruns := (two_mul_digitRunsFrom_le ((line.named.take n).drop (i + 3))).2
  rw [List.length_drop] at hruns
  unfold digitRuns
  omega

/-- The numbers up to the blank before field 24. -/
theorem digitRuns_cut_le {k : Nat} (hk : k ≤ (statFields (line.fields.take 20)).length + 1) :
    digitRuns ((statFields line.fields).take k) ≤ 20 := by
  have hcount := line.count
  obtain ⟨more, hmore⟩ : ∃ more, statFields line.fields =
      (statFields (line.fields.take 20) ++ [' ']) ++ more := by
    refine ⟨decimal (statField line.fields 24) ++ statFields (line.fields.drop 21), ?_⟩
    conv_lhs => rw [← List.take_append_drop 20 line.fields, drop_statField (by omega)]
    simp [statFields]
  have hbefore := digitRuns_statFields_le (line.fields.take 20)
  have hblank := digitRunsFrom_append_le false (statFields (line.fields.take 20)) [' ']
  have hcut := digitRunsFrom_take_le false k (statFields (line.fields.take 20) ++ [' '])
  have hnone : digitRuns [' '] = 0 := rfl
  rw [hmore, List.take_append_of_le_length (by simpa using hk)]
  rw [List.length_take] at hbefore
  unfold digitRuns at *
  omega

/-- A cut behind the name and before field 24. -/
theorem stopsBefore24_behind {n : Nat} (hname : line.named.length < n) (hcut : n ≤ line.field24At) :
    StopsBefore24 (line.text.take n) := by
  obtain ⟨m, rfl⟩ := Nat.exists_eq_add_of_lt hname
  have htext : line.text.take (line.named.length + m + 1) =
      line.named ++ ')' :: (' ' :: line.state :: statFields line.fields).take m := by
    rw [text, Nat.add_assoc, List.take_length_add_append, List.take_succ_cons]
  have hparen : ')' ∉ (' ' :: line.state :: statFields line.fields).take m :=
    fun h => line.notMem_behind line.fields (List.mem_of_mem_take h)
  intro i hi
  rw [htext, ProcSample.rfind_append _ hparen, Option.some.injEq] at hi
  subst hi
  have hdrop : (line.text.take (line.named.length + m + 1)).drop (line.named.length + 3) =
      (statFields line.fields).take (m - 2) := by
    rw [htext, List.drop_append, List.drop_eq_nil_of_le (by omega), List.nil_append,
      Nat.add_sub_cancel_left, List.drop_succ_cons, List.drop_take]
    rfl
  rw [hdrop]
  apply line.digitRuns_cut_le
  simp only [field24At, List.length_append, List.length_cons] at hcut
  omega

theorem readProcSample_cut (procStat : Option (List Char)) {n : Nat} (hcut : n ≤ line.field24At)
    (hname : line.named.length < n ∨ line.comm.length ≤ 43) :
    (readProcSample procStat (some (line.text.take n))).valid = false := by
  have hline : (line.text.take n).takeWhile (· ≠ '\n') = line.text.take n :=
    List.takeWhile_eq_self_iff.mpr fun c hc => line.ne_newline c (List.mem_of_mem_take hc)
  apply readProcSample_of_stops
  rw [hline]
  by_cases hbehind : line.named.length < n
  · exact line.stopsBefore24_behind hbehind hcut
  · rw [text, List.take_append_of_le_length (by omega)]
    exact line.stopsBefore24_named (hname.resolve_left hbehind) n

end StatLine

/-! ## The samples -/

/-- A snapshot without a value from `/proc`. -/
structure NoProc (snapshot : MetricsSnapshot) : Prop where
  cpuPercent : snapshot.cpuPercent = 0
  rssMb : snapshot.rssMb = 0

theorem noProc_of_invalid (fl : Rounding) (sys : SystemConstants) {last : Reference}
    {now : Readings} (h : (now.proc.valid && last.lastProcSample.valid) = false) :
    NoProc (sample fl sys last now).1 := by
  constructor <;> simp [sample, sampleSnapshot, h]

/-- **The fields of `/proc/self/stat`**: a whole line gives fields 14, 15 and 24, whatever the name
in it; a line that is cut before field 24, one with too few numbers for it and one without a `)` give
an invalid sample, and such a sample is in no snapshot, its own or the next. A name of more than 43
characters could itself hold as many numbers as a line, so that a cut within it is no shorter than
another line is. -/
theorem proc_sample_right :
    (∀ procStat totalJiffies, ProcSample.readTotalJiffies procStat = some totalJiffies →
      ∀ (line : StatLine) (rest : List Char), ReadsLine line totalJiffies
        (readProcSample (some procStat) (some (line.text ++ '\n' :: rest)))) ∧
    (∀ procStat (line : StatLine) n, n ≤ line.field24At →
      line.named.length < n ∨ line.comm.length ≤ 43 →
        (readProcSample procStat (some (line.text.take n))).valid = false) ∧
    (∀ procStat text, StopsBefore24 (text.takeWhile (· ≠ '\n')) →
      (readProcSample procStat (some text)).valid = false) ∧
    (∀ procStat text, ')' ∉ text.takeWhile (· ≠ '\n') →
      (readProcSample procStat (some text)).valid = false) ∧
    ∀ fl sys last now next, now.proc.valid = false →
      NoProc (sample fl sys last now).1 ∧
        NoProc (sample fl sys (sample fl sys last now).2 next).1 := by
  refine ⟨?_, ?_, ?_, ?_, ?_⟩
  · intro procStat totalJiffies h line rest
    exact readProcSample_text h line rest
  · intro procStat line n hcut hname
    exact line.readProcSample_cut procStat hcut hname
  · intro procStat text h
    exact readProcSample_of_stops procStat h
  · intro procStat text h
    exact readProcSample_of_stops procStat (stopsBefore24_of_notMem h)
  · intro fl sys last now next hinvalid
    refine ⟨noProc_of_invalid fl sys (by rw [hinvalid, Bool.false_and]),
      noProc_of_invalid fl sys ?_⟩
    have hkept : (sample fl sys last now).2.lastProcSample.valid = false := hinvalid
    rw [hkept, Bool.and_false]

/-- Fields 4 to 52, some of them negative. -/
def oddFields : List Int :=
  [1, 42, 42, 0, -1, 4194304, 100, 0, 0, 0, 7, 5, 0, 0, 20, -5, 4, 0, 900, 123456, 321] ++
    List.replicate 28 0

theorem oddFields_fit : ∀ k < 25, -2 ^ 63 ≤ statField oddFields k ∧ statField oddFields k < 2 ^ 63 := by
  decide

/-- A process with parentheses and blanks in its name. -/
def oddNameLine : StatLine where
  pid := 42
  comm := ['a', ' ', ')', ' ', '(', ')']
  state := 'S'
  fields := oddFields
  comm_line := by decide
  state_visible := by decide
  state_ne := by decide
  count := by decide
  unsigned := by
    intro k hk
    have hfits := oddFields_fit k (by omega)
    omega
  signed := fun k hk => oddFields_fit k (by omega)

/-- Its whole line and a cut of it in the middle of the numbers. -/
theorem proc_sample_right_odd_name :
    ReadsLine oddNameLine 36 (readProcSample (some ['c', ' ', '1', ' ', '2', ' ', '3', ' ', '4',
      ' ', '5', ' ', '6', ' ', '7', ' ', '8', '\n']) (some (oddNameLine.text ++ ['\n']))) ∧
    (readProcSample none (some (oddNameLine.text.take 30))).valid = false :=
  ⟨proc_sample_right.1 _ 36 (by decide) oddNameLine [],
    proc_sample_right.2.1 none oddNameLine 30 (by decide) (.inl (by decide))⟩

end EdgeVision
