import EdgeVision.Lib.Reach
import Mathlib.Data.List.Infix

/-!
# A log of lines behind a buffer

Records are appended to a file through the buffer of a stream, each as a line that is flushed before
the next one begins. The buffer may spill any part of itself at any time, and the process may end
anywhere and be started again on the same file, so that the line that was being written stays behind
as a torn one and runs into the next. `readBack`: what is lost in this way is at most one record for
each write that was interrupted, and never an earlier one.
-/

namespace EdgeVision.Lib

variable {α R : Type}

/-- A record that is being written: what is in the file, in the buffer, and still to be put there. -/
structure Writing (α R : Type) where
  record : R
  spilled : List α
  buffer : List α
  rest : List α
  deriving DecidableEq, Repr

structure LineLog (α R : Type) where
  file : List α
  isOpen : Bool
  current : Option (Writing α R)
  /-- The records that have been flushed. -/
  written : List R
  /-- The times that the process ended within a write. -/
  interrupted : Nat
  deriving DecidableEq, Repr

inductive LogLabel (R : Type) where
  /-- The process ends, and is started again. -/
  | restart (isOpen : Bool)
  | write (r : R)
  | put (n : Nat)
  | spill (n : Nat)
  | flush
  deriving DecidableEq, Repr

namespace LineLog

/-- Before the first start. -/
def initial : LineLog α R := ⟨[], false, none, [], 0⟩

variable (text : R → List α) (s : LineLog α R)

def restart (isOpen : Bool) : LineLog α R where
  file := s.file
  isOpen := isOpen
  current := none
  written := s.written
  interrupted := if s.current.isSome then s.interrupted + 1 else s.interrupted

/-- A log that is not open writes nothing. -/
def write (r : R) : LineLog α R :=
  if s.isOpen then { s with current := some ⟨r, [], [], text r⟩ } else s

def put (w : Writing α R) (n : Nat) : LineLog α R :=
  { s with current := some ⟨w.record, w.spilled, w.buffer ++ w.rest.take n, w.rest.drop n⟩ }

def spill (w : Writing α R) (n : Nat) : LineLog α R :=
  { s with
    file := s.file ++ w.buffer.take n
    current := some ⟨w.record, w.spilled ++ w.buffer.take n, w.buffer.drop n, w.rest⟩ }

def flush (w : Writing α R) : LineLog α R :=
  { s with file := s.file ++ w.buffer, current := none, written := s.written ++ [w.record] }

def step : LogLabel R → Option (LineLog α R)
  | .restart isOpen => some (s.restart isOpen)
  | .write r => if s.current.isSome then none else some (s.write text r)
  | .put n => s.current.map fun w => s.put w n
  | .spill n => s.current.map fun w => s.spill w n
  | .flush => s.current.bind fun w => if w.rest.isEmpty then some (s.flush w) else none

end LineLog

/-! ## Lines -/

section Lines

variable [BEq α] [LawfulBEq α] {sep : α} {xs ys : List α}

/-- The lines that have come to their end. -/
def closedLines (sep : α) (xs : List α) : List (List α) := (xs.splitOn sep).dropLast

/-- What stands behind the last end of line. -/
def openLine (sep : α) (xs : List α) : List α := (xs.splitOn sep).getLastD []

omit [LawfulBEq α] in
theorem splitOn_eq (sep : α) (xs : List α) :
    xs.splitOn sep = closedLines sep xs ++ [openLine sep xs] := by
  have hne := List.splitOn_ne_nil sep xs
  rw [closedLines, openLine, List.getLastD_eq_getLast?, List.getLast?_eq_some_getLast hne,
    Option.getD_some, List.dropLast_append_getLast hne]

omit [LawfulBEq α] in
theorem lines_of_splitOn {closed : List (List α)} {last : List α}
    (h : xs.splitOn sep = closed ++ [last]) :
    closedLines sep xs = closed ∧ openLine sep xs = last := by
  rw [splitOn_eq] at h
  exact List.append_singleton_inj.mp h

/-- Where the last line begins. -/
theorem exists_openLine (sep : α) (xs : List α) : sep ∉ openLine sep xs ∧
    ((xs = openLine sep xs ∧ closedLines sep xs = []) ∨
      ∃ before, xs = before ++ sep :: openLine sep xs ∧
        before.splitOn sep = closedLines sep xs) := by
  by_cases hmem : sep ∈ xs
  · obtain ⟨as, bs, hsplit, hnot⟩ := List.eq_append_cons_of_mem (List.mem_reverse.mpr hmem)
    have hxs : xs = bs.reverse ++ sep :: as.reverse := by
      rw [← List.reverse_reverse xs, hsplit]
      simp
    have hsep : sep ∉ as.reverse := fun h => hnot (List.mem_reverse.mp h)
    obtain ⟨hclosed, hopen⟩ : closedLines sep xs = bs.reverse.splitOn sep ∧
        openLine sep xs = as.reverse := by
      apply lines_of_splitOn
      rw [hxs, List.splitOn_append_cons_self, List.splitOn_eq_singleton hsep]
    rw [hopen, hclosed]
    exact ⟨hsep, .inr ⟨bs.reverse, hxs, rfl⟩⟩
  · obtain ⟨hclosed, hopen⟩ : closedLines sep xs = [] ∧ openLine sep xs = xs :=
      lines_of_splitOn (List.splitOn_eq_singleton hmem)
    rw [hopen, hclosed]
    exact ⟨hmem, .inl ⟨rfl, rfl⟩⟩

/-- Without an end of line the last line goes on. -/
theorem splitOn_append_of_notMem (h : sep ∉ ys) :
    (xs ++ ys).splitOn sep = closedLines sep xs ++ [openLine sep xs ++ ys] := by
  obtain ⟨hopen, ⟨hxs, hclosed⟩ | ⟨before, hxs, hclosed⟩⟩ := exists_openLine sep xs
  · rw [hclosed, List.nil_append, ← hxs]
    rw [← hxs] at hopen
    exact List.splitOn_eq_singleton fun hmem => (List.mem_append.mp hmem).elim hopen h
  · have hlast : sep ∉ openLine sep xs ++ ys :=
      fun hmem => (List.mem_append.mp hmem).elim hopen h
    rw [← hclosed, ← List.splitOn_eq_singleton hlast, ← List.splitOn_append_cons_self]
    congr 1
    rw [← List.cons_append, ← List.append_assoc, ← hxs]

/-- A line is the last one up to its end. -/
theorem splitOn_append_line (xs : List α) (h : sep ∉ ys) :
    (xs ++ (ys ++ [sep])).splitOn sep =
      (closedLines sep xs ++ [openLine sep xs ++ ys]) ++ [[]] := by
  rw [← List.append_assoc, List.splitOn_append_cons_self, splitOn_append_of_notMem h,
    List.splitOn_nil]

/-- What is closed stays. -/
theorem closedLines_append (sep : α) (xs ys : List α) :
    closedLines sep xs <+: closedLines sep (xs ++ ys) := by
  by_cases hmem : sep ∈ ys
  · obtain ⟨as, bs, rfl, hnot⟩ := List.eq_append_cons_of_mem hmem
    have hsplit : (xs ++ (as ++ sep :: bs)).splitOn sep =
        (closedLines sep xs ++ [openLine sep xs ++ as] ++ closedLines sep bs) ++
          [openLine sep bs] := by
      rw [← List.append_assoc, List.splitOn_append_cons_self, splitOn_append_of_notMem hnot,
        splitOn_eq sep bs, List.append_assoc, List.append_assoc, List.append_assoc]
    rw [(lines_of_splitOn hsplit).1, List.append_assoc]
    exact List.prefix_append _ _
  · rw [(lines_of_splitOn (splitOn_append_of_notMem hmem)).1]

end Lines

/-! ## What can be read back -/

namespace LineLog

/-- The records that may be written. -/
def writes (Good : R → Prop) (_ : LineLog α R) : LogLabel R → Prop
  | .write r => Good r
  | .restart _ | .put _ | .spill _ | .flush => True

instance (Good : R → Prop) [DecidablePred Good] (s : LineLog α R) : (a : LogLabel R) →
    Decidable (writes Good s a)
  | .write r => inferInstanceAs (Decidable (Good r))
  | .restart _ | .put _ | .spill _ | .flush => .isTrue trivial

/-! ## A write that is not interrupted -/

section Through

variable {text : R → List α} {s t : LineLog α R} {r : R}

/-- The steps within a write. -/
def within (_ : LineLog α R) : LogLabel R → Prop
  | .put _ | .spill _ | .flush => True
  | .restart _ | .write _ => False

/-- A write under way from `s` on, or its end. -/
def Underway (text : R → List α) (s : LineLog α R) (r : R) (t : LineLog α R) : Prop :=
  match t.current with
  | none => t = { s with file := s.file ++ text r, written := s.written ++ [r] }
  | some w => w.record = r ∧ text r = w.spilled ++ w.buffer ++ w.rest ∧
      t = { s with file := s.file ++ w.spilled, current := some w }

theorem Underway.step {u : LineLog α R} {a : LogLabel R} (hcurrent : s.current = none)
    (h : Underway text s r t) (hok : within t a) (hstep : t.step text a = some u) :
    Underway text s r u := by
  unfold Underway at h
  cases a with
  | restart isOpen => cases hok
  | write r' => cases hok
  | put n =>
    obtain ⟨w, hw, rfl⟩ := Option.map_eq_some_iff.mp hstep
    rw [hw] at h
    obtain ⟨hrecord, htext, rfl⟩ := h
    refine ⟨hrecord, ?_, rfl⟩
    simp only [List.append_assoc, List.take_append_drop]
    rw [htext, List.append_assoc]
  | spill n =>
    obtain ⟨w, hw, rfl⟩ := Option.map_eq_some_iff.mp hstep
    rw [hw] at h
    obtain ⟨hrecord, htext, rfl⟩ := h
    refine ⟨hrecord, ?_, by simp [LineLog.spill]⟩
    simp only [htext, List.append_assoc, List.append_cancel_left_eq]
    rw [← List.append_assoc, List.take_append_drop]
  | flush =>
    obtain ⟨w, hw, hflush⟩ := Option.bind_eq_some_iff.mp hstep
    split at hflush
    · rename_i hrest
      obtain rfl := Option.some.inj hflush
      rw [hw] at h
      obtain ⟨hrecord, htext, rfl⟩ := h
      rw [List.isEmpty_iff.mp hrest, List.append_nil] at htext
      show LineLog.flush _ w = _
      simp only [LineLog.flush, htext, hrecord, hcurrent, List.append_assoc]
    · cases hflush

/-- **A write that comes to its end has appended its text.** -/
theorem write_through (hopen : s.isOpen = true) (hcurrent : s.current = none)
    (hrun : Reaches (LineLog.step text) within (s.write text r) t) (hend : t.current = none) :
    t = { s with file := s.file ++ text r, written := s.written ++ [r] } := by
  have hstart : Underway text s r (s.write text r) := by
    rw [LineLog.write, if_pos hopen]
    exact ⟨rfl, rfl, by simp⟩
  have h := Reaches.invariant hstart
    (fun _ _ _ hu hok hstep => hu.step hcurrent hok hstep) hrun
  unfold Underway at h
  rw [hend] at h
  exact h

end Through

section ReadBack

variable [BEq α] [LawfulBEq α] (sep : α) (text line : R → List α) (Good : R → Prop)

/-- A file between two writes. -/
structure Accounted (file : List α) (written : List R) (interrupted : Nat) : Prop where
  /-- Records are read back but for one at most for each interruption; one that left a torn line
  behind has its record still to come. -/
  read : ∃ read, List.Sublist read written ∧
    List.Sublist (read.map line) (closedLines sep file) ∧
      written.length + (if openLine sep file = [] then 0 else 1) ≤ read.length + interrupted
  exact : interrupted = 0 → closedLines sep file = written.map line ∧ openLine sep file = []
  good : ∀ r ∈ written, Good r

/-- The file at any time. -/
def Kept (s : LineLog α R) : Prop :=
  match s.current with
  | none => Accounted sep line Good s.file s.written s.interrupted
  | some w => ∃ before, s.file = before ++ w.spilled ∧
      text w.record = w.spilled ++ w.buffer ++ w.rest ∧ Good w.record ∧
        Accounted sep line Good before s.written s.interrupted

variable {sep text line Good}

omit [LawfulBEq α] in
theorem accounted_nil : Accounted sep line Good ([] : List α) ([] : List R) 0 := by
  obtain ⟨hclosed, hopen⟩ : closedLines sep ([] : List α) = [] ∧ openLine sep ([] : List α) = [] :=
    lines_of_splitOn (List.splitOn_nil sep)
  constructor
  case read =>
    refine ⟨[], List.Sublist.refl _, by simp [hclosed], ?_⟩
    rw [if_pos hopen]
  case exact => exact fun _ => ⟨hclosed, hopen⟩
  case good => exact fun _ hr => nomatch hr

variable {file : List α} {written : List R} {interrupted : Nat}

/-- An interrupted write leaves something behind, or nothing. -/
theorem Accounted.interrupt (h : Accounted sep line Good file written interrupted) (left : List α) :
    Accounted sep line Good (file ++ left) written (interrupted + 1) := by
  obtain ⟨read, hread, hlines, hcount⟩ := h.read
  constructor
  case read =>
    refine ⟨read, hread, hlines.trans (closedLines_append sep file left).sublist, ?_⟩
    have hless : (if openLine sep (file ++ left) = [] then 0 else 1) ≤ 1 := by split <;> omega
    omega
  case exact => exact fun hzero => absurd hzero (Nat.succ_ne_zero _)
  case good => exact h.good

/-- A whole record. -/
theorem Accounted.flush (h : Accounted sep line Good file written interrupted) {r : R}
    (hgood : Good r) (hline : sep ∉ line r) :
    Accounted sep line Good (file ++ (line r ++ [sep])) (written ++ [r]) interrupted := by
  obtain ⟨read, hread, hlines, hcount⟩ := h.read
  obtain ⟨hclosed, hopen⟩ := lines_of_splitOn (splitOn_append_line file hline)
  constructor
  case read =>
    by_cases hbegin : openLine sep file = []
    · rw [if_pos hbegin] at hcount
      refine ⟨read ++ [r], hread.append (List.Sublist.refl _), ?_, ?_⟩
      · rw [hclosed, hbegin, List.map_append]
        exact hlines.append (List.Sublist.refl _)
      · rw [if_pos hopen]
        simp only [List.length_append, List.length_singleton]
        omega
    · rw [if_neg hbegin] at hcount
      refine ⟨read, hread.trans (List.sublist_append_left _ _), ?_, ?_⟩
      · rw [hclosed]
        exact hlines.trans (List.sublist_append_left _ _)
      · rw [if_pos hopen, List.length_append, List.length_singleton]
        omega
  case exact =>
    intro hzero
    obtain ⟨hbefore, hbegin⟩ := h.exact hzero
    refine ⟨?_, hopen⟩
    rw [hclosed, hbefore, hbegin, List.map_append]
    rfl
  case good => exact List.forall_mem_append.mpr ⟨h.good, List.forall_mem_singleton.mpr hgood⟩

variable (htext : ∀ r, Good r → text r = line r ++ [sep]) (hline : ∀ r, Good r → sep ∉ line r)
include htext hline

theorem Kept.step {s t : LineLog α R} {a : LogLabel R} (h : s.Kept sep text line Good)
    (hok : writes Good s a) (hstep : s.step text a = some t) : t.Kept sep text line Good := by
  unfold Kept at h
  cases a with
  | restart isOpen =>
    obtain rfl := Option.some.inj hstep
    split at h
    case h_1 hcurrent => simpa [Kept, LineLog.restart, hcurrent] using h
    case h_2 w hcurrent =>
      obtain ⟨before, hfile, -, -, haccounted⟩ := h
      simpa [Kept, LineLog.restart, hcurrent, hfile] using haccounted.interrupt w.spilled
  | write r =>
    split at h
    case h_1 hcurrent =>
      simp only [LineLog.step, hcurrent, Option.isSome_none, Bool.false_eq_true, if_false,
        Option.some.injEq] at hstep
      subst hstep
      unfold LineLog.write
      split
      · exact ⟨s.file, (List.append_nil _).symm, rfl, hok, h⟩
      · simpa [Kept, hcurrent] using h
    case h_2 hcurrent => simp [LineLog.step, hcurrent] at hstep
  | put n =>
    obtain ⟨w, hcurrent, rfl⟩ := Option.map_eq_some_iff.mp hstep
    rw [hcurrent] at h
    obtain ⟨before, hfile, hrecord, hgood, haccounted⟩ := h
    refine ⟨before, hfile, ?_, hgood, haccounted⟩
    simp only [List.append_assoc, List.take_append_drop]
    rw [hrecord, List.append_assoc]
  | spill n =>
    obtain ⟨w, hcurrent, rfl⟩ := Option.map_eq_some_iff.mp hstep
    rw [hcurrent] at h
    obtain ⟨before, hfile, hrecord, hgood, haccounted⟩ := h
    refine ⟨before, ?_, ?_, hgood, haccounted⟩
    · simp only [LineLog.spill, hfile, List.append_assoc]
    · simp only [hrecord, List.append_assoc, List.append_cancel_left_eq]
      rw [← List.append_assoc, List.take_append_drop]
  | flush =>
    obtain ⟨w, hcurrent, hflush⟩ := Option.bind_eq_some_iff.mp hstep
    split at hflush
    · rename_i hrest
      obtain rfl := Option.some.inj hflush
      rw [hcurrent] at h
      obtain ⟨before, hfile, hrecord, hgood, haccounted⟩ := h
      rw [List.isEmpty_iff.mp hrest, List.append_nil, htext _ hgood] at hrecord
      have hflushed := haccounted.flush hgood (hline _ hgood)
      rw [hrecord, ← List.append_assoc, ← hfile] at hflushed
      exact hflushed
    · cases hflush

theorem Kept.run {s t : LineLog α R} (h : s.Kept sep text line Good)
    (hrun : Reaches (LineLog.step text) (writes Good) s t) : t.Kept sep text line Good :=
  Reaches.invariant h (fun _ _ _ hu hok hstep => hu.step htext hline hok hstep) hrun

omit [BEq α] [LawfulBEq α] htext hline in
/-- Nothing is taken out of the file. -/
theorem file_prefix {s t : LineLog α R} (hrun : Reaches (LineLog.step text) (writes Good) s t) :
    s.file <+: t.file := by
  refine Reaches.invariant (I := fun u => s.file <+: u.file) (List.prefix_refl _) ?_ hrun
  intro u a v hu _ hstep
  refine hu.trans ?_
  cases a with
  | restart isOpen =>
    obtain rfl := Option.some.inj hstep
    exact List.prefix_refl _
  | write r =>
    simp only [LineLog.step] at hstep
    split at hstep
    · cases hstep
    · obtain rfl := Option.some.inj hstep
      unfold LineLog.write
      split <;> exact List.prefix_refl _
  | put n =>
    obtain ⟨w, -, rfl⟩ := Option.map_eq_some_iff.mp hstep
    exact List.prefix_refl _
  | spill n =>
    obtain ⟨w, -, rfl⟩ := Option.map_eq_some_iff.mp hstep
    exact List.prefix_append _ _
  | flush =>
    obtain ⟨w, -, hflush⟩ := Option.bind_eq_some_iff.mp hstep
    split at hflush
    · obtain rfl := Option.some.inj hflush
      exact List.prefix_append _ _
    · cases hflush

variable (sep text Good) in
/-- What a reader of the file gets. -/
structure ReadBack {J : Type} (parse : List α → Option J) (json : R → J) (s : LineLog α R) :
    Prop where
  /-- At most one record is lost for each write that was interrupted. -/
  read : ∃ read, List.Sublist read s.written ∧
    List.Sublist (read.map json) ((closedLines sep s.file).filterMap parse) ∧
      s.written.length ≤ read.length + s.interrupted
  /-- Without an interruption the lines are the records. -/
  exact : s.interrupted = 0 →
    s.written.map (fun r => some (json r)) <+: (closedLines sep s.file).map parse
  /-- What stands in the log stays there. -/
  stays : ∀ t, Reaches (LineLog.step text) (writes Good) s t →
    closedLines sep s.file <+: closedLines sep t.file

/-- **A log is read back.** -/
theorem readBack {J : Type} {parse : List α → Option J} {json : R → J}
    (hparse : ∀ r, Good r → parse (line r) = some (json r)) {s : LineLog α R}
    (hrun : Reaches (LineLog.step text) (writes Good) initial s) :
    s.ReadBack sep text Good parse json := by
  have hinitial : (initial : LineLog α R).Kept sep text line Good := by
    show Accounted sep line Good [] [] 0
    exact accounted_nil
  have h := hinitial.run htext hline hrun
  obtain ⟨before, hbefore, haccounted⟩ : ∃ before, before <+: s.file ∧
      Accounted sep line Good before s.written s.interrupted := by
    unfold Kept at h
    split at h
    · exact ⟨s.file, List.prefix_refl _, h⟩
    · obtain ⟨before, hfile, -, -, haccounted⟩ := h
      exact ⟨before, hfile ▸ List.prefix_append _ _, haccounted⟩
  obtain ⟨left, hleft⟩ := hbefore
  have hclosed : closedLines sep before <+: closedLines sep s.file :=
    hleft ▸ closedLines_append sep before left
  constructor
  case read =>
    obtain ⟨read, hread, hlines, hcount⟩ := haccounted.read
    refine ⟨read, hread, ?_, by omega⟩
    have hsub := (hlines.trans hclosed.sublist).filterMap parse
    have hjson : (read.map line).filterMap parse = read.map json := by
      rw [List.filterMap_map, ← List.filterMap_eq_map]
      apply List.filterMap_congr
      exact fun r hr => hparse r (haccounted.good r (hread.subset hr))
    rwa [hjson] at hsub
  case exact =>
    intro hzero
    have hmap := hclosed.map parse
    rw [(haccounted.exact hzero).1, List.map_map] at hmap
    have hjson : s.written.map (parse ∘ line) = s.written.map fun r => some (json r) :=
      List.map_congr_left fun r hr => hparse r (haccounted.good r hr)
    rwa [hjson] at hmap
  case stays =>
    intro t hrun
    obtain ⟨more, hmore⟩ := file_prefix hrun
    exact hmore ▸ closedLines_append sep s.file more

end ReadBack

end LineLog

end EdgeVision.Lib
