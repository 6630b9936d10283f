import EdgeVision.Common.FileUtils

/-!
# Does the directory exist afterwards?

`ensureDirectory` makes the components of a path one after the other (`makeAll`), whatever slashes
the path has. It stops where a component cannot be made, but takes an entry that is there for a
directory: a path whose last component is a regular file is reported as a directory, and this is the
only case in which the report is wrong (`ensure_directory_iff`).
-/

namespace EdgeVision

open Lib FileSystem

/-- What has become of a path: all its components are directories, the last one is a file, or one of
them could not be made. -/
inductive Made where
  | directories
  | blocked
  | failed
  deriving DecidableEq, Repr

section

variable (fs : FileSystem) (start : Node)

open Classical in
/-- Making the last component of a path whose others have been made. -/
noncomputable def makeLast (comps : List Name) : Made × FileSystem :=
  if fs.AllDirectories start comps then (.directories, fs)
  else
    match fs.mkdirAt start comps with
    | .ok made => (.directories, made)
    | .error errno => (if errno = .eexist then .blocked else .failed, fs)

/-- Making the components of a path, the last one first in the list. -/
noncomputable def makeAll : List Name → Made × FileSystem
  | [] => (.directories, fs)
  | name :: earlier =>
    if (makeAll earlier).1 = .failed then makeAll earlier
    else makeLast (makeAll earlier).2 start (name :: earlier)

/-- The components are directories or can be made ones. -/
def CanMake : List Name → Prop
  | [] => True
  | name :: earlier =>
    CanMake earlier ∧
      (fs.entry (visit start (name :: earlier)) = some .directory ∨
        fs.entry (visit start (name :: earlier)) = none ∧
          fs.denied (visit start (name :: earlier)) = false)

/-- The last component is a regular file, and the way to it is free. -/
def EndsInFile : List Name → Prop
  | [] => False
  | name :: earlier =>
    CanMake fs start earlier ∧ fs.entry (visit start (name :: earlier)) = some .file

/-- Directories have been made on a path, and nothing else has changed. -/
structure OnlyMade (comps : List Name) (made : FileSystem) : Prop where
  cwd : made.cwd = fs.cwd
  denied : made.denied = fs.denied
  entry : ∀ node, made.entry node = fs.entry node ∨
    made.entry node = some .directory ∧ fs.entry node = none ∧ fs.denied node = false ∧
      ∃ earlier, earlier.IsSuffix comps ∧ node = visit start earlier

end

section Making

variable {fs made : FileSystem} {start : Node} {name : Name} {earlier comps : List Name}

theorem makeLast_of_all (h : fs.AllDirectories start comps) :
    makeLast fs start comps = (.directories, fs) := if_pos h

theorem makeLast_of_not (hstart : fs.entry start = some .directory)
    (h : ¬ fs.AllDirectories start earlier) (name : Name) :
    makeLast fs start (name :: earlier) = (.failed, fs) := by
  obtain ⟨errno, herror, hne⟩ := mkdirAt_of_not hstart h name
  have hnot : ¬ fs.AllDirectories start (name :: earlier) := fun hall => h hall.1
  rw [makeLast, if_neg hnot, herror]
  simp only [if_neg hne]

theorem makeLast_of_file (hearlier : fs.AllDirectories start earlier)
    (h : fs.entry (visit start (name :: earlier)) = some .file) :
    makeLast fs start (name :: earlier) = (.blocked, fs) := by
  have hnot : ¬ fs.AllDirectories start (name :: earlier) := by
    intro hall
    have hlast := hall.2
    rw [h] at hlast
    cases hlast
  rw [makeLast, if_neg hnot, mkdirAt_of_some hearlier (by rw [h]; exact Option.some_ne_none _)]
  rfl

theorem makeLast_of_none (hearlier : fs.AllDirectories start earlier)
    (h : fs.entry (visit start (name :: earlier)) = none) :
    makeLast fs start (name :: earlier) =
      if fs.denied (visit start (name :: earlier)) then (.failed, fs)
      else (.directories, fs.create name (visit start earlier) hearlier.last) := by
  have hnot : ¬ fs.AllDirectories start (name :: earlier) := by
    intro hall
    have hlast := hall.2
    rw [h] at hlast
    cases hlast
  rw [makeLast, if_neg hnot, mkdirAt_of_none hearlier h]
  by_cases hdenied : fs.denied (visit start (name :: earlier)) = true
  · simp [hdenied]
  · simp [hdenied]

/-- Directories stay directories. -/
theorem OnlyMade.directory (h : OnlyMade fs start comps made) {node : Node}
    (hnode : fs.entry node = some .directory) : made.entry node = some .directory := by
  rcases h.entry node with heq | ⟨hnew, -⟩
  · rw [heq, hnode]
  · exact hnew

theorem OnlyMade.all (h : OnlyMade fs start comps made) {other : List Name}
    (hall : fs.AllDirectories start other) : made.AllDirectories start other := by
  induction other with
  | nil => exact h.directory hall
  | cons name earlier ih => exact ⟨ih hall.1, h.directory hall.2⟩

theorem OnlyMade.refl (fs : FileSystem) (start : Node) (comps : List Name) :
    OnlyMade fs start comps fs := ⟨rfl, rfl, fun _ => .inl rfl⟩

theorem OnlyMade.trans {last : FileSystem} (h : OnlyMade fs start earlier made)
    (hlast : OnlyMade made start (name :: earlier) last) :
    OnlyMade fs start (name :: earlier) last := by
  refine ⟨hlast.cwd.trans h.cwd, hlast.denied.trans h.denied, fun node => ?_⟩
  rcases h.entry node with hsame | ⟨hnew, habsent, hallowed, comps, hsuffix, rfl⟩
  · have hnode := hlast.entry node
    rw [hsame, h.denied] at hnode
    exact hnode
  · rcases hlast.entry (visit start comps) with hkept | ⟨-, hnone, -⟩
    · exact .inr ⟨hkept.trans hnew, habsent, hallowed, comps,
        hsuffix.trans (List.suffix_cons name earlier), rfl⟩
    · rw [hnew] at hnone
      cases hnone

theorem makeLast_onlyMade (hstart : fs.entry start = some .directory) (name : Name)
    (earlier : List Name) :
    OnlyMade fs start (name :: earlier) (makeLast fs start (name :: earlier)).2 := by
  by_cases hearlier : fs.AllDirectories start earlier
  · cases hentry : fs.entry (visit start (name :: earlier)) with
    | some entry =>
      cases entry with
      | directory =>
        have hall : fs.AllDirectories start (name :: earlier) := ⟨hearlier, hentry⟩
        rw [makeLast_of_all hall]
        exact .refl _ _ _
      | file =>
        rw [makeLast_of_file hearlier hentry]
        exact .refl _ _ _
    | none =>
      rw [makeLast_of_none hearlier hentry]
      split
      · exact .refl _ _ _
      · rename_i hallowed
        have hnode := (visit_of_none hearlier hentry).2
        refine ⟨rfl, rfl, fun node => ?_⟩
        rw [entry_create]
        split
        · rename_i heq
          refine .inr ⟨rfl, ?_, ?_, name :: earlier, List.suffix_refl _, ?_⟩
          · rw [heq, ← hnode, hentry]
          · rw [heq, ← hnode]
            simpa using hallowed
          · rw [heq, hnode]
        · exact .inl rfl
  · rw [makeLast_of_not hstart hearlier]
    exact .refl _ _ _

theorem makeAll_onlyMade (hstart : fs.entry start = some .directory) (comps : List Name) :
    OnlyMade fs start comps (makeAll fs start comps).2 := by
  induction comps with
  | nil => exact .refl _ _ _
  | cons name earlier ih =>
    have hkept : (makeAll fs start earlier).2.entry start = some .directory :=
      ih.directory hstart
    unfold makeAll
    split
    · exact ih.trans (.refl _ _ _)
    · exact ih.trans (makeLast_onlyMade hkept name earlier)

/-- What an outcome says of the file system afterwards. -/
def Made.Holds (fs : FileSystem) (start : Node) (comps : List Name) : Made → Prop
  | directories => fs.AllDirectories start comps
  | blocked => ∃ name earlier, comps = name :: earlier ∧ fs.AllDirectories start earlier ∧
      fs.entry (visit start comps) = some .file
  | failed => ¬ fs.AllDirectories start comps

theorem makeLast_holds (hstart : fs.entry start = some .directory) (name : Name)
    (earlier : List Name) :
    (makeLast fs start (name :: earlier)).1.Holds (makeLast fs start (name :: earlier)).2 start
      (name :: earlier) := by
  by_cases hearlier : fs.AllDirectories start earlier
  · cases hentry : fs.entry (visit start (name :: earlier)) with
    | some entry =>
      cases entry with
      | directory =>
        have hall : fs.AllDirectories start (name :: earlier) := ⟨hearlier, hentry⟩
        rw [makeLast_of_all hall]
        exact hall
      | file =>
        rw [makeLast_of_file hearlier hentry]
        exact ⟨name, earlier, rfl, hearlier, hentry⟩
    | none =>
      have hmade := makeLast_onlyMade hstart name earlier
      have hnode := (visit_of_none hearlier hentry).2
      rw [makeLast_of_none hearlier hentry] at hmade ⊢
      split
      · intro hall
        have hlast := hall.2
        rw [hentry] at hlast
        cases hlast
      · rename_i hallowed
        rw [if_neg hallowed] at hmade
        refine ⟨hmade.all hearlier, ?_⟩
        rw [entry_create, if_pos hnode]
  · rw [makeLast_of_not hstart hearlier]
    exact fun hall => hearlier hall.1

theorem makeAll_holds (hstart : fs.entry start = some .directory) (comps : List Name) :
    (makeAll fs start comps).1.Holds (makeAll fs start comps).2 start comps := by
  induction comps with
  | nil => exact hstart
  | cons name earlier ih =>
    have hkept : (makeAll fs start earlier).2.entry start = some .directory :=
      (makeAll_onlyMade hstart earlier).directory hstart
    unfold makeAll
    split
    · rename_i hfailed
      rw [hfailed] at ih ⊢
      exact fun hall => ih hall.1
    · exact makeLast_holds hkept name earlier

/-- What has been made stays as it is when it is made again. -/
theorem makeLast_again {outcome : Made} (hholds : outcome.Holds fs start comps)
    (hmade : outcome ≠ .failed) : makeLast fs start comps = (outcome, fs) := by
  cases outcome with
  | directories => exact makeLast_of_all hholds
  | blocked =>
    obtain ⟨name, earlier, rfl, hearlier, hfile⟩ := hholds
    exact makeLast_of_file hearlier hfile
  | failed => exact absurd rfl hmade

/-- Behind components that could not all be made. -/
theorem makeAll_cons_of_ne (hstart : fs.entry start = some .directory)
    (h : (makeAll fs start earlier).1 ≠ .directories) (name : Name) :
    (makeAll fs start (name :: earlier)).1 = .failed := by
  have hholds := makeAll_holds hstart earlier
  have hkept : (makeAll fs start earlier).2.entry start = some .directory :=
    (makeAll_onlyMade hstart earlier).directory hstart
  unfold makeAll
  cases hearlier : (makeAll fs start earlier).1 with
  | directories => exact absurd hearlier h
  | failed => rw [if_pos rfl, hearlier]
  | blocked =>
    rw [hearlier] at hholds
    have hnot : ¬ (makeAll fs start earlier).2.AllDirectories start earlier := by
      intro hall
      obtain ⟨-, -, -, -, hfile⟩ := hholds
      rw [hall.last] at hfile
      cases hfile
    rw [if_neg (by decide), makeLast_of_not hkept hnot]

/-- What becomes of the last component can be told from the file system before. -/
theorem makeAll_cons_of_directories (hstart : fs.entry start = some .directory)
    (h : (makeAll fs start earlier).1 = .directories) (name : Name) :
    (makeAll fs start (name :: earlier)).1 =
      match fs.entry (visit start (name :: earlier)) with
      | some .directory => .directories
      | some .file => .blocked
      | none => if fs.denied (visit start (name :: earlier)) then .failed else .directories := by
  have hholds := makeAll_holds hstart earlier
  have hmade := makeAll_onlyMade hstart earlier
  rw [h] at hholds
  have hcons : makeAll fs start (name :: earlier) =
      makeLast (makeAll fs start earlier).2 start (name :: earlier) := by
    rw [makeAll, if_neg (by rw [h]; decide)]
  rw [hcons]
  generalize (makeAll fs start earlier).2 = made at hholds hmade ⊢
  have hearlier : made.AllDirectories start earlier := hholds
  rcases hmade.entry (visit start (name :: earlier)) with hsame | ⟨hnew, habsent, hallowed, -⟩
  · rw [← hsame, ← hmade.denied]
    cases hentry : made.entry (visit start (name :: earlier)) with
    | some entry =>
      cases entry with
      | directory =>
        have hall : made.AllDirectories start (name :: earlier) := ⟨hearlier, hentry⟩
        rw [makeLast_of_all hall]
      | file => rw [makeLast_of_file hearlier hentry]
    | none =>
      rw [makeLast_of_none hearlier hentry]
      simp only
      split <;> rfl
  · have hall : made.AllDirectories start (name :: earlier) := ⟨hearlier, hnew⟩
    rw [makeLast_of_all hall, habsent]
    simp only [hallowed, Bool.false_eq_true, if_false]

theorem makeAll_directories_iff (hstart : fs.entry start = some .directory) (comps : List Name) :
    (makeAll fs start comps).1 = .directories ↔ CanMake fs start comps := by
  induction comps with
  | nil => exact iff_of_true rfl trivial
  | cons name earlier ih =>
    by_cases hearlier : (makeAll fs start earlier).1 = .directories
    · rw [makeAll_cons_of_directories hstart hearlier, CanMake, and_iff_right (ih.mp hearlier)]
      cases fs.entry (visit start (name :: earlier)) with
      | none => cases fs.denied (visit start (name :: earlier)) <;> simp
      | some entry => cases entry <;> simp
    · rw [makeAll_cons_of_ne hstart hearlier]
      exact iff_of_false (by decide) fun h => hearlier (ih.mpr h.1)

theorem makeAll_blocked_iff (hstart : fs.entry start = some .directory) (comps : List Name) :
    (makeAll fs start comps).1 = .blocked ↔ EndsInFile fs start comps := by
  cases comps with
  | nil => exact iff_of_false (fun h => by cases h) id
  | cons name earlier =>
    rw [EndsInFile, ← makeAll_directories_iff hstart]
    by_cases hearlier : (makeAll fs start earlier).1 = .directories
    · rw [makeAll_cons_of_directories hstart hearlier, and_iff_right hearlier]
      cases fs.entry (visit start (name :: earlier)) with
      | none => cases fs.denied (visit start (name :: earlier)) <;> simp
      | some entry => cases entry <;> simp
    · rw [makeAll_cons_of_ne hstart hearlier]
      exact iff_of_false (by decide) fun h => hearlier h.1

/-- A path that is a directory is left alone. -/
theorem makeAll_of_all (h : fs.AllDirectories start comps) :
    makeAll fs start comps = (.directories, fs) := by
  induction comps with
  | nil => rfl
  | cons name earlier ih =>
    rw [makeAll, ih h.1, if_neg (by simp), makeLast_of_all h]

/-- A failure is the outcome of every longer path. -/
theorem makeAll_of_suffix (hsuffix : earlier.IsSuffix comps)
    (h : (makeAll fs start earlier).1 = .failed) :
    makeAll fs start comps = makeAll fs start earlier := by
  obtain ⟨more, rfl⟩ := hsuffix
  induction more with
  | nil => rfl
  | cons name more ih => rw [List.cons_append, makeAll, ih, if_pos h]

end Making

/-! ## The loop -/

/-- What the code tells of an outcome. -/
def report (made : Made × FileSystem) : Bool × FileSystem := (made.1 != .failed, made.2)

section Loop

variable {fs made : FileSystem} {path : List Char}

theorem directoryExists_iff (hpath : path ≠ []) :
    directoryExists fs path = true ↔ fs.AllDirectories (fs.startOf path) (components path) := by
  rw [← stat_eq_directory hpath, directoryExists]
  split
  · rename_i h
    simp [h]
  · rename_i h
    exact iff_of_false (by decide) h

theorem makeMissing_eq (hpath : path ≠ []) :
    makeMissing fs path = report (makeLast fs (fs.startOf path) (components path)) := by
  unfold makeMissing makeLast
  by_cases hall : fs.AllDirectories (fs.startOf path) (components path)
  · rw [if_pos ((directoryExists_iff hpath).mpr hall), if_pos hall]
    rfl
  · rw [if_neg (fun h => hall ((directoryExists_iff hpath).mp h)), if_neg hall, mkdir, if_neg hpath]
    cases fs.mkdirAt (fs.startOf path) (components path) with
    | ok made => rfl
    | error errno => cases errno <;> rfl

/-- Reading on makes at most one more component. -/
theorem components_concat (current : List Char) (ch : Char) :
    components (current ++ [ch]) = (Scan.path current).closed ∨
      ∃ name, components (current ++ [ch]) = name :: (Scan.path current).closed := by
  rw [components, Scan.path_concat, Scan.char]
  by_cases hslash : ch = '/'
  · rw [if_pos hslash]
    by_cases hname : (Scan.path current).name = []
    · exact .inl (by simp [Scan.components, hname])
    · exact .inr ⟨(Scan.path current).name, by simp [Scan.components, hname]⟩
  · rw [if_neg hslash]
    exact .inr ⟨(Scan.path current).name ++ [ch], by simp [Scan.components]⟩

theorem startOf_append (fs : FileSystem) {current : List Char} (h : current ≠ [])
    (rest : List Char) : fs.startOf (current ++ rest) = fs.startOf current := by
  cases current with
  | nil => exact absurd rfl h
  | cons ch current =>
    by_cases hslash : ch = '/'
    · subst hslash
      rfl
    · simp [startOf, hslash]

theorem startOf_congr (h : made.cwd = fs.cwd) (path : List Char) :
    made.startOf path = fs.startOf path := by
  unfold startOf
  split
  · rfl
  · exact h

theorem closed_suffix_components (current : List Char) :
    (Scan.path current).closed.IsSuffix (components current) := by
  rw [components, Scan.components]
  split
  · exact List.suffix_refl _
  · exact List.suffix_cons _ _

theorem closed_suffix (current rest : List Char) :
    (Scan.path current).closed.IsSuffix (components (current ++ rest)) := by
  induction rest generalizing current with
  | nil =>
    rw [List.append_nil]
    exact closed_suffix_components current
  | cons ch rest ih =>
    have hmore := ih (current ++ [ch])
    rw [List.append_assoc, List.singleton_append] at hmore
    refine List.IsSuffix.trans ?_ hmore
    rw [Scan.path_concat, Scan.char]
    split
    · exact closed_suffix_components current
    · exact List.suffix_refl _

theorem makeMissing_root (fs : FileSystem) : makeMissing fs ['/'] = (true, fs) := by
  have hroot : directoryExists fs ['/'] = true :=
    (directoryExists_iff (by decide)).mpr fs.root_directory
  rw [makeMissing, if_pos hroot]

/-- At a slash and at the end a directory is made; the root, which the code leaves out, exists. -/
theorem ensurePrefixes_cons {ch : Char} {rest : List Char} (h : ch = '/' ∨ rest = [])
    (made : FileSystem) (current : List Char) :
    ensurePrefixes made current (ch :: rest) =
      if (makeMissing made (current ++ [ch])).1 then
        ensurePrefixes (makeMissing made (current ++ [ch])).2 (current ++ [ch]) rest
      else (false, (makeMissing made (current ++ [ch])).2) := by
  have hevent : ¬ (ch ≠ '/' ∧ rest ≠ []) := by
    rintro ⟨hslash, hrest⟩
    exact h.elim hslash hrest
  rw [ensurePrefixes, if_neg hevent]
  split
  · rename_i hroot
    rw [hroot, makeMissing_root, if_pos rfl]
  · split
    · rename_i heq
      rw [heq, if_neg (by simp)]
    · rename_i heq
      rw [heq, if_pos rfl]

/-- Making a prefix of a path whose complete components have been made. -/
theorem makeMissing_prefix {current : List Char} {ch : Char} {rest : List Char} {outcome : Made}
    (hpath : path = current ++ ch :: rest)
    (hmake : makeAll fs (fs.startOf path) (Scan.path current).closed = (outcome, made))
    (hmade : outcome ≠ .failed) :
    makeMissing made (current ++ [ch]) =
      report (makeAll fs (fs.startOf path) (components (current ++ [ch]))) := by
  have hfirst := startOf_directory fs path
  have hne : current ++ [ch] ≠ [] := by simp
  have honly := makeAll_onlyMade hfirst (Scan.path current).closed
  have hholds := makeAll_holds hfirst (Scan.path current).closed
  rw [hmake] at honly hholds
  have hstart : made.startOf (current ++ [ch]) = fs.startOf path := by
    have hsplit : current ++ ch :: rest = (current ++ [ch]) ++ rest := by simp
    rw [startOf_congr honly.cwd, hpath, hsplit, startOf_append fs hne]
  rw [makeMissing_eq hne, hstart]
  rcases components_concat current ch with hsame | ⟨name, hmore⟩
  · rw [hsame, makeLast_again hholds hmade, hmake]
  · rw [hmore, makeAll, hmake, if_neg hmade]

/-- **The loop** makes the components of the path one after the other. -/
theorem ensurePrefixes_eq {rest : List Char} (hrest : rest ≠ []) {current : List Char}
    {outcome : Made} (hpath : path = current ++ rest)
    (hmake : makeAll fs (fs.startOf path) (Scan.path current).closed = (outcome, made))
    (hmade : outcome ≠ .failed) :
    ensurePrefixes made current rest =
      report (makeAll fs (fs.startOf path) (components path)) := by
  induction rest generalizing current made outcome with
  | nil => exact absurd rfl hrest
  | cons ch rest ih =>
    have hnext : path = (current ++ [ch]) ++ rest := by simp [hpath]
    by_cases hevent : ch = '/' ∨ rest = []
    · have hprefix := makeMissing_prefix hpath hmake hmade
      rw [ensurePrefixes_cons hevent, hprefix]
      -- the components that are complete now are those that have just been made
      have hclosed (hmore : rest ≠ []) :
          (Scan.path (current ++ [ch])).closed = components (current ++ [ch]) := by
        obtain rfl := hevent.resolve_right hmore
        simp [components, Scan.path_concat, Scan.char, Scan.components]
      by_cases hfailed : (makeAll fs (fs.startOf path) (components (current ++ [ch]))).1 = .failed
      · have hall : makeAll fs (fs.startOf path) (components path) =
            makeAll fs (fs.startOf path) (components (current ++ [ch])) := by
          by_cases hmore : rest = []
          · rw [hmore, List.append_nil] at hnext
            rw [← hnext]
          · have hsuffix := closed_suffix (current ++ [ch]) rest
            rw [hclosed hmore, ← hnext] at hsuffix
            exact makeAll_of_suffix hsuffix hfailed
        rw [hall]
        simp [report, hfailed]
      · have htrue : (report (makeAll fs (fs.startOf path) (components (current ++ [ch])))).1 =
            true := by simpa [report] using hfailed
        rw [if_pos htrue]
        by_cases hmore : rest = []
        · subst hmore
          rw [List.append_nil] at hnext
          subst hnext
          exact Prod.ext htrue.symm rfl
        · refine ih hmore hnext ?_ hfailed
          rw [hclosed hmore]
          rfl
    · obtain ⟨hslash, hmore⟩ := not_or.mp hevent
      rw [ensurePrefixes, if_pos ⟨hslash, hmore⟩]
      refine ih hmore hnext ?_ hmade
      rw [Scan.path_concat, Scan.char, if_neg hslash]
      exact hmake

/-- `ensureDirectory` makes the components of the path. -/
theorem ensureDirectory_eq (hpath : path ≠ []) :
    ensureDirectory fs path = report (makeAll fs (fs.startOf path) (components path)) := by
  have hfirst := startOf_directory fs path
  have hthere (hall : fs.AllDirectories (fs.startOf path) (components path)) :
      report (makeAll fs (fs.startOf path) (components path)) = (true, fs) := by
    rw [makeAll_of_all hall]
    rfl
  unfold ensureDirectory
  split
  · rename_i hdot
    obtain rfl := hdot.resolve_left hpath
    exact (hthere ⟨fs.cwd_directory, fs.cwd_directory⟩).symm
  · split
    · rename_i hexists
      exact (hthere ((directoryExists_iff hpath).mp hexists)).symm
    · have hloop : ensurePrefixes fs [] path =
          report (makeAll fs (fs.startOf path) (components path)) :=
        ensurePrefixes_eq hpath rfl rfl (by decide)
      have hholds := makeAll_holds hfirst (components path)
      have honly := makeAll_onlyMade hfirst (components path)
      rw [hloop]
      generalize makeAll fs (fs.startOf path) (components path) = made at hholds honly
      by_cases hfailed : made.1 = .failed
      · simp [report, hfailed]
      · -- the second attempt finds what the loop has left
        have hagain : makeMissing made.2 path = report made := by
          rw [makeMissing_eq hpath, startOf_congr honly.cwd, makeLast_again hholds hfailed]
        have htrue : report made = (true, made.2) := by simp [report, hfailed]
        rw [htrue] at hagain ⊢
        exact hagain

end Loop

/-! ## What the report says -/

/-- A path, and every node that it passes, is a directory. -/
structure IsDirectory (fs : FileSystem) (path : List Char) : Prop where
  stat : fs.stat path = .ok .directory
  ancestors : ∀ earlier, earlier.IsSuffix (components path) →
    fs.entry (visit (fs.startOf path) earlier) = some .directory

/-- A report that is true of the file system afterwards, which has got directories on the path and
nothing else. -/
structure TellsTruth (fs : FileSystem) (path : List Char) (result : Bool × FileSystem) : Prop where
  made : result.1 = true → IsDirectory result.2 path
  not_made : result.1 = false → result.2.stat path ≠ .ok .directory
  changes : OnlyMade fs (fs.startOf path) (components path) result.2

theorem all_of_suffix {fs : FileSystem} {start : Node} {earlier comps : List Name}
    (hsuffix : earlier.IsSuffix comps) (h : fs.AllDirectories start comps) :
    fs.AllDirectories start earlier := by
  obtain ⟨more, rfl⟩ := hsuffix
  induction more with
  | nil => exact h
  | cons name more ih => exact ih h.1

section Truth

variable {fs : FileSystem} {path : List Char}

theorem tellsTruth_iff (hpath : path ≠ []) :
    TellsTruth fs path (report (makeAll fs (fs.startOf path) (components path))) ↔
      ¬ EndsInFile fs (fs.startOf path) (components path) := by
  have hfirst := startOf_directory fs path
  have hholds := makeAll_holds hfirst (components path)
  have honly := makeAll_onlyMade hfirst (components path)
  rw [← makeAll_blocked_iff hfirst]
  generalize makeAll fs (fs.startOf path) (components path) = made at hholds honly
  obtain ⟨outcome, made⟩ := made
  have hstat : made.stat path = .ok .directory ↔
      made.AllDirectories (fs.startOf path) (components path) := by
    rw [stat_eq_directory hpath, startOf_congr honly.cwd]
  cases outcome with
  | directories =>
    refine iff_of_true ⟨fun _ => ⟨hstat.mpr hholds, ?_⟩, fun h => (by cases h), honly⟩ (by simp)
    intro earlier hsuffix
    have hlast := (all_of_suffix hsuffix hholds).last
    rwa [← startOf_congr honly.cwd] at hlast
  | blocked =>
    refine iff_of_false (fun htruth => ?_) (by simp)
    obtain ⟨-, -, -, -, hfile⟩ := hholds
    have hall := hstat.mp (htruth.made rfl).stat
    rw [hall.last] at hfile
    cases hfile
  | failed =>
    exact iff_of_true ⟨fun h => (by cases h), fun _ h => hholds (hstat.mp h), honly⟩ (by simp)

/-- **The report of `ensureDirectory`** is true exactly if the path does not end in a regular file
that nothing before it keeps the code from. -/
theorem ensure_directory_iff (fs : FileSystem) {path : List Char} (hpath : path ≠ []) :
    TellsTruth fs path (ensureDirectory fs path) ↔
      ¬ EndsInFile fs (fs.startOf path) (components path) := by
  rw [ensureDirectory_eq hpath]
  exact tellsTruth_iff hpath

/-- A root directory with a regular file `f`. -/
def oneFile : FileSystem where
  entry node :=
    match node with
    | [] => some .directory
    | [['f']] => some .file
    | _ => none
  cwd := []
  denied _ := false
  root_directory := rfl
  cwd_directory := rfl
  parent_directory := by
    intro name node h
    cases node with
    | nil => rfl
    | cons name' node => simp at h

/-- `d/e/` beside the file. -/
theorem ensure_directory_beside_file :
    TellsTruth oneFile ['d', '/', 'e', '/'] (ensureDirectory oneFile ['d', '/', 'e', '/']) := by
  refine (ensure_directory_iff oneFile (by decide)).mpr fun h => ?_
  cases h.2

/-- The file itself is reported as a directory. -/
theorem file_taken_for_directory :
    ¬ ∀ (fs : FileSystem) (path : List Char), path ≠ [] →
      TellsTruth fs path (ensureDirectory fs path) := by
  intro hclaim
  have hstat := ((hclaim oneFile ['f'] (by decide)).made rfl).stat
  cases hstat

theorem parentPath_ne_nil (filePath : List Char) : parentPath filePath ≠ [] := by
  unfold parentPath
  cases filePath.reverse.dropWhile (· ≠ '/') with
  | nil => decide
  | cons slash before =>
    cases before with
    | nil => exact List.cons_ne_nil _ _
    | cons ch before => simp

/-- The writers of JSON lines make the directory of their file the same way. -/
theorem ensureParentDirectory_tellsTruth_iff (fs : FileSystem) (filePath : List Char) :
    TellsTruth fs (parentPath filePath) (ensureParentDirectory fs filePath) ↔
      ¬ EndsInFile fs (fs.startOf (parentPath filePath)) (components (parentPath filePath)) := by
  rw [ensureParentDirectory, ensureDirectory_eq (parentPath_ne_nil filePath)]
  exact tellsTruth_iff (parentPath_ne_nil filePath)

end Truth

end EdgeVision
