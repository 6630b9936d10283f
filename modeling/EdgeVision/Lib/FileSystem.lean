import Mathlib.Data.List.Basic

/-!
# A file system of directories and files

What `stat` and `mkdir` do, over a tree of directories and regular files. A node is the names that
lead down to it, the last one first, so that a parent is a tail. A path is resolved component by
component from the root or from the working directory, and every node on the way has to be a
directory; the nodes that it would pass are known without looking (`visit`).
-/

namespace EdgeVision.Lib

abbrev Name := List Char

/-- The names down to a node, the last one first. -/
abbrev Node := List Name

inductive Entry where
  | directory
  | file
  deriving DecidableEq, Repr

inductive Errno where
  | eexist
  | enoent
  | enotdir
  | eacces
  deriving DecidableEq, Repr

structure FileSystem where
  entry : Node → Option Entry
  cwd : Node
  /-- Where no entry may be made. -/
  denied : Node → Bool
  root_directory : entry [] = some .directory
  cwd_directory : entry cwd = some .directory
  parent_directory : ∀ name node, entry (name :: node) ≠ none → entry node = some .directory

/-! ## Paths -/

/-- The components of a path so far, the last one first, and the name that is being read. -/
structure Scan where
  closed : List Name
  name : Name

namespace Scan

def components (scan : Scan) : List Name :=
  if scan.name = [] then scan.closed else scan.name :: scan.closed

def char (scan : Scan) (ch : Char) : Scan :=
  if ch = '/' then ⟨scan.components, []⟩ else ⟨scan.closed, scan.name ++ [ch]⟩

def path (path : List Char) : Scan := path.foldl char ⟨[], []⟩

theorem path_concat (p : List Char) (ch : Char) : path (p ++ [ch]) = (path p).char ch :=
  List.foldl_concat _ _ _ _

end Scan

/-- The components of a path, the last one first. -/
def components (path : List Char) : List Name := (Scan.path path).components

def stepTo (node : Node) (name : Name) : Node :=
  if name = ['.'] then node else if name = ['.', '.'] then node.tail else name :: node

/-- The node that some components lead to, the last one first. -/
def visit (start : Node) : List Name → Node
  | [] => start
  | name :: earlier => stepTo (visit start earlier) name

theorem visit_cons (start : Node) (name : Name) (earlier : List Name) :
    visit start (name :: earlier) = stepTo (visit start earlier) name := rfl

namespace FileSystem

variable (fs : FileSystem)

def startOf : List Char → Node
  | '/' :: _ => []
  | _ => fs.cwd

/-- The node of some components, if all nodes before it are directories. -/
def resolve (start : Node) : List Name → Except Errno Node
  | [] => .ok start
  | name :: earlier =>
    match resolve start earlier with
    | .error errno => .error errno
    | .ok node =>
      match fs.entry node with
      | some .directory => .ok (stepTo node name)
      | some .file => .error .enotdir
      | none => .error .enoent

/-- A path that ends in a slash names no file. -/
def stat (path : List Char) : Except Errno Entry :=
  if path = [] then .error .enoent
  else
    match fs.resolve (fs.startOf path) (components path) with
    | .error errno => .error errno
    | .ok node =>
      match fs.entry node with
      | none => .error .enoent
      | some .directory => .ok .directory
      | some .file => if path.getLast? = some '/' then .error .enotdir else .ok .file

/-- The file system with a new directory. -/
def create (name : Name) (node : Node) (h : fs.entry node = some .directory) : FileSystem where
  entry other := if other = name :: node then some .directory else fs.entry other
  cwd := fs.cwd
  denied := fs.denied
  root_directory := by simp [fs.root_directory]
  cwd_directory := by
    split
    · rfl
    · exact fs.cwd_directory
  parent_directory := by
    intro name' node' hentry
    split
    · rfl
    · split at hentry
      · rename_i heq
        rw [(List.cons.inj heq).2]
        exact h
      · exact fs.parent_directory name' node' hentry

/-- `mkdir` of a path with these components. -/
def mkdirAt (start : Node) : List Name → Except Errno FileSystem
  | [] => .error .eexist
  | name :: earlier =>
    match fs.resolve start earlier with
    | .error errno => .error errno
    | .ok parent =>
      if h : fs.entry parent = some .directory then
        if name = ['.'] ∨ name = ['.', '.'] ∨ fs.entry (name :: parent) ≠ none then .error .eexist
        else if fs.denied (name :: parent) then .error .eacces
        else .ok (fs.create name parent h)
      else if fs.entry parent = none then .error .enoent
      else .error .enotdir

def mkdir (path : List Char) : Except Errno FileSystem :=
  if path = [] then .error .enoent else fs.mkdirAt (fs.startOf path) (components path)

/-! ## Resolution -/

/-- All nodes on the way to the last component are directories, and so is the last one. -/
def AllDirectories (start : Node) : List Name → Prop
  | [] => fs.entry start = some .directory
  | name :: earlier =>
    AllDirectories start earlier ∧ fs.entry (visit start (name :: earlier)) = some .directory

variable {fs} {start : Node} {name : Name} {earlier comps : List Name}

theorem AllDirectories.last (h : fs.AllDirectories start comps) :
    fs.entry (visit start comps) = some .directory := by
  cases comps with
  | nil => exact h
  | cons name earlier => exact h.2

theorem resolve_of_all (h : fs.AllDirectories start earlier) :
    fs.resolve start earlier = .ok (visit start earlier) := by
  induction earlier with
  | nil => rfl
  | cons name earlier ih =>
    unfold resolve
    rw [ih h.1]
    simp only [h.1.last]
    rfl

/-- The last component need not be there. -/
theorem resolve_cons (h : fs.AllDirectories start earlier) (name : Name) :
    fs.resolve start (name :: earlier) = .ok (visit start (name :: earlier)) := by
  unfold resolve
  rw [resolve_of_all h]
  simp only [h.last]
  rfl

/-- Resolution fails behind a node that is no directory. -/
theorem resolve_of_not (hstart : fs.entry start = some .directory)
    (h : ¬ fs.AllDirectories start earlier) (name : Name) :
    ∃ errno, fs.resolve start (name :: earlier) = .error errno ∧ errno ≠ .eexist := by
  induction earlier generalizing name with
  | nil => exact absurd hstart h
  | cons name' earlier ih =>
    by_cases hearlier : fs.AllDirectories start earlier
    · have hentry : fs.entry (visit start (name' :: earlier)) ≠ some .directory :=
        fun hlast => h ⟨hearlier, hlast⟩
      rw [resolve, resolve_cons hearlier]
      cases hlast : fs.entry (visit start (name' :: earlier)) with
      | none => exact ⟨.enoent, by simp only [hlast], by decide⟩
      | some entry =>
        cases entry with
        | directory => exact absurd hlast hentry
        | file => exact ⟨.enotdir, by simp only [hlast], by decide⟩
    · obtain ⟨errno, herror, hne⟩ := ih hearlier name'
      rw [resolve, herror]
      exact ⟨errno, rfl, hne⟩

theorem startOf_directory (fs : FileSystem) (path : List Char) :
    fs.entry (fs.startOf path) = some .directory := by
  unfold startOf
  split
  · exact fs.root_directory
  · exact fs.cwd_directory

/-- `stat` finds a directory exactly if all components are directories. -/
theorem stat_eq_directory {path : List Char} (hpath : path ≠ []) :
    fs.stat path = .ok .directory ↔ fs.AllDirectories (fs.startOf path) (components path) := by
  have hstart := startOf_directory fs path
  rw [stat, if_neg hpath]
  cases hcomps : components path with
  | nil => simp [resolve, AllDirectories, hstart]
  | cons name earlier =>
    by_cases hearlier : fs.AllDirectories (fs.startOf path) earlier
    · rw [resolve_cons hearlier]
      cases hlast : fs.entry (visit (fs.startOf path) (name :: earlier)) with
      | none => simp [AllDirectories, hlast]
      | some entry =>
        cases entry with
        | directory => simp [AllDirectories, hlast, hearlier]
        | file => simp only [AllDirectories, hlast]; split <;> simp
    · obtain ⟨errno, herror, -⟩ := resolve_of_not hstart hearlier name
      rw [herror]
      simp [AllDirectories, hearlier]

/-! ## Making a directory -/

theorem entry_create (name : Name) (node : Node) (h : fs.entry node = some .directory)
    (other : Node) : (fs.create name node h).entry other =
      if other = name :: node then some .directory else fs.entry other := rfl

/-- What is in a directory without being there yet is a name in it. -/
theorem visit_of_none (hearlier : fs.AllDirectories start earlier)
    (h : fs.entry (visit start (name :: earlier)) = none) :
    ¬ (name = ['.'] ∨ name = ['.', '.']) ∧
      visit start (name :: earlier) = name :: visit start earlier := by
  have hlast := hearlier.last
  rw [visit_cons, stepTo] at h ⊢
  split at h
  · rw [hlast] at h
    cases h
  · rename_i hdot
    split at h
    · -- the parent of a directory is one
      cases hnode : visit start earlier with
      | nil =>
        rw [hnode, List.tail_nil, fs.root_directory] at h
        cases h
      | cons name' node =>
        rw [hnode] at h hlast
        have hparent := fs.parent_directory name' node (by rw [hlast]; exact Option.some_ne_none _)
        rw [List.tail_cons, hparent] at h
        cases h
    · rename_i hdots
      exact ⟨by simp [hdot, hdots], by simp [hdot, hdots]⟩

/-- `mkdir` of what exists. -/
theorem mkdirAt_of_some (hearlier : fs.AllDirectories start earlier)
    (h : fs.entry (visit start (name :: earlier)) ≠ none) :
    fs.mkdirAt start (name :: earlier) = .error .eexist := by
  have hexists : name = ['.'] ∨ name = ['.', '.'] ∨
      fs.entry (name :: visit start earlier) ≠ none := by
    rw [visit_cons, stepTo] at h
    split at h
    · exact .inl (by assumption)
    · split at h
      · exact .inr (.inl (by assumption))
      · exact .inr (.inr h)
  simp only [mkdirAt, resolve_of_all hearlier, hearlier.last, dif_pos, if_pos hexists]

theorem mkdirAt_of_none (hearlier : fs.AllDirectories start earlier)
    (h : fs.entry (visit start (name :: earlier)) = none) :
    fs.mkdirAt start (name :: earlier) =
      if fs.denied (visit start (name :: earlier)) then .error .eacces
      else .ok (fs.create name (visit start earlier) hearlier.last) := by
  obtain ⟨hdots, hnode⟩ := visit_of_none hearlier h
  rw [hnode] at h ⊢
  have hnew : ¬ (name = ['.'] ∨ name = ['.', '.'] ∨
      fs.entry (name :: visit start earlier) ≠ none) := by
    rw [← or_assoc]
    exact fun hor => hor.elim hdots fun hne => hne h
  simp only [mkdirAt, resolve_of_all hearlier, hearlier.last, dif_pos, if_neg hnew]

/-- Without a directory to put it in. -/
theorem mkdirAt_of_not (hstart : fs.entry start = some .directory)
    (h : ¬ fs.AllDirectories start earlier) (name : Name) :
    ∃ errno, fs.mkdirAt start (name :: earlier) = .error errno ∧ errno ≠ .eexist := by
  cases earlier with
  | nil => exact absurd hstart h
  | cons name' earlier =>
    by_cases hearlier : fs.AllDirectories start earlier
    · have hentry : fs.entry (visit start (name' :: earlier)) ≠ some .directory :=
        fun hlast => h ⟨hearlier, hlast⟩
      simp only [mkdirAt, resolve_cons hearlier, dif_neg hentry]
      split
      · exact ⟨.enoent, rfl, by decide⟩
      · exact ⟨.enotdir, rfl, by decide⟩
    · obtain ⟨errno, herror, hne⟩ := resolve_of_not hstart hearlier name'
      simp only [mkdirAt, herror]
      exact ⟨errno, rfl, hne⟩

end FileSystem

end EdgeVision.Lib
