import Mathlib.Data.List.DropRight
import EdgeVision.Lib.Utf8

/-!
# The label file

`loadLabels`: the lines of a file that are not blank, without the blanks around them.
-/

namespace EdgeVision

/-- The characters that `trim` takes off. -/
def isTrimmed (c : Char) : Bool := c == ' ' || c == '\t' || c == '\r' || c == '\n'

def trim (text : List Char) : List Char := (text.dropWhile isTrimmed).rdropWhile isTrimmed

/-- The lines of a text, as `getline` reads them, with an empty one behind the last end of line. -/
def textLines : List Char → List (List Char)
  | [] => [[]]
  | c :: rest =>
    if c = '\n' then [] :: textLines rest
    else
      match textLines rest with
      | [] => [[c]]
      | line :: lines => (c :: line) :: lines

def loadLabels (text : List Char) : List (List Char) :=
  ((textLines text).map trim).filter fun line => !line.isEmpty

theorem mem_of_mem_textLines {text line : List Char} (h : line ∈ textLines text) :
    ∀ c ∈ line, c ∈ text := by
  induction text generalizing line with
  | nil =>
    obtain rfl : line = [] := by simpa [textLines] using h
    simp
  | cons d rest ih =>
    unfold textLines at h
    split at h
    · rcases List.mem_cons.mp h with rfl | h
      · simp
      · exact fun c hc => List.mem_cons_of_mem d (ih h c hc)
    · split at h
      · rw [List.mem_singleton.mp h]
        simp
      · rename_i first lines hlines
        rw [hlines] at ih
        rcases List.mem_cons.mp h with rfl | h
        · intro c hc
          rcases List.mem_cons.mp hc with rfl | hc
          · exact List.mem_cons_self
          · exact List.mem_cons_of_mem d (ih List.mem_cons_self c hc)
        · exact fun c hc => List.mem_cons_of_mem d (ih (List.mem_cons_of_mem first h) c hc)

/-- A label holds only what the file holds. -/
theorem mem_of_mem_loadLabels {text label : List Char} (h : label ∈ loadLabels text) :
    ∀ c ∈ label, c ∈ text := by
  obtain ⟨line, hline, rfl⟩ := List.mem_map.mp (List.mem_filter.mp h).1
  intro c hc
  apply mem_of_mem_textLines hline
  exact (List.dropWhile_suffix _).subset ((List.rdropWhile_prefix _ _).subset hc)

end EdgeVision
