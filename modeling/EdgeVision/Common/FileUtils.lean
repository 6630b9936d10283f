import EdgeVision.Lib.FileSystem

/-!
# Directories for the files that are written

`FileUtils`: a directory is made with all those above it before a file is opened in it.
-/

namespace EdgeVision

open Lib

def directoryExists (fs : FileSystem) (path : List Char) : Bool :=
  match fs.stat path with
  | .ok .directory => true
  | _ => false

/-- `mkdir` of what is no directory; false is an error other than `EEXIST`. -/
def makeMissing (fs : FileSystem) (path : List Char) : Bool × FileSystem :=
  if directoryExists fs path then (true, fs)
  else
    match fs.mkdir path with
    | .ok made => (true, made)
    | .error errno => (errno == .eexist, fs)

/-- The loop of `ensureDirectory`: a directory is made at each slash and at the end. -/
def ensurePrefixes (fs : FileSystem) (current : List Char) : List Char → Bool × FileSystem
  | [] => (true, fs)
  | ch :: rest =>
    if ch ≠ '/' ∧ rest ≠ [] then ensurePrefixes fs (current ++ [ch]) rest
    else if current ++ [ch] = ['/'] then ensurePrefixes fs (current ++ [ch]) rest
    else
      match makeMissing fs (current ++ [ch]) with
      | (false, fs) => (false, fs)
      | (true, fs) => ensurePrefixes fs (current ++ [ch]) rest

def ensureDirectory (fs : FileSystem) (path : List Char) : Bool × FileSystem :=
  if path = [] ∨ path = ['.'] then (true, fs)
  else if directoryExists fs path then (true, fs)
  else
    match ensurePrefixes fs [] path with
    | (false, fs) => (false, fs)
    | (true, fs) => makeMissing fs path

/-- What stands before the last slash. -/
def parentPath (filePath : List Char) : List Char :=
  match filePath.reverse.dropWhile (· ≠ '/') with
  | [] => ['.']
  | [_] => ['/']
  | _ :: before => before.reverse

def ensureParentDirectory (fs : FileSystem) (filePath : List Char) : Bool × FileSystem :=
  ensureDirectory fs (parentPath filePath)

end EdgeVision
