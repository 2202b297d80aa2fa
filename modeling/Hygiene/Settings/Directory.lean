import Hygiene.Fault

/-!
# A directory of files

The part of a file system that configuration is read from: one directory with files in it and no
directories below. A path is followed part by part from there. Empty parts and single dots stay
where they are, two dots leave the directory, and nothing outside of it is known. A file has to be
the last part of its path, and its bytes have to be UTF-8.
-/

namespace Hygiene

structure Directory where
  files : List (String × ByteArray) := []

namespace Directory

/-- Where following a path has led to. -/
inductive Location where
  | here
  /-- A directory outside that is only known to exist. -/
  | outside
  | file (contents : ByteArray)

/-- Follow the parts of a path. -/
def follow (dir : Directory) : Location → List String → Except ReadFailure Location
  | place, [] => .ok place
  | .file _, _ :: _ => .error .notDirectory
  | .outside, part :: rest =>
    if part = "" ∨ part = "." ∨ part = ".." then dir.follow .outside rest else .error .notFound
  | .here, part :: rest =>
    if part = "" ∨ part = "." then dir.follow .here rest
    else if part = ".." then dir.follow .outside rest
    else
      match dir.files.lookup part with
      | some contents => dir.follow (.file contents) rest
      | none => .error .notFound

/-- The contents of a file as text. -/
def readText (dir : Directory) (path : String) : Except ReadFailure String := do
  if path.isEmpty then throw .notFound
  let start := if path.startsWith "/" then Location.outside else .here
  match ← dir.follow start (path.splitOn "/") with
  | .here | .outside => throw .isDirectory
  | .file contents =>
    match String.fromUTF8? contents with
    | some text => return text
    | none => throw .invalidData

end Directory

end Hygiene
