import Gherkin.Source

/-!
# Folders

A folder holds files under paths.  A path is followed step by step from the folder; what lies
outside the folder is not known.
-/

namespace Gherkin.CommandLine

/-- Why a file cannot be opened. -/
inductive OpenFault where
  | notFound
  | notADirectory
  | nameTooLong
deriving DecidableEq

/-- How the system reports the fault. -/
def OpenFault.message : OpenFault → String
  | notFound => "No such file or directory (os error 2)"
  | notADirectory => "Not a directory (os error 20)"
  | nameTooLong => "File name too long (os error 36)"

/-- The greatest length of a name, in bytes. -/
def maxNameLength : Nat :=
  255

/-- The greatest length of a path, in bytes. -/
def maxPathLength : Nat :=
  4095

/-- The files of a folder, by the names that lead to them. -/
structure Folder where
  files : List (List String × List UInt8)

/-- A place that a path has led to. -/
inductive Place where
  | folder (names : List String)
  | file (bytes : List UInt8)
  | outside

/-- A folder can be opened, but reading it fails. -/
def folderSource : Source :=
  .ofPieces [.failure "Is a directory (os error 21)"]

namespace Folder

/-- The steps of a path. -/
def pathSteps (path : String) : List String :=
  (path.toList.splitOn '/').map String.ofList

/-- Why a name leads nowhere. -/
def missing (name : String) : OpenFault :=
  if maxNameLength < name.utf8ByteSize then .nameTooLong else .notFound

/-- Looks a name up in the folder that other names lead to. -/
def enter (folder : Folder) (names : List String) (name : String) : Except OpenFault Place :=
  let inner := names ++ [name]
  match folder.files.lookup inner with
  | some bytes => .ok (.file bytes)
  | none =>
    if folder.files.any fun (file, _) => inner.isPrefixOf file then .ok (.folder inner)
    else .error (missing name)

/-- Follows one step of a path. -/
def follow (folder : Folder) (place : Place) (name : String) : Except OpenFault Place :=
  match place, name with
  | .file _, _ => .error .notADirectory
  | place, "" => .ok place
  | place, "." => .ok place
  | .outside, ".." => .ok .outside
  | .outside, name => .error (missing name)
  | .folder [], ".." => .ok .outside
  | .folder names, ".." => .ok (.folder names.dropLast)
  | .folder names, name => folder.enter names name

/-- Follows a path; one that starts with a slash starts outside the folder. -/
def find (folder : Folder) (path : String) : Except OpenFault Place :=
  if path.isEmpty then .error .notFound
  else if maxPathLength < path.utf8ByteSize then .error .nameTooLong
  else
    let origin : Place := if path.startsWith "/" then .outside else .folder []
    (pathSteps path).foldlM folder.follow origin

/-- What is read from the file under a path. -/
def source (folder : Folder) (path : String) : Except OpenFault Source :=
  match folder.find path with
  | .ok (.file bytes) => .ok (.ofBytes bytes)
  | .ok _ => .ok folderSource
  | .error fault => .error fault

end Folder
end Gherkin.CommandLine
