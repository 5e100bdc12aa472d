import LosslessAudio.File.Path
import LosslessAudio.File.Source

/-!
# Folders

A folder holds files by name and has no folders in it.  Seen from inside it, a path leads to the
folder itself or one above it, to a place for a file in it, or nowhere.  `Folder.source` is what is
read at a path, and `Folder.creationFault?` says what stands against creating a file there.
-/

set_option autoImplicit false

namespace LosslessAudio

/-- The files of a folder by name. -/
structure Folder where
  files : List (Bytes × Bytes)
  deriving DecidableEq, Repr

namespace Folder

/-- The longest name a file may have. -/
def maxNameLength : Nat := 255

/-- Paths as long as this and longer lead nowhere. -/
def pathLengthLimit : Nat := 4096

/-- Where a path leads. -/
inductive Place where
  /-- The folder itself, or one above it. -/
  | folder
  /-- A place in the folder. -/
  | entry (name : Bytes)
  /-- A place in the folder that is written as if it were a folder. -/
  | folderEntry (name : Bytes)
  deriving DecidableEq, Repr

variable (folder : Folder)

/-- The contents of the file with a given name. -/
def contents? (name : Bytes) : Option Bytes :=
  folder.files.lookup name

/-- Why a path cannot go on behind a name. -/
def missing (name : Bytes) : FileFault :=
  if (folder.contents? name).isSome then .notDirectory else .notFound

/-- Follows the components of a path from the folder. -/
def follow : List Bytes → Except FileFault Place
  | [] => .ok .folder
  | name :: rest =>
    if Path.isVoid name then follow rest
    else if name = Path.parentName then above rest
    else if maxNameLength < name.length then .error .nameTooLong
    else if rest = [] then .ok (.entry name)
    else if rest.all (· = []) then .ok (.folderEntry name)
    else .error (folder.missing name)
where
  /-- Follows the components of a path from a folder above. -/
  above : List Bytes → Except FileFault Place
    | [] => .ok .folder
    | name :: rest =>
      if Path.isVoid name ∨ name = Path.parentName then above rest
      else if maxNameLength < name.length then .error .nameTooLong
      else .error .notFound

/-- Where a path leads. -/
def locate (p : Path) : Except FileFault Place :=
  if p.bytes.contains 0 then .error .zeroInName
  else if p.bytes = [] then .error .notFound
  else if pathLengthLimit ≤ p.bytes.length then .error .nameTooLong
  else if p.isAbsolute then follow.above (Path.split p.bytes)
  else folder.follow (Path.split p.bytes)

/-- What is read at a path. -/
def source (p : Path) : Source :=
  match folder.locate p with
  | .error fault => .closed fault
  | .ok .folder => .unreadable .isDirectory
  | .ok (.entry name) =>
    match folder.contents? name with
    | none => .closed .notFound
    | some contents => .file contents
  | .ok (.folderEntry name) => .closed (folder.missing name)

/-- What stands against creating a file at a path. -/
def creationFault? (p : Path) : Option FileFault :=
  match folder.locate p with
  | .error fault => some fault
  | .ok .folder => some .isDirectory
  | .ok (.entry _) => none
  | .ok (.folderEntry _) => some .isDirectory

/-- Whether two paths lead to the same place in the folder. -/
def sameFile (p q : Path) : Bool :=
  match folder.locate p, folder.locate q with
  | .ok (.entry name), .ok (.entry name') => name = name'
  | _, _ => false

end Folder

end LosslessAudio
