import LosslessAudio.File.Folder

/-!
# The surroundings of a program

What a program can reach: its standard input, what stands at each path, and what stands against
creating a file there.
-/

set_option autoImplicit false

namespace LosslessAudio

/-- What a program can reach. -/
structure Surroundings where
  standardInput : Bytes
  source : Path → Source
  creationFault? : Path → Option FileFault
  /-- Whether two paths lead to one file. -/
  sameFile : Path → Path → Bool
  /-- How the system replies when the input is read. -/
  replies : List Reply

/-- The path that stands for the standard input. -/
def Path.standardInput : Path :=
  .ofString "-"

namespace Surroundings

variable (s : Surroundings)

/-- What is read at a path, or from the standard input. -/
def input (p : Path) : Source :=
  if p = Path.standardInput then .pipe s.standardInput else s.source p

/-- Opens what is read at a path, or the standard input. -/
def openInput (p : Path) : Except FileFault Reader :=
  (s.input p).open s.replies

/-- Whether a file that is created at `created` takes the place of what is read at `input`. -/
def overwrites (created input : Path) : Bool :=
  input ≠ Path.standardInput && s.sameFile created input

end Surroundings

/-- The surroundings of a program that runs in a folder and is not interrupted. -/
def Folder.surroundings (folder : Folder) (standardInput : Bytes) : Surroundings where
  standardInput
  source := folder.source
  creationFault? := folder.creationFault?
  sameFile := folder.sameFile
  replies := []

end LosslessAudio
