/-!
# What can go wrong with a file

The causes for which a file cannot be opened, read or written, with the wording in which the
operating system, or the writer of the file, reports them.
-/

set_option autoImplicit false

namespace LosslessAudio

/-- Why a file could not be used. -/
inductive FileFault where
  /-- There is nothing of that name. -/
  | notFound
  /-- A directory stands where a file should be. -/
  | isDirectory
  /-- A file stands where a directory should be. -/
  | notDirectory
  /-- A name is longer than file names may be. -/
  | nameTooLong
  /-- A zero byte in a name. -/
  | zeroInName
  /-- The format of audio data was to be changed after some had been written. -/
  | formatLocked
  /-- The body of a chunk is longer than its size field can say. -/
  | chunkTooLarge
  /-- There is more audio data than its size field can say. -/
  | dataTooLarge
  /-- Any other refusal by the system, in its own words. -/
  | system (message : String)
  deriving DecidableEq, Repr

/-- The wording of a fault of a file. -/
def FileFault.message : FileFault → String
  | .notFound => "No such file or directory (os error 2)"
  | .isDirectory => "Is a directory (os error 21)"
  | .notDirectory => "Not a directory (os error 20)"
  | .nameTooLong => "File name too long (os error 36)"
  | .zeroInName => "file name contained an unexpected NUL byte"
  | .formatLocked => "Cannot change format after writing data"
  | .chunkTooLarge => "RIFF chunk too large"
  | .dataTooLarge => "WAVE data exceeds the 4 GiB limit"
  | .system message => message

end LosslessAudio
