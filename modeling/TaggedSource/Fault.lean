/-
Faults of the file system: what a call on a file tree can fail with.
-/
import TaggedSource.Text

namespace TaggedSource

/-- Why a call on a file tree fails. -/
inductive Fault where
  /-- Nothing stands at the path. -/
  | noEntry
  /-- The last step of the path cannot be replaced. -/
  | busy
  /-- A step of the path, or the path itself, should be a directory. -/
  | notDirectory
  /-- The path is a directory. -/
  | isDirectory
  /-- A name has more than 255 bytes, or the path more than 4095. -/
  | nameTooLong
  /-- The path goes through more than 40 links. -/
  | tooManyLinks
  /-- The path holds a character that no file name can hold. -/
  | nulInPath
  /-- The file holds no text. -/
  | notText
  deriving DecidableEq, Repr

/-- The wording of a fault. -/
def Fault.message : Fault → String
  | .noEntry => "No such file or directory (os error 2)"
  | .busy => "Device or resource busy (os error 16)"
  | .notDirectory => "Not a directory (os error 20)"
  | .isDirectory => "Is a directory (os error 21)"
  | .nameTooLong => "File name too long (os error 36)"
  | .tooManyLinks => "Too many levels of symbolic links (os error 40)"
  | .nulInPath => "file name contained an unexpected NUL byte"
  | .notText => "stream did not contain valid UTF-8"

end TaggedSource
