/-!
# File errors

Why a file cannot be read or written, with the wording and, where it has one, the number of the
operating system.
-/

namespace Templates

/-- Why an access to a file failed. -/
inductive FileError
  /-- There is nothing of this name. -/
  | notFound
  /-- A directory was needed on the way, and there is a file. -/
  | notDirectory
  /-- A file was needed, and there is a directory. -/
  | isDirectory
  /-- A name is longer than a name can be. -/
  | nameTooLong
  /-- The path holds a null character, which no path can. -/
  | zeroInPath
  /-- The content of the file is no text. -/
  | notText
  deriving DecidableEq, Repr

/-- The wording of a failure. -/
def FileError.message : FileError → String
  | notFound => "No such file or directory (os error 2)"
  | notDirectory => "Not a directory (os error 20)"
  | isDirectory => "Is a directory (os error 21)"
  | nameTooLong => "File name too long (os error 36)"
  | zeroInPath => "file name contained an unexpected NUL byte"
  | notText => "stream did not contain valid UTF-8"

end Templates
