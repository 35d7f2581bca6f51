import Templates.FileSystem

/-!
# Source files

`readSource` refuses to read a file above `maxSourceSize`, before it looks at its content.
-/

namespace Templates

/-- The size in bytes up to which a source file is read. -/
def maxSourceSize : Nat := 10 * 1024 * 1024

/-- Why a source file is not read. -/
inductive SourceError
  /-- It cannot be looked up. -/
  | inaccessible (path : String) (error : FileError)
  /-- It is too large. -/
  | tooLarge (path : String) (size : Nat)
  /-- Its text cannot be read. -/
  | unreadable (path : String) (error : FileError)
  deriving DecidableEq, Repr

/-- The wording of a refusal. -/
def SourceError.message : SourceError → String
  | inaccessible path error => "Cannot access file '" ++ path ++ "': " ++ error.message
  | tooLarge path size =>
    "Template '" ++ path ++ "' is too large (" ++ toString size ++ " bytes, max " ++
      toString maxSourceSize ++ " bytes)"
  | unreadable path error => "Error reading file '" ++ path ++ "': " ++ error.message

/-- The text of a source file. -/
def readSource (fs : FileSystem) (path : String) : Except SourceError String :=
  match fs.size path with
  | .error e => .error (.inaccessible path e)
  | .ok size =>
    if maxSourceSize < size then .error (.tooLarge path size)
    else
      match fs.text path with
      | .ok source => .ok source
      | .error e => .error (.unreadable path e)

end Templates
