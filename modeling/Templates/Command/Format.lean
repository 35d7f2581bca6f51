import Templates.Canonical
import Templates.Command.Source

/-!
# Formatting files

`judge` gives the verdict on one file: it is canonical, it is stale and has another canonical text,
or it fails. `FormatMode` decides what is done about stale files: they are rewritten, or they are
only reported, with their differences or without them.
-/

namespace Templates

/-- The ways to deal with stale files. -/
inductive FormatMode
  /-- They are rewritten. -/
  | write
  /-- They are named. -/
  | check
  /-- They are named with their differences. -/
  | diff
  deriving DecidableEq, Repr

/-- Why a file could not be formatted. -/
inductive FormatFailure
  /-- It cannot be read. -/
  | source (error : SourceError)
  /-- It has syntax errors. -/
  | syntactic (path : String) (error : FormatError)
  /-- It cannot be written. -/
  | unwritable (path : String) (error : FileError)
  deriving DecidableEq, Repr

/-- The wording of a failure. -/
def FormatFailure.message : FormatFailure → String
  | source error => error.message
  | syntactic path error => path ++ ": " ++ error.message
  | unwritable path error => "Error writing " ++ path ++ ": " ++ error.message

/-- The verdict on a file: whether it is in its canonical form. -/
inductive Verdict
  /-- It is in canonical form. -/
  | canonical
  /-- It has another text than its canonical form. -/
  | stale (source canonical : String)
  /-- It has no canonical form. -/
  | failed (failure : FormatFailure)
  deriving DecidableEq, Repr

/-- Compares a file with its canonical form. -/
def judge (fs : FileSystem) (path : String) : Verdict :=
  match readSource fs path with
  | .error e => .failed (.source e)
  | .ok source =>
    match canonical {} source with
    | .error e => .failed (.syntactic path e)
    | .ok text => if source = text then .canonical else .stale source text

/-- The state of a run over several files. -/
structure FormatRun where
  /-- The files as they are now. -/
  fs : FileSystem
  /-- The lines about files that were not canonical. -/
  out : List String
  /-- The lines about failures. -/
  err : List String
  /-- The number of files that were rewritten. -/
  rewritten : Nat
  /-- The number of files that would have been rewritten. -/
  stale : Nat
  /-- The number of failures. -/
  failed : Nat

namespace FormatRun

/-- No file has been looked at. -/
def start (fs : FileSystem) : FormatRun := ⟨fs, [], [], 0, 0, 0⟩

/-- Notes a failure. -/
def fail (r : FormatRun) (failure : FormatFailure) : FormatRun :=
  { r with err := r.err ++ [failure.message], failed := r.failed + 1 }

/-- Notes a stale file. -/
def report (r : FormatRun) (entry : String) : FormatRun :=
  { r with out := r.out ++ [entry], stale := r.stale + 1 }

/-- Looks at one file. -/
def step (mode : FormatMode) (r : FormatRun) (path : String) : FormatRun :=
  match judge r.fs path with
  | .canonical => r
  | .failed failure => r.fail failure
  | .stale source text =>
    match mode with
    | .check => r.report ("Would reformat: " ++ path ++ "\n")
    | .diff => r.report ("--- " ++ path ++ "\n" ++ diffText source text)
    | .write =>
      match r.fs.write path text with
      | .ok fs =>
        { r with
          fs := fs
          out := r.out ++ ["Formatted: " ++ path ++ "\n"]
          rewritten := r.rewritten + 1 }
      | .error e => r.fail (.unwritable path e)

/-- The line that sums up a run over a number of files. -/
def summary (mode : FormatMode) (files : Nat) (r : FormatRun) : String :=
  match mode with
  | .write =>
    toString r.rewritten ++ " of " ++ toString files ++ " file(s) reformatted, " ++
      toString r.failed ++ " error(s)\n"
  | _ =>
    if r.stale = 0 ∧ r.failed = 0 then toString files ++ " file(s) already formatted\n"
    else toString r.stale ++ " of " ++ toString files ++ " file(s) need formatting\n"

/-- The run found nothing to complain about. -/
def isClean (r : FormatRun) : Bool := r.stale + r.failed = 0

end FormatRun

/-- Looks at every file. -/
def formatFiles (fs : FileSystem) (mode : FormatMode) (paths : List String) : FormatRun :=
  paths.foldl (FormatRun.step mode) (.start fs)

end Templates
