import Templates.Parameters

/-!
# Diagnostics

A `Diagnostic` is a `Finding` about a file with the line it concerns and, where the finding is about
a text, that line as its snippet. `Finding.severity` and `Finding.message` depend on the finding
alone.
-/

namespace Templates

/-- The weight of a finding. -/
inductive Severity
  | error
  | warning
  deriving DecidableEq, Repr

/-- The word for a weight. -/
def Severity.name : Severity → String
  | error => "error"
  | warning => "warning"

/-- Two spellings that have to occur equally often, or an opening and a closing word. -/
structure Pair where
  /-- The one that opens. -/
  opener : String
  /-- The one that closes. -/
  closer : String
  deriving DecidableEq, Repr

/-- A finding of the linter. -/
inductive Finding
  /-- A letter of a script that templates are not written in. -/
  | foreignLetter (c : Char)
  /-- A comment, or part of one. -/
  | comment
  /-- Delimiters that do not occur equally often. -/
  | unbalanced (pair : Pair) (opened closed : Nat)
  /-- A closing tag where nothing is open. -/
  | unexpectedCloser (tag : String)
  /-- A closing tag of another construct than the innermost open one. -/
  | mismatchedCloser (pair : Pair) (tag : String)
  /-- Constructs that are never closed, outermost first. -/
  | unclosed (tags : List String)
  /-- A reference to a name that nothing defines. -/
  | undefinedName (name : String)
  /-- A file that cannot be read. -/
  | unreadable (error : FileError)
  /-- A parameters file that cannot be used. -/
  | badParameters (error : ParametersFileError)
  deriving DecidableEq, Repr

namespace Finding

/-- Foreign letters and comments are worth a warning, all else is an error. -/
def severity : Finding → Severity
  | foreignLetter _ | comment => .warning
  | _ => .error

/-- The wording of the finding. -/
def message : Finding → String
  | foreignLetter c =>
    "disallowed non-Latin character '" ++ c.toString ++
      "' found; templates must be written in English"
  | comment => "comments (\x7b# ... #\x7d) are not allowed in NSL templates"
  | unbalanced pair opened closed =>
    "unbalanced delimiters: found " ++ toString opened ++ " '" ++ pair.opener ++ "' and " ++
      toString closed ++ " '" ++ pair.closer ++ "'"
  | unexpectedCloser tag => "unexpected closing tag '" ++ tag ++ "' with no open block"
  | mismatchedCloser pair tag =>
    "mismatched closing tag: expected '" ++ pair.closer ++ "' to close '" ++ pair.opener ++
      "', found '" ++ tag ++ "'"
  | unclosed tags => "unclosed block(s): " ++ ", ".intercalate tags
  | undefinedName name =>
    "undefined variable: '" ++ name ++
      "' is used but not defined in parameters or in the skill"
  | unreadable error => "failed to read file: " ++ error.message
  | badParameters error => error.message

end Finding

/-- A finding about a file. -/
structure Diagnostic where
  /-- The file, as its path was given. -/
  file : String
  /-- The line that it concerns, counted from one. -/
  line : Nat
  /-- The finding. -/
  finding : Finding
  /-- The text of the line, where the finding is about a text. -/
  snippet : Option String := none
  deriving DecidableEq, Repr

namespace Diagnostic

/-- The severity of the finding. -/
def severity (d : Diagnostic) : Severity := d.finding.severity

/-- The finding is an error. -/
def isError (d : Diagnostic) : Bool := d.severity = .error

/-- The wording of the finding. -/
def message (d : Diagnostic) : String := d.finding.message

/-- The diagnostic on one line. -/
def text (d : Diagnostic) : String :=
  d.file ++ ":" ++ toString d.line ++ ": " ++ d.severity.name ++ ": " ++ d.message

/-- The code under which every finding is filed. -/
def code : String := "nsl::lint"

/-- The stretch of the snippet that a drawing marks, in bytes, and the words beside it. -/
def label? (d : Diagnostic) : Option (Nat × Nat × String) :=
  d.snippet.map fun s => (0, s.utf8ByteSize, "line " ++ toString d.line)

end Diagnostic

/-- The number of findings that are errors. -/
def errorCount (ds : List Diagnostic) : Nat := ds.countP Diagnostic.isError

/-- The number of findings that are warnings. -/
def warningCount (ds : List Diagnostic) : Nat := ds.length - errorCount ds

end Templates
