import Templates.Command.Arguments
import Templates.Command.Format
import Templates.Dump
import Templates.Lint

/-!
# Running a command

`runCommandLine` turns a file system and the arguments of the command line into an `Outcome`: an
exit status, the texts on the two outputs, and the files. The status is 0 if there was nothing to
complain about, 1 if there was, 2 if the arguments do not fit, and 101 if the run broke off in the
middle of its output.
-/

namespace Templates

/-- The outcome of a run of the program. -/
structure Outcome where
  /-- The exit status. -/
  code : Nat
  /-- The text on the standard output. -/
  stdout : String
  /-- The text on the standard error output. -/
  stderr : String
  /-- The files. -/
  fs : FileSystem

namespace Outcome

/-- A run that left the files alone and had nothing to complain about. -/
def success (fs : FileSystem) (stdout : String) : Outcome := ⟨0, stdout, "", fs⟩

/-- A run that stopped with a message. -/
def failure (fs : FileSystem) (message : String) : Outcome := ⟨1, "", message ++ "\n", fs⟩

end Outcome

/-- The usage text of the program. -/
def usage : String :=
  "Usage: nsl lint [PATH] [--param NAME]... [--params-file FILE]\n" ++
  "       nsl fmt [PATH] [--check] [--diff]\n" ++
  "       nsl --lex FILE | --parse FILE\n"

/-- The name and the version of the program. -/
def version : String := "nsl 0.1.0\n"

/-- A text right-aligned in some columns. -/
def padLeft (width : Nat) (text : String) : String :=
  String.ofList (List.replicate (width - text.length) ' ') ++ text

/-- The last column that a caret is put under. -/
def maxCaretColumn : Nat := 65535

/-- A syntax error with its line of the source and a caret under the character at fault; there is
none if the character stands too far to the right. -/
def syntaxReport? (path : String) (lines : Array String) (e : SyntaxError) : Option String :=
  let number := toString e.pos.line
  let gutter := String.ofList (List.replicate number.length ' ')
  let line := lines[e.pos.line - 1]?.getD ""
  if maxCaretColumn < e.pos.column then none
  else
    some <|
      "syntax error: " ++ e.message ++ "\n" ++
        "  --> " ++ path ++ ":" ++ number ++ ":" ++ toString e.pos.column ++ "\n" ++
        gutter ++ " |\n" ++
        number ++ " | " ++ line ++ "\n" ++
        gutter ++ " | " ++ padLeft e.pos.column "^"

/-- Shows the tokens of a file. -/
def runTokens (fs : FileSystem) (path : String) : Outcome :=
  match readSource fs path with
  | .error e => .failure fs e.message
  | .ok source => .success fs (String.join ((tokenize source).map fun t => t.dump ++ "\n"))

/-- Shows the tree of a file and its syntax errors, up to the first that there is no report of. -/
def runTree (fs : FileSystem) (path : String) : Outcome :=
  match readSource fs path with
  | .error e => .failure fs e.message
  | .ok source =>
    let parsed := parseSource source
    let lines := (textLines source).toArray
    let reports := parsed.errors.map (syntaxReport? path lines)
    let shown := (reports.takeWhile Option.isSome).reduceOption
    let isComplete := shown.length = reports.length
    { code := if !isComplete then 101 else if reports.isEmpty then 0 else 1
      stdout := Template.dump parsed.template ++ "\n"
      stderr :=
        String.join (shown.map (· ++ "\n")) ++
          if isComplete then "" else "Formatting argument out of range\n"
      fs := fs }

/-- The message about a path that leads to no template. -/
def noTemplates (path : String) : String := "No .nsl files found in " ++ path

/-- Checks the templates that a path leads to. On `stderr` each finding is a line `Diagnostic.text`:
it stands for the drawn report of the finding, which shows the same file, line, severity and message
with the snippet in a frame and is not modelled. -/
def runLint (fs : FileSystem) (path : String) (names : List String) (file : Option String) :
    Outcome :=
  match sharedParameters fs names file with
  | .error e => .failure fs e.message
  | .ok params =>
    match fs.templates path with
    | [] => .failure fs (noTemplates path)
    | files =>
      let found := lintPaths fs params files
      { code := if errorCount found = 0 then 0 else 1
        stdout :=
          toString files.length ++ " file(s) checked: " ++ toString (errorCount found) ++
            " error(s), " ++ toString (warningCount found) ++ " warning(s)\n"
        stderr := String.join (found.map fun d => d.text ++ "\n")
        fs := fs }

/-- The mode that the flags ask for: showing differences goes before naming, and either before
writing. -/
def FormatMode.ofFlags (check diff : Bool) : FormatMode :=
  if diff then .diff else if check then .check else .write

/-- Formats the templates that a path leads to. -/
def runFormat (fs : FileSystem) (path : String) (mode : FormatMode) : Outcome :=
  match fs.templates path with
  | [] => .failure fs (noTemplates path)
  | files =>
    let run := formatFiles fs mode files
    { code := if run.isClean then 0 else 1
      stdout := String.join run.out ++ run.summary mode files.length
      stderr := String.join (run.err.map (· ++ "\n"))
      fs := run.fs }

/-- Does what is asked for. -/
def Request.run (fs : FileSystem) : Request → Outcome
  | version => .success fs Templates.version
  | help => .success fs usage
  | tokens path => runTokens fs path
  | tree path => runTree fs path
  | command (.lint path names file) => runLint fs path names file
  | command (.fmt path check diff) => runFormat fs path (.ofFlags check diff)
  | nothing => .failure fs "No command given; run `nsl --help` for usage"

/-- Runs the program. -/
def runCommandLine (fs : FileSystem) (arguments : List String) : Outcome :=
  match Request.ofArguments? arguments with
  | some request => request.run fs
  | none => ⟨2, "", usage, fs⟩

end Templates
