import Templates.Discovery
import Templates.Lint.Structure
import Templates.Reader
import Templates.Scope

/-!
# Linting

`lintSource` checks a source text as raw text first (`checkStructure`). If that finds no error, the
text is read, and if `parseSource` finds no syntax error and the parameters of the template are
known, its references are checked (`undefinedNames`). Syntax errors themselves are not findings.

Parameters are given for all files at once, or each file has its own in a JSON file beside it
(`sidecarPath`). Findings about several files are put in the order of paths and lines (`collate`);
those of one line stay in the order in which they were found.
-/

namespace Templates

/-! ## One text -/

/-- The findings about the references of a template. -/
def undefinedNames (file : String) (params : List String) (t : Template) : List Diagnostic :=
  (t.undefined params).map fun r => ⟨file, max 1 r.pos.line, .undefinedName r.text, none⟩

/-- The diagnostic with the text of its line, if the text has such a line. -/
def Diagnostic.withLine (lines : Array String) (d : Diagnostic) : Diagnostic :=
  match lines[d.line - 1]? with
  | some line => { d with snippet := some line }
  | none => d

/-- The findings about a source text; without parameters its references are not checked. -/
def lintSource (file source : String) (params : Option (List String)) : List Diagnostic :=
  let found := checkStructure file source
  if found.any Diagnostic.isError then found
  else
    let parsed := parseSource source
    if !parsed.errors.isEmpty then found
    else
      match params with
      | none => found
      | some params =>
        let lines := (textLines source).toArray
        found ++ (undefinedNames file params parsed.template).map (Diagnostic.withLine lines)

/-! ## Files -/

/-- The findings about a file. -/
def lintFile (fs : FileSystem) (path : String) (params : Option (List String)) : List Diagnostic :=
  match fs.text path with
  | .ok source => lintSource path source params
  | .error e => [⟨path, 1, .unreadable e, none⟩]

/-- The path of the parameters file of a template. -/
def sidecarPath (path : String) : String := Path.withExtension path "params.json"

/-- The names that a parameters file declares; `none` if there is no such file. -/
def loadParameters (fs : FileSystem) (path : String) :
    Except ParametersFileError (Option (List String)) :=
  match fs.text path with
  | .ok text =>
    match Parameters.ofText text with
    | .ok names => .ok (some names)
    | .error e => .error (.invalid path e)
  | .error .notFound => .ok none
  | .error e => .error (.unreadable path e)

/-- The findings about a file, with the parameters given for all files or with its own; a parameters
file that cannot be used is a finding about the template. -/
def lintTemplate (fs : FileSystem) (params : Option (List String)) (path : String) :
    List Diagnostic :=
  match params with
  | some names => lintFile fs path (some names)
  | none =>
    match loadParameters fs (sidecarPath path) with
    | .ok names => lintFile fs path names
    | .error e => ⟨path, 1, .badParameters e, none⟩ :: lintFile fs path none

/-- The order of findings: by path, then by line. Paths that are written alike are not taken apart.
-/
def Diagnostic.order (a b : Diagnostic) : Ordering :=
  if a.file = b.file then compare a.line b.line
  else (Path.order a.file b.file).then (compare a.line b.line)

/-- The findings about several files in one list. -/
def collate (found : List (List Diagnostic)) : List Diagnostic :=
  found.flatten.mergeSort fun a b => (Diagnostic.order a b).isLE

/-- The findings about the files at some paths. -/
def lintPaths (fs : FileSystem) (params : Option (List String)) (paths : List String) :
    List Diagnostic :=
  collate (paths.map (lintTemplate fs params))

/-- The parameters for all files that are asked for by names and by a file of them; a file that does
not exist asks for none. -/
def sharedParameters (fs : FileSystem) (names : List String) (file : Option String) :
    Except ParametersFileError (Option (List String)) := do
  let loaded ← match file with
    | some path => loadParameters fs path
    | none => .ok none
  match names, loaded with
  | [], none => .ok none
  | names, loaded => .ok (some (names ++ loaded.getD []))

end Templates
