import Templates.Command.Run

/-!
# The program

Reads the part of the file system that a request can look at, runs the request on it, and carries
out what the run leaves behind. All decisions are made by `runCommandLine` in
`Templates.Command.Run`.
-/

namespace Templates

/-- The paths that a request can look at. -/
def Request.paths : Request → List String
  | tokens path | tree path => [path]
  | command (.lint path _ file) => path :: sidecarPath path :: file.toList
  | command (.fmt path ..) => [path]
  | version | help | nothing => []

/-- A file that a command can read: a template or a file of parameters. -/
def isRelevant (name : String) : Bool :=
  isTemplatePath name || Path.extension? name == some "json"

/-- The path of a place from the root. -/
def absolutePath (names : List String) : String := "/" ++ "/".intercalate names

/-- Reads a file, or a directory with all that a search below it can find; `none` if it cannot be
read. -/
partial def readNode (names : List String) (name : String) : IO (Option Node) := do
  let path := System.mkFilePath [absolutePath names]
  if ← path.isDir then
    let mut nodes : List Node := []
    for e in ← path.readDir do
      let node : Node := if ← e.path.isDir then .dir e.fileName [] else .file e.fileName .empty
      if node.isDir && !node.isPassedOver || isRelevant e.fileName then
        nodes := (← readNode (names ++ [e.fileName]) e.fileName).toList ++ nodes
    return some (.dir name nodes)
  else
    try return some (.file name (← IO.FS.readBinFile path))
    catch _ => return none

/-- Adds the file or the directory at a place. -/
def readPlace (fs : FileSystem) (names : List String) : IO FileSystem := do
  match ← readNode names (names.getLast?.getD "") with
  | some node =>
    return { fs with root := if names.isEmpty then node else fs.root.put names.dropLast node }
  | none => return fs

/-- Adds what the segments of a path lead to from a place on, as far as it exists. -/
def readSegments (fs : FileSystem) (names : List String) : List String → IO FileSystem
  | [] => readPlace fs names
  | s :: segments => do
    if Path.isIdle s then readSegments fs names segments
    else if s == ".." then readSegments fs names.dropLast segments
    else
      let names := names ++ [s]
      let path := System.mkFilePath [absolutePath names]
      if ← path.isDir then
        readSegments (fs.create (absolutePath names) none) names segments
      else if ← path.pathExists then readPlace fs names
      else return fs

/-- Adds what a path leads to. -/
def readPath (fs : FileSystem) (path : String) : IO FileSystem :=
  let segments := Path.segments path
  readSegments fs (if segments.head? == some "" then [] else fs.here) segments

/-- Writes the templates that a run has changed. -/
def writeChanges (before after : FileSystem) (paths : List String) : IO Unit := do
  for path in paths do
    match before.bytes path, after.bytes path with
    | .ok old, .ok new => if old != new then IO.FS.writeBinFile path new
    | _, _ => pure ()

end Templates

open Templates in
/-- Runs the program on the arguments of the command line. -/
def main (arguments : List String) : IO UInt32 := do
  let here := (Path.segments (← IO.currentDir).toString).filter (!Path.isIdle ·)
  let start := { FileSystem.empty with here := here }.create (absolutePath here) none
  let paths := ((Request.ofArguments? arguments).map Request.paths).getD []
  let before ← paths.foldlM readPath start
  let outcome := runCommandLine before arguments
  writeChanges before outcome.fs (paths.flatMap before.templates)
  IO.print outcome.stdout
  IO.eprint outcome.stderr
  return outcome.code.toUInt32
