import Templates.FileSystem

/-!
# Finding templates

A template is a file with the extension `nsl`. `FileSystem.templates` of a path that names a file is
that path alone; below a directory it has every template, at any depth, but does not enter hidden
directories and those named `target`. The directory that the search begins at is searched whatever
its name. An entry with a path that is too long to be looked up (`FileSystem.fits`) is not known to
be a directory: like a file it counts by its name.
-/

namespace Templates

/-- The path has the extension of a template. -/
def isTemplatePath (path : String) : Bool := Path.extension? path == some "nsl"

/-- It is a directory that the search does not enter. -/
def Node.isPassedOver (n : Node) : Bool :=
  n.isDir && (n.name == "target" || n.name.toList.head? == some '.')

/-- The path alone, if it is the path of a template. -/
def templateAt (path : String) : List String := if isTemplatePath path then [path] else []

mutual

/-- The templates at a path and below it. -/
def Node.templates (path : String) : Node → List String
  | .file .. => templateAt path
  | .dir _ es => entryTemplates path es

/-- The templates among some entries of a directory and below them. -/
def entryTemplates (directory : String) : List Node → List String
  | [] => []
  | e :: es =>
    let path := Path.entry directory e.name
    let found :=
      if !FileSystem.fits path then templateAt path
      else if e.isPassedOver then []
      else e.templates path
    found ++ entryTemplates directory es

end

/-- The templates that a path leads to, in the order of paths. -/
def FileSystem.templates (fs : FileSystem) (path : String) : List String :=
  match fs.node path with
  | .ok n => (n.templates path).mergeSort fun a b => (Path.order a b).isLE
  | .error _ => []

end Templates
