/-!
# Paths

A path is a text, and a slash separates the names in it. Empty names and the name `.` lead nowhere,
except that a path may begin with either: with a slash it starts at the root, with `.` it starts
here. Paths are kept as they were written and are compared by their `Path.components`.
-/

namespace Templates.Path

/-- The stretches between the slashes of a path. -/
def segmentsOf (done : List Char) : List Char → List String
  | [] => [String.ofList done.reverse]
  | c :: cs =>
    if c = '/' then String.ofList done.reverse :: segmentsOf [] cs else segmentsOf (c :: done) cs

/-- The stretches between the slashes of a path; there is always at least one. -/
def segments (path : String) : List String := segmentsOf [] path.toList

/-- The stretch leads nowhere. -/
def isIdle (segment : String) : Bool := segment == "" || segment == "."

/-! ## Order -/

/-- A component of a path. -/
inductive Component
  /-- The slash at the start. -/
  | root
  /-- The name `.` at the start. -/
  | here
  /-- The name `..`. -/
  | up
  /-- Any other name. -/
  | name (text : String)
  deriving DecidableEq, Repr

namespace Component

/-- The place of a kind of component in the order. -/
def rank : Component → Nat
  | root => 0
  | here => 1
  | up => 2
  | name _ => 3

/-- The name of a component that has one of its own. -/
def label : Component → String
  | name text => text
  | _ => ""

/-- The component that a segment stands for. -/
def ofSegment (segment : String) : Component := if segment == ".." then up else name segment

/-- Components are ordered by their kind, then by their names. -/
instance : Ord Component where
  compare a b := (compare a.rank b.rank).then (compare a.label b.label)

end Component

/-- The components of a path, in order. -/
def components (path : String) : List Component :=
  let all := segments path
  let start :=
    match all with
    | "" :: _ :: _ => [Component.root]
    | "." :: _ => [Component.here]
    | _ => []
  start ++ (all.filter (!isIdle ·)).map Component.ofSegment

/-- The order of paths, component by component. -/
def order (a b : String) : Ordering := compare (components a) (components b)

/-! ## Names -/

/-- A path that ends with the name of a file: the text in front of the name, and the name. -/
def splitName? (path : String) : Option (String × String) :=
  match (segments path).reverse.dropWhile isIdle with
  | [] => none
  | name :: before =>
    if name == ".." then none
    else some (String.join (before.reverse.map (· ++ "/")), name)

/-- Splits a name at its last dot into its stem and its extension; a dot at the start does not
count. -/
def splitExtension (name : String) : String × Option String :=
  let chars := name.toList.reverse
  let extension := chars.takeWhile (· ≠ '.')
  match chars.dropWhile (· ≠ '.') with
  | _ :: c :: stem => (String.ofList (c :: stem).reverse, some (String.ofList extension.reverse))
  | _ => (name, none)

/-- The extension of the file that a path names. -/
def extension? (path : String) : Option String := do
  let (_, name) ← splitName? path
  (splitExtension name).2

/-- The path with another extension; a path that names no file stays as it is. The old extension is
taken off the end of the path first, and a name such as `..x`, whose stem is a dot, then leads up
without it: such a path names no file any more and gets no other extension. -/
def withExtension (path extension : String) : String :=
  match splitName? path with
  | some (before, name) =>
    let stem := (splitExtension name).1
    if stem == "." && path == before ++ name then before ++ ".."
    else before ++ stem ++ "." ++ extension
  | none => path

/-- The path of an entry of a directory. -/
def entry (directory name : String) : String :=
  if directory.isEmpty || directory.toList.getLast? = some '/' then directory ++ name
  else directory ++ "/" ++ name

end Templates.Path
