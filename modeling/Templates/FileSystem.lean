import Templates.FileError
import Templates.Path

/-!
# File systems

A file system as a value: a tree of directories and files (`Node`) with the place at which relative
paths begin. Commands are functions from one `FileSystem` to the next, so what a command changes can
be read off its result.

There are no links, symbolic or hard: a file is known by the names that lead to it, and no other
path leads there. Every file can be read and written, since there are no permissions, and writing
never fails half-way. What is proved about the files that a command leaves alone is proved for file
systems of this kind only.
-/

namespace Templates

/-- A file or a directory, with its name in the directory around it. -/
inductive Node
  /-- A file and its bytes. -/
  | file (name : String) (content : ByteArray)
  /-- A directory and its entries. -/
  | dir (name : String) (entries : List Node)

namespace Node

/-- The name in the directory around it. -/
def name : Node → String
  | file n _ | dir n _ => n

/-- The entries of a directory; a file has none. -/
def entries : Node → List Node
  | file .. => []
  | dir _ es => es

/-- It is a directory. -/
def isDir : Node → Bool
  | file .. => false
  | dir .. => true

/-- The entry of a name. -/
def child? (node : Node) (name : String) : Option Node := node.entries.find? (·.name == name)

/-- The node that the names lead to. -/
def at? (node : Node) : List String → Option Node
  | [] => some node
  | name :: names => (node.child? name).bind fun e => e.at? names

/-- The entries with one of them set. -/
def setEntry (new : Node) : List Node → List Node
  | [] => [new]
  | e :: es => if e.name = new.name then new :: es else e :: setEntry new es

/-- Puts a node into the directory that the names lead to, making directories that are missing. -/
def put : Node → List String → Node → Node
  | file n content, _, _ => file n content
  | dir n es, [], new => dir n (setEntry new es)
  | dir n es, name :: names, new =>
    let inner := (es.find? (·.name == name)).getD (dir name [])
    dir n (setEntry (inner.put names new) es)

/-- Takes an entry out of the directory that the names lead to. -/
def remove : Node → List String → String → Node
  | file n content, _, _ => file n content
  | dir n es, [], old => dir n (es.filter (·.name ≠ old))
  | dir n es, name :: names, old =>
    match es.find? (·.name == name) with
    | some inner => dir n (setEntry (inner.remove names old) es)
    | none => dir n es

end Node

/-- A file system. -/
structure FileSystem where
  /-- The directory that contains all else. -/
  root : Node
  /-- The names that lead to the place where relative paths begin. -/
  here : List String

namespace FileSystem

/-- A file system without files. -/
def empty : FileSystem := ⟨.dir "" [], []⟩

/-- The length in bytes up to which a name can be looked up. -/
def maxNameLength : Nat := 255

/-- The length in bytes that a path stays below. -/
def maxPathLength : Nat := 4096

/-- The path is short enough to be looked up. -/
def fits (path : String) : Bool := path.utf8ByteSize < maxPathLength

/-- Follows the segments of a path from a place on. -/
def follow (root : Node) (place : List String) : List String → Except FileError (List String)
  | [] => .ok place
  | s :: ss =>
    match root.at? place with
    | none => .error .notFound
    | some (.file ..) => .error .notDirectory
    | some (.dir n es) =>
      if Path.isIdle s then follow root place ss
      else if s = ".." then follow root place.dropLast ss
      else if maxNameLength < s.utf8ByteSize then .error .nameTooLong
      else
        match (Node.dir n es).child? s with
        | none => .error .notFound
        | some _ => follow root (place ++ [s]) ss

/-- The place that the segments of a path start from, and the segments behind it. -/
def start (fs : FileSystem) (path : String) : List String × List String :=
  match Path.segments path with
  | "" :: s :: ss => ([], s :: ss)
  | ss => (fs.here, ss)

/-- The names that lead from the root to what a path names. -/
def place (fs : FileSystem) (path : String) : Except FileError (List String) :=
  if path.toList.contains '\x00' then .error .zeroInPath
  else if path.isEmpty then .error .notFound
  else if !fits path then .error .nameTooLong
  else
    let (place, segments) := fs.start path
    follow fs.root place segments

/-- The node that a path names. -/
def node (fs : FileSystem) (path : String) : Except FileError Node := do
  match fs.root.at? (← fs.place path) with
  | some n => .ok n
  | none => .error .notFound

/-- The bytes of a file. -/
def bytes (fs : FileSystem) (path : String) : Except FileError ByteArray := do
  match ← fs.node path with
  | .file _ content => .ok content
  | .dir .. => .error .isDirectory

/-- The text of a file. -/
def text (fs : FileSystem) (path : String) : Except FileError String := do
  match String.fromUTF8? (← fs.bytes path) with
  | some s => .ok s
  | none => .error .notText

/-- The size of a file in bytes; a directory has none of its own. -/
def size (fs : FileSystem) (path : String) : Except FileError Nat := do
  match ← fs.node path with
  | .file _ content => .ok content.size
  | .dir .. => .ok 0

/-- Replaces the text of a file. -/
def write (fs : FileSystem) (path text : String) : Except FileError FileSystem := do
  let names ← fs.place path
  match fs.root.at? names with
  | some (.file n _) => .ok { fs with root := fs.root.put names.dropLast (.file n text.toUTF8) }
  | some (.dir ..) => .error .isDirectory
  | none => .error .notFound

/-- Makes the directories that the segments of a path lead through from a place on, and ends at the
place they lead to. -/
def makeDirectories (root : Node) (place : List String) : List String → Node × List String
  | [] => (root, place)
  | s :: ss =>
    if Path.isIdle s then makeDirectories root place ss
    else if s = ".." then makeDirectories root place.dropLast ss
    else
      match root.at? (place ++ [s]) with
      | some _ => makeDirectories root (place ++ [s]) ss
      | none => makeDirectories (root.put place (.dir s [])) (place ++ [s]) ss

/-- Puts a file, or a directory if there is no content, at a path, and makes the directories on the
way. -/
def create (fs : FileSystem) (path : String) (content : Option ByteArray) : FileSystem :=
  let (place, segments) := fs.start path
  match content with
  | none => { fs with root := (makeDirectories fs.root place segments).1 }
  | some bytes =>
    match (segments.filter (!Path.isIdle ·)).reverse with
    | [] => fs
    | name :: before =>
      let (root, place) := makeDirectories fs.root place before.reverse
      { fs with root := root.put place (.file name bytes) }

/-- Takes a file away. -/
def delete (fs : FileSystem) (path : String) : Except FileError FileSystem := do
  let names ← fs.place path
  match fs.root.at? names with
  | some (.file n _) => .ok { fs with root := fs.root.remove names.dropLast n }
  | some (.dir ..) => .error .isDirectory
  | none => .error .notFound

end FileSystem

end Templates
