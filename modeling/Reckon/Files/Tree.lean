import Reckon.Files.Path

/-!
# File trees

A tree maps locations, given as lists of names from the root, to files and
directories; the root is a directory. Paths are resolved name by name from a
working directory, and each name but the last has to lead to a directory. What
stands in the way of an operation is reported with the operation and the path as
it was given.
-/

namespace Reckon

/-- What stands in the way of a file operation. -/
inductive Obstacle
  | noEntry
  | notDirectory
  | isDirectory
  | badName
  deriving DecidableEq, Repr

/-- The wording of an obstacle. -/
def Obstacle.text : Obstacle → Bytes
  | noEntry => Bytes.ofString "no such file or directory"
  | notDirectory => Bytes.ofString "not a directory"
  | isDirectory => Bytes.ofString "is a directory"
  | badName => Bytes.ofString "invalid argument"

/-- A file operation. -/
inductive FileAction
  | opening
  | reading
  | inspecting
  | makingDirectory
  deriving DecidableEq, Repr

/-- The name of a file operation. -/
def FileAction.name : FileAction → Bytes
  | opening => Bytes.ofString "open"
  | reading => Bytes.ofString "read"
  | inspecting => Bytes.ofString "lstat"
  | makingDirectory => Bytes.ofString "mkdir"

/-- A failed file operation. -/
structure FileError where
  action : FileAction
  path : Bytes
  obstacle : Obstacle
  deriving DecidableEq, Repr

/-- The text of a failed file operation. -/
def FileError.text (e : FileError) : Bytes :=
  e.action.name ++ Ascii.space :: e.path ++ Bytes.ofString ": " ++ e.obstacle.text

/-- What a location holds. -/
inductive Entry
  | file (content : Bytes)
  | directory
  deriving DecidableEq, Repr

/-- Names from the root. -/
abbrev Location := List Bytes

/-- The files and directories below the root, and the working directory. -/
structure Tree where
  entries : List (Location × Entry) := []
  here : Location := []
  deriving DecidableEq, Repr

namespace Tree

/-- What a location holds. -/
def entry? (t : Tree) (location : Location) : Option Entry :=
  if location.isEmpty then some .directory else t.entries.lookup location

/-- Puts an entry at a location, in place of the one that is there. -/
def put (t : Tree) (location : Location) (entry : Entry) : Tree :=
  if (t.entries.lookup location).isSome then
    { t with
      entries := t.entries.map fun old => if old.1 == location then (location, entry) else old }
  else { t with entries := t.entries ++ [(location, entry)] }

/-- Follows names from a location. -/
def follow (t : Tree) : Location → List Bytes → Except Obstacle (Location × Entry)
  | location, [] =>
    match t.entry? location with
    | some entry => .ok (location, entry)
    | none => .error .noEntry
  | location, name :: names =>
    match t.entry? location with
    | none => .error .noEntry
    | some (.file _) => .error .notDirectory
    | some .directory =>
      if name.isEmpty || name == Path.dot then t.follow location names
      else if name == Path.dotDot then t.follow location.dropLast names
      else t.follow (location ++ [name]) names

/-- The location of a path and what it holds. -/
def resolve (t : Tree) (path : Bytes) : Except Obstacle (Location × Entry) :=
  if path.isEmpty then .error .noEntry
  else if path.contains 0 then .error .badName
  else t.follow (if Path.isAbsolute path then [] else t.here) (Path.elements path)

/-- The content of the file that a path leads to. -/
def read (t : Tree) (path : Bytes) : Except FileError Bytes :=
  match t.resolve path with
  | .error obstacle => .error ⟨.opening, path, obstacle⟩
  | .ok (_, .directory) => .error ⟨.reading, path, .isDirectory⟩
  | .ok (_, .file content) => .ok content

/-- Makes the directory of a cleaned path if nothing is there. -/
def makeDirectory (t : Tree) (path : Bytes) : Except FileError Tree :=
  match t.resolve path with
  | .ok (_, .directory) => .ok t
  | .ok (_, .file _) => .error ⟨.makingDirectory, path, .notDirectory⟩
  | .error _ =>
    match t.resolve (Path.directory path) with
    | .ok (parent, .directory) => .ok (t.put (parent ++ [Path.lastElement path]) .directory)
    | .ok (_, .file _) => .error ⟨.makingDirectory, path, .notDirectory⟩
    | .error obstacle => .error ⟨.makingDirectory, path, obstacle⟩

/-- Makes a directory and those above it, as far as nothing is in the way. -/
def makeDirectories (t : Tree) (path : Bytes) : Tree × Option FileError :=
  (Path.ancestry path).foldl
    (fun (t, error?) path =>
      match error? with
      | some error => (t, some error)
      | none =>
        match t.makeDirectory path with
        | .ok t => (t, none)
        | .error error => (t, some error))
    (t, none)

/-- Writes a file in an existing directory; what cannot be written is left. -/
def write (t : Tree) (path content : Bytes) : Tree :=
  let name := Path.lastElement path
  if name.isEmpty || name == Path.dot || name == Path.dotDot || path.contains 0 then t
  else
    match t.resolve (Path.directory path) with
    | .ok (parent, .directory) =>
      match t.entry? (parent ++ [name]) with
      | some .directory => t
      | _ => t.put (parent ++ [name]) (.file content)
    | _ => t

/-- The files below a location, with their names from it. -/
def filesBelow (t : Tree) (location : Location) : List (Location × Bytes) :=
  t.entries.filterMap fun (place, entry) =>
    match entry with
    | .file content =>
      if location.isPrefixOf place then some (place.drop location.length, content) else none
    | .directory => none

/-- The files that a path leads to or that are below it and have an extension,
sorted by path. A file that the path itself leads to keeps the path as given. -/
def filesWithExtension (t : Tree) (extension path : Bytes) : Except FileError (List Bytes) :=
  match t.resolve path with
  | .error obstacle => .error ⟨.inspecting, path, obstacle⟩
  | .ok (location, entry) =>
    let found : List Bytes :=
      match entry with
      | .file _ => [path]
      | .directory =>
        (t.filesBelow location).map fun file => Path.append path (Bytes.join [Ascii.slash] file.1)
    .ok ((found.filter fun p => Path.extension p == extension).mergeSort Bytes.le)

/-- The extension of source files. -/
def sourceExtension : Bytes := Bytes.ofString ".lox"

/-- The source files that a path leads to or that are below it. -/
def sourceFiles (t : Tree) (path : Bytes) : Except FileError (List Bytes) :=
  t.filesWithExtension sourceExtension path

end Tree

end Reckon
