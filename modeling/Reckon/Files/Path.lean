import Reckon.Text.Bytes

/-!
# Paths

Paths are texts whose elements are separated by slashes. `clean` gives the
shortest path to the same place: no empty and no dot elements, and no element
that a following double dot takes back.
-/

namespace Reckon

/-- The parts of a text between separators; a text without one is one part. -/
def Bytes.parts (separator : UInt8) : Bytes → List Bytes
  | [] => [[]]
  | b :: rest =>
    if b == separator then [] :: Bytes.parts separator rest
    else
      match Bytes.parts separator rest with
      | [] => [[b]]
      | p :: ps => (b :: p) :: ps

namespace Path

/-- The element for the same directory. -/
def dot : Bytes := [Ascii.point]

/-- The element for the directory above. -/
def dotDot : Bytes := [Ascii.point, Ascii.point]

/-- The elements of a path as they stand. -/
def elements (path : Bytes) : List Bytes := Bytes.parts Ascii.slash path

/-- Whether a path starts at the root. -/
def isAbsolute (path : Bytes) : Bool := path.head? == some Ascii.slash

/-- Adds an element to the cleaned elements before it, last one first. -/
def addElement (rooted : Bool) (before : List Bytes) (element : Bytes) : List Bytes :=
  if element.isEmpty || element == dot then before
  else if element == dotDot then
    match before with
    | [] => if rooted then [] else [dotDot]
    | last :: rest => if last == dotDot then dotDot :: before else rest
  else element :: before

/-- The shortest path to the same place. -/
def clean (path : Bytes) : Bytes :=
  let rooted := isAbsolute path
  let kept := ((elements path).foldl (addElement rooted) []).reverse
  let body := Bytes.join [Ascii.slash] kept
  if rooted then Ascii.slash :: body else if body.isEmpty then dot else body

/-- Two paths one after the other, cleaned; an empty path counts for nothing. -/
def append (first second : Bytes) : Bytes :=
  match first, second with
  | [], [] => []
  | [], path => clean path
  | path, [] => clean path
  | first, second => clean (first ++ Ascii.slash :: second)

/-- The last element of a path. -/
def lastElement (path : Bytes) : Bytes := (elements path).getLast?.getD []

/-- The path without its last element, as it stands. -/
def beforeLast (path : Bytes) : Bytes := path.take (path.length - (lastElement path).length)

/-- The directory that holds what a path leads to. -/
def directory (path : Bytes) : Bytes := clean (beforeLast path)

/-- The last element from its last dot on; nothing if it has none. -/
def extension (path : Bytes) : Bytes :=
  let last := lastElement path
  if last.contains Ascii.point then
    Ascii.point :: (last.reverse.takeWhile (· != Ascii.point)).reverse
  else []

/-- A cleaned path and the paths to the directories above it, outermost first. -/
def ancestry (path : Bytes) : List Bytes :=
  let parts := elements path
  let paths := (List.range parts.length).map fun n => Bytes.join [Ascii.slash] (parts.take (n + 1))
  paths.filter (· != [])

end Path

end Reckon
