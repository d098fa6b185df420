import Reckon.Document.Characters

/-!
# Cursors

A place in a document: the characters ahead, the line and the column. Block
structure is decided by columns, and line numbers go into errors, so nothing else
has to be known about a place.
-/

namespace Reckon

namespace Document

/-- A place in a document. Lines count from one, columns from zero. -/
structure Cursor where
  rest : List Char
  line : Nat := 1
  column : Nat := 0
  deriving DecidableEq, Repr

namespace Cursor

/-- The place after a number of characters. -/
def advance : Nat → Cursor → Cursor
  | 0, c => c
  | n + 1, c =>
    match c.rest with
    | [] => c
    | x :: rest =>
      advance n (if isBreak x then ⟨rest, c.line + 1, 0⟩ else ⟨rest, c.line, c.column + 1⟩)

/-- The place at which `rest` is what is ahead. -/
def moveTo (c : Cursor) (rest : List Char) : Cursor := c.advance (c.rest.length - rest.length)

/-- The place behind a comment that the line goes on with, if it goes on with one. -/
def skipRemark (c : Cursor) : Cursor :=
  match c.rest.dropWhile isBlank with
  | '#' :: rest => c.moveTo (rest.dropWhile fun x => !isBreak x)
  | _ => c

/-- Skips blanks, comments and line ends, and tells whether a key may start at the
place reached. Outside brackets one may once a line has ended, and there a tab is
no blank, because it cannot indent; but tabs that lead from one comment to the
next are skipped with the comments. `comment` says that the place is inside a
comment, and `after` that only blanks and line ends follow one. -/
def skipFrom (flow : Bool) (keys comment after : Bool) : List Char → (line column : Nat) →
    Bool × Cursor
  | [], line, column => (keys, ⟨[], line, column⟩)
  | x :: rest, line, column =>
    if isBreak x then skipFrom flow (keys || !flow) false (comment || after) rest (line + 1) 0
    else if comment then skipFrom flow keys true after rest line (column + 1)
    else if x == ' ' then skipFrom flow keys false after rest line (column + 1)
    else if x == '\t' && (flow || !keys || (after && (rest.dropWhile isGap).head? == some '#')) then
      skipFrom flow keys false after rest line (column + 1)
    else if x == '#' then skipFrom flow keys true false rest line (column + 1)
    -- A byte order mark may start any line.
    else if x == '\uFEFF' && column == 0 then skipFrom flow keys false false rest line 1
    else (keys, ⟨x :: rest, line, column⟩)

/-- Skips what separates lexemes, inside or outside brackets. -/
def skip (flow keys : Bool) (c : Cursor) : Bool × Cursor :=
  skipFrom flow keys false false c.rest c.line c.column

end Cursor

end Document

end Reckon
