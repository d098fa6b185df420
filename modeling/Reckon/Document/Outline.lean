import Reckon.Document.Cursor
import Reckon.Document.Property

/-!
# The outline of a document

Characters are turned into lexemes one after another. An outline is where this
stands: the place reached, the columns of the block collections that are open,
and the places at which a key may have started, one for each level of brackets.
A colon makes the last such place a key after the fact, and a block mapping too
if its column is further right than the open ones.

A key has to be on one line with its colon and at most 1024 characters before
it. In the column of an open block collection a key is required, and it is an
error if the colon does not come. Collections are nested no deeper than a limit, those
in brackets and block collections counted apart.

Lexemes are handed out in order while later ones are being found: one is ready when
two more have been found behind it and it is settled whether it is a key. A flaw
in the text counts only if a lexeme is wanted that is not ready before it. The same
goes for characters that cannot be decoded.
-/

namespace Reckon

namespace Document

/-- A place at which a key may have started. -/
structure KeyStart where
  /-- How many lexemes come before it. -/
  position : Nat
  line : Nat
  column : Nat
  /-- Whether a key has to start here. -/
  required : Bool
  /-- Whether the lexeme here has to wait until it is settled that it is a key. -/
  awaited : Bool := true
  deriving DecidableEq, Repr

/-- Whether a colon at a place could still make a key. -/
def KeyStart.reaches (k : KeyStart) (c : Cursor) : Bool :=
  k.line == c.line && c.column ≤ k.column + 1024

/-- How far the lexemes of a document have been found. -/
structure Outline where
  cursor : Cursor
  /-- The lexemes found, in order. -/
  lexemes : List Lexeme := []
  /-- The column of the innermost open block collection, or `-1`. -/
  indent : Int := -1
  /-- The columns of the block collections around it. -/
  outer : List Int := []
  /-- Whether a key may start at the cursor. -/
  keys : Bool := true
  /-- The last place at which a key may have started. -/
  start? : Option KeyStart := none
  /-- The same for the levels of brackets around the cursor. -/
  starts : List (Option KeyStart) := []
  /-- Whether the characters ahead are all that are left of the text. -/
  whole : Bool := true
  deriving Repr

namespace Outline

/-- Whether the cursor is between brackets. -/
def inFlow (o : Outline) : Bool := !o.starts.isEmpty

/-- Adds a lexeme that starts at the cursor. -/
def add (o : Outline) (sign : Sign) : Outline :=
  { o with lexemes := o.lexemes ++ [⟨o.cursor.line, sign⟩] }

/-- Puts a lexeme at a position among those found. -/
def insert (o : Outline) (position : Nat) (l : Lexeme) : Outline :=
  { o with lexemes := o.lexemes.take position ++ l :: o.lexemes.drop position }

/-- Moves the cursor over characters that have been read. -/
def moveTo (o : Outline) (rest : List Char) : Outline := { o with cursor := o.cursor.moveTo rest }

/-- Moves the cursor over a comment behind a lexeme. -/
def skipRemark (o : Outline) : Outline := { o with cursor := o.cursor.skipRemark }

/-- The number of lexemes that are ready. -/
def ready (o : Outline) : Nat :=
  (o.start? :: o.starts).foldl
    (fun n start? =>
      match start? with
      | some k => if k.awaited && (k.required || k.reaches o.cursor) then min n k.position else n
      | none => n)
    (o.lexemes.length - 2)

/-! ## Keys -/

/-- Gives up the last place at which a key may have started. -/
def dropStart (o : Outline) : Option Outline :=
  match o.start? with
  | some k => if k.required then none else some { o with start? := none }
  | none => some o

/-- Notes that a key may start at the cursor, if one may. -/
def noteStart (o : Outline) : Option Outline :=
  if o.keys then do
    let o ← o.dropStart
    let required := !o.inFlow && o.indent == o.cursor.column
    let here : KeyStart :=
      { position := o.lexemes.length, line := o.cursor.line, column := o.cursor.column, required }
    return { o with start? := some here }
  else some o

/-! ## Indentation -/

/-- How deep block collections, or brackets, can be nested. -/
def maxDepth : Nat := 10000

/-- Opens a block collection in a column, unless one is open there or further
right. -/
def openBlock (o : Outline) (position line column : Nat) (sign : Sign) : Option Outline :=
  if o.inFlow || column ≤ o.indent then some o
  else if maxDepth ≤ o.outer.length then none
  else
    some { o.insert position ⟨line, sign⟩ with
      indent := column, outer := o.indent :: o.outer }

/-- Ends the block collections that are open further right than a column. -/
def closeBlocks (o : Outline) (column : Int) : Outline :=
  if o.inFlow then o else go o o.outer
where
  go (o : Outline) : List Int → Outline
    | [] => o
    | around :: more =>
      if column < o.indent then go { o.add .blockEnd with indent := around, outer := more } more
      else o

/-- Ends everything that is open, as at a boundary of documents. -/
def closeAll (o : Outline) : Option Outline := do
  return { ← (o.closeBlocks (-1)).dropStart with keys := false }

/-! ## Lexemes -/

/-- Takes a mark that starts a collection between brackets. -/
def openFlow (o : Outline) (sign : Sign) (rest : List Char) : Option Outline := do
  let o ← o.noteStart
  if maxDepth ≤ o.starts.length then none
  else
    return { (o.add sign).moveTo rest with
      keys := true, start? := none, starts := o.start? :: o.starts }

/-- Takes a mark that ends a collection between brackets. Nothing waits for an empty
collection to become a key. -/
def closeFlow (o : Outline) (sign : Sign) (rest : List Char) : Option Outline := do
  let o ← o.dropStart
  let closed := { (o.add sign).moveTo rest with keys := false }
  match o.starts with
  | [] => return closed
  | start? :: starts =>
    let start? := start?.map fun k =>
      if k.position + 1 == o.lexemes.length then { k with awaited := false } else k
    return { closed with start?, starts }

/-- Takes a comma. -/
def takeComma (o : Outline) (rest : List Char) : Option Outline := do
  return { ((← o.dropStart).add .comma).moveTo rest with keys := true }

/-- Takes a mark of block structure, which opens a collection where it stands. -/
def takeBlockMark (o : Outline) (sign collection : Sign) (rest : List Char) : Option Outline :=
  if !o.inFlow && !o.keys then none
  else do
    let opened ← o.openBlock o.lexemes.length o.cursor.line o.cursor.column collection
    return ((← opened.dropStart).add sign).moveTo rest

/-- Takes the dash of an item. -/
def takeItem (o : Outline) (rest : List Char) : Option Outline := do
  return { ← o.takeBlockMark .item .blockSequence rest with keys := true }

/-- Takes a question mark before a key. -/
def takeKey (o : Outline) (rest : List Char) : Option Outline := do
  return { ← o.takeBlockMark .key .blockMapping rest with keys := !o.inFlow }

/-- Takes a colon behind a key that started at `k`. A key that has been handed out is
marked behind what has been found, where it is too late. -/
def takeKeyed (o : Outline) (k : KeyStart) (rest : List Char) : Option Outline := do
  let late := k.position < o.ready
  let marked := o.insert (if late then o.lexemes.length else k.position) ⟨k.line, .key⟩
  let opened ←
    marked.openBlock (if late then marked.lexemes.length else k.position) k.line k.column
      .blockMapping
  return { (opened.add .value).moveTo rest with keys := false, start? := none }

/-- Takes a colon. -/
def takeValue (o : Outline) (rest : List Char) : Option Outline :=
  match o.start? with
  | some k =>
    if k.reaches o.cursor then o.takeKeyed k rest
    else if k.required then none
    else unkeyed { o with start? := none }
  | none => unkeyed o
where
  unkeyed (o : Outline) : Option Outline :=
    if o.inFlow then some { (o.add .value).moveTo rest with keys := false }
    else if !o.keys then none
    else do
      let opened ← o.openBlock o.lexemes.length o.cursor.line o.cursor.column .blockMapping
      return (opened.add .value).moveTo rest

/-- Takes something that may be a key, or stand before one. -/
def takeContent (o : Outline) (read? : Option (Sign × List Char)) : Option Outline := do
  let o ← o.noteStart
  let (sign, rest) ← read?
  return { (o.add sign).moveTo rest with keys := false }

/-- A named lexeme from the name read. -/
def named (sign : Bytes → Sign) (read? : Option (Bytes × List Char)) : Option (Sign × List Char) :=
  read?.map fun (name, rest) => (sign name, rest)

/-- A quoted scalar from the text read. -/
def quoted (read? : Option (List Char × List Char)) : Option (Sign × List Char) :=
  read?.map fun (text, rest) => (.scalar false (encoded text), rest)

/-- Takes a block scalar, after which a key may start. -/
def takeBlockScalar (o : Outline) (literal : Bool) (rest : List Char) : Option Outline := do
  let o ← o.dropStart
  let (text, after) ← blockScalar literal o.indent rest
  return { (o.add (.scalar false (encoded text))).moveTo after with keys := true }

/-- Takes a plain scalar. If its line has ended, a key may start; otherwise a comment
may follow. -/
def takePlain (o : Outline) : Option Outline := do
  let o ← o.noteStart
  let s ← plainFrom o.inFlow (o.indent + 1) .none o.cursor.column o.cursor.rest
  let o := { (o.add (.scalar true (encoded s.text))).moveTo s.rest with keys := s.lineEnded }
  return if s.lineEnded then o else o.skipRemark

/-- Takes a boundary of documents. -/
def takeBoundary (o : Outline) (sign : Sign) (rest : List Char) : Option Outline := do
  return ((← o.closeAll).add sign).moveTo rest

/-- Takes a directive. -/
def takeDirective (o : Outline) (rest : List Char) : Option Outline := do
  let o ← o.closeAll
  let (sign, after) ← directive? rest
  return (o.add sign).moveTo after

/-- Takes the lexeme at the cursor, which starts with the character `c`. -/
def takeAt (o : Outline) (c : Char) (rest : List Char) : Option Outline :=
  if c == '[' then remarked (o.openFlow .flowSequence rest)
  else if c == '\x7b' then remarked (o.openFlow .flowMapping rest)
  else if c == ']' then remarked (o.closeFlow .flowSequenceEnd rest)
  else if c == '\x7d' then remarked (o.closeFlow .flowMappingEnd rest)
  else if c == ',' then remarked (o.takeComma rest)
  -- A comment behind a dash belongs to what comes next.
  else if c == '-' && atGap rest then o.takeItem rest
  else if c == '?' && (o.inFlow || atGap rest) then remarked (o.takeKey rest)
  else if c == ':' && (o.inFlow || atGap rest) then remarked (o.takeValue rest)
  else if c == '*' then remarked (o.takeContent (named .reference (anchorName? rest)))
  else if c == '&' then remarked (o.takeContent (named .anchor (anchorName? rest)))
  else if c == '!' then remarked (o.takeContent (tag? rest))
  else if (c == '|' || c == '>') && !o.inFlow then o.takeBlockScalar (c == '|') rest
  else if c == singleQuote then
    remarked (o.takeContent (quoted (singleQuoted .none (o.cursor.column + 1) rest)))
  else if c == doubleQuote then
    remarked (o.takeContent (quoted (doubleQuoted .none (o.cursor.column + 1) rest)))
  else if atPlain o.inFlow (c :: rest) then o.takePlain
  else none
where
  remarked (o? : Option Outline) : Option Outline := o?.map skipRemark

/-- Goes to the next lexeme and ends the blocks that it is outside of. -/
def approach (o : Outline) : Outline :=
  let (keys, cursor) := o.cursor.skip o.inFlow o.keys
  { o with keys, cursor }.closeBlocks cursor.column

/-- Takes the lexeme at the cursor, or the end of the text. -/
def take (o : Outline) : Option Outline :=
  match o.cursor.rest with
  | [] => do return (← o.closeAll).add .finish
  | c :: rest =>
    if o.cursor.column == 0 && c == '%' then o.takeDirective rest
    else if o.cursor.column == 0 && atBoundary (c :: rest) then
      o.takeBoundary (if c == '-' then .documentStart else .documentEnd) (rest.drop 2)
    else o.takeAt c rest

/-- Whether `n` characters are ahead, or the end of the text. -/
def sees (n : Nat) (o : Outline) : Bool := o.whole || !(o.cursor.rest.drop (n - 1)).isEmpty

/-- Takes the next lexeme. Four characters, the longest mark with the one behind it, have
to be there to tell what it is, and one to tell where it ends. -/
def next (o : Outline) : Option Outline :=
  let o := o.approach
  if o.sees 4 then o.take.filter (sees 1) else none

/-- Whether the end of the text has been taken. -/
def isFinished (o : Outline) : Bool := o.lexemes.getLast?.any fun l => l.sign == .finish

/-- Takes lexemes up to the end or to a flaw, and tells whether there is a flaw. Each
lexeme takes a character, so the number of characters is enough steps. -/
def run : (fuel : Nat) → Outline → Outline × Bool
  | 0, o => (o, true)
  | fuel + 1, o =>
    match o.next with
    | none => (o, true)
    | some next => if next.isFinished then (next, false) else run fuel next

end Outline

end Document

end Reckon
