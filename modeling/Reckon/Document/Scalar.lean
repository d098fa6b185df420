import Reckon.Document.Characters

/-!
# Scalars

The ways to write a scalar. Quoted scalars end at their quote. Plain ones end where
something that cannot be part of them starts, and go on over lines that are
indented more than their surroundings. In both, a line end counts as a space and
several line ends as one less. Block scalars are whole lines that are indented
more than their surroundings; they keep their line ends or fold them.
-/

namespace Reckon

namespace Document

/-! ## Gaps -/

/-- The blanks and line ends read since the last other character. -/
inductive Gap
  /-- Blanks on a line. -/
  | blanks (text : List Char)
  /-- Line ends: the first one unless it was escaped, and the ones after it. -/
  | breaks (first? : Option Char) (others : List Char)
  deriving DecidableEq, Repr

namespace Gap

/-- No gap. -/
def none : Gap := blanks []

/-- Whether nothing is in a gap. -/
def isNone (g : Gap) : Bool := g == none

/-- Whether a line has ended in a gap. -/
def hasBreak : Gap → Bool
  | blanks _ => false
  | breaks .. => true

/-- The gap with one more blank or line end. Blanks beside a line end are dropped. -/
def add (g : Gap) (c : Char) : Gap :=
  match g with
  | blanks text => if isBreak c then breaks (some c) [] else blanks (text ++ [c])
  | breaks first? others => if isBreak c then breaks first? (others ++ [c]) else g

/-- What a gap inside a scalar stands for. -/
def folded : Gap → List Char
  | blanks text => text
  | breaks Option.none others => others
  | breaks (some first) others =>
    if first == '\n' then if others.isEmpty then [' '] else others else first :: others

end Gap

/-! ## Quoted scalars -/

/-- The quote of single-quoted scalars. -/
def singleQuote : Char := '\x27'

/-- The quote of double-quoted scalars. -/
def doubleQuote : Char := '\x22'

/-- The text of a single-quoted scalar whose quote has been read, and what follows
it. -/
def singleQuoted (g : Gap) (column : Nat) : List Char → Option (List Char × List Char)
  | [] => none
  | c :: rest =>
    if isGap c then singleQuoted (g.add c) (if isBreak c then 0 else column + 1) rest
    else if column == 0 && atBoundary (c :: rest) then none
    else if c == singleQuote then
      match rest with
      | d :: more =>
        if d == singleQuote then do
          let (text, after) ← singleQuoted .none (column + 2) more
          return (g.folded ++ c :: text, after)
        else some (g.folded, rest)
      | [] => some (g.folded, [])
    else do
      let (text, after) ← singleQuoted .none (column + 1) rest
      return (g.folded ++ c :: text, after)

/-- The escapes that are a single character after the backslash, and what they
stand for. -/
def simpleEscapes : List (Char × Nat) :=
  [('0', 0), ('a', 7), ('b', 8), ('t', 9), ('\t', 9), ('n', 10), ('v', 11), ('f', 12), ('r', 13),
    ('e', 27), (' ', 0x20), (doubleQuote, 0x22), (singleQuote, 0x27), ('\\', 0x5C), ('N', 0x85),
    ('_', 0xA0), ('L', 0x2028), ('P', 0x2029)]

/-- The character that hexadecimal digits give, if there is one. -/
def hexEscape? (digits : List Char) : Option Char := do
  let code ← hexNumber? digits
  if (0xD800 ≤ code ∧ code ≤ 0xDFFF) ∨ 0x10FFFF < code then none else some (Char.ofNat code)

/-- The text of a double-quoted scalar whose quote has been read, and what follows
it. -/
def doubleQuoted (g : Gap) (column : Nat) : List Char → Option (List Char × List Char)
  | [] => none
  | '\\' :: 'x' :: a :: b :: rest => do
    let c ← hexEscape? [a, b]
    let (text, after) ← doubleQuoted .none (column + 4) rest
    return (g.folded ++ c :: text, after)
  | '\\' :: 'u' :: a :: b :: c :: d :: rest => do
    let x ← hexEscape? [a, b, c, d]
    let (text, after) ← doubleQuoted .none (column + 6) rest
    return (g.folded ++ x :: text, after)
  | '\\' :: 'U' :: a :: b :: c :: d :: e :: f :: i :: j :: rest => do
    let x ← hexEscape? [a, b, c, d, e, f, i, j]
    let (text, after) ← doubleQuoted .none (column + 10) rest
    return (g.folded ++ x :: text, after)
  | '\\' :: letter :: rest =>
    if isBreak letter then do
      let (text, after) ← doubleQuoted (.breaks none []) 0 rest
      return (g.folded ++ text, after)
    else do
      let code ← simpleEscapes.lookup letter
      let (text, after) ← doubleQuoted .none (column + 2) rest
      return (g.folded ++ Char.ofNat code :: text, after)
  | c :: rest =>
    if isGap c then doubleQuoted (g.add c) (if isBreak c then 0 else column + 1) rest
    else if column == 0 && atBoundary (c :: rest) then none
    else if c == doubleQuote then some (g.folded, rest)
    else if c == '\\' then none
    else do
      let (text, after) ← doubleQuoted .none (column + 1) rest
      return (g.folded ++ c :: text, after)

/-! ## Plain scalars -/

/-- The characters with a meaning of their own, which start no plain scalar. -/
def indicators : List Char := "-?:,[]\x7b\x7d#&*!|>'\"%@`".toList

/-- The characters that end a plain scalar between brackets. -/
def flowIndicators : List Char := ",?[]\x7b\x7d".toList

/-- Whether a plain scalar is ahead. -/
def atPlain (flow : Bool) : List Char → Bool
  | [] => false
  | c :: rest =>
    !(indicators.contains c || isGap c)
      || (c == '-' && !(rest.head?.any isBlank))
      || (!flow && (c == '?' || c == ':') && !atGap rest)

/-- Whether a plain scalar ends before the character `c` followed by `rest`. -/
def endsPlain (flow : Bool) (c : Char) (rest : List Char) : Bool :=
  (c == ':' && atGap rest) || (flow && flowIndicators.contains c)

/-- A plain scalar: its text, whether a line has ended behind it, and what follows. -/
structure PlainScalar where
  text : List Char
  lineEnded : Bool
  rest : List Char
  deriving DecidableEq, Repr

/-- Reads a plain scalar on from a column, in surroundings that need an indentation
of `indent`. A tab in the place of indentation is an error. -/
def plainFrom (flow : Bool) (indent : Int) (g : Gap) (column : Nat) :
    List Char → Option PlainScalar
  | [] => some ⟨[], g.hasBreak, []⟩
  | c :: rest =>
    if isGap c then
      if g.hasBreak && c == '\t' && (column : Int) < indent then none
      else plainFrom flow indent (g.add c) (if isBreak c then 0 else column + 1) rest
    else if (!g.isNone && (c == '#' || (column == 0 && atBoundary (c :: rest))
          || (!flow && (column : Int) < indent)))
        || endsPlain flow c rest then
      some ⟨[], g.hasBreak, c :: rest⟩
    else do
      let more ← plainFrom flow indent .none (column + 1) rest
      return { more with text := g.folded ++ c :: more.text }

/-! ## Block scalars -/

/-- A line and the character that ends it; the last line may have none. -/
structure Line where
  content : List Char
  ending : Option Char
  deriving DecidableEq, Repr

namespace Line

/-- The number of spaces at the start of a line. -/
def spaces (l : Line) : Nat := (l.content.takeWhile (· == ' ')).length

/-- A line without a number of characters at its start. -/
def dropFirst (l : Line) (n : Nat) : List Char := l.content.drop n

/-- The number of characters of a line with its end. -/
def size (l : Line) : Nat := l.content.length + l.ending.toList.length

end Line

/-- The lines of a text. -/
def textLines : List Char → List Line
  | [] => []
  | c :: rest =>
    if isBreak c then ⟨[], some c⟩ :: textLines rest
    else
      match textLines rest with
      | [] => [⟨[c], none⟩]
      | l :: more => { l with content := c :: l.content } :: more

/-- What becomes of the line ends behind a block scalar. -/
inductive Chomping
  | strip
  | clip
  | keep
  deriving DecidableEq, Repr

/-- The most spaces at the start of the empty lines ahead and of the line after
them. A tab behind those spaces is an error. -/
def deepest? : List Line → Option Nat
  | [] => some 0
  | l :: more =>
    match l.dropFirst l.spaces, l.ending with
    | [], some _ => (deepest? more).map (max l.spaces)
    | c :: _, _ => if c == '\t' then none else some l.spaces
    | [], none => some l.spaces

/-- A block scalar being read: its text so far, the end of its last line, the empty
lines after that, and whether its last line starts with a blank. -/
structure BlockText where
  text : List Char := []
  lineEnd : List Char := []
  empty : List Char := []
  blank : Bool := false
  deriving DecidableEq, Repr

namespace BlockText

/-- The text with one more line. Lines that start with a blank are not folded. -/
def addLine (literal : Bool) (b : BlockText) (content : List Char) (ending : Option Char) :
    BlockText :=
  let blank := content.head?.any isBlank
  let joint :=
    if !literal && !b.blank && !blank && b.lineEnd.head? == some '\n' then
      if b.empty.isEmpty then [' '] else []
    else b.lineEnd
  ⟨b.text ++ joint ++ b.empty ++ content, ending.toList, [], blank⟩

/-- The text when no more lines belong to it. -/
def chomp (c : Chomping) (b : BlockText) : List Char :=
  match c with
  | .strip => b.text
  | .clip => b.text ++ b.lineEnd
  | .keep => b.text ++ b.lineEnd ++ b.empty

end BlockText

/-- Reads the lines of a block scalar with a given indentation, and counts their
characters. -/
def blockLines (literal : Bool) (indent : Nat) (b : BlockText) (size : Nat) :
    List Line → Option (BlockText × Nat)
  | [] => some (b, size)
  | l :: more =>
    let depth := min indent l.spaces
    match l.dropFirst depth, l.ending with
    | [], none => some (b, size)
    | [], some e =>
      blockLines literal indent { b with empty := b.empty ++ [e] } (size + l.size) more
    | c :: content, ending =>
      if depth < indent then if c == '\t' then none else some (b, size)
      else blockLines literal indent (b.addLine literal (c :: content) ending) (size + l.size) more

/-- What the first line of a block scalar says. -/
structure BlockHeader where
  chomping : Chomping := .clip
  /-- The indentation relative to the surroundings, if it is given. -/
  increment? : Option Nat := none
  deriving DecidableEq, Repr

namespace BlockHeader

/-- The header with the line ends treated as a sign says; other characters are no
such sign. -/
def chomp? (h : BlockHeader) (c : Char) : Option BlockHeader :=
  if c == '+' then some { h with chomping := .keep }
  else if c == '-' then some { h with chomping := .strip }
  else none

/-- The header with an indentation; other characters are no digits. -/
def indent? (h : BlockHeader) (c : Char) : Option BlockHeader :=
  if c.isDigit then some { h with increment? := some (c.toNat - 48) } else none

/-- Reads a sign and a digit, in any order and each of them optional. -/
def read (cs : List Char) : BlockHeader × List Char :=
  match cs with
  | [] => ({}, [])
  | c :: rest =>
    match chomp? {} c, indent? {} c with
    | some h, _ => orElse h (rest.head?.bind h.indent?) rest
    | none, some h => orElse h (rest.head?.bind h.chomp?) rest
    | none, none => ({}, cs)
where
  orElse (h : BlockHeader) (next? : Option BlockHeader) (rest : List Char) :
      BlockHeader × List Char :=
    match next? with
    | some next => (next, rest.drop 1)
    | none => (h, rest)

end BlockHeader

/-- What follows on a line that may hold blanks and a comment only. -/
def emptyRest? (cs : List Char) : Option (List Char) :=
  match cs.dropWhile isBlank with
  | [] => some []
  | c :: rest =>
    if isBreak c then some rest
    else if c == '#' then some ((rest.dropWhile fun x => !isBreak x).drop 1)
    else none

/-- Reads a block scalar whose mark has been read, in surroundings indented by
`indent`, and gives what follows its last line. -/
def blockScalar (literal : Bool) (indent : Int) (cs : List Char) :
    Option (List Char × List Char) := do
  let (header, rest) := BlockHeader.read cs
  let body ← emptyRest? rest
  let lines := textLines body
  let own ←
    match header.increment? with
    | some 0 => none
    | some n => some ((max indent 0).toNat + n)
    | none => (deepest? lines).map fun n => max (max n (indent + 1).toNat) 1
  let (text, size) ← blockLines literal own {} 0 lines
  return (text.chomp header.chomping, body.drop size)

end Document

end Reckon
