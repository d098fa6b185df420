import Reckon.Text.Bytes

/-!
# Lexemes of documents

A document is read as a sequence of lexemes. Most are written out; the starts and
ends of block collections and the marks of plain keys are not, and are found from
columns and colons. Each lexeme knows the line it starts on.
-/

namespace Reckon

namespace Document

/-- What a lexeme says. -/
inductive Sign
  /-- Three dashes before a document. -/
  | documentStart
  /-- Three points after a document. -/
  | documentEnd
  /-- A directive with the version of the format. -/
  | version (major minor : Nat)
  /-- A directive that makes a handle short for the start of a tag. -/
  | handle (name expansion : Bytes)
  /-- The end of the text. -/
  | finish
  | blockSequence
  | blockMapping
  | blockEnd
  | flowSequence
  | flowSequenceEnd
  | flowMapping
  | flowMappingEnd
  /-- A dash before an item. -/
  | item
  /-- A comma between brackets. -/
  | comma
  /-- What comes next is a key. -/
  | key
  /-- What comes next is the value of a key. -/
  | value
  /-- The use of an anchored node. -/
  | reference (name : Bytes)
  | anchor (name : Bytes)
  | tag (handle suffix : Bytes)
  | scalar (plain : Bool) (text : Bytes)
  deriving DecidableEq, Repr

/-- A lexeme with its line. -/
structure Lexeme where
  line : Nat
  sign : Sign
  deriving DecidableEq, Repr

end Document

end Reckon
