import Reckon.Session
import Reckon.Text.CharClass

/-!
# The prompt loop

The loop shows a prompt, takes a line, answers it and forgets its errors, until no
line is left. Lines are kept in a history, a line that repeats the one before it
only once; the history starts with the lines of an earlier one.
-/

namespace Reckon

/-- What a command writes. -/
structure Streams where
  out : Bytes := []
  err : Bytes := []
  deriving DecidableEq, Repr

/-- What is written after something else. -/
def Streams.append (first second : Streams) : Streams :=
  ⟨first.out ++ second.out, first.err ++ second.err⟩

/-! ## Lines -/

/-- A line, given backwards, without the carriage return before its end. -/
def endedLine (backwards : Bytes) : Bytes :=
  match backwards with
  | Ascii.carriageReturn :: rest => rest.reverse
  | _ => backwards.reverse

/-- The lines of a text after the part of a line already read, given backwards. A
carriage return belongs to the line end after it; the last line needs no end. -/
def linesFrom (backwards : Bytes) : Bytes → List Bytes
  | [] => if backwards.isEmpty then [] else [backwards.reverse]
  | b :: rest =>
    if b == Ascii.newline then endedLine backwards :: linesFrom [] rest
    else linesFrom (b :: backwards) rest

/-- The lines of a text. -/
def lines (text : Bytes) : List Bytes := linesFrom [] text

/-! ## History -/

/-- The lines entered, oldest first. -/
abbrev History := List Bytes

namespace History

/-- The number of lines that are kept. -/
def limit : Nat := 1000

/-- The latest lines, as many as are kept. -/
def latest (h : History) : History := h.drop (h.length - limit)

/-- The history after a line. -/
def enter (h : History) (line : Bytes) : History :=
  if h.getLast? == some line then h else latest (h ++ [line])

/-- The history of the lines of an earlier one, up to the first that is not UTF-8,
and what is said about that line. -/
def load (text : Bytes) : History × Bytes :=
  let all := lines text
  let good := all.takeWhile Utf8.isValid
  (latest good,
    if good.length < all.length then
      Bytes.line (Bytes.ofString "invalid string at line " ++ Bytes.digits (good.length + 1))
    else [])

/-- A history as a text. -/
def text (h : History) : Bytes := h.flatMap Bytes.line

end History

/-! ## The loop -/

namespace Prompt

/-- Whether a prompt can be shown: no control is in it. -/
def isShowable (prompt : Bytes) : Bool :=
  (Utf8.units prompt).all fun u =>
    match u with
    | .scalar code _ => !CharClass.isControl code
    | .stray _ => true

/-- What the loop says about the way a line ended. -/
def remark (ending : Ending) : Bytes :=
  match ending, ending.message? with
  | .static _, _ => []
  | _, none => []
  | _, some message => Bytes.ofString "Error: " ++ Bytes.line message

/-- The session after a line, its errors forgotten, and what answers the line: the output
of its run, what the console has written meanwhile, and a remark on how the run ended. -/
def answer (s : Session Console) (line : Bytes) : Session Console × Streams :=
  let (next, run) := s.run line
  let written := next.reporter.written.drop s.reporter.written.length
  (next.reset, ⟨run.output, written ++ remark run.ending⟩)

/-- What is written for lines entered one after another. The prompt is shown before
each line and once more at the end. -/
def converse (prompt : Bytes) (s : Session Console) : List Bytes → Streams
  | [] => ⟨prompt, []⟩
  | line :: rest =>
    let (next, written) := answer s line
    Streams.append (Streams.append ⟨prompt, []⟩ written) (converse prompt next rest)

end Prompt

end Reckon
