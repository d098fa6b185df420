import Reckon.Source.Piece

/-!
# Scanned source

Pieces are given their place: the offset at which they start and the line on
which they end, counting from one. Tokens are the placed pieces that spell one,
followed by the end-of-input token; errors are the placed pieces with something
wrong, neighbouring ones on a line joined into one span.
-/

namespace Reckon

/-- A flawed span of source. Offsets count bytes; `stop` is past the span. -/
structure ScanError where
  line : Int
  start : Int
  stop : Int
  message : Bytes
  deriving DecidableEq, Repr

namespace ScanError

/-- The text of a scan error. -/
def text (e : ScanError) : Bytes :=
  Bytes.ofString "[line " ++ Bytes.ofInt e.line ++ Bytes.ofString "] Error: " ++ e.message

/-- The texts of several errors, a line each; no errors have no text. -/
def jointText? (errors : List ScanError) : Option Bytes :=
  if errors.isEmpty then none else some (Bytes.join [Ascii.newline] (errors.map text))

/-- Whether the second error goes on where the first one ends. -/
def continues (first second : ScanError) : Bool :=
  first.line == second.line && first.stop == second.start && first.message == second.message

/-- Joins each run of errors that continue one another. -/
def joinRuns : List ScanError → List ScanError
  | [] => []
  | e :: rest =>
    match joinRuns rest with
    | [] => [e]
    | f :: more => if continues e f then { e with stop := f.stop } :: more else e :: f :: more

end ScanError

namespace Source

/-- A piece with the offset of its first byte and the line of its last. -/
structure Placed where
  piece : Piece
  start : Nat
  line : Nat
  deriving DecidableEq, Repr

namespace Placed

/-- The offset just past a placed piece. -/
def stop (p : Placed) : Nat := p.start + p.piece.bytes.length

/-- The token of a placed piece. -/
def token? (p : Placed) : Option Token :=
  p.piece.meaning?.map fun (kind, payload) => ⟨kind, p.piece.bytes, p.line, payload⟩

/-- The error of a placed piece. -/
def error? (p : Placed) : Option ScanError :=
  p.piece.complaint?.map fun message => ⟨p.line, p.start, p.stop, message⟩

end Placed

/-- Gives pieces their places, the first one starting at `start` on `line`. -/
def place (start line : Nat) : List Piece → List Placed
  | [] => []
  | p :: rest =>
    let line := line + Bytes.lineEnds p.bytes
    ⟨p, start, line⟩ :: place (start + p.bytes.length) line rest

/-- The line on which a source ends. -/
def lastLine (source : Bytes) : Nat := 1 + Bytes.lineEnds source

/-- The token that ends every scan. -/
def endToken (source : Bytes) : Token := ⟨.eof, [], lastLine source, .absent⟩

/-- The tokens of a source, the end-of-input token last. -/
def tokens (source : Bytes) : List Token :=
  (place 0 1 (pieces source)).filterMap Placed.token? ++ [endToken source]

/-- The errors of a source, in order. -/
def errors (source : Bytes) : List ScanError :=
  ScanError.joinRuns ((place 0 1 (pieces source)).filterMap Placed.error?)

end Source

end Reckon
