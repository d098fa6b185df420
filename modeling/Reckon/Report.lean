import Reckon.Expr.Eval
import Reckon.Expr.Parser
import Reckon.Source.Scan

/-!
# Reporters

Problems found in a source go to a reporter. Two are in use: a console, which
writes each problem on a line of its own and remembers only that there was one,
and a recorder, which keeps the problems. Both forget on reset; what a console
has written stays written. A reader takes expressions off a token list one after
another and hands its errors to a reporter.
-/

namespace Reckon

/-- Something that went wrong. -/
inductive Problem
  | plain (text : Bytes)
  | scan (error : ScanError)
  | located (error : SyntaxError)
  | runtime (error : RuntimeError)
  /-- Several scan errors taken as one problem. -/
  | joint (errors : List ScanError)
  deriving DecidableEq, Repr

namespace Problem

/-- The text of a problem. -/
def text : Problem → Bytes
  | plain t => t
  | scan e => e.text
  | located e => e.text
  | runtime e => e.text
  | joint errors => Bytes.join [Ascii.newline] (errors.map ScanError.text)

/-- Scan errors as one problem; no errors are no problem. -/
def ofScanErrors? (errors : List ScanError) : Option Problem :=
  if errors.isEmpty then none else some (joint errors)

/-- The text shown for what was handed to a reporter, which may be nothing. -/
def shown : Option Problem → Bytes
  | none => Bytes.ofString "<nil>"
  | some p => p.text

end Problem

/-- What receives problems. Nothing can be handed over too, and counts. -/
class Reporter (ρ : Type) where
  /-- Takes a problem. -/
  handle : ρ → Option Problem → ρ
  /-- Whether a problem has come since the last reset. -/
  received : ρ → Bool
  /-- Forgets the problems so far. -/
  reset : ρ → ρ

/-- Hands over problems in order. -/
def Reporter.handleAll {ρ : Type} [Reporter ρ] (r : ρ) (problems : List Problem) : ρ :=
  problems.foldl (fun r p => Reporter.handle r (some p)) r

/-- A reporter that writes each problem on a line. -/
structure Console where
  received : Bool := false
  written : Bytes := []
  deriving DecidableEq, Repr

instance : Reporter Console where
  handle c p := ⟨true, c.written ++ Bytes.line (Problem.shown p)⟩
  received := Console.received
  reset c := { c with received := false }

/-- A reporter that keeps the problems. -/
structure Recorder where
  problems : List (Option Problem) := []
  deriving DecidableEq, Repr

instance : Reporter Recorder where
  handle r p := ⟨r.problems ++ [p]⟩
  received r := !r.problems.isEmpty
  reset _ := ⟨[]⟩

/-- The problem handed over last. -/
def Recorder.last? (r : Recorder) : Option Problem := r.problems.getLast?.join

/-! ## Readers -/

/-- A reader of tokens: those that are left, and where its errors go. -/
structure Reader (ρ : Type) where
  rest : List Token
  reporter : ρ
  deriving DecidableEq, Repr

namespace Reader

variable {ρ : Type} [Reporter ρ]

/-- Goes on with the tokens `rest`, handing over the errors met before them. -/
def advance (r : Reader ρ) (errors : List SyntaxError) (rest : List Token) : Reader ρ :=
  ⟨rest, Reporter.handleAll r.reporter (errors.map .located)⟩

/-- Reads one expression. -/
def readExpr (r : Reader ρ) : Reader ρ × Parser.Reading :=
  let reading := Parser.readExpr r.rest
  (r.advance reading.errors reading.rest, reading)

/-- Reads expressions up to the end of input. -/
def readAll (r : Reader ρ) : Reader ρ × Parser.Batch :=
  let batch := Parser.readAll r.rest
  (r.advance batch.errors batch.rest, batch)

/-- Reads a single expression off tokens, and whatever stands behind it is left alone. No
tokens are no expression, and no error either. -/
def parse (tokens : List Token) (reporter : ρ) : ρ × Except Fault (Option Expr) :=
  if tokens.isEmpty then (reporter, .ok none)
  else
    let (reader, reading) := readExpr ⟨tokens, reporter⟩
    (reader.reporter,
      match reading with
      | .ok e _ => .ok (some e)
      | .wrong .. => .ok none
      | .fault fault _ => .error fault)

end Reader

end Reckon
