import Reckon.Expr.Printer
import Reckon.Report

/-!
# Sessions

A session runs one source after another. A run scans and reads its source,
handing every problem to the reporter. If the reporter holds a problem
afterwards, from this run or from an earlier one that was not reset, nothing is
evaluated. Otherwise the expressions are evaluated or printed in order, a line
each, and a failed operation ends the run.
-/

namespace Reckon

/-- How a run ends. -/
inductive Ending
  | done
  /-- The source, or an earlier one, has errors; these are the scan errors. -/
  | static (errors : List ScanError)
  /-- An operation failed. -/
  | runtime (error : RuntimeError)
  /-- The session was set to a mode that does not exist. -/
  | fault (fault : Fault)
  deriving DecidableEq, Repr

/-- The text of an ending that is not `done`. -/
def Ending.message? : Ending → Option Bytes
  | done => none
  | static errors =>
    some (Bytes.ofString "source has errors" ++
      (match ScanError.jointText? errors with
      | none => []
      | some text => Ascii.newline :: text))
  | runtime e => some (Bytes.ofString "run: " ++ e.text)
  | fault f => some f.message

/-- What a run gives: the text it writes, the values it computes unless it prints
or does not start, and its ending. -/
structure Run where
  output : Bytes
  values? : Option (List Value)
  ending : Ending
  deriving DecidableEq, Repr

namespace Run

/-- Evaluates expressions in order up to the first failure. -/
def evaluating : List Expr → Run
  | [] => ⟨[], some [], .done⟩
  | e :: rest =>
    match e.eval with
    | .error (.runtime error) => ⟨[], some [], .runtime error⟩
    | .error (.fault fault) => ⟨[], none, .fault fault⟩
    | .ok v =>
      let later := evaluating rest
      ⟨Bytes.line v.display ++ later.output, later.values?.map (v :: ·), later.ending⟩

/-- Prints expressions in order. -/
def printing (mode : Mode) : List Expr → Run
  | [] => ⟨[], none, .done⟩
  | e :: rest =>
    match mode.render e with
    | .error fault => ⟨[], none, .fault fault⟩
    | .ok text =>
      let later := printing mode rest
      { later with output := Bytes.line text ++ later.output }

/-- Does with expressions what a mode says. -/
def ofExprs (mode : Mode) (exprs : List Expr) : Run :=
  match mode with
  | .evaluate => evaluating exprs
  | _ => printing mode exprs

end Run

/-- A session: what it does with expressions, and where its problems go. -/
structure Session (ρ : Type) where
  mode : Mode := .evaluate
  reporter : ρ

namespace Session

variable {ρ : Type} [Reporter ρ]

/-- Hands a problem straight to the reporter. -/
def handle (s : Session ρ) (p : Option Problem) : Session ρ :=
  { s with reporter := Reporter.handle s.reporter p }

/-- Forgets the problems so far. -/
def reset (s : Session ρ) : Session ρ := { s with reporter := Reporter.reset s.reporter }

/-- The problems of a source: its scan errors, then its syntax errors. -/
def problems (source : Bytes) : List Problem :=
  (Source.errors source).map .scan
    ++ (Parser.readAll (Source.tokens source)).errors.map .located

/-- Runs a source. -/
def run (s : Session ρ) (source : Bytes) : Session ρ × Run :=
  let batch := Parser.readAll (Source.tokens source)
  let reporter := Reporter.handleAll s.reporter (problems source)
  ({ s with reporter },
    match batch.fault? with
    | some fault => ⟨[], none, .fault fault⟩
    | none =>
      if Reporter.received reporter then ⟨[], none, .static (Source.errors source)⟩
      else Run.ofExprs s.mode batch.exprs)

end Session

end Reckon
