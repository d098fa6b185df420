import Mathlib.Data.List.DropRight
import Reckon.Command.Prompt
import Reckon.Proofs.Safety

/-!
# Sessions and their histories

A session is worked by operations: sources are run, the mode is set, problems are
handed straight to the reporter, and the reporter is reset. Whatever came before,
all that a run can see of it is the mode and whether the reporter holds a problem:

* sessions that agree on these two go on agreeing, and give the same runs, even if
  their reporters are of different kinds (`Alike.step`, `Alike.after`);
* the mode is the one set last, and a problem is held exactly if one was handed
  over behind the last reset (`mode_after`, `received_after`).

The first fact makes a console and a recorder interchangeable
(`console_recorder_agree`), both together say what a run owes to its history
(`runs_forget_history`).
-/

namespace Reckon

open Reckon.Parser (readAll)

/-- A reporter that remembers whether something was handed over since the last
reset. -/
class LawfulReporter (ρ : Type) [Reporter ρ] : Prop where
  received_handle (r : ρ) (p : Option Problem) : Reporter.received (Reporter.handle r p) = true
  received_reset (r : ρ) : Reporter.received (Reporter.reset r) = false

instance : LawfulReporter Console where
  received_handle _ _ := rfl
  received_reset _ := rfl

instance : LawfulReporter Recorder where
  received_handle r p := by simp [Reporter.received, Reporter.handle]
  received_reset _ := rfl

/-! ## Operations -/

/-- What can be done with a session. -/
inductive Operation
  | run (source : Bytes)
  | setMode (code : Int)
  | handle (problem? : Option Problem)
  | reset
  deriving DecidableEq, Repr

namespace Operation

/-- What an operation hands to the reporter. -/
def handed : Operation → List (Option Problem)
  | run source => (Session.problems source).map some
  | handle p => [p]
  | setMode _ | reset => []

/-- The mode that an operation sets. -/
def mode? : Operation → Option Mode
  | setMode code => some (Mode.ofCode code)
  | run _ | handle _ | reset => none

end Operation

namespace Session

variable {ρ : Type} [Reporter ρ]

/-- One operation: the session after it, and the run if it was one. -/
def step (s : Session ρ) : Operation → Session ρ × Option Run
  | .run source => ((s.run source).1, some (s.run source).2)
  | .setMode code => ({ s with mode := Mode.ofCode code }, none)
  | .handle p => (s.handle p, none)
  | .reset => (s.reset, none)

/-- The session after several operations. -/
def after (s : Session ρ) (ops : List Operation) : Session ρ :=
  ops.foldl (fun s op => (s.step op).1) s

/-- The runs among several operations, in order. -/
def outcomes (s : Session ρ) : List Operation → List Run
  | [] => []
  | op :: rest => (s.step op).2.toList ++ outcomes (s.step op).1 rest

theorem after_concat (s : Session ρ) (ops : List Operation) (op : Operation) :
    s.after (ops ++ [op]) = ((s.after ops).step op).1 := by
  rw [after, List.foldl_append]
  rfl

end Session

/-! ## Histories -/

/-- The problems handed over behind the last reset of a history. -/
def pending (ops : List Operation) : List (Option Problem) :=
  (ops.rtakeWhile (· ≠ .reset)).flatMap Operation.handed

/-- The mode that a history sets last, if it sets one. -/
def modeAfter (ops : List Operation) : Mode :=
  (ops.filterMap Operation.mode?).getLast?.getD .evaluate

theorem pending_concat (ops : List Operation) (op : Operation) :
    pending (ops ++ [op]) = if op = .reset then [] else pending ops ++ op.handed := by
  unfold pending
  by_cases last : op = .reset
  · rw [if_pos last, List.rtakeWhile_concat_neg _ _ _ (by simpa using last)]
    rfl
  · rw [if_neg last, List.rtakeWhile_concat_pos _ _ _ (by simpa using last), List.flatMap_append,
      List.flatMap_singleton]

theorem modeAfter_concat (ops : List Operation) (op : Operation) :
    modeAfter (ops ++ [op]) = op.mode?.getD (modeAfter ops) := by
  unfold modeAfter
  rw [List.filterMap_append]
  cases op <;> simp [Operation.mode?]

/-! ## One run -/

section Runs

variable {ρ : Type} [Reporter ρ] [LawfulReporter ρ]

theorem received_handleAll (r : ρ) (problems : List Problem) :
    Reporter.received (Reporter.handleAll r problems) =
      (Reporter.received r || !problems.isEmpty) := by
  induction problems generalizing r with
  | nil => simp [Reporter.handleAll]
  | cons p rest ih =>
      have first := LawfulReporter.received_handle r (some p)
      have later := ih (Reporter.handle r (some p))
      rw [first, Bool.true_or] at later
      simpa [Reporter.handleAll] using later

/-- What a run gives, as far as its session matters: nothing if a problem is held
or found, and otherwise what the mode says. -/
theorem run_outcome (s : Session ρ) (source : Bytes) :
    (s.run source).2 =
      if Reporter.received s.reporter = true ∨ Session.problems source ≠ [] then
        ⟨[], none, .static (Source.errors source)⟩
      else Run.ofExprs s.mode (readAll (Source.tokens source)).exprs := by
  have unfaulted := (stagesSafe source).unfaulted
  have held : Reporter.received (Reporter.handleAll s.reporter (Session.problems source)) = true ↔
      Reporter.received s.reporter = true ∨ Session.problems source ≠ [] := by
    simp [received_handleAll]
  simp only [Session.run, unfaulted, held]

theorem run_refused {s : Session ρ} (held : Reporter.received s.reporter = true)
    (source : Bytes) : (s.run source).2 = ⟨[], none, .static (Source.errors source)⟩ := by
  rw [run_outcome, if_pos (.inl held)]

/-- An operation that failed was reached without a problem, now or before. -/
theorem problems_eq_nil_of_runtime {s : Session ρ} {source : Bytes} {error : RuntimeError}
    (failed : (s.run source).2.ending = .runtime error) :
    Reporter.received s.reporter = false ∧ Session.problems source = [] := by
  rw [run_outcome] at failed
  split at failed
  · cases failed
  · next clean =>
    obtain ⟨unheld, none⟩ := not_or.mp clean
    exact ⟨Bool.eq_false_iff.mpr unheld, not_not.mp none⟩

end Runs

/-! ## Sessions that agree -/

section Agreement

variable {ρ σ : Type} [Reporter ρ] [Reporter σ]

/-- Sessions with the same mode whose reporters both hold a problem or both hold
none. -/
structure Alike (s : Session ρ) (t : Session σ) : Prop where
  mode : s.mode = t.mode
  received : Reporter.received s.reporter = Reporter.received t.reporter

variable [LawfulReporter ρ] [LawfulReporter σ]

theorem Alike.run {s : Session ρ} {t : Session σ} (h : Alike s t) (source : Bytes) :
    (s.run source).2 = (t.run source).2 := by
  rw [run_outcome, run_outcome, h.mode, h.received]

/-- One operation keeps sessions alike, and gives the same run. -/
theorem Alike.step {s : Session ρ} {t : Session σ} (h : Alike s t) (op : Operation) :
    Alike (s.step op).1 (t.step op).1 ∧ (s.step op).2 = (t.step op).2 := by
  cases op with
  | run source =>
      refine ⟨⟨h.mode, ?_⟩, congrArg some (h.run source)⟩
      show Reporter.received (Reporter.handleAll s.reporter _) =
        Reporter.received (Reporter.handleAll t.reporter _)
      rw [received_handleAll, received_handleAll, h.received]
  | setMode code => exact ⟨⟨rfl, h.received⟩, rfl⟩
  | handle p =>
      refine ⟨⟨h.mode, ?_⟩, rfl⟩
      show Reporter.received (Reporter.handle s.reporter p) =
        Reporter.received (Reporter.handle t.reporter p)
      rw [LawfulReporter.received_handle, LawfulReporter.received_handle]
  | reset =>
      refine ⟨⟨h.mode, ?_⟩, rfl⟩
      show Reporter.received (Reporter.reset s.reporter) =
        Reporter.received (Reporter.reset t.reporter)
      rw [LawfulReporter.received_reset, LawfulReporter.received_reset]

theorem Alike.after {s : Session ρ} {t : Session σ} (h : Alike s t) (ops : List Operation) :
    Alike (s.after ops) (t.after ops) := by
  induction ops generalizing s t with
  | nil => exact h
  | cons op rest ih => exact ih (h.step op).1

end Agreement

/-! ## What a history leaves behind -/

section Leavings

variable {ρ : Type} [Reporter ρ] [LawfulReporter ρ]

omit [LawfulReporter ρ] in
theorem mode_step (s : Session ρ) (op : Operation) :
    (s.step op).1.mode = op.mode?.getD s.mode := by
  cases op <;> rfl

theorem received_step (s : Session ρ) (op : Operation) :
    Reporter.received (s.step op).1.reporter =
      if op = .reset then false else Reporter.received s.reporter || !op.handed.isEmpty := by
  cases op with
  | run source =>
      show Reporter.received (Reporter.handleAll s.reporter (Session.problems source)) = _
      simp [received_handleAll, Operation.handed]
  | setMode code => simp [Session.step, Operation.handed]
  | handle p =>
      show Reporter.received (Reporter.handle s.reporter p) = _
      simp [LawfulReporter.received_handle, Operation.handed]
  | reset =>
      show Reporter.received (Reporter.reset s.reporter) = _
      simp [LawfulReporter.received_reset]

omit [LawfulReporter ρ] in
/-- The mode is the one that was set last. -/
theorem mode_after (new : ρ) (ops : List Operation) :
    (Session.after ⟨.evaluate, new⟩ ops).mode = modeAfter ops := by
  induction ops using List.reverseRecOn with
  | nil => rfl
  | append_singleton ops op ih =>
      rw [Session.after_concat, mode_step, modeAfter_concat, ih]

/-- A problem is held exactly if one was handed over behind the last reset. -/
theorem received_after {new : ρ} (unused : Reporter.received new = false)
    (ops : List Operation) :
    Reporter.received (Session.after ⟨.evaluate, new⟩ ops).reporter = !(pending ops).isEmpty := by
  induction ops using List.reverseRecOn with
  | nil => exact unused
  | append_singleton ops op ih =>
      rw [Session.after_concat, received_step, pending_concat, ih]
      by_cases last : op = .reset
      · rw [if_pos last, if_pos last]
        rfl
      · rw [if_neg last, if_neg last]
        cases pending ops <;> rfl

theorem alike_new {new : ρ} (unused : Reporter.received new = false) {ops : List Operation}
    (none : pending ops = []) :
    Alike (Session.after ⟨.evaluate, new⟩ ops) ⟨modeAfter ops, new⟩ := by
  refine ⟨mode_after new ops, ?_⟩
  rw [received_after unused, none]
  exact unused.symm

/-- Lines that are run and reset one after another give what each gives alone. -/
theorem outcomes_lines {s : Session ρ} {new : ρ} (unused : Reporter.received new = false)
    (clean : Reporter.received s.reporter = false) (lines : List Bytes) :
    s.outcomes (lines.flatMap fun line => [.run line, .reset]) =
      lines.map fun line => (Session.run ⟨s.mode, new⟩ line).2 := by
  induction lines generalizing s with
  | nil => rfl
  | cons line rest ih =>
      have alike : Alike s ⟨s.mode, new⟩ := ⟨rfl, clean.trans unused.symm⟩
      have reset : Reporter.received (s.run line).1.reset.reporter = false :=
        LawfulReporter.received_reset _
      have later := ih reset
      rw [List.map_cons, ← alike.run line]
      exact congrArg ((s.run line).2 :: ·) later

end Leavings

/-- `HistoryFree new`: in a session that starts with the reporter `new`, a run owes
its history no more than the mode and the presence of a problem. -/
structure HistoryFree {ρ : Type} [Reporter ρ] (new : ρ) : Prop where
  /-- A problem is held exactly if one was handed over behind the last reset. -/
  held : ∀ ops, Reporter.received (Session.after ⟨.evaluate, new⟩ ops).reporter = true ↔
    pending ops ≠ []
  /-- Histories that agree on the mode and on that are followed by the same run. -/
  same : ∀ ops ops' source, modeAfter ops = modeAfter ops' →
    (pending ops = [] ↔ pending ops' = []) →
    (Session.run (Session.after ⟨.evaluate, new⟩ ops) source).2 =
      (Session.run (Session.after ⟨.evaluate, new⟩ ops') source).2
  /-- With a problem held nothing is run, but the problems of the source are handed
  over. -/
  refused : ∀ ops source, pending ops ≠ [] →
    (Session.run (Session.after ⟨.evaluate, new⟩ ops) source).2 =
      ⟨[], none, .static (Source.errors source)⟩ ∧
    (Session.run (Session.after ⟨.evaluate, new⟩ ops) source).1.reporter =
      Reporter.handleAll (Session.after ⟨.evaluate, new⟩ ops).reporter
        ((Source.errors source).map .scan ++
          (readAll (Source.tokens source)).errors.map .located)
  /-- With none held a source is run as in a new session. -/
  renewed : ∀ ops source, pending ops = [] →
    (Session.run (Session.after ⟨.evaluate, new⟩ ops) source).2 =
      (Session.run ⟨modeAfter ops, new⟩ source).2
  /-- A failed operation is no problem to the reporter. -/
  failed : ∀ ops source error,
    (Session.run (Session.after ⟨.evaluate, new⟩ ops) source).2.ending = .runtime error →
    pending (ops ++ [.run source]) = []
  /-- Lines that are run and reset one after another give what each gives alone. -/
  lines : ∀ (mode : Mode) (lines : List Bytes),
    Session.outcomes ⟨mode, new⟩ (lines.flatMap fun line => [.run line, .reset]) =
      lines.map fun line => (Session.run ⟨mode, new⟩ line).2

theorem historyFree_of_unused {ρ : Type} [Reporter ρ] [LawfulReporter ρ] {new : ρ}
    (unused : Reporter.received new = false) : HistoryFree new where
  held ops := by simp [received_after unused]
  same ops ops' source mode flag := by
    refine Alike.run ⟨?_, ?_⟩ source
    · rw [mode_after, mode_after, mode]
    · rw [received_after unused, received_after unused, Bool.eq_iff_iff]
      simp [flag]
  refused ops source problems := by
    have held : Reporter.received (Session.after ⟨.evaluate, new⟩ ops).reporter = true := by
      simp [received_after unused, problems]
    exact ⟨run_refused held source, rfl⟩
  renewed ops source none := (alike_new unused none).run source
  failed ops source error ending := by
    obtain ⟨clean, none⟩ := problems_eq_nil_of_runtime ending
    have before : pending ops = [] := by simpa [received_after unused] using clean
    rw [pending_concat, if_neg (by simp), before, Operation.handed, none]
    rfl
  lines mode lines := outcomes_lines unused unused lines

/-! ## What consoles write -/

theorem written_handleAll (c : Console) (problems : List Problem) :
    (Reporter.handleAll c problems).written =
      c.written ++ (problems.map some).flatMap fun p => Bytes.line (Problem.shown p) := by
  induction problems generalizing c with
  | nil => simp [Reporter.handleAll]
  | cons p rest ih =>
      have later := ih (Reporter.handle c (some p))
      simpa [Reporter.handleAll, Reporter.handle] using later

/-! ## The prompt loop -/

/-- With no problem held, a line is answered as in a new session. -/
theorem answer_eq {s : Session Console} (clean : Reporter.received s.reporter = false)
    (line : Bytes) : (Prompt.answer s line).2 = (Prompt.answer ⟨s.mode, {}⟩ line).2 := by
  have alike : Alike s (⟨s.mode, {}⟩ : Session Console) := ⟨rfl, clean⟩
  -- what the console has written before is no part of the answer
  have written : ∀ c : Console,
      (Reporter.handleAll c (Session.problems line)).written.drop c.written.length =
        ((Session.problems line).map some).flatMap fun p => Bytes.line (Problem.shown p) := by
    intro c
    rw [written_handleAll, List.drop_left]
  show (⟨(s.run line).2.output, _ ++ Prompt.remark (s.run line).2.ending⟩ : Streams) = _
  rw [alike.run line]
  exact congrArg (fun err => (⟨_, err ++ _⟩ : Streams))
    ((written s.reporter).trans (written {}).symm)

/-- At the prompt, every line is answered as if it were the only one. -/
theorem converse_eq (prompt : Bytes) {s : Session Console}
    (clean : Reporter.received s.reporter = false) (lines : List Bytes) :
    Prompt.converse prompt s lines =
      ⟨lines.flatMap (fun line => prompt ++ (Prompt.answer ⟨s.mode, {}⟩ line).2.out) ++ prompt,
        lines.flatMap fun line => (Prompt.answer ⟨s.mode, {}⟩ line).2.err⟩ := by
  induction lines generalizing s with
  | nil => rfl
  | cons line rest ih =>
      -- the errors of the line are forgotten before the next one
      have forgotten : Reporter.received (Prompt.answer s line).1.reporter = false :=
        LawfulReporter.received_reset _
      have mode : (Prompt.answer s line).1.mode = s.mode := rfl
      have later := ih forgotten
      rw [mode] at later
      show Streams.append (Streams.append ⟨prompt, []⟩ (Prompt.answer s line).2)
        (Prompt.converse prompt (Prompt.answer s line).1 rest) = _
      rw [answer_eq clean, later]
      simp [Streams.append]

/-! ## Consoles and recorders -/

theorem problems_handleAll (r : Recorder) (problems : List Problem) :
    (Reporter.handleAll r problems).problems = r.problems ++ problems.map some := by
  induction problems generalizing r with
  | nil => simp [Reporter.handleAll]
  | cons p rest ih =>
      have later := ih (Reporter.handle r (some p))
      simpa [Reporter.handleAll, Reporter.handle] using later

/-- A console writes what an operation hands over, and takes nothing back. -/
theorem written_step (c : Session Console) (op : Operation) :
    (c.step op).1.reporter.written =
      c.reporter.written ++ op.handed.flatMap fun p => Bytes.line (Problem.shown p) := by
  cases op with
  | run source => exact written_handleAll c.reporter (Session.problems source)
  | setMode code => simp [Session.step, Operation.handed]
  | handle p => simp [Session.step, Session.handle, Reporter.handle, Operation.handed]
  | reset => simp [Session.step, Session.reset, Reporter.reset, Operation.handed]

/-- A recorder keeps what an operation hands over, and drops all on reset. -/
theorem problems_step (r : Session Recorder) (op : Operation) :
    (r.step op).1.reporter.problems =
      (if op = .reset then [] else r.reporter.problems) ++ op.handed := by
  cases op with
  | run source => exact problems_handleAll r.reporter (Session.problems source)
  | setMode code => simp [Session.step, Operation.handed]
  | handle p => simp [Session.step, Session.handle, Reporter.handle, Operation.handed]
  | reset => simp [Session.step, Session.reset, Reporter.reset, Operation.handed]

/-- What an operation does to a session with a console and to one with a recorder is
the same to everyone who looks on. -/
structure Interchangeable (c : Session Console) (r : Session Recorder) (op : Operation) :
    Prop where
  /-- The output, the values and the ending of a run are the same. -/
  outcome : (c.step op).2 = (r.step op).2
  /-- A problem is held by both or by none. -/
  held : Reporter.received (c.step op).1.reporter = Reporter.received (r.step op).1.reporter
  /-- The console writes a line for each problem that the recorder appends. -/
  written : ∃ appended,
    (r.step op).1.reporter.problems =
      (if op = .reset then [] else r.reporter.problems) ++ appended ∧
    (c.step op).1.reporter.written =
      c.reporter.written ++ appended.flatMap fun p => Bytes.line (Problem.shown p)

/-- **Consoles and recorders are interchangeable.** After any operations, the next
one gives the same run with both, both then hold a problem or none does, and what
the console writes are the texts of what the recorder appends. -/
theorem console_recorder_agree (ops : List Operation) (op : Operation) :
    Interchangeable (Session.after { reporter := {} } ops) (Session.after { reporter := {} } ops)
      op := by
  have start : Alike ({ reporter := {} } : Session Console)
      ({ reporter := {} } : Session Recorder) := ⟨rfl, rfl⟩
  obtain ⟨alike, outcome⟩ := (start.after ops).step op
  exact ⟨outcome, alike.received, op.handed, problems_step _ op, written_step _ op⟩

/-- **Runs forget their history.** With a console and with a recorder, what a run
gives depends on its source, on the mode and on whether a problem was handed over
behind the last reset, and at the prompt every line is answered as if it were the
only one. -/
theorem runs_forget_history :
    HistoryFree ({} : Console) ∧ HistoryFree ({} : Recorder) ∧
    ∀ (prompt : Bytes) (mode : Mode) (lines : List Bytes),
      Prompt.converse prompt ⟨mode, {}⟩ lines =
        ⟨lines.flatMap (fun line => prompt ++ (Prompt.answer ⟨mode, {}⟩ line).2.out) ++ prompt,
          lines.flatMap fun line => (Prompt.answer ⟨mode, {}⟩ line).2.err⟩ :=
  ⟨historyFree_of_unused rfl, historyFree_of_unused rfl,
    fun prompt _ lines => converse_eq prompt rfl lines⟩

end Reckon
