import Reckon.Command.Run
import Reckon.Proofs.Running

/-!
# The status of a script

A script ends in one of three ways, and the status of the command tells which: its source
has errors, an operation fails, or all its expressions are printed. What ends a run is
handed up as an error with others inside it, and the status is found by searching it:

* `Chain` is an error with what stands around it, and `Chain.exit` the status and the text
  that a search of it gives;
* searching what a run hands up is what the command does with the run
  (`runSource_eq_ofRun`), and its text is that of the ending (`message?_of_chain?`);
* with a script to read and settings that load, the command runs the source in the mode
  that is set (`run_script`).

`script_status` says what is written in each of the three ways.
-/

namespace Reckon

open Source Grammar Reckon.Parser

/-! ## Errors that are handed up -/

/-- An error as it is handed up: a cause, an error behind some words, or several errors
taken together. -/
inductive Chain
  /-- The source has errors, which were reported before. -/
  | static
  | scan (error : ScanError)
  | runtime (error : RuntimeError)
  | wrapped (words : Bytes) (inner : Chain)
  | joined (parts : List Chain)

namespace Chain

mutual

/-- The text of an error; joined errors have a line each. -/
def text : Chain → Bytes
  | static => Bytes.ofString "source has errors"
  | scan e => e.text
  | runtime e => e.text
  | wrapped words inner => words ++ inner.text
  | joined parts => Bytes.join [Ascii.newline] (texts parts)

def texts : List Chain → List Bytes
  | [] => []
  | part :: rest => part.text :: texts rest

end

mutual

/-- An error and those inside it, in the order in which a search comes to them. -/
def search : Chain → List Chain
  | wrapped words inner => wrapped words inner :: inner.search
  | joined parts => joined parts :: searchAll parts
  | cause => [cause]

def searchAll : List Chain → List Chain
  | [] => []
  | part :: rest => part.search ++ searchAll rest

end

def isStatic : Chain → Bool
  | static => true
  | _ => false

def runtime? : Chain → Option RuntimeError
  | runtime e => some e
  | _ => none

/-- The status for an error and what is said about it. Errors of the source have been
reported, and a failed operation is shown without what is wrapped around it. -/
def exit (error : Chain) : Nat × Bytes :=
  if error.search.any isStatic then (65, [])
  else
    match error.search.findSome? runtime? with
    | some e => (70, Bytes.line e.text)
    | none => (1, Bytes.line error.text)

theorem texts_scan (errors : List ScanError) : texts (errors.map scan) =
    errors.map ScanError.text := by
  induction errors with
  | nil => rfl
  | cons e rest ih => rw [List.map_cons, texts, text, ih, List.map_cons]

end Chain

/-- The error that a run hands up; a fault is none. -/
def Ending.chain? : Ending → Option Chain
  | .done | .fault _ => none
  | .static [] => some .static
  | .static (e :: rest) => some (.joined [.static, .joined ((e :: rest).map .scan)])
  | .runtime e => some (.wrapped (Bytes.ofString "run: ") (.runtime e))

/-- The text of what is handed up is that of the ending. -/
theorem Ending.message?_of_chain? {ending : Ending} {error : Chain}
    (handed : ending.chain? = some error) : ending.message? = some error.text := by
  cases ending with
  | done | fault => cases handed
  | runtime e =>
      cases handed
      rfl
  | static errors =>
      rw [Ending.message_static]
      cases errors with
      | nil =>
          cases handed
          rfl
      | cons e rest =>
          cases handed
          simp only [Chain.text, Chain.texts, Chain.texts_scan]
          rfl

/-- What the command makes of a run, and of what was reported on the way. -/
def Command.Result.ofRun (run : Run) (reported : Bytes) : Command.Result :=
  match run.ending.chain? with
  | none => ⟨0, run.output, reported⟩
  | some error => ⟨error.exit.1, run.output, reported ++ error.exit.2⟩

namespace Command

namespace Result

variable {run : Run} (reported : Bytes)

theorem ofRun_done (ending : run.ending = .done) :
    ofRun run reported = ⟨0, run.output, reported⟩ := by
  rw [ofRun, ending]
  rfl

theorem ofRun_runtime {e : RuntimeError} (ending : run.ending = .runtime e) :
    ofRun run reported = ⟨70, run.output, reported ++ Bytes.line e.text⟩ := by
  rw [ofRun, ending]
  rfl

theorem ofRun_static {errors : List ScanError} (ending : run.ending = .static errors) :
    ofRun run reported = ⟨65, run.output, reported⟩ := by
  rw [ofRun, ending]
  cases errors <;>
    simp [Ending.chain?, Chain.exit, Chain.search, Chain.searchAll, Chain.isStatic]

end Result

/-- The command searches what its run hands up. -/
theorem runSource_eq_ofRun {mode : Mode} {source : Bytes}
    (unfaulted : ∀ fault, (Session.run ⟨mode, ({} : Console)⟩ source).2.ending ≠ .fault fault) :
    runSource mode source = .ofRun (Session.run ⟨mode, ({} : Console)⟩ source).2
      (Session.run ⟨mode, ({} : Console)⟩ source).1.reporter.written := by
  unfold runSource
  generalize Session.run ⟨mode, ({} : Console)⟩ source = result at unfaulted ⊢
  obtain ⟨session, run⟩ := result
  dsimp only at unfaulted ⊢
  cases ending : run.ending with
  | done => rw [Result.ofRun_done _ ending]
  | static errors => rw [Result.ofRun_static _ ending]
  | runtime e => rw [Result.ofRun_runtime _ ending]
  | fault fault => exact absurd ending (unfaulted fault)

end Command

/-! ## Sources of scripts -/

/-- The mode in which a form is printed; without one, expressions are evaluated. -/
def Mode.ofForm? : Option Form → Mode
  | none => .evaluate
  | some form => .print form

/-- A source with a scan error or a syntax error. -/
def Broken (source : Bytes) : Prop := errors source ≠ [] ∨ (readAll (tokens source)).errors ≠ []

/-- The errors of a source, a line each. -/
def errorLines (source : Bytes) : Bytes :=
  (errors source).flatMap (fun e => Bytes.line e.text) ++
    (readAll (tokens source)).errors.flatMap fun e => Bytes.line e.text

/-- `Shows form? e text`: what is printed for an expression, its value if no form is
set. -/
def Shows : Option Form → Expr → Bytes → Prop
  | none, e, text => ∃ v, e.eval = .ok v ∧ text = v.display
  | some form, e, text => form.print e = .ok text

/-- What a script gives. -/
structure Classified (form? : Option Form) (source : Bytes) (result : Command.Result) : Prop where
  broken_iff : result.status = 65 ↔ Broken source
  /-- Of a broken source only the errors are shown, scan errors first. -/
  broken : result.status = 65 → result.streams = ⟨[], errorLines source⟩
  failed_iff : result.status = 70 ↔ ¬ Broken source ∧ form? = none ∧
    ∃ e ∈ (readAll (tokens source)).exprs, ∀ v, e.eval ≠ .ok v
  /-- If an operation fails, the values before it are shown, and the error alone is told. -/
  failed : result.status = 70 → ∃ before e after texts error,
    (readAll (tokens source)).exprs = before ++ e :: after ∧
    List.Forall₂ (Shows none) before texts ∧ e.eval = .error (.runtime error) ∧
    result.streams = ⟨texts.flatMap Bytes.line, Bytes.line error.text⟩
  /-- Otherwise every expression is shown, and nothing is told. -/
  passed : result.status ≠ 65 → result.status ≠ 70 →
    ∃ texts, List.Forall₂ (Shows form?) (readAll (tokens source)).exprs texts ∧
      result = ⟨0, texts.flatMap Bytes.line, []⟩

section Sources

variable {form? : Option Form} {source : Bytes} {result : Command.Result}

theorem classified_broken (broken : Broken source) (is : result = ⟨65, [], errorLines source⟩) :
    Classified form? source result := by
  subst is
  exact ⟨iff_of_true rfl broken, fun _ => rfl, iff_of_false nofun fun failed => failed.1 broken,
    nofun, fun unbroken => absurd rfl unbroken⟩

theorem classified_failed (clean : ¬ Broken source) {before after : List Expr} {e : Expr}
    {texts : List Bytes} {error : RuntimeError}
    (split : (readAll (tokens source)).exprs = before ++ e :: after)
    (shown : List.Forall₂ (Shows none) before texts) (fails : e.eval = .error (.runtime error))
    (is : result = ⟨70, texts.flatMap Bytes.line, Bytes.line error.text⟩) :
    Classified none source result := by
  subst is
  have member : e ∈ (readAll (tokens source)).exprs := by
    rw [split]
    exact List.mem_append_right before List.mem_cons_self
  have failing : ∀ v, e.eval ≠ .ok v := by
    intro v value
    rw [fails] at value
    cases value
  exact ⟨iff_of_false nofun clean, nofun, iff_of_true rfl ⟨clean, rfl, e, member, failing⟩,
    fun _ => ⟨before, e, after, texts, error, split, shown, fails, rfl⟩,
    fun _ unfailed => absurd rfl unfailed⟩

theorem classified_passed (clean : ¬ Broken source) {texts : List Bytes}
    (shown : List.Forall₂ (Shows form?) (readAll (tokens source)).exprs texts)
    (is : result = ⟨0, texts.flatMap Bytes.line, []⟩) : Classified form? source result := by
  subst is
  refine ⟨iff_of_false nofun clean, nofun, iff_of_false nofun ?_, nofun,
    fun _ _ => ⟨texts, shown, rfl⟩⟩
  -- what is shown has a value
  rintro ⟨_, rfl, e, member, failing⟩
  have each : List.Forall₂ (fun e text => (∃ text, Shows none e text) ∧ Shows none e text)
      (readAll (tokens source)).exprs texts :=
    shown.imp fun _ text shows => ⟨⟨text, shows⟩, shows⟩
  obtain ⟨text, v, value, _⟩ := ((List.forall₂_and_left _ _).mp each).1 e member
  exact failing v value

/-- A new console writes the problems of a source, a line each. -/
theorem written_problems (mode : Mode) (source : Bytes) :
    (Session.run ⟨mode, ({} : Console)⟩ source).1.reporter.written = errorLines source := by
  have written := written_handleAll {} (Session.problems source)
  rw [List.nil_append] at written
  show (Reporter.handleAll ({} : Console) (Session.problems source)).written = _
  rw [written, Session.problems, errorLines]
  simp only [List.map_append, List.flatMap_append, List.map_map, List.flatMap_map]
  rfl

/-- A source is broken if there is a problem to report. -/
theorem not_broken_iff : ¬ Broken source ↔ Session.problems source = [] := by
  rw [Session.problems_eq_nil_iff, Broken, not_or, not_not, not_not]

theorem errorLines_clean (clean : ¬ Broken source) : errorLines source = [] := by
  obtain ⟨scanned, parsed⟩ := Session.problems_eq_nil_iff.mp (not_broken_iff.mp clean)
  rw [errorLines, scanned, parsed]
  rfl

theorem run_broken (broken : Broken source) (mode : Mode) :
    (Session.run ⟨mode, ({} : Console)⟩ source).2 = ⟨[], none, .static (errors source)⟩ := by
  have problems : Session.problems source ≠ [] := fun none => not_broken_iff.mpr none broken
  rw [run_new rfl, if_neg problems]

theorem run_clean (clean : ¬ Broken source) (mode : Mode) :
    (Session.run ⟨mode, ({} : Console)⟩ source).2 =
      Run.ofExprs mode (readAll (tokens source)).exprs := by
  rw [run_new rfl, if_pos (not_broken_iff.mp clean)]

/-- An evaluation shows the values up to the first failure. -/
theorem classified_evaluating (clean : ¬ Broken source)
    (is : result = .ofRun (Run.evaluating (readAll (tokens source)).exprs) []) :
    Classified none source result := by
  subst is
  obtain ⟨k, values, evaluates⟩ := Run.exists_evaluates (stagesSafe source).sound
  generalize exprs : (readAll (tokens source)).exprs = es at evaluates ⊢
  have shown : List.Forall₂ (Shows none) (es.take k) (values.map Value.display) :=
    List.forall₂_map_right_iff.mpr (evaluates.evaluated.imp fun _ v value => ⟨v, value, rfl⟩)
  have written : (Run.evaluating es).output = (values.map Value.display).flatMap Bytes.line := by
    rw [evaluates.written, List.flatMap_map]
  rcases evaluates.ending with ⟨all, done, _⟩ | ⟨e, error, next, fails, stopped, _⟩
  · rw [all, List.take_length, ← exprs] at shown
    exact classified_passed clean shown (by rw [Command.Result.ofRun_done _ done, written])
  · obtain ⟨bound, rfl⟩ := List.getElem?_eq_some_iff.mp next
    have split : es = es.take k ++ es[k] :: es.drop (k + 1) := by
      rw [← List.drop_eq_getElem_cons bound, List.take_append_drop]
    exact classified_failed clean (exprs.trans split) shown fails
      (by rw [Command.Result.ofRun_runtime _ stopped, written, List.nil_append])

/-- A source that is printed shows every expression. -/
theorem classified_printing (clean : ¬ Broken source) {form : Form}
    (is : result = .ofRun (Run.printing (.print form) (readAll (tokens source)).exprs) []) :
    Classified (some form) source result := by
  obtain ⟨texts, shown, printed⟩ := Run.exists_printing form (stagesSafe source).sound
  refine classified_passed clean shown ?_
  rw [is, printed]
  exact Command.Result.ofRun_done _ rfl

/-- A run of a script never faults. -/
theorem unfaulted_run (form? : Option Form) (source : Bytes) (fault : Fault) :
    (Session.run ⟨.ofForm? form?, ({} : Console)⟩ source).2.ending ≠ .fault fault := by
  by_cases broken : Broken source
  · rw [run_broken broken]
    nofun
  · rw [run_clean broken]
    have known : Mode.ofForm? form? = .evaluate ∨ ∃ form, Mode.ofForm? form? = .print form := by
      cases form? with
      | none => exact .inl rfl
      | some form => exact .inr ⟨form, rfl⟩
    exact (Run.safe_ofExprs known (stagesSafe source).sound).unfaulted fault

theorem classified_ofRun : Classified form? source
    (.ofRun (Session.run ⟨.ofForm? form?, ({} : Console)⟩ source).2
      (Session.run ⟨.ofForm? form?, ({} : Console)⟩ source).1.reporter.written) := by
  rw [written_problems]
  by_cases broken : Broken source
  · rw [run_broken broken]
    exact classified_broken broken (Command.Result.ofRun_static _ rfl)
  · rw [run_clean broken, errorLines_clean broken]
    cases form? with
    | none => exact classified_evaluating broken rfl
    | some form => exact classified_printing broken rfl

end Sources

/-! ## Scripts -/

namespace Command

/-- The name of the form that is set, by a flag or in the settings; empty for none. -/
def formName (o : Options) (s : Settings) : Bytes :=
  if o.print.isEmpty then s.print else o.print

/-- `Names name form?`: a name that sets no form, or this one. -/
def Names (name : Bytes) : Option Form → Prop
  | none => name = []
  | some form => Form.ofWord? name = some form

theorem mode_of_names {name : Bytes} {form? : Option Form} (names : Names name form?) :
    mode name = .ok (.ofForm? form?) := by
  cases form? with
  | none =>
      have empty : name = [] := names
      rw [empty]
      rfl
  | some form =>
      have word : Form.ofWord? name = some form := names
      have unnamed : Form.ofWord? [] = none := by decide +kernel
      have nonempty : name.isEmpty = false := by
        cases name with
        | cons b rest => rfl
        | nil =>
            rw [unnamed] at word
            cases word
      rw [mode, nonempty, word]
      rfl

theorem options_of_read {arguments : List Bytes} {o : Options} {path : Bytes}
    (read : Flags.read arguments = .ok o) (named : scriptPath o = .ok path) :
    options arguments = .ok (o, path) := by
  rw [options, read]
  dsimp only
  rw [named]
  rfl

/-- A command with a script that can be read runs its source, and leaves the files. -/
theorem run_script {load : Loader} {arguments : List Bytes} {env : Environment} {tree : Tree}
    {o : Options} {path source : Bytes} {settings : Settings} {form? : Option Form}
    (read : Flags.read arguments = .ok o) (named : scriptPath o = .ok path)
    (loaded : load env tree.read o.config = .ok settings)
    (names : Names (formName o settings) form?) (readable : tree.read path = .ok source)
    (input : Bytes) :
    runWith load arguments env tree input = (runSource (.ofForm? form?) source, tree) := by
  have planned : plan load arguments env tree.read = .ok ⟨path, .ofForm? form?, settings⟩ := by
    have chosen : mode (if o.print.isEmpty then settings.print else o.print) =
      .ok (.ofForm? form?) := mode_of_names names
    simp only [plan, options_of_read read named, loaded, chosen, bind, Except.bind, pure,
      Except.pure]
  have script : path.isEmpty = false := by
    cases path with
    | nil => cases readable
    | cons b rest => rfl
  rw [runWith, planned]
  dsimp only
  rw [script, runScript, readable]
  rfl

end Command

/-- **The status tells what became of a script.** Whatever a script holds, and however the
settings are loaded, the command searches what its run hands up, and leaves the files. The
status is 65 if and only if the source has a scan error or a syntax error, and then only these
are told; it is 70 if and only if there are none, no form is set and an expression fails, and
then the values before the first that fails are shown, and its error is told as it is; in all
other cases it is 0, every expression is shown, and nothing is told. -/
theorem script_status (load : Loader) {arguments : List Bytes} {env : Environment} {tree : Tree}
    {o : Options} {path source : Bytes} {settings : Settings} {form? : Option Form}
    (read : Flags.read arguments = .ok o) (named : Command.scriptPath o = .ok path)
    (loaded : load env tree.read o.config = .ok settings)
    (names : Command.Names (Command.formName o settings) form?)
    (readable : tree.read path = .ok source) (input : Bytes) :
    let ran := Session.run ⟨.ofForm? form?, ({} : Console)⟩ source
    Command.runWith load arguments env tree input =
        (.ofRun ran.2 ran.1.reporter.written, tree) ∧
      Classified form? source (Command.runWith load arguments env tree input).1 := by
  intro ran
  have searched : Command.runWith load arguments env tree input =
      (.ofRun ran.2 ran.1.reporter.written, tree) := by
    rw [Command.run_script read named loaded names readable,
      Command.runSource_eq_ofRun (unfaulted_run form? source)]
  refine ⟨searched, ?_⟩
  rw [searched]
  exact classified_ofRun

/-- A script whose second expression cannot be evaluated. -/
theorem script_status_stopped :
    let source := Bytes.ofString "1 + 2; -\"z\"; 5"
    let arguments := [Bytes.ofString "a.lox"]
    let tree : Tree := ⟨[([Bytes.ofString "a.lox"], .file source)], []⟩
    let o : Options := { operands := arguments }
    let ran := Session.run ⟨.ofForm? none, ({} : Console)⟩ source
    (Flags.read arguments = .ok o ∧ Command.scriptPath o = .ok (Bytes.ofString "a.lox") ∧
      Settings.load [] tree.read o.config = .ok (Settings.defaults []) ∧
      Command.Names (Command.formName o (Settings.defaults [])) none ∧
      tree.read (Bytes.ofString "a.lox") = .ok source) ∧
    Command.run arguments [] tree [] = (.ofRun ran.2 ran.1.reporter.written, tree) ∧
      Classified none source (Command.run arguments [] tree []).1 := by
  intro source arguments tree o ran
  have read : Flags.read arguments = .ok o := by decide +kernel
  have named : Command.scriptPath o = .ok (Bytes.ofString "a.lox") := by decide +kernel
  have loaded : Settings.load [] tree.read o.config = .ok (Settings.defaults []) := by
    decide +kernel
  have names : Command.Names (Command.formName o (Settings.defaults [])) none := rfl
  have readable : tree.read (Bytes.ofString "a.lox") = .ok source := by decide +kernel
  exact ⟨⟨read, named, loaded, names, readable⟩,
    script_status Settings.load read named loaded names readable []⟩

end Reckon
