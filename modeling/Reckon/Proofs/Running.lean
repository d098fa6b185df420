import Mathlib.Data.List.Forall2
import Reckon.Proofs.Expressing
import Reckon.Proofs.Joining
import Reckon.Proofs.Spans

/-!
# What a run does

A run hands every problem of its source to the reporter. With a problem it does
nothing else; without one it prints or evaluates the expressions in order, and an
evaluation may stop at a failed operation. What is written, what is returned and how
the run ends are one and the same story:

* syntax errors stand at tokens in order (`readAll_errors_sublist`), as scan errors do
  in the source (`errors_apart`);
* `Run.Evaluates` says what an evaluation gives that gets through the first
  expressions, and every evaluation of sound trees is such a one
  (`Run.exists_evaluates`).

`run_all_or_nothing` puts both together.
-/

namespace Reckon

open Source Grammar Reckon.Parser

/-! ## Syntax errors in order -/

namespace Grammar

/-- The errors of a segment stand at its tokens, or at the one that ends it, in
order. -/
theorem Yields.sublist {body : List Token} {terminator : Token} {exprs : List Expr}
    {errors : List SyntaxError} (h : Yields body terminator exprs errors) :
    (errors.map SyntaxError.token).Sublist (body ++ [terminator]) := by
  cases h with
  | sentence => exact List.nil_sublist _
  | @broken k first _ le token =>
      have inside : k < (body ++ [terminator]).length := by
        rw [List.length_append, List.length_singleton]
        omega
      have here : (body ++ [terminator]).get ⟨k, inside⟩ = first.token := by
        rw [token, List.get_eq_getElem, List.getD_eq_getElem?_getD]
        by_cases within : k < body.length
        · simp [within]
        · have last : k = body.length := by omega
          simp [last]
      have behind : ((body.drop (k + 1)).filter (startsStatement ·.kind)).Sublist
          ((body ++ [terminator]).drop (k + 1)) :=
        List.filter_sublist.trans ((List.sublist_append_left _ _).drop (k + 1))
      rw [List.map_cons, map_token_missedAt, ← here]
      apply List.Sublist.trans _ (List.drop_sublist k _)
      rw [List.drop_eq_getElem_cons inside]
      exact behind.cons_cons _

/-- Errors of a segment come before those of what stands behind it. -/
theorem Yields.sublist_append {body rest : List Token} {t : Token} {exprs : List Expr}
    {errors later : List SyntaxError} (h : Yields body t exprs errors)
    (behind : (later.map SyntaxError.token).Sublist rest) :
    ((errors ++ later).map SyntaxError.token).Sublist (body ++ t :: rest) := by
  have both := h.sublist.append behind
  rwa [List.append_assoc, List.singleton_append, ← List.map_append] at both

/-- If the end of input is among the tokens, the errors of a batch stand at tokens, in
order. -/
theorem readAll_errors_sublist {ts : List Token} (readable : Readable ts)
    (ended : ∃ t ∈ ts, t.kind = .eof) :
    ((readAll ts).errors.map SyntaxError.token).Sublist ts := by
  induction size : ts.length using Nat.strongRecOn generalizing ts with
  | ind n ih =>
      obtain ⟨body, tail, rfl, inner, ends⟩ := exists_segment ts
      obtain ⟨last, member, isEnd⟩ := ended
      -- the end of input is not in the segment, so a token ends the segment
      have behind : last ∈ tail := by
        rcases List.mem_append.mp member with here | there
        · exact absurd isEnd (ne_of_endsSegment_eq_false (inner last here)).2
        · exact there
      cases tail with
      | nil => cases behind
      | cons t rest =>
          obtain ⟨exprs, errors, yields, run⟩ := segment_yields inner
            (fun u inside => readable u (List.mem_append_left _ inside)) t
          have reading := run (t :: rest) ends rfl
          rcases endsSegment_iff.mp ends with separator | stops
          · -- the induction goes on behind the semicolon
            have kind : t.kind = .semicolon := separator
            have left : beyond (t :: rest) = rest := if_pos kind
            have inRest : last ∈ rest := by
              rcases List.mem_cons.mp behind with rfl | there
              · rw [kind] at isEnd
                cases isEnd
              · exact there
            have shorter : rest.length < n := by
              rw [← size, List.length_append, List.length_cons]
              omega
            have later := ih rest.length shorter
              (fun u inside =>
                readable u (List.mem_append_right body (List.mem_cons_of_mem t inside)))
              ⟨last, inRest, isEnd⟩ rfl
            rw [reading (atEnd_append_separator inner kind), left]
            exact yields.sublist_append later
          · have atTail : atEnd (t :: rest) = true := atEnd_iff.mpr stops
            cases body with
            | nil =>
                rw [List.nil_append, readAll_of_atEnd atTail]
                exact List.nil_sublist _
            | cons u body =>
                have more : atEnd (u :: body ++ t :: rest) = false :=
                  atEnd_eq_false_of_inner (inner u List.mem_cons_self)
                rw [reading more, beyond_of_atEnd atTail, readAll_of_atEnd atTail]
                exact yields.sublist_append (List.nil_sublist rest)

end Grammar

/-- The syntax errors of a source come in the order of its tokens. -/
theorem syntaxErrors_sublist (source : Bytes) :
    ((readAll (tokens source)).errors.map SyntaxError.token).Sublist (tokens source) :=
  readAll_errors_sublist (readable_tokens source)
    ⟨endToken source, List.mem_append_right _ (List.mem_singleton_self _), rfl⟩

/-! ## Runs of expressions -/

namespace Run

/-- `Evaluates es k values run`: the first `k` of the expressions have these values, the
run gives them and writes a line for each, and it ends there, because there are no
more expressions or because the next one fails. -/
structure Evaluates (es : List Expr) (k : Nat) (values : List Value) (run : Run) : Prop where
  bound : k ≤ es.length
  evaluated : List.Forall₂ (fun e v => e.eval = .ok v) (es.take k) values
  given : run.values? = some values
  written : run.output = values.flatMap fun v => Bytes.line v.display
  ending : (k = es.length ∧ run.ending = .done ∧ run.ending.message? = none) ∨
    ∃ e error, es[k]? = some e ∧ e.eval = .error (.runtime error) ∧
      run.ending = .runtime error ∧
      run.ending.message? = some (Bytes.ofString "run: " ++ error.text)

/-- One expression more, before the others. -/
theorem Evaluates.cons {e : Expr} {v : Value} (outcome : e.eval = .ok v) {es : List Expr} {k : Nat}
    {values : List Value} (later : Evaluates es k values (evaluating es)) :
    Evaluates (e :: es) (k + 1) (v :: values) (evaluating (e :: es)) := by
  have step : evaluating (e :: es) = ⟨Bytes.line v.display ++ (evaluating es).output,
      (evaluating es).values?.map (v :: ·), (evaluating es).ending⟩ := by
    rw [evaluating, outcome]
  rw [step]
  refine ⟨Nat.succ_le_succ later.bound, .cons outcome later.evaluated, ?_, ?_, ?_⟩
  · show (evaluating es).values?.map (v :: ·) = _
    rw [later.given, Option.map_some]
  · show Bytes.line v.display ++ (evaluating es).output = _
    rw [later.written, List.flatMap_cons]
  · rcases later.ending with ⟨all, done⟩ | failed
    · exact .inl ⟨congrArg (· + 1) all, done⟩
    · exact .inr failed

/-- An evaluation of sound trees gives the values of the first ones, up to the first
that fails. -/
theorem exists_evaluates {leaf : Value → Prop} {es : List Expr} (sound : ∀ e ∈ es, Sound leaf e) :
    ∃ k values, Evaluates es k values (evaluating es) := by
  induction es with
  | nil => exact ⟨0, [], Nat.le_refl 0, .nil, rfl, rfl, .inl ⟨rfl, rfl, rfl⟩⟩
  | cons e es ih =>
      obtain ⟨k, values, later⟩ := ih fun f member => sound f (List.mem_cons_of_mem e member)
      rcases (sound e List.mem_cons_self).eval_cases with ⟨v, outcome⟩ | ⟨error, failed⟩
      · exact ⟨k + 1, v :: values, later.cons outcome⟩
      · have stops : evaluating (e :: es) = ⟨[], some [], .runtime error⟩ := by
          rw [evaluating, failed]
        rw [stops]
        exact ⟨0, [], Nat.zero_le _, .nil, rfl, rfl, .inr ⟨e, error, rfl, failed, rfl, rfl⟩⟩

/-- Sound trees are printed a line each, in order. -/
theorem exists_printing {leaf : Value → Prop} (form : Form) {es : List Expr}
    (sound : ∀ e ∈ es, Sound leaf e) :
    ∃ texts, List.Forall₂ (fun e text => (Mode.print form).render e = .ok text) es texts ∧
      printing (.print form) es = ⟨texts.flatMap Bytes.line, none, .done⟩ := by
  induction es with
  | nil => exact ⟨[], .nil, rfl⟩
  | cons e es ih =>
      obtain ⟨texts, rendered, later⟩ := ih fun f member => sound f (List.mem_cons_of_mem e member)
      obtain ⟨text, printed⟩ := (sound e List.mem_cons_self).print form
      have first : (Mode.print form).render e = .ok text := printed
      refine ⟨text :: texts, .cons first rendered, ?_⟩
      rw [printing, first, later, List.flatMap_cons]

end Run

/-! ## Whole runs -/

/-- The text of static errors: a headline, and the joined scan errors behind it if there
are any. -/
theorem Ending.message_static (errors : List ScanError) :
    (Ending.static errors).message? = some (Bytes.join [Ascii.newline]
      (Bytes.ofString "source has errors" :: (ScanError.jointText? errors).toList)) := by
  rw [Ending.message?]
  cases ScanError.jointText? errors with
  | none => rw [List.append_nil]; rfl
  | some text => simp [Bytes.join]

/-- `AllOrNothing mode reporter source after run`: what a run of the source gives in this
mode, and the session it leaves. -/
structure AllOrNothing {ρ : Type} [Reporter ρ] (mode : Mode) (reporter : ρ) (source : Bytes)
    (after : Session ρ) (run : Run) : Prop where
  /-- The reporter is handed the scan errors and then the syntax errors, and nothing
  else. -/
  reported : after = ⟨mode, Reporter.handleAll reporter
    ((errors source).map .scan ++ (readAll (tokens source)).errors.map .located)⟩
  /-- Scan errors come in the order of the source. -/
  scanned : (errors source).Pairwise fun e f => e.stop ≤ f.start
  /-- Syntax errors come in the order of the tokens. -/
  read : ((readAll (tokens source)).errors.map SyntaxError.token).Sublist (tokens source)
  /-- With an error nothing is written or returned. -/
  nothing : errors source ≠ [] ∨ (readAll (tokens source)).errors ≠ [] →
    run = ⟨[], none, .static (errors source)⟩ ∧
      run.ending.message? = some (Bytes.join [Ascii.newline]
        (Bytes.ofString "source has errors" :: (ScanError.jointText? (errors source)).toList))
  /-- Otherwise a mode that prints writes every expression. -/
  printed : errors source = [] → (readAll (tokens source)).errors = [] → mode ≠ .evaluate →
    ∃ texts, List.Forall₂ (fun e text => mode.render e = .ok text)
        (readAll (tokens source)).exprs texts ∧
      run = ⟨texts.flatMap Bytes.line, none, .done⟩
  /-- And evaluation goes on to the first failure. -/
  evaluated : errors source = [] → (readAll (tokens source)).errors = [] → mode = .evaluate →
    ∃ k values, Run.Evaluates (readAll (tokens source)).exprs k values run

theorem Session.problems_eq_nil_iff {source : Bytes} : Session.problems source = [] ↔
    errors source = [] ∧ (readAll (tokens source)).errors = [] := by
  rw [Session.problems, List.append_eq_nil_iff, List.map_eq_nil_iff, List.map_eq_nil_iff]

/-- **All or nothing, or up to a failure.** A run that starts with no problem reported
hands all problems of its source to the reporter, in order. If there is one, it writes
and returns nothing. Otherwise it prints every expression, or evaluates them up to the
first failure: it returns the values before it, has written a line for each, and ends
with that failure. -/
theorem run_all_or_nothing {ρ : Type} [Reporter ρ] [LawfulReporter ρ] (code : Int)
    (low : 0 ≤ code) (high : code ≤ 3) (reporter : ρ)
    (unused : Reporter.received reporter = false) (source : Bytes) :
    AllOrNothing (Mode.ofCode code) reporter source
      (Session.run ⟨Mode.ofCode code, reporter⟩ source).1
      (Session.run ⟨Mode.ofCode code, reporter⟩ source).2 := by
  have known := Mode.ofCode_cases low high
  have sound := (stagesSafe source).sound
  generalize Mode.ofCode code = mode at known
  have outcome := run_new unused mode source
  have clean : errors source = [] → (readAll (tokens source)).errors = [] →
      (Session.run ⟨mode, reporter⟩ source).2 =
        Run.ofExprs mode (readAll (tokens source)).exprs := by
    intro scanned read
    rw [outcome, if_pos (Session.problems_eq_nil_iff.mpr ⟨scanned, read⟩)]
  refine ⟨rfl, ?_, syntaxErrors_sublist source, ?_, ?_, ?_⟩
  · exact (errors_apart source).imp fun apart => apart.1
  · intro some_error
    have problem : Session.problems source ≠ [] := by
      rw [ne_eq, Session.problems_eq_nil_iff, not_and_or]
      exact some_error
    rw [outcome, if_neg problem]
    exact ⟨rfl, Ending.message_static _⟩
  · intro scanned read prints
    rw [clean scanned read, Run.ofExprs_of_ne prints]
    rcases known with rfl | ⟨form, rfl⟩
    · exact absurd rfl prints
    · exact Run.exists_printing form sound
  · intro scanned read evaluates
    rw [clean scanned read, evaluates]
    exact Run.exists_evaluates sound

/-- Two values, a failed operation and an expression that is not reached. -/
theorem run_all_or_nothing_sample :
    let source := Bytes.ofString "1 + 2; \"a\" + \"b\"; -\"z\"; 5"
    let reporter : Recorder := {}
    (0 : Int) ≤ 0 ∧ (0 : Int) ≤ 3 ∧ Reporter.received reporter = false ∧
      AllOrNothing (Mode.ofCode 0) reporter source
        (Session.run ⟨Mode.ofCode 0, reporter⟩ source).1
        (Session.run ⟨Mode.ofCode 0, reporter⟩ source).2 := by
  intro source reporter
  exact ⟨by decide, by decide, rfl,
    run_all_or_nothing 0 (by decide) (by decide) reporter rfl source⟩

end Reckon
