import Reckon.Proofs.Factoring
import Reckon.Proofs.Histories

/-!
# Sources one after another

Two sources joined by a line end are run as one after the other, if the first one
leaves no string open and its last unit has its semicolon. Each stage has its part:

* the pieces of the joined text are those of both texts (`pieces_joined`);
* what is read from tokens depends on what they say, not on where they stand
  (`readAll_same`), and what is read up to a semicolon does not depend on what
  follows (`readAll_closed`);
* expressions are run one after another up to the first failure
  (`Run.ofExprs_append`).
-/

namespace Reckon

open Source Grammar Reckon.Parser

/-! ## Joined texts -/

/-- A line end continues nothing but an open string. -/
theorem Piece.StopsAt.joined {p : Piece} {rest : Bytes} (stops : p.StopsAt rest)
    (closed : ∀ body, p ≠ .unclosed body) (b : Bytes) :
    p.StopsAt (rest ++ Ascii.newline :: b) := by
  have ends : ∀ {continues : UInt8 → Bool}, continues Ascii.newline = false → Ends continues rest →
      Ends continues (rest ++ Ascii.newline :: b) := by
    intro continues newline before c head
    cases rest with
    | nil =>
        cases head
        exact newline
    | cons first rest => exact before c head
  cases p with
  | blank | text | stray => trivial
  | comment body => exact ends rfl stops
  | word spelling => exact ends rfl stops
  | symbol kind lexeme =>
      cases rest with
      | nil =>
          apply symbol_stopsAt
          intro c head
          cases head
          decide
      | cons first rest => exact stops
  | numeral whole fraction =>
      cases fraction with
      | some fraction => exact ends rfl stops
      | none =>
          refine ⟨ends rfl stops.1, fun d more same => ?_⟩
          -- a point at the end of the first text has the line end behind it
          match rest, same with
          | [_], rfl => rfl
          | _ :: d :: rest, rfl => exact stops.2 d rest rfl
  | unclosed body => exact absurd rfl (closed body)

theorem pieces_joined {a : Bytes} (closed : ∀ body, .unclosed body ∉ pieces a) (b : Bytes) :
    pieces (a ++ Ascii.newline :: b) = pieces a ++ .blank Ascii.newline :: pieces b := by
  fun_induction pieces a with
  | case1 => exact pieces_of_leading (leading_blank rfl b)
  | case2 c rest ih =>
      have stops := (stopsAt_leading c rest).joined
        (fun body same => closed body (same ▸ List.mem_cons_self)) b
      have later := ih fun body member => closed body (List.mem_cons_of_mem _ member)
      rw [← bytes_leading c rest, List.append_assoc, pieces_append (proper_leading c rest) stops,
        later, List.cons_append]

theorem exists_mem_place {ps : List Piece} {p : Piece} (member : p ∈ ps) (start line : Nat) :
    ∃ placed ∈ place start line ps, placed.piece = p := by
  rw [← map_piece_place start line ps] at member
  exact List.mem_map.mp member

theorem exists_error_of_complaint {source : Bytes} {p : Piece} {message : Bytes}
    (member : p ∈ pieces source) (wrong : p.complaint? = some message) :
    ∃ e ∈ errors source, e.message = message := by
  obtain ⟨placed, inside, rfl⟩ := exists_mem_place member 0 1
  obtain ⟨e, reported, _, _, _, text⟩ := covered_of_mem_place inside wrong
  exact ⟨e, reported, text⟩

theorem errors_eq_nil_iff {source : Bytes} :
    errors source = [] ↔ ∀ p ∈ pieces source, p.complaint? = none := by
  refine ⟨fun none p member => ?_, errors_eq_nil⟩
  cases wrong : p.complaint? with
  | none => rfl
  | some message =>
      obtain ⟨e, reported, _⟩ := exists_error_of_complaint member wrong
      rw [none] at reported
      cases reported

/-- A source without the error of an open string has none. -/
theorem not_mem_unclosed {source : Bytes}
    (closed : ∀ e ∈ errors source, e.message ≠ Bytes.ofString "Unterminated string.")
    (body : Bytes) : .unclosed body ∉ pieces source := by
  intro member
  obtain ⟨e, reported, text⟩ := exists_error_of_complaint member rfl
  exact closed e reported text

theorem errors_joined {a : Bytes} (closed : ∀ body, .unclosed body ∉ pieces a) (b : Bytes) :
    errors (a ++ Ascii.newline :: b) = [] ↔ errors a = [] ∧ errors b = [] := by
  have blank : (Piece.blank Ascii.newline).complaint? = none := rfl
  simp only [errors_eq_nil_iff, pieces_joined closed, List.forall_mem_append,
    List.forall_mem_cons, blank, true_and]

/-! ## Tokens that say the same -/

/-- Token lists that say the same, wherever the tokens stand. -/
def Same (ts us : List Token) : Prop := ts.map Token.meaning = us.map Token.meaning

theorem tokens_joined {a : Bytes} (closed : ∀ body, .unclosed body ∉ pieces a) (b : Bytes) :
    Same (tokens (a ++ Ascii.newline :: b)) ((tokens a).dropLast ++ tokens b) := by
  have blank : (Piece.blank Ascii.newline).meaning? = none := rfl
  have ending : ∀ source, (endToken source).meaning = (.eof, .absent) := fun _ => rfl
  simp only [Same, tokens, List.dropLast_concat, List.map_append, map_meaning_place,
    pieces_joined closed, List.filterMap_append, List.filterMap_cons, blank, List.map_cons,
    List.map_nil, ending, List.append_assoc]

theorem Same.eq_nil {us : List Token} (h : Same [] us) : us = [] :=
  List.map_eq_nil_iff.mp h.symm

theorem Same.exists_cons {t : Token} {ts us : List Token} (h : Same (t :: ts) us) :
    ∃ u us', us = u :: us' ∧ t.kind = u.kind ∧ t.payload = u.payload ∧ Same ts us' := by
  cases us with
  | nil => cases h
  | cons u us =>
      obtain ⟨meaning, later⟩ := List.cons.inj h
      exact ⟨u, us, rfl, congrArg Prod.fst meaning, congrArg Prod.snd meaning, later⟩

theorem Same.atEnd {ts us : List Token} (h : Same ts us) : atEnd ts = atEnd us := by
  cases ts with
  | nil => rw [h.eq_nil]
  | cons t ts =>
      obtain ⟨u, us, rfl, kind, _⟩ := h.exists_cons
      simp [Parser.atEnd, kind]

theorem Same.resume {ts us : List Token} (h : Same ts us) : Same (resume ts) (resume us) := by
  induction ts generalizing us with
  | nil =>
      rw [h.eq_nil]
      rfl
  | cons t ts ih =>
      obtain ⟨u, us, rfl, kind, _, later⟩ := h.exists_cons
      unfold Parser.resume
      rw [← kind]
      split
      · exact h
      split
      · exact later
      cases ts with
      | nil =>
          rw [later.eq_nil]
          rfl
      | cons v ts =>
          obtain ⟨w, us, rfl, kind', _⟩ := later.exists_cons
          simp only [← kind']
          split
          · exact later
          · exact ih later

/-- Readings that give the same tree or both go wrong, and leave tokens that say
the same. -/
inductive SameReading : Reading → Reading → Prop
  | ok (e : Expr) {rest rest' : List Token} : Same rest rest' →
      SameReading (.ok e rest) (.ok e rest')
  | wrong (error error' : SyntaxError) {rest rest' : List Token} : Same rest rest' →
      SameReading (.wrong error rest) (.wrong error' rest')

theorem sameReading_stop (s : State) (t u : Token) {ts us : List Token} (h : Same ts us) :
    SameReading (stop s t ts) (stop s u us) := by
  unfold stop
  cases finish s with
  | ok e => exact .ok e h
  | error wanted => exact .wrong _ _ h

/-- A token that can be read is taken for what it says. -/
theorem take_same {t u : Token} (kind : t.kind = u.kind) (payload : t.payload = u.payload)
    (readable : Readable [t]) (s : State) : take s t = take s u := by
  have literals : t.kind = .number ∨ t.kind = .string → literal t = literal u := by
    intro isLiteral
    obtain ⟨v, denotes⟩ := readable t List.mem_cons_self isLiteral
    rw [literal_eq_ok_iff.mpr denotes, literal_eq_ok_iff.mpr (payload ▸ denotes)]
  cases s with
  | holding frames operand =>
      cases spelled : BinaryOp.ofKind? t.kind with
      | some op =>
          rw [Parser.take, Parser.take, takeOperator_of_ofKind? spelled,
            takeOperator_of_ofKind? (kind ▸ spelled)]
      | none =>
          rw [Parser.take, Parser.take, takeOperator_of_unspelled spelled,
            takeOperator_of_unspelled (kind ▸ spelled), kind]
  | wanting frames =>
    cases spelled : UnaryOp.ofKind? t.kind with
    | some op =>
      rw [Parser.take, Parser.take, takeOperand_of_ofKind? spelled,
        takeOperand_of_ofKind? (kind ▸ spelled)]
    | none =>
      rw [take_wanting spelled, take_wanting (kind ▸ spelled), takePrimary, takePrimary, ← kind]
      split
      case h_4 isNumber => rw [literals (.inl isNumber)]
      case h_5 isString => rw [literals (.inr isString)]
      all_goals rfl

theorem read_same {ts us : List Token} (h : Same ts us) (readable : Readable ts) (s : State) :
    SameReading (Parser.read s ts) (Parser.read s us) := by
  induction ts generalizing us s with
  | nil =>
      rw [h.eq_nil]
      exact sameReading_stop s _ _ rfl
  | cons t ts ih =>
      obtain ⟨u, us, rfl, kind, payload, later⟩ := h.exists_cons
      have first : Readable [t] := fun v member => by
        rw [List.mem_singleton.mp member]
        exact readable t List.mem_cons_self
      have behind : Readable ts := fun v member => readable v (List.mem_cons_of_mem t member)
      rw [Parser.read, Parser.read, ← take_same kind payload first s]
      cases step : take s t with
      | none => exact sameReading_stop s t u h
      | some outcome =>
          cases outcome with
          | ok next => exact ih later behind next
          | error fault =>
              -- only a literal without a value is a fault
              obtain ⟨_, isLiteral, none⟩ := take_fault_iff.mp ⟨fault, step⟩
              obtain ⟨v, denotes⟩ := readable t List.mem_cons_self isLiteral
              exact absurd denotes (none v)

theorem readUnit_same {ts us : List Token} (h : Same ts us) (readable : Readable ts) :
    SameReading (readUnit ts) (readUnit us) := by
  have reading := read_same h readable (.wanting [])
  unfold readUnit readExpr
  generalize Parser.read (.wanting []) ts = r, Parser.read (.wanting []) us = r' at reading
  cases reading with
  | wrong error error' rest => exact .wrong error error' rest
  | @ok e rest rest' left =>
      cases rest with
      | nil =>
          rw [left.eq_nil]
          exact .ok e rfl
      | cons t rest =>
          obtain ⟨u, rest', rfl, kind, _, later⟩ := left.exists_cons
          simp only [← kind]
          split
          · exact .ok e left
          split
          · exact .ok e later
          · exact .wrong _ _ left

/-- Token lists that say the same are read the same, up to where their errors
stand. -/
theorem readAll_same {ts us : List Token} (h : Same ts us) (readable : Readable ts) :
    (readAll ts).exprs = (readAll us).exprs ∧
      (readAll ts).errors.length = (readAll us).errors.length := by
  have unit_suffix := rest_isSuffix_readUnit
  fun_induction readAll ts generalizing us with
  | case1 ts ended =>
      rw [readAll_of_atEnd (h.atEnd ▸ ended)]
      exact ⟨rfl, rfl⟩
  | case2 ts more e rest unit later =>
      rename_i ih
      have units := readUnit_same h readable
      have suffix := unit_suffix ts
      rw [unit] at units suffix
      generalize result : readUnit us = unit' at units
      cases units with
      | ok e left =>
          have moreUs : atEnd us = false := by
            rw [← h.atEnd]
            exact Bool.eq_false_iff.mpr more
          obtain ⟨exprs, errors⟩ := ih left fun t member => readable t (suffix.subset member)
          rw [readAll_of_ok moreUs result]
          exact ⟨congrArg (e :: ·) exprs, errors⟩
  | case3 ts more error rest unit later =>
      rename_i ih
      have units := readUnit_same h readable
      have suffix := unit_suffix ts
      rw [unit] at units suffix
      generalize result : readUnit us = unit' at units
      cases units with
      | wrong error error' left =>
          have moreUs : atEnd us = false := by
            rw [← h.atEnd]
            exact Bool.eq_false_iff.mpr more
          obtain ⟨exprs, errors⟩ := ih left.resume fun t member =>
            readable t (suffix.subset ((resume_isSuffix rest).subset member))
          rw [readAll_of_wrong moreUs result]
          exact ⟨exprs, congrArg (· + 1) errors⟩
  | case4 ts more fault rest unit =>
      have units := readUnit_same h readable
      rw [unit] at units
      cases units

/-! ## Closed batches -/

/-- Up to a semicolon, a batch is read without regard to what follows. -/
theorem readAll_closed {ts : List Token} (readable : Readable ts)
    (unended : ∀ t ∈ ts, t.kind ≠ .eof) (closed : ∀ t ∈ ts.getLast?, t.kind = .semicolon) :
    ∃ exprs errors, ∀ us, readAll (ts ++ us) = prepend exprs errors (readAll us) := by
  -- segment by segment: each is read up to its semicolon whatever stands behind that
  induction size : ts.length using Nat.strongRecOn generalizing ts with
  | ind n ih =>
      obtain ⟨body, tail, rfl, inner, ends⟩ := exists_segment ts
      cases tail with
      | nil =>
          -- a segment that nothing ends does not end in a semicolon, so it is empty
          rw [List.append_nil] at closed ⊢
          cases last : body.getLast? with
          | none =>
              rw [List.getLast?_eq_none_iff.mp last]
              exact ⟨[], [], fun us => rfl⟩
          | some t =>
              have inside := inner t (List.mem_of_getLast? last)
              rw [closed t last] at inside
              cases inside
      | cons t rest =>
          have kind : t.kind = .semicolon := by
            rcases endsSegment_iff.mp ends with separator | ended
            · exact separator
            · exact absurd ended (unended t (by simp))
          have shorter : rest.length < n := by
            rw [← size, List.length_append, List.length_cons]
            omega
          have behind : ∀ u ∈ rest, u ∈ body ++ t :: rest := fun u member =>
            List.mem_append_right body (List.mem_cons_of_mem t member)
          obtain ⟨exprs', errors', later⟩ := ih rest.length shorter
            (fun u member => readable u (behind u member))
            (fun u member => unended u (behind u member))
            (fun u member => closed u (by
              rw [← List.singleton_append, ← List.append_assoc]
              exact List.mem_getLast?_append_of_mem_getLast? member)) rfl
          obtain ⟨exprs, errors, _, run⟩ := segment_yields inner
            (fun u member => readable u (List.mem_append_left _ member)) t
          refine ⟨exprs ++ exprs', errors ++ errors', fun us => ?_⟩
          have front := run (t :: (rest ++ us)) ends rfl (atEnd_append_separator inner kind)
          have rest_us : beyond (t :: (rest ++ us)) = rest ++ us := if_pos kind
          rw [List.append_assoc, List.cons_append, front, rest_us, later us, prepend_prepend]

/-- The trees of joined sources are those of the first and those of the second, and
there are as many syntax errors as in both. -/
theorem readAll_joined {a : Bytes} (unopened : ∀ body, .unclosed body ∉ pieces a)
    (ended : ∀ t ∈ (tokens a).dropLast.getLast?, t.kind = .semicolon) (b : Bytes) :
    (readAll (tokens (a ++ Ascii.newline :: b))).exprs =
        (readAll (tokens a)).exprs ++ (readAll (tokens b)).exprs ∧
      (readAll (tokens (a ++ Ascii.newline :: b))).errors.length =
        (readAll (tokens a)).errors.length + (readAll (tokens b)).errors.length := by
  have split : tokens a = (tokens a).dropLast ++ [endToken a] := by
    rw [tokens, List.dropLast_concat]
  have readable : Readable (tokens a).dropLast := fun t member =>
    readable_tokens a t ((List.dropLast_subset _) member)
  have unended : ∀ t ∈ (tokens a).dropLast, t.kind ≠ .eof := by
    rw [tokens, List.dropLast_concat]
    exact (factored_pieces a fun _ member _ => covered_of_mem_place member).parts.2.2
  obtain ⟨exprs, errors, run⟩ := readAll_closed readable unended ended
  have empty : readAll [endToken a] = ⟨[], [], [endToken a], none⟩ := readAll_of_atEnd rfl
  have alone := run [endToken a]
  rw [← split, empty] at alone
  obtain ⟨sameExprs, sameErrors⟩ := readAll_same (tokens_joined unopened b) (readable_tokens _)
  rw [sameExprs, sameErrors, run, alone]
  simp [prepend]

theorem problems_joined {a : Bytes} (unopened : ∀ body, .unclosed body ∉ pieces a)
    (ended : ∀ t ∈ (tokens a).dropLast.getLast?, t.kind = .semicolon) (b : Bytes) :
    Session.problems (a ++ Ascii.newline :: b) = [] ↔
      Session.problems a = [] ∧ Session.problems b = [] := by
  have scanned := errors_joined unopened b
  have read := (readAll_joined unopened ended b).2
  simp only [Session.problems, List.append_eq_nil_iff, List.map_eq_nil_iff, scanned,
    ← List.length_eq_zero_iff (l := (readAll _).errors), read, Nat.add_eq_zero_iff]
  exact and_and_and_comm

/-! ## Runs one after another -/

namespace Run

/-- A run that was not started because of a problem. -/
def Static (run : Run) : Prop := ∃ errors, run.ending = .static errors

/-- A run that stopped at a failed operation. -/
def Failed (run : Run) : Prop := ∃ error, run.ending = .runtime error

/-- What two runs give together, the second one being left out if the first does
not get done. -/
def followedBy (first second : Run) : Run :=
  match first.ending with
  | .done =>
    ⟨first.output ++ second.output,
      first.values?.bind fun vs => second.values?.map (vs ++ ·), second.ending⟩
  | _ => first

theorem followedBy_of_done {first : Run} (done : first.ending = .done) (second : Run) :
    first.followedBy second = ⟨first.output ++ second.output,
      first.values?.bind fun vs => second.values?.map (vs ++ ·), second.ending⟩ := by
  rw [followedBy, done]

theorem followedBy_of_ne_done {first : Run} (stopped : first.ending ≠ .done) (second : Run) :
    first.followedBy second = first := by
  unfold followedBy
  split
  · next done => exact absurd done stopped
  · rfl

theorem followedBy_assoc (first second third : Run) :
    (first.followedBy second).followedBy third = first.followedBy (second.followedBy third) := by
  obtain ⟨output, values, ending⟩ := first
  obtain ⟨output', values', ending'⟩ := second
  cases ending with
  | done =>
      cases ending' with
      | done => cases values <;> cases values' <;> simp [followedBy, Function.comp_def]
      | _ => rfl
  | _ => rfl

theorem values_printing (mode : Mode) (es : List Expr) : (printing mode es).values? = none := by
  induction es with
  | nil => rfl
  | cons e es ih =>
      rw [printing]
      cases mode.render e with
      | error fault => rfl
      | ok text => exact ih

theorem evaluating_cons (e : Expr) (es : List Expr) :
    evaluating (e :: es) = (evaluating [e]).followedBy (evaluating es) := by
  simp only [evaluating]
  cases e.eval with
  | error failure => cases failure <;> rfl
  | ok v => simp [followedBy]

theorem printing_cons (mode : Mode) (e : Expr) (es : List Expr) :
    printing mode (e :: es) = (printing mode [e]).followedBy (printing mode es) := by
  simp only [printing]
  cases mode.render e with
  | error fault => rfl
  | ok text => simp [followedBy, values_printing]

theorem ofExprs_of_ne {mode : Mode} (prints : mode ≠ .evaluate) (es : List Expr) :
    ofExprs mode es = printing mode es := by
  cases mode with
  | evaluate => exact absurd rfl prints
  | print | unknown => rfl

/-- The first expression is run, and then the others if it gets done. -/
theorem ofExprs_cons (mode : Mode) (e : Expr) (es : List Expr) :
    ofExprs mode (e :: es) = (ofExprs mode [e]).followedBy (ofExprs mode es) := by
  by_cases evaluates : mode = .evaluate
  · rw [evaluates]
    exact evaluating_cons e es
  · simp only [ofExprs_of_ne evaluates]
    exact printing_cons mode e es

theorem ofExprs_nil (mode : Mode) (es : List Expr) :
    (ofExprs mode []).followedBy (ofExprs mode es) = ofExprs mode es := by
  by_cases evaluates : mode = .evaluate
  · simp [evaluates, ofExprs, evaluating, followedBy]
  · simp only [ofExprs_of_ne evaluates, printing, followedBy, List.nil_append, Option.bind_none]
    rw [← values_printing mode es]

/-- Expressions are run one after another, up to the first that does not get done. -/
theorem ofExprs_append (mode : Mode) (es fs : List Expr) :
    ofExprs mode (es ++ fs) = (ofExprs mode es).followedBy (ofExprs mode fs) := by
  induction es with
  | nil => exact (ofExprs_nil mode fs).symm
  | cons e es ih =>
      rw [List.cons_append, ofExprs_cons, ih, ofExprs_cons mode e es, followedBy_assoc]

theorem Static.of_followedBy {first second : Run} (h : (first.followedBy second).Static) :
    first.Static ∨ second.Static := by
  by_cases done : first.ending = .done
  · rw [followedBy_of_done done] at h
    exact .inr h
  · rw [followedBy_of_ne_done done] at h
    exact .inl h

theorem not_static_ofExprs (mode : Mode) (es : List Expr) : ¬ (ofExprs mode es).Static := by
  induction es with
  | nil => cases mode <;> exact nofun
  | cons e es ih =>
      have first : ¬ (ofExprs mode [e]).Static := by
        cases mode with
        | evaluate =>
            simp only [ofExprs, evaluating, Static]
            cases e.eval with
            | error failure => cases failure <;> simp
            | ok v => simp
        | print | unknown =>
            simp only [ofExprs, printing, Static]
            split <;> simp
      rw [ofExprs_cons]
      intro static
      exact static.of_followedBy.elim first ih

theorem exists_values_evaluating {es : List Expr}
    (unfaulted : ∀ fault, (evaluating es).ending ≠ .fault fault) :
    ∃ vs, (evaluating es).values? = some vs := by
  induction es with
  | nil => exact ⟨[], rfl⟩
  | cons e es ih =>
      cases outcome : e.eval with
      | error failure =>
          cases failure with
          | runtime error => exact ⟨[], by simp only [evaluating, outcome]⟩
          | fault fault => exact absurd (by simp only [evaluating, outcome]) (unfaulted fault)
      | ok v =>
          simp only [evaluating, outcome] at unfaulted ⊢
          obtain ⟨vs, values⟩ := ih unfaulted
          exact ⟨v :: vs, congrArg (Option.map (v :: ·)) values⟩

theorem safe_ofExprs {mode : Mode} (known : mode = .evaluate ∨ ∃ form, mode = .print form)
    {es : List Expr} (sound : ∀ e ∈ es, Sound NonInt e) : (ofExprs mode es).Safe := by
  rcases known with rfl | ⟨form, rfl⟩
  · exact safe_evaluating sound
  · exact safe_printing sound

theorem Safe.done {run : Run} (safe : run.Safe) (started : ¬ run.Static)
    (unfailed : ¬ run.Failed) : run.ending = .done := by
  cases ending : run.ending with
  | done => rfl
  | static errors => exact absurd ⟨errors, ending⟩ started
  | runtime error => exact absurd ⟨error, ending⟩ unfailed
  | fault fault => exact absurd ending (safe.unfaulted fault)

/-- What a run of joined sources has of the runs of its parts. -/
structure Joined (mode : Mode) (first second both : Run) : Prop where
  /-- The whole has a problem exactly if one of its parts has one. -/
  static : both.Static ↔ first.Static ∨ second.Static
  /-- With a problem nothing is written. -/
  silent : both.Static → both.output = []
  /-- If the first part gets done, the second one follows. -/
  together : ¬ first.Static → ¬ second.Static → ¬ first.Failed →
    both.output = first.output ++ second.output ∧ both.ending = second.ending ∧
      (mode = .evaluate → ∃ vs ws, first.values? = some vs ∧ second.values? = some ws ∧
        both.values? = some (vs ++ ws)) ∧
      (mode ≠ .evaluate → both.values? = none)
  /-- If an operation of the first part fails, that is all. -/
  stopped : ¬ first.Static → ¬ second.Static → first.Failed → both = first

theorem joined_ofExprs {mode : Mode} (known : mode = .evaluate ∨ ∃ form, mode = .print form)
    {es fs : List Expr} (first : ∀ e ∈ es, Sound NonInt e) (second : ∀ e ∈ fs, Sound NonInt e) :
    Joined mode (ofExprs mode es) (ofExprs mode fs) (ofExprs mode (es ++ fs)) := by
  have safe := safe_ofExprs known first
  have safe' := safe_ofExprs known second
  have started := not_static_ofExprs mode
  refine ⟨by simp [started], fun static => absurd static (started _), ?_, ?_⟩
  · intro _ _ unfailed
    have done := safe.done (started es) unfailed
    rw [ofExprs_append, followedBy_of_done done]
    refine ⟨rfl, rfl, ?_, ?_⟩
    · rintro rfl
      obtain ⟨vs, values⟩ := exists_values_evaluating safe.unfaulted
      obtain ⟨ws, values'⟩ := exists_values_evaluating safe'.unfaulted
      refine ⟨vs, ws, values, values', ?_⟩
      simp [ofExprs, values, values']
    · intro prints
      simp [ofExprs_of_ne prints, values_printing]
  · intro _ _ ⟨error, ending⟩
    rw [ofExprs_append, followedBy_of_ne_done (by simp [ending])]

end Run

section Joints

variable {ρ : Type} [Reporter ρ] [LawfulReporter ρ] {new : ρ}

/-- With a new reporter, the problems of a source decide whether it is run. -/
theorem run_new (unused : Reporter.received new = false) (mode : Mode) (source : Bytes) :
    (Session.run ⟨mode, new⟩ source).2 =
      if Session.problems source = [] then
        Run.ofExprs mode (readAll (tokens source)).exprs
      else ⟨[], none, .static (errors source)⟩ := by
  rw [run_outcome]
  by_cases clean : Session.problems source = [] <;> simp [unused, clean]

theorem static_run_iff (unused : Reporter.received new = false) (mode : Mode) (source : Bytes) :
    (Session.run ⟨mode, new⟩ source).2.Static ↔ Session.problems source ≠ [] := by
  rw [run_new unused]
  split
  · next clean => exact iff_of_false (Run.not_static_ofExprs mode _) (not_not.mpr clean)
  · next problem => exact iff_of_true ⟨_, rfl⟩ problem

/-- **Joined sources run one after the other.** Let the first source leave no string
open, and let its last token be a semicolon if it has one. Joined to a second source
by a line end, it has a problem if one of both has one. Otherwise the two are run in
turn: outputs and values follow one another and the second run says how it ends,
unless the first one fails. -/
theorem run_joined (unused : Reporter.received new = false) (code : Int) (low : 0 ≤ code)
    (high : code ≤ 3) (a b : Bytes)
    (closed : ∀ e ∈ errors a, e.message ≠ Bytes.ofString "Unterminated string.")
    (ended : ∀ t ∈ (tokens a).dropLast.getLast?, t.kind = .semicolon) :
    Run.Joined (Mode.ofCode code) (Session.run ⟨Mode.ofCode code, new⟩ a).2
      (Session.run ⟨Mode.ofCode code, new⟩ b).2
      (Session.run ⟨Mode.ofCode code, new⟩ (a ++ Ascii.newline :: b)).2 := by
  have known := Mode.ofCode_cases low high
  generalize Mode.ofCode code = mode at known
  have unopened := not_mem_unclosed closed
  have problems := problems_joined unopened ended b
  by_cases clean : Session.problems a = [] ∧ Session.problems b = []
  · rw [run_new unused, run_new unused, run_new unused, if_pos clean.1, if_pos clean.2,
      if_pos (problems.mpr clean), (readAll_joined unopened ended b).1]
    exact Run.joined_ofExprs known (stagesSafe a).sound (stagesSafe b).sound
  · -- one of the parts is not run, and neither is the whole
    have refused : ¬ (¬ (Session.run ⟨mode, new⟩ a).2.Static ∧
        ¬ (Session.run ⟨mode, new⟩ b).2.Static) := by
      simpa only [static_run_iff unused, not_not] using clean
    refine ⟨?_, fun _ => ?_, fun first second => absurd ⟨first, second⟩ refused,
      fun first second => absurd ⟨first, second⟩ refused⟩
    · simp only [static_run_iff unused, ne_eq, problems, not_and_or]
    · rw [run_new unused, if_neg (mt problems.mp clean)]

end Joints

/-- A string over two lines, a comment at the end and an operation that fails in the
second part. -/
theorem run_joined_sample :
    let a := Bytes.ofString "1 + 2; \"x\ny\"; // done"
    let b := Bytes.ofString "3 < 4; -\"z\"; 5"
    let new : Console := {}
    Reporter.received new = false ∧ (0 : Int) ≤ 0 ∧ (0 : Int) ≤ 3 ∧
      (∀ e ∈ errors a, e.message ≠ Bytes.ofString "Unterminated string.") ∧
      (∀ t ∈ (tokens a).dropLast.getLast?, t.kind = .semicolon) ∧
      Run.Joined (Mode.ofCode 0) (Session.run ⟨Mode.ofCode 0, new⟩ a).2
        (Session.run ⟨Mode.ofCode 0, new⟩ b).2
        (Session.run ⟨Mode.ofCode 0, new⟩ (a ++ Ascii.newline :: b)).2 := by
  intro a b new
  have closed : ∀ e ∈ errors a, e.message ≠ Bytes.ofString "Unterminated string." := by
    decide +kernel
  have ended : ∀ t ∈ (tokens a).dropLast.getLast?, t.kind = .semicolon := by
    decide +kernel
  exact ⟨rfl, by decide, by decide, closed, ended,
    run_joined rfl 0 (by decide) (by decide) a b closed ended⟩

end Reckon
