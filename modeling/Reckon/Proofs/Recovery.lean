import Reckon.Proofs.Reading

/-!
# Recovery, segment by segment

The tokens before the end of input fall into segments, each up to a semicolon
or the end. Reading never looks behind the token that ends a segment, so a
batch is read as if every segment stood alone:

* a segment that is a sentence gives its tree and no error;
* any other segment gives no tree, one error at one of its tokens or at the
  token that ends it, and one more error at each word behind the first error
  that starts a statement.

`unit_within` is the fact about one reading that this rests on, `Yields` what it
makes of one segment, and `readAll_recovers` the law for the whole batch.
-/

namespace Reckon.Grammar

open Reckon.Parser

/-! ## Segments -/

/-- Every literal token has a payload that an expression can hold. -/
def Readable (tokens : List Token) : Prop :=
  ∀ t ∈ tokens, t.kind = .number ∨ t.kind = .string → ∃ v, Denotes t.payload v

theorem exists_denotes_iff {t : Token} :
    (∃ v, Denotes t.payload v) ↔ (literal t).isOk = true := by
  cases value : literal t with
  | ok v => exact ⟨fun _ => rfl, fun _ => ⟨v, literal_eq_ok_iff.mp value⟩⟩
  | error fault =>
      refine ⟨fun ⟨v, denotes⟩ => ?_, fun h => by cases h⟩
      rw [literal_eq_ok_iff.mpr denotes] at value
      cases value

instance (tokens : List Token) : Decidable (Readable tokens) :=
  decidable_of_iff
    (∀ t ∈ tokens, t.kind = .number ∨ t.kind = .string → (literal t).isOk = true)
    (by simp only [Readable, exists_denotes_iff])

/-- The tokens before the end of input. -/
def relevant (tokens : List Token) : List Token := tokens.takeWhile (·.kind != .eof)

/-- The stretches between the semicolons before the end of input; there is none
after the last semicolon if nothing stands there. -/
def bodies (tokens : List Token) : List (List Token) :=
  let parts := (relevant tokens).splitOnP (·.kind == .semicolon)
  if parts.getLast? = some [] then parts.dropLast else parts

/-- A segment: its tokens and the position of the first one. -/
structure Segment where
  start : Nat
  body : List Token
  deriving DecidableEq, Repr

/-- The position of the token that ends a segment. -/
def Segment.stop (segment : Segment) : Nat := segment.start + segment.body.length

/-- Gives stretches their positions, one token standing between neighbours. -/
def locate (start : Nat) : List (List Token) → List Segment
  | [] => []
  | body :: rest => ⟨start, body⟩ :: locate (start + body.length + 1) rest

/-- The segments of a token list. -/
def segments (tokens : List Token) : List Segment := locate 0 (bodies tokens)

/-- The positions from `low` up to `high` at which a statement starts. -/
def statementStarts (tokens : List Token) (low high : Nat) : List Nat :=
  (List.range' low (high - low)).filter fun i => startsStatement (tokenAt tokens i).kind

/-- `Answered tokens segment exprs marks`: a segment may give these trees, and
errors at these positions. -/
inductive Answered (tokens : List Token) (segment : Segment) : List Expr → List Nat → Prop
  | sentence {e : Expr} : Sentence segment.body e → Answered tokens segment [e] []
  | broken {k : Nat} : (∀ e, ¬ Sentence segment.body e) → segment.start ≤ k →
      k ≤ segment.stop →
      Answered tokens segment [] (k :: statementStarts tokens (k + 1) segment.stop)

/-- `Recovered tokens segments exprs marks`: each segment is answered, in order. -/
inductive Recovered (tokens : List Token) : List Segment → List Expr → List Nat → Prop
  | nil : Recovered tokens [] [] []
  | cons {segment : Segment} {rest : List Segment} {exprs exprs' : List Expr}
      {marks marks' : List Nat} :
      Answered tokens segment exprs marks → Recovered tokens rest exprs' marks' →
      Recovered tokens (segment :: rest) (exprs ++ exprs') (marks ++ marks')

/-! ## Tokens that end a segment -/

/-- Whether a kind ends a segment. -/
def endsSegment (kind : Kind) : Bool := kind == .semicolon || kind == .eof

/-- Behind a segment nothing stands, or a token that ends it. -/
def Boundary (tail : List Token) : Prop := endsSegment (tail.headD Token.pastEnd).kind = true

/-- What is left behind the token that ends a segment; the end of input stays. -/
def beyond : List Token → List Token
  | [] => []
  | t :: rest => if t.kind = .semicolon then rest else t :: rest

theorem endsSegment_iff {kind : Kind} :
    endsSegment kind = true ↔ kind = .semicolon ∨ kind = .eof := by
  simp [endsSegment]

theorem ne_of_endsSegment_eq_false {kind : Kind} (h : endsSegment kind = false) :
    kind ≠ .semicolon ∧ kind ≠ .eof := by
  simpa [endsSegment] using h

/-- No expression goes on with a token that ends a segment. -/
theorem take_eq_none_of_endsSegment {t : Token} (h : endsSegment t.kind = true) (s : State) :
    take s t = none := by
  rcases endsSegment_iff.mp h with kind | kind <;> cases s with
  | wanting frames => rw [take_wanting (by rw [kind]; rfl), takePrimary, kind]
  | holding frames operand =>
      rw [Parser.take, takeOperator_of_unspelled (by rw [kind]; rfl), if_neg (by rw [kind]; decide)]

theorem not_joint_of_endsSegment {kind : Kind} (h : endsSegment kind = true) :
    kind ∉ joints := by
  rcases endsSegment_iff.mp h with rfl | rfl <;> decide

/-- Behind an operand no token is at fault: the operator of a kind that joins operands is
always found. -/
theorem take_holding_ne_fault {frames : List Frame} {operand : Expr} {t : Token} (fault : Fault) :
    take (.holding frames operand) t ≠ some (.error fault) := by
  intro step
  rw [Parser.take] at step
  cases spelled : BinaryOp.ofKind? t.kind with
  | some op =>
      rw [takeOperator_of_ofKind? spelled] at step
      cases step
  | none =>
      rw [takeOperator_of_unspelled spelled] at step
      split at step
      · obtain ⟨state, _, equal⟩ := Option.map_eq_some_iff.mp step
        cases equal
      · cases step

/-- A fault is that of a literal met where an operand is wanted; the operator of a kind that
stands before an operand is always found. -/
theorem take_eq_fault_iff {s : State} {t : Token} {fault : Fault} :
    take s t = some (.error fault) ↔
      (∃ frames, s = .wanting frames) ∧ (t.kind = .number ∨ t.kind = .string) ∧
        literal t = .error fault := by
  cases s with
  | holding frames operand =>
      constructor
      · intro step
        exact absurd step (take_holding_ne_fault fault)
      · rintro ⟨⟨frames, equal⟩, _⟩
        cases equal
  | wanting frames =>
      have mapped : ∀ {f : Value → State}, (literal t).map f = .error fault ↔
          literal t = .error fault := by
        intro f
        cases literal t <;> simp [Except.map]
      cases spelled : UnaryOp.ofKind? t.kind with
      | some op =>
          rw [Parser.take, takeOperand_of_ofKind? spelled]
          constructor
          · intro step
            cases step
          · rintro ⟨_, kind | kind, _⟩ <;> rw [kind] at spelled <;> cases spelled
      | none =>
          simp only [take_wanting spelled, takePrimary, State.wanting.injEq, exists_eq', true_and]
          split
          all_goals simp_all

/-- A token is at fault exactly where an operand is wanted and the token is a
literal whose payload cannot be held. -/
theorem take_fault_iff {s : State} {t : Token} :
    (∃ fault, take s t = some (.error fault)) ↔
      (∃ frames, s = .wanting frames) ∧ (t.kind = .number ∨ t.kind = .string) ∧
        ∀ v, ¬ Denotes t.payload v := by
  have literal_fault : (∃ fault, literal t = .error fault) ↔ ∀ v, ¬ Denotes t.payload v := by
    rw [← not_exists, exists_denotes_iff]
    cases literal t <;> simp [Except.isOk, Except.toBool]
  simp only [take_eq_fault_iff, exists_and_left, literal_fault]

/-! ## Reading inside a segment -/

/-- How a reading ends inside `body`: where, and with what, does not depend on
what stands behind the segment. -/
inductive Within (body : List Token) (result : List Token → Reading) : Prop
  | ok (e : Expr) {rest : List Token} : rest <:+ body →
      (∀ tail, Boundary tail → result tail = .ok e (rest ++ tail)) → Within body result
  | wrong (wanted : Wanted) {rest : List Token} : rest <:+ body →
      (∀ tail, Boundary tail → result tail =
        .wrong (wanted.missedAt ((rest ++ tail).headD Token.pastEnd)) (rest ++ tail)) →
      Within body result

theorem Within.weaken {body larger : List Token} {result result' : List Token → Reading}
    (h : Within body result) (suffix : body <:+ larger)
    (same : ∀ tail, Boundary tail → result' tail = result tail) : Within larger result' := by
  cases h with
  | ok e le run =>
      exact .ok e (le.trans suffix) fun tail ends => (same tail ends).trans (run tail ends)
  | wrong wanted le run =>
      exact .wrong wanted (le.trans suffix) fun tail ends => (same tail ends).trans (run tail ends)

/-- Stopping where a token is refused. -/
theorem Within.of_stop (s : State) {body : List Token} {result : List Token → Reading}
    (run : ∀ tail, Boundary tail →
      result tail = stop s ((body ++ tail).headD Token.pastEnd) (body ++ tail)) :
    Within body result := by
  cases done : finish s with
  | ok e =>
      refine .ok e (List.suffix_refl body) fun tail ends => ?_
      rw [run tail ends, stop, done]
  | error wanted =>
      refine .wrong wanted (List.suffix_refl body) fun tail ends => ?_
      rw [run tail ends, stop, done]

theorem read_boundary {s : State} {tail : List Token} (ends : Boundary tail) :
    Parser.read s tail = stop s (tail.headD Token.pastEnd) tail := by
  cases tail with
  | nil => rw [Parser.read]; rfl
  | cons t rest =>
      have refused : take s t = none := take_eq_none_of_endsSegment ends s
      rw [Parser.read, refused]
      rfl

/-- Reading stays inside its segment. -/
theorem read_within {body : List Token} (readable : Readable body) (s : State) :
    Within body fun tail => Parser.read s (body ++ tail) := by
  induction body generalizing s with
  | nil => exact .of_stop s fun tail ends => read_boundary ends
  | cons t rest ih =>
      have later : Readable rest := fun u member => readable u (List.mem_cons_of_mem t member)
      cases step : take s t with
      | none =>
          refine .of_stop s fun tail ends => ?_
          rw [List.cons_append, Parser.read, step]
          rfl
      | some outcome =>
          cases outcome with
          | error fault =>
              -- only a literal without a value is at fault, and there is none
              obtain ⟨_, kind, none⟩ := take_fault_iff.mp ⟨fault, step⟩
              obtain ⟨v, denotes⟩ := readable t List.mem_cons_self kind
              exact absurd denotes (none v)
          | ok next =>
              refine (ih later next).weaken (List.suffix_cons t rest) fun tail _ => ?_
              rw [List.cons_append, read_of_take step]

/-- A token inside a segment. -/
def Inner (body : List Token) : Prop := ∀ t ∈ body, endsSegment t.kind = false

theorem Inner.tail {t : Token} {body : List Token} (h : Inner (t :: body)) : Inner body :=
  fun u member => h u (List.mem_cons_of_mem t member)

theorem Inner.of_suffix {rest body : List Token} (h : Inner body) (suffix : rest <:+ body) :
    Inner rest := fun u member => h u (suffix.subset member)

/-- A unit whose expression ends where the segment ends. -/
theorem readUnit_of_readExpr_boundary {tokens tail : List Token} {e : Expr}
    (read : readExpr tokens = .ok e tail) (ends : Boundary tail) :
    readUnit tokens = .ok e (beyond tail) := by
  rw [readUnit, read]
  cases tail with
  | nil => rfl
  | cons t rest =>
      simp only [beyond]
      rcases endsSegment_iff.mp ends with kind | kind <;> simp only [List.headD_cons] at kind <;>
        simp [kind]

/-- A unit whose expression ends inside the segment lacks its separator. -/
theorem readUnit_of_readExpr_inner {tokens rest : List Token} {t : Token} {e : Expr}
    (read : readExpr tokens = .ok e (t :: rest)) (inner : endsSegment t.kind = false) :
    readUnit tokens = .wrong (Wanted.separator.missedAt t) (t :: rest) := by
  obtain ⟨notSeparator, notEnd⟩ := ne_of_endsSegment_eq_false inner
  rw [readUnit, read]
  simp only [if_neg notEnd, if_neg notSeparator]

/-- A segment that is a sentence is read as one unit; in any other the unit fails
at one of its tokens or at its end. -/
theorem unit_within {body : List Token} (inner : Inner body) (readable : Readable body) :
    (∃ e, Sentence body e ∧
      ∀ tail, Boundary tail → readUnit (body ++ tail) = .ok e (beyond tail)) ∨
    ((∀ e, ¬ Sentence body e) ∧ ∃ wanted rest, rest <:+ body ∧
      ∀ tail, Boundary tail → readUnit (body ++ tail) =
        .wrong (Wanted.missedAt wanted ((rest ++ tail).headD Token.pastEnd)) (rest ++ tail)) := by
  have nothing : Boundary [] := rfl
  have sentence_reads : ∀ e, Sentence body e → readExpr (body ++ []) = .ok e [] :=
    fun e sentence => readExpr_of_sentence sentence (not_joint_of_endsSegment nothing)
  cases read_within readable (.wanting []) with
  | @ok e rest le run =>
      -- the expression ends with the segment, or a separator is missing before
      cases rest with
      | nil =>
          left
          obtain ⟨ts, split, sentence, _⟩ := sentence_of_readExpr (run [] nothing)
          have whole : body = ts := by simpa using split
          exact ⟨e, whole ▸ sentence, fun tail ends =>
            readUnit_of_readExpr_boundary (run tail ends) ends⟩
      | cons t rest =>
          right
          refine ⟨fun e' sentence => ?_, .separator, t :: rest, le, fun tail ends => ?_⟩
          · have whole := (sentence_reads e' sentence).symm.trans (run [] nothing)
            cases whole
          · exact readUnit_of_readExpr_inner (run tail ends)
              (inner.of_suffix le t List.mem_cons_self)
  | @wrong wanted rest le run =>
      right
      refine ⟨fun e sentence => ?_, wanted, rest, le, fun tail ends => ?_⟩
      · have whole := (sentence_reads e sentence).symm.trans (run [] nothing)
        cases whole
      · rw [readUnit, readExpr, run tail ends]

/-! ## Batches -/

/-- A batch with trees and errors put before its own. -/
def prepend (exprs : List Expr) (errors : List SyntaxError) (batch : Batch) : Batch :=
  { batch with exprs := exprs ++ batch.exprs, errors := errors ++ batch.errors }

theorem prepend_prepend (exprs exprs' : List Expr) (errors errors' : List SyntaxError)
    (batch : Batch) :
    prepend exprs errors (prepend exprs' errors' batch)
      = prepend (exprs ++ exprs') (errors ++ errors') batch := by
  simp only [prepend, List.append_assoc]

theorem readAll_of_atEnd {tokens : List Token} (h : atEnd tokens = true) :
    readAll tokens = ⟨[], [], tokens, none⟩ := by
  rw [readAll, dif_pos h]

theorem readAll_of_ok {tokens rest : List Token} {e : Expr} (h : atEnd tokens = false)
    (unit : readUnit tokens = .ok e rest) : readAll tokens = prepend [e] [] (readAll rest) := by
  rw [readAll, dif_neg (by simp [h])]
  split
  · next heq => rw [unit] at heq; cases heq; rfl
  · next heq => rw [unit] at heq; cases heq
  · next heq => rw [unit] at heq; cases heq

theorem readAll_of_wrong {tokens rest : List Token} {error : SyntaxError}
    (h : atEnd tokens = false) (unit : readUnit tokens = .wrong error rest) :
    readAll tokens = prepend [] [error] (readAll (resume rest)) := by
  rw [readAll, dif_neg (by simp [h])]
  split
  · next heq => rw [unit] at heq; cases heq
  · next heq => rw [unit] at heq; cases heq; rfl
  · next heq => rw [unit] at heq; cases heq

theorem atEnd_eq_false_of_inner {t : Token} {rest : List Token}
    (h : endsSegment t.kind = false) : atEnd (t :: rest) = false := by
  simpa [atEnd] using (ne_of_endsSegment_eq_false h).2

/-- The words that start a statement start no expression. -/
theorem readUnit_of_startsStatement {t : Token} {rest : List Token}
    (h : startsStatement t.kind = true) :
    readUnit (t :: rest) = .wrong (Wanted.expression.missedAt t) (t :: rest) := by
  have refused : take (.wanting []) t = none := by
    cases kind : t.kind <;> rw [kind] at h <;> cases h
    all_goals rw [take_wanting (by rw [kind]; rfl), takePrimary, kind]
  rw [readUnit, readExpr, Parser.read, refused]
  rfl

theorem resume_boundary {tail : List Token} (ends : Boundary tail) :
    resume tail = beyond tail := by
  cases tail with
  | nil => rfl
  | cons t rest =>
      unfold resume
      rcases endsSegment_iff.mp ends with kind | kind <;> simp only [List.headD_cons] at kind <;>
        simp [beyond, kind]

/-- Resuming inside a segment drops a token, and goes on at the next one or at
the next place to resume. -/
theorem resume_cons_cons {t u : Token} {rest : List Token} (inner : endsSegment t.kind = false) :
    resume (t :: u :: rest) =
      if startsStatement u.kind = true then u :: rest else resume (u :: rest) := by
  obtain ⟨notSeparator, notEnd⟩ := ne_of_endsSegment_eq_false inner
  rw [resume, if_neg notEnd, if_neg notSeparator]

theorem not_startsStatement_of_endsSegment {kind : Kind} (h : endsSegment kind = true) :
    startsStatement kind = false := by
  rcases endsSegment_iff.mp h with rfl | rfl <;> rfl

/-- Dropping the last token of a segment leads behind the segment. -/
theorem resume_last {t : Token} {tail : List Token} (inner : endsSegment t.kind = false)
    (ends : Boundary tail) : resume (t :: tail) = beyond tail := by
  cases tail with
  | nil =>
      obtain ⟨notSeparator, notEnd⟩ := ne_of_endsSegment_eq_false inner
      rw [resume, if_neg notEnd, if_neg notSeparator]
      rfl
  | cons u rest =>
      have plain : startsStatement u.kind = false := not_startsStatement_of_endsSegment ends
      rw [resume_cons_cons inner, plain]
      exact resume_boundary ends

/-- Behind an error, every word that starts a statement is one more error, and
nothing else of the segment is. -/
theorem readAll_resume {rest tail : List Token} (inner : Inner rest) (ends : Boundary tail) :
    readAll (resume (rest ++ tail)) =
      prepend [] ((rest.tail.filter (startsStatement ·.kind)).map Wanted.expression.missedAt)
        (readAll (beyond tail)) := by
  induction rest with
  | nil => rw [List.nil_append, resume_boundary ends]; rfl
  | cons t rest ih =>
      have later := ih inner.tail
      cases rest with
      | nil => rw [List.singleton_append, resume_last (inner t List.mem_cons_self) ends]; rfl
      | cons u rest =>
          rw [List.cons_append, List.cons_append, resume_cons_cons (inner t List.mem_cons_self)]
          by_cases starts : startsStatement u.kind = true
          · -- reading resumes at the word, which is an error again
            have here : atEnd (u :: (rest ++ tail)) = false :=
              atEnd_eq_false_of_inner (inner.tail u List.mem_cons_self)
            rw [if_pos starts, readAll_of_wrong here (readUnit_of_startsStatement starts),
              ← List.cons_append, later, prepend_prepend, List.tail_cons, List.tail_cons,
              List.filter_cons, if_pos starts]
            rfl
          · rw [if_neg starts, ← List.cons_append, later, List.tail_cons, List.tail_cons,
              List.filter_cons, if_neg starts]

/-! ## One segment -/

/-- `Yields body terminator exprs errors`: what a segment gives, as far as its own
tokens and the token that ends it tell. -/
inductive Yields (body : List Token) (terminator : Token) :
    List Expr → List SyntaxError → Prop
  | sentence {e : Expr} : Sentence body e → Yields body terminator [e] []
  | broken {k : Nat} {first : SyntaxError} : (∀ e, ¬ Sentence body e) → k ≤ body.length →
      first.token = body.getD k terminator →
      Yields body terminator [] (first ::
        ((body.drop (k + 1)).filter (startsStatement ·.kind)).map Wanted.expression.missedAt)

/-- What a segment yields whose reading fails where `rest` is left. -/
theorem Yields.of_rest {before rest : List Token} {terminator : Token} {first : SyntaxError}
    (broken : ∀ e, ¬ Sentence (before ++ rest) e) (token : first.token = rest.headD terminator) :
    Yields (before ++ rest) terminator [] (first ::
      (rest.tail.filter (startsStatement ·.kind)).map Wanted.expression.missedAt) := by
  have place : (before ++ rest).getD before.length terminator = rest.headD terminator := by
    simp [List.headD_eq_head?_getD, List.head?_eq_getElem?, List.getElem?_append_right]
  have later : (before ++ rest).drop (before.length + 1) = rest.tail := by
    simp [List.drop_append]
  rw [← later]
  exact .broken broken (by simp) (token.trans place.symm)

/-- A segment gives the same whatever stands behind the token that ends it, and
reading goes on behind that token. -/
theorem segment_yields {body : List Token} (inner : Inner body) (readable : Readable body)
    (terminator : Token) :
    ∃ exprs errors, Yields body terminator exprs errors ∧
      ∀ tail, Boundary tail → tail.headD Token.pastEnd = terminator →
        atEnd (body ++ tail) = false →
        readAll (body ++ tail) = prepend exprs errors (readAll (beyond tail)) := by
  rcases unit_within inner readable with ⟨e, sentence, run⟩ | ⟨broken, wanted, rest, le, run⟩
  · exact ⟨[e], [], .sentence sentence, fun tail ends _ more => readAll_of_ok more (run tail ends)⟩
  · obtain ⟨before, rfl⟩ := le
    have first : (wanted.missedAt (rest.headD terminator)).token = rest.headD terminator := rfl
    refine ⟨[], _, .of_rest broken first, fun tail ends same more => ?_⟩
    have token : (rest ++ tail).headD Token.pastEnd = rest.headD terminator := by
      rw [← same]
      cases rest <;> rfl
    rw [readAll_of_wrong more (run tail ends), token,
      readAll_resume (inner.of_suffix (List.suffix_append before rest)) ends, prepend_prepend]
    rfl

/-! ## Positions of errors -/

theorem tokenAt_add {tokens ts : List Token} {i : Nat} (split : tokens.drop i = ts) (k : Nat) :
    tokenAt tokens (i + k) = tokenAt ts k := by
  subst split
  simp only [tokenAt, List.getD_eq_getElem?_getD, List.getElem?_drop]

theorem map_tokenAt_range' {tokens : List Token} {i n : Nat} (le : i + n ≤ tokens.length) :
    (List.range' i n).map (tokenAt tokens) = (tokens.drop i).take n := by
  induction n generalizing i with
  | zero => rfl
  | succ n ih =>
      have here : i < tokens.length := by omega
      have head : tokenAt tokens i = tokens[i] := by
        simp only [tokenAt, List.getD_eq_getElem?_getD, List.getElem?_eq_getElem here,
          Option.getD_some]
      rw [List.range'_succ, List.map_cons, ih (by omega), List.drop_eq_getElem_cons here,
        List.take_succ_cons, head]

/-- The tokens at which a statement starts, in the rest of a segment. -/
theorem map_statementStarts {tokens body tail : List Token} {i k : Nat}
    (split : tokens.drop i = body ++ tail) (le : k ≤ body.length) (bound : i ≤ tokens.length) :
    (statementStarts tokens (i + k) (i + body.length)).map (tokenAt tokens) =
      (body.drop k).filter (startsStatement ·.kind) := by
  have count : i + body.length - (i + k) = body.length - k := by omega
  have inside : i + k + (body.length - k) ≤ tokens.length := by
    have := (positions_of_drop split bound).2.1
    omega
  have swap : ∀ positions : List Nat,
      (positions.filter fun j => startsStatement (tokenAt tokens j).kind).map (tokenAt tokens) =
        (positions.map (tokenAt tokens)).filter (startsStatement ·.kind) := by
    intro positions
    rw [List.filter_map]
    rfl
  rw [statementStarts, swap, count, map_tokenAt_range' inside, ← List.drop_drop, split,
    List.drop_append_of_le_length le, List.take_left' (List.length_drop ..)]

theorem map_token_missedAt (wanted : Wanted) (ts : List Token) :
    (ts.map wanted.missedAt).map SyntaxError.token = ts := by
  rw [List.map_map]
  exact List.map_id ts

/-- What a segment yields, seen from the positions of the whole list. -/
theorem Yields.answered {tokens body tail : List Token} {i : Nat} {exprs : List Expr}
    {errors : List SyntaxError} (split : tokens.drop i = body ++ tail) (bound : i ≤ tokens.length)
    (h : Yields body (tail.headD Token.pastEnd) exprs errors) :
    ∃ marks, Answered tokens ⟨i, body⟩ exprs marks ∧
      errors.map SyntaxError.token = marks.map (tokenAt tokens) := by
  cases h with
  | sentence sentence => exact ⟨[], .sentence sentence, rfl⟩
  | @broken k first none le token =>
      refine ⟨_, .broken none (Nat.le_add_right i k) (Nat.add_le_add_left le i), ?_⟩
      have place : first.token = tokenAt tokens (i + k) := by
        rw [token, tokenAt_add split, tokenAt, List.getD_eq_getElem?_getD,
          List.getD_eq_getElem?_getD]
        -- the error is at a token of the segment, or at the token that ends it
        rcases Nat.lt_or_eq_of_le le with inside | atStop
        · rw [List.getElem?_append_left inside, List.getElem?_eq_getElem inside]
          rfl
        · subst atStop
          rw [List.getElem?_append_right (Nat.le_refl _), Nat.sub_self,
            List.getElem?_eq_none (Nat.le_refl _), List.headD_eq_head?_getD,
            List.head?_eq_getElem?]
          rfl
      have later : ((body.drop (k + 1)).filter (startsStatement ·.kind)) =
          (statementStarts tokens (i + k + 1) (i + body.length)).map (tokenAt tokens) := by
        rcases Nat.lt_or_eq_of_le le with inside | atStop
        · rw [Nat.add_assoc, map_statementStarts split inside bound]
        · have none : i + body.length - (i + k + 1) = 0 := by omega
          rw [statementStarts, none, List.drop_eq_nil_of_le (by omega)]
          rfl
      rw [List.map_cons, List.map_cons, map_token_missedAt, place, later]
      rfl

/-! ## The whole batch -/

/-- Every token list starts with a segment. -/
theorem exists_segment (tokens : List Token) :
    ∃ body tail, tokens = body ++ tail ∧ Inner body ∧ Boundary tail := by
  induction tokens with
  | nil => exact ⟨[], [], rfl, fun _ member => absurd member List.not_mem_nil, rfl⟩
  | cons t rest ih =>
      cases ends : endsSegment t.kind with
      | true => exact ⟨[], t :: rest, rfl, fun _ member => absurd member List.not_mem_nil, ends⟩
      | false =>
          obtain ⟨body, tail, rfl, inner, boundary⟩ := ih
          refine ⟨t :: body, tail, rfl, fun u member => ?_, boundary⟩
          rcases List.mem_cons.mp member with rfl | later
          · exact ends
          · exact inner u later

theorem relevant_append {body : List Token} (inner : Inner body) (tail : List Token) :
    relevant (body ++ tail) = body ++ relevant tail := by
  refine List.takeWhile_append_of_pos fun t member => ?_
  simpa using (ne_of_endsSegment_eq_false (inner t member)).2

theorem not_semicolon_of_inner {body : List Token} (inner : Inner body) :
    ∀ t ∈ body, (t.kind == .semicolon) = false := by
  intro t member
  simpa using (ne_of_endsSegment_eq_false (inner t member)).1

/-- The last segment, which the end of input ends. -/
theorem bodies_last {body tail : List Token} (inner : Inner body) (ended : atEnd tail = true) :
    bodies (body ++ tail) = if body = [] then [] else [body] := by
  have nothing : relevant tail = [] := by
    cases tail with
    | nil => rfl
    | cons t rest =>
        have kind : t.kind = .eof := by simpa [atEnd] using ended
        simp [relevant, kind]
  have single := List.splitOnP_eq_singleton (not_semicolon_of_inner inner)
  rw [bodies, relevant_append inner, nothing, List.append_nil, single]
  by_cases empty : body = []
  · subst empty
    rfl
  · simp [empty]

/-- A segment that a semicolon ends. -/
theorem bodies_cons {body rest : List Token} {t : Token} (inner : Inner body)
    (kind : t.kind = .semicolon) : bodies (body ++ t :: rest) = body :: bodies rest := by
  have relevant_cons : relevant (t :: rest) = t :: relevant rest := by
    simp [relevant, kind]
  have parts := List.splitOnP_append_cons_of_forall_mem (not_semicolon_of_inner inner) t
    (by simp [kind]) (relevant rest)
  rw [bodies, relevant_append inner, relevant_cons, parts]
  obtain ⟨first, more, cut⟩ := List.exists_cons_of_ne_nil
    (List.splitOnP_ne_nil (fun u : Token => u.kind == .semicolon) (relevant rest))
  simp only [bodies, cut, List.getLast?_cons_cons, List.dropLast_cons_cons]
  split <;> rfl

/-- A segment read alone, together with the token that ends it. -/
def alone (tokens : List Token) (segment : Segment) : Batch :=
  readAll (segment.body ++ [tokenAt tokens segment.stop])

/-- `BySegments tokens segments batch marks`: the batch is put together from what
the segments give, and `marks` are the positions of its errors. -/
structure BySegments (tokens : List Token) (segments : List Segment) (batch : Batch)
    (marks : List Nat) : Prop where
  /-- No literal is at fault. -/
  fault : batch.fault? = none
  /-- Each segment gives its trees, and errors where it may. -/
  recovered : Recovered tokens segments batch.exprs marks
  /-- The errors stand at the marks. -/
  placed : batch.errors.map SyntaxError.token = marks.map (tokenAt tokens)
  /-- The trees are those of the segments read alone. -/
  exprs : batch.exprs = segments.flatMap fun segment => (alone tokens segment).exprs
  /-- The errors are those of the segments read alone. -/
  errors : batch.errors = segments.flatMap fun segment => (alone tokens segment).errors

theorem tokenAt_stop {tokens body tail : List Token} {i : Nat}
    (split : tokens.drop i = body ++ tail) :
    tokenAt tokens (i + body.length) = tail.headD Token.pastEnd := by
  rw [tokenAt_add split, ← headD_drop, List.drop_left]

/-- Behind a token that ends a segment and stands last, there is nothing to read. -/
theorem readAll_beyond_singleton {t : Token} (ends : endsSegment t.kind = true) :
    readAll (beyond [t]) = ⟨[], [], beyond [t], none⟩ := by
  refine readAll_of_atEnd ?_
  rcases endsSegment_iff.mp ends with kind | kind <;> simp [beyond, kind, atEnd]

/-- One more segment in front. -/
theorem BySegments.cons {tokens body tail : List Token} {i : Nat} {later : List Segment}
    {marks : List Nat} (split : tokens.drop i = body ++ tail) (bound : i ≤ tokens.length)
    (inner : Inner body) (readable : Readable body) (ends : Boundary tail)
    (more : atEnd (body ++ tail) = false)
    (h : BySegments tokens later (readAll (beyond tail)) marks) :
    ∃ marks', BySegments tokens (⟨i, body⟩ :: later) (readAll (body ++ tail)) marks' := by
  obtain ⟨exprs, errors, yields, run⟩ :=
    segment_yields inner readable (tail.headD Token.pastEnd)
  obtain ⟨marks', answered, placed⟩ := yields.answered split bound
  have moreAlone : atEnd (body ++ [tail.headD Token.pastEnd]) = false := by
    cases body with
    | cons t body => exact more
    | nil =>
        cases tail with
        | nil => cases more
        | cons t tail => exact more
  have single : alone tokens ⟨i, body⟩ =
      prepend exprs errors ⟨[], [], beyond [tail.headD Token.pastEnd], none⟩ := by
    rw [alone, Segment.stop, tokenAt_stop split,
      run [tail.headD Token.pastEnd] ends rfl moreAlone, readAll_beyond_singleton ends]
  rw [run tail ends rfl more]
  refine ⟨marks' ++ marks, h.fault, .cons answered h.recovered, ?_, ?_, ?_⟩
  · simp only [prepend, List.map_append, placed, h.placed]
  · rw [List.flatMap_cons, single, ← h.exprs]
    simp only [prepend, List.append_nil]
  · rw [List.flatMap_cons, single, ← h.errors]
    simp only [prepend, List.append_nil]

theorem bySegments_of_atEnd {tokens ts : List Token} (ended : atEnd ts = true) :
    BySegments tokens [] (readAll ts) [] := by
  rw [readAll_of_atEnd ended]
  exact ⟨rfl, .nil, rfl, rfl, rfl⟩

theorem atEnd_iff {tokens : List Token} :
    atEnd tokens = true ↔ (tokens.headD Token.pastEnd).kind = .eof := by
  cases tokens with
  | nil => exact ⟨fun _ => rfl, fun _ => rfl⟩
  | cons t rest => exact beq_iff_eq

theorem beyond_of_atEnd {tail : List Token} (ended : atEnd tail = true) : beyond tail = tail := by
  cases tail with
  | nil => rfl
  | cons t rest =>
      have kind : t.kind = .eof := atEnd_iff.mp ended
      simp [beyond, kind]

/-- A segment that a semicolon ends is there to be read, even an empty one. -/
theorem atEnd_append_separator {body rest : List Token} {t : Token} (inner : Inner body)
    (kind : t.kind = .semicolon) : atEnd (body ++ t :: rest) = false := by
  cases body with
  | nil => simp [atEnd, kind]
  | cons u body => exact atEnd_eq_false_of_inner (inner u List.mem_cons_self)

/-- The last segment, which the end of input ends. -/
theorem readAll_bySegments_last {tokens body tail : List Token} {i : Nat}
    (split : tokens.drop i = body ++ tail) (bound : i ≤ tokens.length) (inner : Inner body)
    (readable : Readable body) (ended : (tail.headD Token.pastEnd).kind = .eof) :
    ∃ marks, BySegments tokens (locate i (bodies (body ++ tail))) (readAll (body ++ tail))
      marks := by
  have atTail := atEnd_iff.mpr ended
  rw [bodies_last inner atTail]
  cases body with
  | nil => exact ⟨[], bySegments_of_atEnd atTail⟩
  | cons u body =>
      have more : atEnd (u :: body ++ tail) = false :=
        atEnd_eq_false_of_inner (inner u List.mem_cons_self)
      have later : BySegments tokens [] (readAll (beyond tail)) [] := by
        rw [beyond_of_atEnd atTail]
        exact bySegments_of_atEnd atTail
      exact later.cons split bound inner readable (endsSegment_iff.mpr (.inr ended)) more

/-- From any position on, a batch is read segment by segment. -/
theorem readAll_bySegments {tokens ts : List Token} {i : Nat} (split : tokens.drop i = ts)
    (bound : i ≤ tokens.length) (readable : Readable ts) :
    ∃ marks, BySegments tokens (locate i (bodies ts)) (readAll ts) marks := by
  induction size : ts.length using Nat.strongRecOn generalizing ts i with
  | ind n ih =>
      obtain ⟨body, tail, rfl, inner, ends⟩ := exists_segment ts
      have readableBody : Readable body :=
        fun t member => readable t (List.mem_append_left tail member)
      rcases endsSegment_iff.mp ends with separator | ended
      · -- the induction goes on behind the semicolon
        cases tail with
        | nil => cases separator
        | cons t rest =>
            have kind : t.kind = .semicolon := separator
            have behind : beyond (t :: rest) = rest := if_pos kind
            have split' : tokens.drop i = (body ++ [t]) ++ rest := by
              rw [split, List.append_assoc, List.singleton_append]
            obtain ⟨_, room, _, next⟩ := positions_of_drop split' bound
            rw [List.length_append, List.length_singleton, ← Nat.add_assoc] at room next
            have shorter : rest.length < n := by
              rw [← size, List.length_append, List.length_cons]
              omega
            obtain ⟨marks, later⟩ := ih rest.length shorter next room
              (fun u member =>
                readable u (List.mem_append_right body (List.mem_cons_of_mem t member))) rfl
            have later' : BySegments tokens (locate (i + body.length + 1) (bodies rest))
                (readAll (beyond (t :: rest))) marks := by
              rw [behind]
              exact later
            rw [bodies_cons inner kind, locate]
            exact later'.cons split bound inner readableBody ends
              (atEnd_append_separator inner kind)
      · exact readAll_bySegments_last split bound inner readableBody ended

/-- Errors of one segment come in order, at its tokens or at its end. -/
theorem Answered.increasing {tokens : List Token} {segment : Segment} {exprs : List Expr}
    {marks : List Nat} (h : Answered tokens segment exprs marks) :
    marks.Pairwise (· < ·) ∧ ∀ m ∈ marks, segment.start ≤ m ∧ m ≤ segment.stop := by
  cases h with
  | sentence => exact ⟨.nil, fun m member => absurd member List.not_mem_nil⟩
  | @broken k _ low high =>
      have later : ∀ m ∈ statementStarts tokens (k + 1) segment.stop,
          k < m ∧ m ≤ segment.stop := by
        intro m member
        have range := List.mem_range'_1.mp (List.mem_filter.mp member).1
        omega
      have ordered : (statementStarts tokens (k + 1) segment.stop).Pairwise (· < ·) :=
        List.Pairwise.filter _ List.pairwise_lt_range'
      refine ⟨List.pairwise_cons.mpr ⟨fun m member => (later m member).1, ordered⟩, ?_⟩
      intro m member
      rcases List.mem_cons.mp member with rfl | behind
      · exact ⟨low, high⟩
      · have := later m behind
        omega

/-- Errors of a batch come in order. -/
theorem Recovered.increasing {tokens : List Token} {parts : List (List Token)} {i : Nat}
    {exprs : List Expr} {marks : List Nat} (h : Recovered tokens (locate i parts) exprs marks) :
    marks.Pairwise (· < ·) ∧ ∀ m ∈ marks, i ≤ m := by
  induction parts generalizing i exprs marks with
  | nil =>
      cases h
      exact ⟨.nil, fun m member => absurd member List.not_mem_nil⟩
  | cons body rest ih =>
      rw [locate] at h
      cases h with
      | cons answered recovered =>
          obtain ⟨first, within⟩ := answered.increasing
          obtain ⟨later, behind⟩ := ih recovered
          simp only [Segment.stop] at within
          refine ⟨List.pairwise_append.mpr ⟨first, later, fun a ha b hb => ?_⟩, fun m member => ?_⟩
          · have := within a ha
            have := behind b hb
            omega
          · rcases List.mem_append.mp member with here | there
            · exact (within m here).1
            · have := behind m there
              omega

/-- **Recovery by segments.** If every literal can be held, a batch gives one tree
for each segment that is a sentence and nothing for any other; a sentence has no
error, and a broken segment has one error at one of its tokens or at its end and
one at each word behind it that starts a statement. The errors come at strictly
increasing positions, and trees and errors are those of the segments read alone,
so no segment touches what another one gives. -/
theorem readAll_recovers (tokens : List Token) (readable : Readable tokens) :
    ∃ marks, BySegments tokens (segments tokens) (readAll tokens) marks ∧
      marks.Pairwise (· < ·) := by
  obtain ⟨marks, bySegments⟩ := readAll_bySegments rfl (Nat.zero_le _) readable
  exact ⟨marks, bySegments, bySegments.recovered.increasing.1⟩

/-- A broken segment with two places to resume stands between two sentences. -/
theorem readAll_recovers_sample :
    let one : Token := ⟨.number, [49], 1, .short 1⟩
    let mark (kind : Kind) : Token := ⟨kind, [], 1, .absent⟩
    let tokens := [one, mark .semicolon, one, one, mark .kwVar, one, mark .kwIf, mark .semicolon,
      mark .minus, one, mark .eof, mark .star]
    Readable tokens ∧ ∃ marks, BySegments tokens (segments tokens) (readAll tokens) marks ∧
      marks.Pairwise (· < ·) :=
  ⟨by decide, readAll_recovers _ (by decide)⟩

end Reckon.Grammar
