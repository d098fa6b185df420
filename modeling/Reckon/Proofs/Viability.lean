import Reckon.Proofs.Recovery
import Reckon.Report

/-!
# Errors are found as early as can be

The reader reports an error at the first token with which no sentence can go on.
The argument follows the state that the tokens before the error lead to
(`Steps`):

* whatever the state, its unfinished parts can be completed, so the tokens before
  the error begin a sentence (`Follows.viable`);
* reading is a function of its tokens, so a sentence that went on with the refused
  token would have been read through it (`Steps.not_viable`);
* a closing parenthesis is asked for exactly in the states to which an open
  parenthesis and a sentence behind it lead (`Steps.closingParen_iff`).

`readExpr_reports_earliest` says this for every position of a token list, and that
the reporter is handed the error once; `parse_cases` says it of an expression that is
read off the whole list.
-/

namespace Reckon.Grammar

open Reckon.Parser

/-! ## Tokens that begin a sentence -/

/-- Tokens that begin a sentence. -/
def Viable (ts : List Token) : Prop := ∃ more e, Sentence (ts ++ more) e

theorem Viable.of_append {ts us : List Token} (h : Viable (ts ++ us)) : Viable ts := by
  obtain ⟨more, e, sentence⟩ := h
  rw [List.append_assoc] at sentence
  exact ⟨us ++ more, e, sentence⟩

/-- No closing parenthesis of the tokens is the partner of one before them: up to
any place, at least as many are opened as are closed. -/
def SelfContained (ts : List Token) : Prop :=
  ∀ n, (ts.take n).countP (·.kind == .rightParen) ≤ (ts.take n).countP (·.kind == .leftParen)

/-- The tokens end in a parenthesis and a sentence behind it, and the parenthesis is
still open. -/
def EndsOpen (ts : List Token) : Prop :=
  ∃ before opening inner e, ts = before ++ opening :: inner ∧ opening.kind = .leftParen ∧
    Sentence inner e ∧ SelfContained inner

theorem SelfContained.append {ts us : List Token} (h : SelfContained ts)
    (h' : SelfContained us) : SelfContained (ts ++ us) := by
  intro n
  have first := h n
  have second := h' (n - ts.length)
  simp only [List.take_append, List.countP_append]
  omega

theorem SelfContained.cons {t : Token} {ts : List Token} (kind : t.kind ≠ .rightParen)
    (h : SelfContained ts) : SelfContained (t :: ts) := by
  intro n
  cases n with
  | zero => simp
  | succ n =>
      have later := h n
      simp only [List.take_succ_cons, List.countP_cons]
      simp [kind]
      omega

theorem SelfContained.nil : SelfContained [] := by
  intro n
  simp

theorem SelfContained.enclose {opening closing : Token} {ts : List Token}
    (left : opening.kind = .leftParen) (h : SelfContained ts) :
    SelfContained (opening :: ts ++ [closing]) := by
  intro n
  cases n with
  | zero => simp
  | succ n =>
      have inner := h n
      -- the one token behind `ts` closes at most the parenthesis before it
      have last : ([closing].take (n - ts.length)).countP (·.kind == .rightParen) ≤ 1 := by
        refine Nat.le_trans List.countP_le_length ?_
        rw [List.length_take]
        exact Nat.min_le_right _ 1
      simp only [List.cons_append, List.take_succ_cons, List.take_append, List.countP_cons,
        List.countP_append]
      simp [left]
      omega

/-- Parentheses match inside a derivation. -/
theorem Derives.selfContained {level : Level} {ts : List Token} {e : Expr}
    (h : Derives level ts e) : SelfContained ts := by
  induction h with
  | tighter _ _ ih => exact ih
  | @binary level next left right l r t op _ joins _ _ ihl ihr =>
      have kind : t.kind ≠ .rightParen := by
        intro closes
        have spelled := (mem_operators_iff.mp joins).1
        rw [closes] at spelled
        cases spelled
      exact ihl.append (ihr.cons kind)
  | @unary ts e t op marks _ ih =>
      have kind : t.kind ≠ .rightParen := by
        intro closes
        have spelled := mem_unaryOperators_iff.mp marks
        rw [closes] at spelled
        cases spelled
      exact ih.cons kind
  | @constant t v names =>
      have table : ∀ entry ∈ constants, entry.1 ≠ .rightParen := by decide
      exact SelfContained.nil.cons (table _ names)
  | @payload t v kind _ =>
      have other : t.kind ≠ .rightParen := by
        intro closes
        simp [closes] at kind
      exact SelfContained.nil.cons other
  | grouping opens _ _ ih => exact ih.enclose opens

/-! ## Unfinished parts can be completed -/

/-- An operand under unfinished parts begins a sentence: each open parenthesis is
closed, and nothing else is added. -/
theorem Context.viable {frames : List Frame} {used : List Token} (ctx : Context frames used) :
    ∀ {level : Level} {ts : List Token} {e : Expr}, Derives level ts e →
    innerRank frames ≤ level.rank → Viable (used ++ ts) := by
  induction ctx with
  | nil =>
      intro level ts e held fits
      refine ⟨[], e, ?_⟩
      rw [List.nil_append, List.append_nil]
      exact held.loosen fits
  | @paren outer used t ctx opens ih =>
      intro level ts e held fits
      have closed : Derives .primary (t :: ts ++ [⟨.rightParen, [], 1, .absent⟩]) (.grouping e) :=
        .grouping opens rfl (held.loosen fits)
      have viable := ih closed (Nat.le_succ_of_le (innerRank_le_unary outer))
      apply Viable.of_append
      simpa using viable
  | @unary outer used t op ctx marks ih =>
      intro level ts e held fits
      have whole : Derives .unary (t :: ts) (.unary op e) := .unary marks (held.loosen fits)
      simpa using ih whole (innerRank_le_unary outer)
  | @binary outer used left t bound l op ctx inner hl joins ih =>
      intro level ts e held fits
      simpa using ih (hl.join joins held fits) inner

/-- The tokens that lead to a state of the reader begin a sentence. -/
theorem Follows.viable {s : State} {used : List Token} (h : Follows s used) : Viable used := by
  cases h with
  | @wanting frames used ctx =>
      -- any operand will do where one is wanted
      have operand : Derives .primary [⟨.kwNil, [], 1, .absent⟩] (.literal .nil) :=
        .constant (by decide)
      exact (ctx.viable operand (Nat.le_succ_of_le (innerRank_le_unary frames))).of_append
  | @holding frames used ts e ctx held =>
      exact ctx.viable held (Nat.le_succ_of_le (innerRank_le_unary frames))

/-! ## The state before a token -/

/-- `Steps s ts last`: from the state `s` the reader takes the tokens `ts` and arrives
at `last`. -/
inductive Steps : State → List Token → State → Prop
  | refl (s : State) : Steps s [] s
  | cons {s next last : State} {t : Token} {ts : List Token} :
      take s t = some (.ok next) → Steps next ts last → Steps s (t :: ts) last

theorem Steps.read {s last : State} {ts : List Token} (h : Steps s ts last) (rest : List Token) :
    Parser.read s (ts ++ rest) = Parser.read last rest := by
  induction h with
  | refl s => rfl
  | cons step _ ih => rw [List.cons_append, read_of_take step, ih]

theorem Steps.follows {s last : State} {ts used : List Token} (h : Steps s ts last)
    (before : Follows s used) : Follows last (used ++ ts) := by
  induction h generalizing used with
  | refl s =>
      rw [List.append_nil]
      exact before
  | cons step _ ih =>
      have after := ih (before.take step)
      rwa [List.append_assoc, List.singleton_append] at after

theorem Steps.split {ts us : List Token} {s last : State} (h : Steps s (ts ++ us) last) :
    ∃ mid, Steps s ts mid ∧ Steps mid us last := by
  induction ts generalizing s with
  | nil => exact ⟨s, .refl s, h⟩
  | cons t ts ih =>
      cases h with
      | cons step rest =>
          obtain ⟨mid, first, second⟩ := ih rest
          exact ⟨mid, .cons step first, second⟩

/-- Reading takes tokens as long as it can, and stops at the first that is refused;
the end of the list is refused too. -/
theorem read_stops {tokens : List Token} (readable : Readable tokens) (s : State) :
    ∃ used rest last, tokens = used ++ rest ∧ Steps s used last ∧
      take last (rest.headD Token.pastEnd) = none ∧
      Parser.read s tokens = stop last (rest.headD Token.pastEnd) rest := by
  induction tokens generalizing s with
  | nil =>
      have refused : take s Token.pastEnd = none := take_eq_none_of_endsSegment rfl s
      exact ⟨[], [], s, rfl, .refl s, refused, rfl⟩
  | cons t more ih =>
      cases step : take s t with
      | none =>
          refine ⟨[], t :: more, s, rfl, .refl s, step, ?_⟩
          rw [Parser.read, step]
          rfl
      | some outcome =>
          cases outcome with
          | error fault =>
              obtain ⟨_, kind, none⟩ := take_fault_iff.mp ⟨fault, step⟩
              obtain ⟨v, denotes⟩ := readable t List.mem_cons_self kind
              exact absurd denotes (none v)
          | ok next =>
              have later : Readable more := fun u member =>
                readable u (List.mem_cons_of_mem t member)
              obtain ⟨used, rest, last, rfl, steps, refused, run⟩ := ih later next
              refine ⟨t :: used, rest, last, rfl, .cons step steps, refused, ?_⟩
              rw [read_of_take step, run]

/-- With a token that is refused behind them, tokens begin no sentence. -/
theorem Steps.not_viable {used : List Token} {last : State} {t : Token}
    (h : Steps (.wanting []) used last) (refused : take last t = none) :
    ¬ Viable (used ++ [t]) := by
  rintro ⟨more, e, sentence⟩
  -- as a sentence they would be read to the end, but reading stops at the token
  have through : readExpr (used ++ [t] ++ more ++ []) = .ok e [] :=
    readExpr_of_sentence sentence (by decide)
  have stops : readExpr (used ++ t :: more) = stop last t (t :: more) := by
    rw [readExpr, h.read, Parser.read, refused]
  rw [List.append_nil, List.append_assoc, List.singleton_append, stops] at through
  unfold stop at through
  split at through
  · cases through
  · cases through

/-! ## What is asked for -/

theorem finish_cases {s : State} {wanted : Wanted} (h : finish s = .error wanted) :
    wanted = .expression ∨ wanted = .closingParen := by
  cases s with
  | wanting frames =>
      cases h
      exact .inl rfl
  | holding frames operand =>
      simp only [finish] at h
      split at h
      · cases h
      · cases h
        exact .inr rfl

/-- Where a closing parenthesis is asked for, one is open and a sentence stands
behind it. -/
theorem Follows.endsOpen {s : State} {used : List Token} (h : Follows s used)
    (asks : Parser.finish s = .error .closingParen) : EndsOpen used := by
  cases h with
  | wanting ctx => cases asks
  | @holding frames used ts operand ctx held =>
      have whole := ctx.enclosed held (Nat.le_succ_of_le (innerRank_le_unary frames))
      simp only [Parser.finish] at asks
      split at asks
      · cases asks
      · next inner outer heq =>
        rw [heq] at whole
        obtain ⟨before, opening, ts', split, _, opens, sentence⟩ := whole
        exact ⟨before, opening, ts', inner, split, opens, sentence, sentence.selfContained⟩

theorem message_injective {a b : Wanted} (h : a.message = b.message) : a = b := by
  cases a <;> cases b <;> first | rfl | exact absurd h (by decide)

/-- At the end of the list a state shows what it asks for. -/
theorem finish_of_read_nil {s : State} {wanted : Wanted} {t : Token} {rest : List Token}
    (h : Parser.read s [] = .wrong (wanted.missedAt t) rest) : finish s = .error wanted := by
  rw [Parser.read, stop] at h
  cases done : finish s with
  | ok e =>
      rw [done] at h
      cases h
  | error other =>
      rw [done] at h
      have same : other.message = wanted.message :=
        congrArg SyntaxError.message (Reading.wrong.inj h).1
      rw [message_injective same]

theorem take_leftParen_inv {s next : State} {t : Token} (kind : t.kind = .leftParen)
    (step : take s t = some (.ok next)) : ∃ frames, next = .wanting (.paren :: frames) := by
  cases s with
  | wanting frames =>
      rw [take_leftParen kind] at step
      cases step
      exact ⟨frames, rfl⟩
  | holding frames operand =>
      rw [Parser.take, takeOperator_of_unspelled (by rw [kind]; rfl), if_neg (by rw [kind]; decide)]
        at step
      cases step

/-- Behind an open parenthesis and a sentence, a closing one is asked for. -/
theorem Steps.asks_closingParen {used : List Token} {s last : State} (h : Steps s used last)
    (ends : EndsOpen used) : finish last = .error .closingParen := by
  obtain ⟨before, opening, inner, e, rfl, kind, sentence, _⟩ := ends
  obtain ⟨mid, _, behind⟩ := h.split
  cases behind with
  | cons step inside =>
      obtain ⟨frames, rfl⟩ := take_leftParen_inv kind step
      -- the sentence leads to parts that complete to it, with the parenthesis outside them
      obtain ⟨top, x, completes, run⟩ := sentence.reads (.paren :: frames) [] (Nat.le_refl _)
      have asks : finish (.holding (top ++ .paren :: frames) x) = .error .closingParen := by
        rw [finish, enclosed_append completes.whole]
        rfl
      have shown : Parser.read (.holding (top ++ .paren :: frames) x) [] =
          .wrong (Wanted.closingParen.missedAt Token.pastEnd) [] := by
        rw [Parser.read, stop, asks]
      rw [inside.read, shown] at run
      exact finish_of_read_nil run

theorem Steps.closingParen_iff {used : List Token} {last : State}
    (h : Steps (.wanting []) used last) :
    finish last = .error .closingParen ↔ EndsOpen used := by
  constructor
  · intro asks
    exact (h.follows (.wanting .nil)).endsOpen asks
  · exact h.asks_closingParen

/-! ## Reported errors -/

/-- An error that reading from position `i` finds at position `k`, as early as one can
be found. -/
structure Earliest (tokens : List Token) (i k : Nat) (error : SyntaxError) : Prop where
  ordered : i ≤ k
  bounded : k ≤ tokens.length
  /-- The error is located at the token where reading stops. -/
  token : error.token = tokenAt tokens k
  /-- The tokens before it begin a sentence. -/
  viable : Viable (tokens.extract i k)
  /-- Together with it they do not. -/
  refused : ¬ Viable (tokens.extract i k ++ [tokenAt tokens k])
  /-- A closing parenthesis is asked for behind an open one and a sentence. -/
  unclosed : error.message = Bytes.ofString "Expect ')' after expression." ↔
    EndsOpen (tokens.extract i k)
  /-- Otherwise an expression is asked for. -/
  missing : error.message = Bytes.ofString "Expect expression." ↔
    ¬ EndsOpen (tokens.extract i k)

/-- The error of a state that tokens lead to and that refuses the next one. -/
theorem Steps.earliest {tokens used rest : List Token} {i : Nat} {last : State} {wanted : Wanted}
    (split : tokens.drop i = used ++ rest) (bound : i ≤ tokens.length)
    (steps : Steps (.wanting []) used last)
    (refused : take last (rest.headD Token.pastEnd) = none) (asks : finish last = .error wanted) :
    Earliest tokens i (i + used.length) (wanted.missedAt (rest.headD Token.pastEnd)) := by
  obtain ⟨_, bounded, taken, left⟩ := positions_of_drop split bound
  have here : tokenAt tokens (i + used.length) = rest.headD Token.pastEnd := by
    rw [← headD_drop, left]
  have decides : wanted = .closingParen ↔ EndsOpen used := by
    rw [← steps.closingParen_iff, asks, Except.error.injEq]
  refine ⟨Nat.le_add_right _ _, bounded, here.symm, ?_, ?_, ?_, ?_⟩
  · rw [taken]
    exact (steps.follows (.wanting .nil)).viable
  · rw [taken, here]
    exact steps.not_viable refused
  · rw [taken, ← decides]
    show wanted.message = Wanted.closingParen.message ↔ _
    exact ⟨message_injective, congrArg Wanted.message⟩
  · rw [taken, ← decides]
    show wanted.message = Wanted.expression.message ↔ _
    rcases finish_cases asks with rfl | rfl
    · decide
    · decide

/-- From any position, reading gives a sentence that no binary operator continues, or the
earliest error. -/
theorem readExpr_cases {tokens : List Token} (readable : Readable tokens) {i : Nat}
    (bound : i ≤ tokens.length) :
    (∃ e k, Parser.readExpr (tokens.drop i) = .ok e (tokens.drop k) ∧ SentenceAt tokens i e k) ∨
    ∃ error k, Parser.readExpr (tokens.drop i) = .wrong error (tokens.drop k) ∧
      Earliest tokens i k error := by
  have later : Readable (tokens.drop i) := fun t member =>
    readable t (List.mem_of_mem_drop member)
  obtain ⟨used, rest, last, split, steps, refused, run⟩ := read_stops later (.wanting [])
  obtain ⟨position, bounded, taken, left⟩ := positions_of_drop split bound
  cases asks : finish last with
  | ok e =>
      left
      have reading : Parser.readExpr (tokens.drop i) = .ok e rest := by
        rw [readExpr, run, stop, asks]
      obtain ⟨ts, split', sentence, ends⟩ := sentence_of_readExpr reading
      -- the tokens of the sentence are those that were taken
      have same : ts = used := List.append_cancel_right (split'.symm.trans split)
      refine ⟨e, i + used.length, by rw [reading, left], Nat.le_add_right _ _, bounded, ?_, ?_⟩
      · rw [taken, ← same]
        exact sentence
      · rw [← headD_drop, left]
        exact ends
  | error wanted =>
      right
      refine ⟨_, _, ?_, steps.earliest split bound refused asks⟩
      rw [readExpr, run, stop, asks, left]

/-- **Errors are found as early as can be, and reported once.** From any position of
a token list whose literals can be held, reading either succeeds on a sentence that
no binary operator continues, and the reporter is left alone, or it fails and the
reporter is handed the error that is returned and no other. The error stands at the
first token with which the tokens read so far no longer begin a sentence. -/
theorem readExpr_reports_earliest {ρ : Type} [Reporter ρ] (tokens : List Token)
    (readable : Readable tokens) (i : Nat) (bound : i ≤ tokens.length) (reporter : ρ) :
    (∃ e k, Reader.readExpr ⟨tokens.drop i, reporter⟩ =
        (⟨tokens.drop k, reporter⟩, .ok e (tokens.drop k)) ∧
      SentenceAt tokens i e k) ∨
    ∃ error k, Reader.readExpr ⟨tokens.drop i, reporter⟩ =
        (⟨tokens.drop k, Reporter.handle reporter (some (.located error))⟩,
          .wrong error (tokens.drop k)) ∧
      Earliest tokens i k error := by
  rcases readExpr_cases readable bound with ⟨e, k, reading, sentence⟩ | ⟨error, k, reading, earliest⟩
  · left
    refine ⟨e, k, ?_, sentence⟩
    rw [Reader.readExpr, reading]
    rfl
  · right
    refine ⟨error, k, ?_, earliest⟩
    rw [Reader.readExpr, reading]
    rfl

/-- Behind a whole group, an open one breaks off at a second operand. -/
theorem readExpr_reports_earliest_sample :
    let one : Token := ⟨.number, [49], 1, .short 1⟩
    let mark (kind : Kind) : Token := ⟨kind, [], 1, .absent⟩
    let tokens := [one, mark .leftParen, one, mark .rightParen, mark .star, mark .leftParen, one,
      one, mark .eof]
    let reporter : Recorder := {}
    let error : SyntaxError := ⟨one, Bytes.ofString "Expect ')' after expression."⟩
    Readable tokens ∧ 1 ≤ tokens.length ∧
      Reader.readExpr ⟨tokens.drop 1, reporter⟩ =
        (⟨tokens.drop 7, Reporter.handle reporter (some (.located error))⟩,
          .wrong error (tokens.drop 7)) ∧
      Earliest tokens 1 7 error := by
  intro one mark tokens reporter error
  have readable : Readable tokens := by decide
  have bound : 1 ≤ tokens.length := by decide
  have fails : Reader.readExpr ⟨tokens.drop 1, reporter⟩ =
      (⟨tokens.drop 7, Reporter.handle reporter (some (.located error))⟩,
        .wrong error (tokens.drop 7)) := by decide
  refine ⟨readable, bound, fails, ?_⟩
  rcases readExpr_reports_earliest tokens readable 1 bound reporter with
    ⟨e, k, succeeds, _⟩ | ⟨found, k, reports, earliest⟩
  · rw [fails] at succeeds
    cases congrArg Prod.snd succeeds
  · rw [fails] at reports
    obtain ⟨same, left⟩ := Reading.wrong.inj (congrArg Prod.snd reports)
    -- what is left behind the error tells where it stands
    have lengths := congrArg List.length left
    rw [List.length_drop, List.length_drop] at lengths
    have count : tokens.length = 9 := rfl
    have bounded := earliest.bounded
    have place : k = 7 := by omega
    rw [same, ← place]
    exact earliest

/-- A single expression is read off tokens as from any position, but no tokens are no
expression and no error. -/
theorem parse_cases {ρ : Type} [Reporter ρ] {tokens : List Token} (readable : Readable tokens)
    (reporter : ρ) :
    (tokens = [] ∧ Reader.parse tokens reporter = (reporter, .ok none)) ∨
    (∃ e k, Reader.parse tokens reporter = (reporter, .ok (some e)) ∧ SentenceAt tokens 0 e k) ∨
    (tokens ≠ [] ∧ ∃ error k, Reader.parse tokens reporter =
        (Reporter.handle reporter (some (.located error)), .ok none) ∧
      Earliest tokens 0 k error) := by
  cases tokens with
  | nil => exact .inl ⟨rfl, rfl⟩
  | cons t rest =>
      have cases := readExpr_cases readable (Nat.zero_le _)
      rw [List.drop_zero] at cases
      rcases cases with ⟨e, k, reading, sentence⟩ | ⟨error, k, reading, earliest⟩
      · refine .inr (.inl ⟨e, k, ?_, sentence⟩)
        simp only [Reader.parse, Reader.readExpr, reading]
        rfl
      · refine .inr (.inr ⟨List.cons_ne_nil t rest, error, k, ?_, earliest⟩)
        simp only [Reader.parse, Reader.readExpr, reading]
        rfl

end Reckon.Grammar
