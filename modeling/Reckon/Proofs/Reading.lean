import Reckon.Proofs.Grammar

/-!
# The reader follows the grammar

The reader works with a stack of unfinished parts and completes them only when
a looser operator, a parenthesis or the end forces it to. Two facts tie it to
the grammar:

* **soundness** — `Follows s used` says that the tokens `used` lead to the state
  `s`: each unfinished part has its tokens, every left half is derived at the
  level of its operator, and a held operand is a primary. A step keeps it
  (`Follows.take`), so a run that ends well has read a sentence (`read_sound`);
* **completeness** — on the tokens of a derivation the reader arrives at an
  operand under parts that complete to the derived tree (`Derives.reads`), and
  a token that continues no expression then makes it complete them.

Together: from any position, reading succeeds exactly on the sentences that no
binary operator continues (`readsTo_iff_sentenceAt`).
-/

namespace Reckon.Grammar

open Reckon.Parser

/-! ## Unfinished parts -/

/-- The rank from which on an operand can stand to the right of the innermost
part. -/
def innerRank : List Frame → Nat
  | .unary _ :: _ => Level.unary.rank
  | .binary _ op :: _ => op.level + 1
  | _ => Level.or.rank

theorem level_le_factor (op : BinaryOp) : op.level ≤ Level.factor.rank := by
  cases op <;> simp [BinaryOp.level, Level.rank]

theorem innerRank_le_unary (frames : List Frame) : innerRank frames ≤ Level.unary.rank := by
  match frames with
  | [] => decide
  | .paren :: _ => exact (by decide : Level.or.rank ≤ Level.unary.rank)
  | .unary _ :: _ => exact Nat.le_refl _
  | .binary _ op :: _ => exact Nat.succ_le_succ (level_le_factor op)

/-- `Context frames used`: the tokens `used` lead to the unfinished parts
`frames`. The left half of a binary operator binds at least as tightly as the
operator, and the part outside it more loosely. -/
inductive Context : List Frame → List Token → Prop
  | nil : Context [] []
  | paren {outer : List Frame} {used : List Token} {t : Token} :
      Context outer used → t.kind = .leftParen → Context (.paren :: outer) (used ++ [t])
  | unary {outer : List Frame} {used : List Token} {t : Token} {op : UnaryOp} :
      Context outer used → (t.kind, op) ∈ unaryOperators →
      Context (.unary op :: outer) (used ++ [t])
  | binary {outer : List Frame} {used left : List Token} {t : Token} {level : Level}
      {l : Expr} {op : BinaryOp} :
      Context outer used → innerRank outer ≤ level.rank → Derives level left l →
      (t.kind, op) ∈ level.operators → Context (.binary l op :: outer) (used ++ (left ++ [t]))

/-- A right half completes a binary operator at the operator's level. -/
theorem Derives.join {level inner : Level} {left right : List Token} {l r : Expr} {t : Token}
    {op : BinaryOp} (hl : Derives level left l) (joins : (t.kind, op) ∈ level.operators)
    (hr : Derives inner right r) (fits : op.level + 1 ≤ inner.rank) :
    Derives level (left ++ t :: right) (.binary l op r) := by
  have hop := (mem_operators_iff.mp joins).2
  have low : level.rank < 8 := by
    rw [← hop]
    exact Nat.lt_succ_of_le (Nat.le_succ_of_le (level_le_factor op))
  obtain ⟨next, hnext⟩ := Level.exists_next low
  have hrank := Level.rank_next hnext
  exact .binary hnext joins hl (hr.loosen (by omega))

/-- Collapsing parts that bind at least as tightly as `target` leaves an operand
derived at `target`, under parts that bind more loosely. -/
theorem Context.collapse {frames : List Frame} {used : List Token} (ctx : Context frames used)
    {target : Level} (below : target.rank ≤ Level.unary.rank) :
    ∀ {level : Level} {ts : List Token} {e : Expr}, Derives level ts e →
    innerRank frames ≤ level.rank → target.rank ≤ level.rank →
    ∃ used' ts', used ++ ts = used' ++ ts' ∧
      Context (Parser.collapse target.rank frames e).1 used' ∧
      innerRank (Parser.collapse target.rank frames e).1 ≤ target.rank ∧
      Derives target ts' (Parser.collapse target.rank frames e).2 := by
  have one_le : Level.or.rank ≤ target.rank := by cases target <;> decide
  induction ctx with
  | nil =>
      intro level ts e held _ le
      exact ⟨[], ts, rfl, .nil, one_le, held.loosen le⟩
  | @paren outer used t ctx opens ih =>
      intro level ts e held _ le
      exact ⟨used ++ [t], ts, rfl, .paren ctx opens, one_le, held.loosen le⟩
  | @unary outer used t op ctx marks ih =>
      intro level ts e held fits _
      simp only [Parser.collapse]
      have whole : Derives .unary (t :: ts) (.unary op e) := .unary marks (held.loosen fits)
      obtain ⟨used', ts', split, rest⟩ := ih whole (innerRank_le_unary outer) below
      exact ⟨used', ts', by rw [← split]; simp, rest⟩
  | @binary outer used left t bound l op ctx inner hl joins ih =>
      intro level ts e held fits le
      have hop := (mem_operators_iff.mp joins).2
      simp only [Parser.collapse]
      by_cases tight : target.rank ≤ op.level
      · -- the operator is completed, and the parts outside it go on
        rw [if_pos tight]
        obtain ⟨used', ts', split, rest⟩ :=
          ih (hl.join joins held fits) inner (by omega)
        exact ⟨used', ts', by rw [← split]; simp, rest⟩
      · -- a looser operator stays, and its right half is what was collapsed so far
        rw [if_neg tight]
        exact ⟨_, ts, rfl, .binary ctx inner hl joins, by simp only [innerRank]; omega,
          held.loosen le⟩

/-- Completing all parts gives a sentence: of everything if no parenthesis is
open, and of what stands behind the innermost open one otherwise. -/
theorem Context.enclosed {frames : List Frame} {used : List Token} (ctx : Context frames used) :
    ∀ {level : Level} {ts : List Token} {e : Expr}, Derives level ts e →
    innerRank frames ≤ level.rank →
    match Parser.enclosed frames e with
    | (whole, none) => Sentence (used ++ ts) whole
    | (whole, some outer) => ∃ used' t ts', used ++ ts = used' ++ t :: ts' ∧
        Context outer used' ∧ t.kind = .leftParen ∧ Sentence ts' whole := by
  induction ctx with
  | nil =>
      intro level ts e held fits
      exact held.loosen fits
  | @paren outer used t ctx opens ih =>
      intro level ts e held fits
      exact ⟨used, t, ts, by simp, ctx, opens, held.loosen fits⟩
  | @unary outer used t op ctx marks ih =>
      intro level ts e held fits
      have whole : Derives .unary (t :: ts) (.unary op e) := .unary marks (held.loosen fits)
      have done := ih whole (innerRank_le_unary outer)
      simpa only [Parser.enclosed, List.append_assoc, List.singleton_append] using done
  | @binary outer used left t bound l op ctx inner hl joins ih =>
      intro level ts e held fits
      have done := ih (hl.join joins held fits) inner
      simpa only [Parser.enclosed, List.append_assoc, List.singleton_append] using done

/-! ## Soundness -/

/-- `Follows s used`: the tokens `used` lead to the state `s`. -/
inductive Follows : State → List Token → Prop
  | wanting {frames : List Frame} {used : List Token} :
      Context frames used → Follows (.wanting frames) used
  | holding {frames : List Frame} {used ts : List Token} {e : Expr} :
      Context frames used → Derives .primary ts e →
      Follows (.holding frames e) (used ++ ts)

/-- A literal token is an operand if its payload can be held. -/
theorem Context.takeLiteral {frames : List Frame} {used : List Token} {t : Token} {next : State}
    (ctx : Context frames used) (kind : t.kind = .number ∨ t.kind = .string)
    (step : ((literal t).map fun v => State.holding frames (.literal v)) = .ok next) :
    Follows next (used ++ [t]) := by
  cases value : literal t with
  | error fault => rw [value] at step; cases step
  | ok v =>
      rw [value] at step
      cases step
      exact .holding ctx (.payload kind (literal_eq_ok_iff.mp value))

/-- Taking a token with which a primary starts follows the grammar. -/
theorem Context.takePrimary {frames : List Frame} {used : List Token} {t : Token} {next : State}
    (ctx : Context frames used) (step : Parser.takePrimary frames t = some (.ok next)) :
    Follows next (used ++ [t]) := by
  unfold Parser.takePrimary at step
  split at step
  · next kind =>
    cases step
    exact .holding ctx (.constant (by rw [kind]; decide))
  · next kind =>
    cases step
    exact .holding ctx (.constant (by rw [kind]; decide))
  · next kind =>
    cases step
    exact .holding ctx (.constant (by rw [kind]; decide))
  · next kind =>
    exact ctx.takeLiteral (.inl kind) (Option.some.inj step)
  · next kind =>
    exact ctx.takeLiteral (.inr kind) (Option.some.inj step)
  · next kind =>
    cases step
    exact .wanting (.paren ctx kind)
  · cases step

/-- Taking a token where an operand is wanted follows the grammar. -/
theorem Context.takeOperand {frames : List Frame} {used : List Token} {t : Token} {next : State}
    (ctx : Context frames used) (step : Parser.takeOperand frames t = some (.ok next)) :
    Follows next (used ++ [t]) := by
  cases spelled : UnaryOp.ofKind? t.kind with
  | some op =>
      rw [takeOperand_of_ofKind? spelled] at step
      cases step
      exact .wanting (.unary ctx (mem_unaryOperators_iff.mpr spelled))
  | none =>
      rw [takeOperand_of_unspelled spelled] at step
      exact ctx.takePrimary step

/-- Taking a closing parenthesis follows the grammar. -/
theorem Context.takeClosing {frames : List Frame} {used ts : List Token} {e : Expr} {t : Token}
    {next : State} (ctx : Context frames used) (held : Derives .primary ts e)
    (closes : t.kind = .rightParen) (step : Parser.takeClosing frames e = some next) :
    Follows next (used ++ ts ++ [t]) := by
  have whole := ctx.enclosed held (Nat.le_succ_of_le (innerRank_le_unary frames))
  unfold Parser.takeClosing at step
  split at step
  · next inner outer heq =>
    cases step
    rw [heq] at whole
    obtain ⟨used', opening, ts', split, ctx', opens, sentence⟩ := whole
    rw [split, List.append_assoc]
    exact .holding ctx' (.grouping opens closes sentence)
  · cases step

/-- Taking a token after an operand follows the grammar. -/
theorem Context.takeOperator {frames : List Frame} {used ts : List Token} {e : Expr} {t : Token}
    {next : State} (ctx : Context frames used) (held : Derives .primary ts e)
    (step : Parser.takeOperator frames e t = some (.ok next)) :
    Follows next (used ++ ts ++ [t]) := by
  cases spelled : BinaryOp.ofKind? t.kind with
  | some op =>
      obtain ⟨level, joins, low⟩ := exists_level spelled
      have tight := (mem_operators_iff.mp joins).2
      have fits : innerRank frames ≤ Level.primary.rank :=
        Nat.le_succ_of_le (innerRank_le_unary frames)
      obtain ⟨used', ts', split, outer, inner, left⟩ :=
        ctx.collapse (Nat.le_of_lt low) held fits (Nat.le_of_lt (Nat.lt_succ_of_lt low))
      rw [takeOperator_of_ofKind? spelled, tight] at step
      cases step
      rw [split, List.append_assoc]
      exact .wanting (.binary outer inner left joins)
  | none =>
      rw [takeOperator_of_unspelled spelled] at step
      split at step
      · next closes =>
        obtain ⟨state, taken, equal⟩ := Option.map_eq_some_iff.mp step
        cases equal
        exact ctx.takeClosing held closes taken
      · cases step

/-- One step of the reader follows the grammar. -/
theorem Follows.take {s next : State} {used : List Token} {t : Token} (h : Follows s used)
    (step : Parser.take s t = some (.ok next)) : Follows next (used ++ [t]) := by
  cases h with
  | wanting ctx => exact ctx.takeOperand step
  | holding ctx held => exact ctx.takeOperator held step

/-- A reader that is done holds a sentence. -/
theorem Follows.finish {s : State} {used : List Token} {e : Expr} (h : Follows s used)
    (done : Parser.finish s = .ok e) : Sentence used e := by
  cases h with
  | wanting ctx => cases done
  | @holding frames used ts operand ctx held =>
      have whole := ctx.enclosed held (Nat.le_succ_of_le (innerRank_le_unary frames))
      simp only [Parser.finish] at done
      split at done
      · next heq =>
        rw [heq] at whole
        cases done
        exact whole
      · cases done

/-- A token that is refused after a whole expression is no binary operator. -/
theorem not_joint_of_refused {s : State} {t : Token} {e : Expr} (whole : Parser.finish s = .ok e)
    (refused : Parser.take s t = none) : t.kind ∉ joints := by
  cases s with
  | wanting frames => cases whole
  | holding frames operand =>
      intro joint
      refine mem_joints_iff.mp joint ?_
      cases spelled : BinaryOp.ofKind? t.kind with
      | none => rfl
      | some op =>
          rw [Parser.take, takeOperator_of_ofKind? spelled] at refused
          cases refused

/-- A run that ends well has read a sentence, and stops at a token that does not
continue it. -/
theorem read_sound {tokens rest : List Token} {s : State} {used : List Token} {e : Expr}
    (h : Follows s used) (done : Parser.read s tokens = .ok e rest) :
    ∃ ts, tokens = ts ++ rest ∧ Sentence (used ++ ts) e ∧
      (rest.headD Token.pastEnd).kind ∉ joints := by
  -- the tokens used so far grow by one at each step
  induction tokens generalizing s used with
  | nil =>
      simp only [Parser.read, stop] at done
      split at done
      · next whole =>
        cases done
        refine ⟨[], rfl, ?_, by decide⟩
        rw [List.append_nil]
        exact h.finish whole
      · cases done
  | cons t more ih =>
      simp only [Parser.read] at done
      split at done
      · next refused =>
        simp only [stop] at done
        split at done
        · next whole =>
          cases done
          refine ⟨[], rfl, ?_, not_joint_of_refused whole refused⟩
          rw [List.append_nil]
          exact h.finish whole
        · cases done
      · next next step =>
        obtain ⟨ts, split, sentence, ends⟩ := ih (h.take step) done
        refine ⟨t :: ts, by rw [split, List.cons_append], ?_, ends⟩
        rwa [List.append_assoc, List.singleton_append] at sentence
      · cases done

/-! ## Completeness -/

/-- The rank at which a completed part stands; parentheses are not completed by
what is inside them. -/
def outerRank : Frame → Nat
  | .paren => 0
  | .unary _ => Level.unary.rank
  | .binary _ op => op.level

/-- `Completes level top x e`: the parts `top` stand at `level` or tighter, and
complete `x` to `e`. -/
structure Completes (level : Level) (top : List Frame) (x e : Expr) : Prop where
  tight : ∀ frame ∈ top, level.rank ≤ outerRank frame
  whole : enclosed top x = (e, none)

theorem Completes.nil (level : Level) (e : Expr) : Completes level [] e e :=
  ⟨fun _ member => absurd member List.not_mem_nil, rfl⟩

theorem Completes.loosen {level target : Level} {top : List Frame} {x e : Expr}
    (h : Completes level top x e) (le : target.rank ≤ level.rank) : Completes target top x e :=
  ⟨fun frame member => Nat.le_trans le (h.tight frame member), h.whole⟩

/-- What completes an operand is passed through on the way to the parts outside. -/
theorem enclosed_append {top outer : List Frame} {x e : Expr}
    (h : enclosed top x = (e, none)) : enclosed (top ++ outer) x = enclosed outer e := by
  induction top generalizing x with
  | nil => cases h; rfl
  | cons frame rest ih =>
      cases frame with
      | paren => cases h
      | unary op => exact ih h
      | binary l op => exact ih h

theorem Completes.collapse {level : Level} {top outer : List Frame} {x e : Expr}
    (h : Completes level top x e) :
    collapse level.rank (top ++ outer) x = collapse level.rank outer e := by
  obtain ⟨tight, whole⟩ := h
  induction top generalizing x with
  | nil => cases whole; rfl
  | cons frame rest ih =>
      have inner := fun f member => tight f (List.mem_cons_of_mem frame member)
      cases frame with
      | paren => cases whole
      | unary op => exact ih inner whole
      | binary l op =>
          have first : level.rank ≤ op.level := tight (.binary l op) List.mem_cons_self
          simp only [List.cons_append, Parser.collapse, if_pos first]
          exact ih inner whole

/-- One more part around a completed operand. -/
theorem Completes.snoc {level inner : Level} {top : List Frame} {frame : Frame} {x e whole : Expr}
    (h : Completes inner top x e) (le : level.rank ≤ inner.rank)
    (outside : level.rank ≤ outerRank frame) (ends : enclosed [frame] e = (whole, none)) :
    Completes level (top ++ [frame]) x whole := by
  refine ⟨fun f member => ?_, ?_⟩
  · rcases List.mem_append.mp member with inTop | last
    · exact Nat.le_trans le (h.tight f inTop)
    · rw [List.mem_singleton.mp last]
      exact outside
  · rw [enclosed_append h.whole]
    exact ends

/-- Parts that bind more loosely stay as they are. -/
theorem collapse_of_innerRank_le {level : Level} {frames : List Frame} {e : Expr}
    (loose : innerRank frames ≤ level.rank) (below : level.rank < Level.unary.rank) :
    collapse level.rank frames e = (frames, e) := by
  match frames with
  | [] => rfl
  | .paren :: _ => rfl
  | .unary _ :: _ =>
    simp only [innerRank] at loose
    omega
  | .binary _ op :: _ =>
    simp only [innerRank] at loose
    simp only [Parser.collapse]
    rw [if_neg (by omega)]

/-- A part that is wanted to the right of the innermost one. -/
theorem take_unary {frames : List Frame} {t : Token} {op : UnaryOp}
    (marks : (t.kind, op) ∈ unaryOperators) :
    take (.wanting frames) t = some (.ok (.wanting (.unary op :: frames))) :=
  takeOperand_of_ofKind? (mem_unaryOperators_iff.mp marks)

/-- Any other token is left to the primaries. -/
theorem take_wanting {frames : List Frame} {t : Token} (unmarked : UnaryOp.ofKind? t.kind = none) :
    take (.wanting frames) t = takePrimary frames t :=
  takeOperand_of_unspelled unmarked

theorem take_constant {frames : List Frame} {t : Token} {v : Value}
    (names : (t.kind, v) ∈ constants) :
    take (.wanting frames) t = some (.ok (.holding frames (.literal v))) := by
  simp only [constants, List.mem_cons, List.not_mem_nil, Prod.mk.injEq, or_false] at names
  rcases names with ⟨kind, rfl⟩ | ⟨kind, rfl⟩ | ⟨kind, rfl⟩ <;>
    rw [take_wanting (by rw [kind]; rfl), takePrimary, kind]

theorem take_payload {frames : List Frame} {t : Token} {v : Value}
    (kind : t.kind = .number ∨ t.kind = .string) (denotes : Denotes t.payload v) :
    take (.wanting frames) t = some (.ok (.holding frames (.literal v))) := by
  have value := literal_eq_ok_iff.mpr denotes
  rcases kind with kind | kind <;>
    rw [take_wanting (by rw [kind]; rfl), takePrimary, kind, value] <;> rfl

theorem take_leftParen {frames : List Frame} {t : Token} (kind : t.kind = .leftParen) :
    take (.wanting frames) t = some (.ok (.wanting (.paren :: frames))) := by
  rw [take_wanting (by rw [kind]; rfl), takePrimary, kind]

/-- An operator completes the left half that binds at least as tightly, and waits
for its right half. -/
theorem Completes.take_joint {level : Level} {top frames : List Frame} {x l : Expr} {t : Token}
    {op : BinaryOp} (h : Completes level top x l) (joins : (t.kind, op) ∈ level.operators)
    (loose : innerRank frames ≤ level.rank) :
    take (.holding (top ++ frames) x) t = some (.ok (.wanting (.binary l op :: frames))) := by
  obtain ⟨spelled, tight⟩ := mem_operators_iff.mp joins
  have below : level.rank < Level.unary.rank := by
    rw [← tight]
    exact Nat.lt_succ_of_le (level_le_factor op)
  rw [Parser.take, takeOperator_of_ofKind? spelled, tight, h.collapse,
    collapse_of_innerRank_le loose below]

/-- A closing parenthesis completes everything up to its partner. -/
theorem Completes.take_rightParen {level : Level} {top frames : List Frame} {x e : Expr}
    {t : Token} (h : Completes level top x e) (kind : t.kind = .rightParen) :
    take (.holding (top ++ .paren :: frames) x) t
      = some (.ok (.holding frames (.grouping e))) := by
  rw [Parser.take, takeOperator_of_unspelled (by rw [kind]; rfl), if_pos kind, takeClosing,
    enclosed_append h.whole]
  rfl

theorem read_of_take {s next : State} {t : Token} {rest : List Token}
    (step : take s t = some (.ok next)) : Parser.read s (t :: rest) = Parser.read next rest := by
  rw [Parser.read, step]

/-- On the tokens of a derivation the reader arrives at an operand under parts
that complete to the derived tree. -/
theorem Derives.reads {level : Level} {ts : List Token} {e : Expr} (h : Derives level ts e)
    (frames : List Frame) (rest : List Token) (loose : innerRank frames ≤ level.rank) :
    ∃ top x, Completes level top x e ∧
      Parser.read (.wanting frames) (ts ++ rest)
        = Parser.read (.holding (top ++ frames) x) rest := by
  -- for any stack and any tail, so that operands can stand inside other expressions
  induction h generalizing frames rest with
  | @tighter level next ts e step _ ih =>
      have higher := Level.rank_next step
      obtain ⟨top, x, completes, run⟩ := ih frames rest (by omega)
      exact ⟨top, x, completes.loosen (by omega), run⟩
  | @binary level next left right l r t op step joins _ _ ihl ihr =>
      have higher := Level.rank_next step
      have tight := (mem_operators_iff.mp joins).2
      obtain ⟨top, x, completes, run⟩ := ihl frames (t :: right ++ rest) loose
      obtain ⟨top', x', completes', run'⟩ :=
        ihr (.binary l op :: frames) rest (by simp only [innerRank]; omega)
      have outside : level.rank ≤ outerRank (.binary l op) := Nat.le_of_eq tight.symm
      refine ⟨top' ++ [.binary l op], x', completes'.snoc (by omega) outside rfl, ?_⟩
      rw [List.append_assoc, run, List.cons_append,
        read_of_take (completes.take_joint joins loose), run', List.append_assoc]
      rfl
  | @unary ts e t op marks _ ih =>
      obtain ⟨top, x, completes, run⟩ := ih (.unary op :: frames) rest (Nat.le_refl _)
      refine ⟨top ++ [.unary op], x, completes.snoc (Nat.le_refl _) (Nat.le_refl _) rfl, ?_⟩
      rw [List.cons_append, read_of_take (take_unary marks), run, List.append_assoc]
      rfl
  | @constant t v names =>
      exact ⟨[], .literal v, .nil _ _, read_of_take (take_constant names)⟩
  | @payload t v kind denotes =>
      exact ⟨[], .literal v, .nil _ _, read_of_take (take_payload kind denotes)⟩
  | @grouping ts e opening closing opens closes _ ih =>
      obtain ⟨top, x, completes, run⟩ := ih (.paren :: frames) (closing :: rest) (Nat.le_refl _)
      refine ⟨[], .grouping e, .nil _ _, ?_⟩
      rw [List.cons_append, List.cons_append, List.append_assoc, List.singleton_append,
        read_of_take (take_leftParen opens), run,
        read_of_take (completes.take_rightParen closes), List.nil_append]

/-- Behind a whole expression the reader stops at a token that is no binary
operator. -/
theorem Completes.read_stop {level : Level} {top : List Frame} {x e : Expr} {rest : List Token}
    (h : Completes level top x e) (ends : (rest.headD Token.pastEnd).kind ∉ joints) :
    Parser.read (.holding top x) rest = .ok e rest := by
  have done : finish (.holding top x) = .ok e := by
    rw [finish, h.whole]
  cases rest with
  | nil =>
      rw [Parser.read, stop, done]
  | cons t more =>
      have unspelled : BinaryOp.ofKind? t.kind = none :=
        Decidable.not_not.mp (fun spelled => ends (mem_joints_iff.mpr spelled))
      have refused : take (.holding top x) t = none := by
        rw [Parser.take, takeOperator_of_unspelled unspelled, takeClosing, h.whole]
        split <;> rfl
      rw [Parser.read, refused]
      simp only [stop, done]

/-- A sentence that no binary operator continues is read to its end. -/
theorem readExpr_of_sentence {ts rest : List Token} {e : Expr} (h : Sentence ts e)
    (ends : (rest.headD Token.pastEnd).kind ∉ joints) : readExpr (ts ++ rest) = .ok e rest := by
  obtain ⟨top, x, completes, run⟩ := h.reads [] rest (Nat.le_refl _)
  rw [readExpr, run, List.append_nil]
  exact completes.read_stop ends

/-- What is read is a sentence that no binary operator continues. -/
theorem sentence_of_readExpr {tokens rest : List Token} {e : Expr}
    (h : readExpr tokens = .ok e rest) :
    ∃ ts, tokens = ts ++ rest ∧ Sentence ts e ∧ (rest.headD Token.pastEnd).kind ∉ joints :=
  read_sound (.wanting .nil) h

/-! ## Positions -/

/-- The token at a position; past the list stands the end of input. -/
def tokenAt (tokens : List Token) (i : Nat) : Token := tokens.getD i Token.pastEnd

/-- Reading from position `i` gives the tree `e` and leaves the reader at
position `j`. -/
def ReadsTo (tokens : List Token) (i : Nat) (e : Expr) (j : Nat) : Prop :=
  ∃ rest, readExpr (tokens.drop i) = .ok e rest ∧ j = tokens.length - rest.length

/-- The tokens from position `i` up to `j` are a sentence that spells `e`, and the
token at `j` is no binary operator. -/
structure SentenceAt (tokens : List Token) (i : Nat) (e : Expr) (j : Nat) : Prop where
  ordered : i ≤ j
  bounded : j ≤ tokens.length
  sentence : Sentence (tokens.extract i j) e
  ends : (tokenAt tokens j).kind ∉ joints

theorem headD_drop (tokens : List Token) (j : Nat) :
    (tokens.drop j).headD Token.pastEnd = tokenAt tokens j := by
  rw [tokenAt, List.headD_eq_head?_getD, List.head?_drop, List.getD_eq_getElem?_getD]

/-- What stands between two positions, and what is left at the second. -/
theorem positions_of_drop {α : Type} {tokens ts rest : List α} {i : Nat}
    (split : tokens.drop i = ts ++ rest) (le : i ≤ tokens.length) :
    tokens.length - rest.length = i + ts.length ∧ i + ts.length ≤ tokens.length ∧
      tokens.extract i (i + ts.length) = ts ∧ tokens.drop (i + ts.length) = rest := by
  have lengths := congrArg List.length split
  rw [List.length_drop, List.length_append] at lengths
  refine ⟨by omega, by omega, ?_, ?_⟩
  · rw [List.extract_eq_take_drop, Nat.add_sub_cancel_left, split, List.take_left]
  · rw [← List.drop_drop, split, List.drop_left]

/-- **Exactness of the reader.** From any position of any token list, reading
gives a tree and moves to `j` exactly if the tokens up to `j` are a sentence that
spells the tree and the token at `j` continues no expression. At most one tree
and one `j` are so. -/
theorem readsTo_iff_sentenceAt (tokens : List Token) (i : Nat) :
    (∀ e j, ReadsTo tokens i e j ↔ SentenceAt tokens i e j) ∧
    (∀ e j e' j', SentenceAt tokens i e j → SentenceAt tokens i e' j' → e = e' ∧ j = j') := by
  have exact : ∀ e j, ReadsTo tokens i e j ↔ SentenceAt tokens i e j := by
    intro e j
    constructor
    · rintro ⟨rest, read, rfl⟩
      obtain ⟨ts, split, sentence, ends⟩ := sentence_of_readExpr read
      have le : i ≤ tokens.length := by
        refine Nat.le_of_not_lt fun beyond => ?_
        rw [List.drop_eq_nil_of_le (Nat.le_of_lt beyond)] at split
        exact sentence.ne_nil (List.append_eq_nil_iff.mp split.symm).1
      obtain ⟨position, bounded, taken, left⟩ := positions_of_drop split le
      rw [position]
      refine ⟨Nat.le_add_right _ _, bounded, taken.symm ▸ sentence, ?_⟩
      rw [← headD_drop, left]
      exact ends
    · rintro ⟨ordered, bounded, sentence, ends⟩
      have split : tokens.drop i = tokens.extract i j ++ tokens.drop j := by
        have parts := List.take_append_drop (j - i) (tokens.drop i)
        rw [List.drop_drop, Nat.add_sub_cancel' ordered] at parts
        rw [List.extract_eq_take_drop, parts]
      rw [← headD_drop] at ends
      refine ⟨tokens.drop j, ?_, by rw [List.length_drop]; omega⟩
      rw [split]
      exact readExpr_of_sentence sentence ends
  refine ⟨exact, fun e j e' j' h h' => ?_⟩
  obtain ⟨rest, read, rfl⟩ := (exact e j).mpr h
  obtain ⟨rest', read', rfl⟩ := (exact e' j').mpr h'
  rw [read] at read'
  cases read'
  exact ⟨rfl, rfl⟩

end Reckon.Grammar
