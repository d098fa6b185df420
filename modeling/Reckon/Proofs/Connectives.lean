import Reckon.Proofs.Failing
import Reckon.Proofs.Reading

/-!
# Connectives

`or` and `and` look at their right operand only if the left one does not come to
exactly the boolean that decides. On outcomes both are one operation, `connect`,
with a deciding value each. It is associative, and two of them with different
deciding values distribute over each other from the left (`connect_assoc`,
`connect_distrib`). Two facts about trees follow:

* **grouping** — the chains that the reader builds from the left mean the same as
  chains built from the right, however long they are (`connectives_regroup`);
* **skipping** — operands that are skipped can be replaced by anything, in many
  places at once, and nothing changes (`eval_graft_skipped`).
-/

namespace Reckon

/-! ## One operation for both connectives -/

/-- The outcome of a connective that `d` decides, at the outcomes of its operands. -/
def connect (d : Value) : Outcome → Outcome → Outcome
  | .error failure, _ => .error failure
  | .ok v, right => if v = d then .ok v else right

theorem connect_decided (d : Value) (right : Outcome) : connect d (.ok d) right = .ok d := by
  simp [connect]

theorem connect_undecided {d v : Value} (differs : v ≠ d) (right : Outcome) :
    connect d (.ok v) right = right := by
  simp [connect, differs]

theorem connect_assoc (d : Value) (x y z : Outcome) :
    connect d (connect d x y) z = connect d x (connect d y z) := by
  cases x with
  | error failure => rfl
  | ok v =>
      by_cases decides : v = d
      · subst decides
        simp only [connect_decided]
      · simp only [connect_undecided decides]

/-- A left value that decides `d` does not decide `d'`, so the second copy of `x` is
looked at and decides again. -/
theorem connect_distrib {d d' : Value} (differ : d ≠ d') (x y z : Outcome) :
    connect d x (connect d' y z) = connect d' (connect d x y) (connect d x z) := by
  cases x with
  | error failure => rfl
  | ok v =>
      by_cases decides : v = d
      · subst decides
        simp only [connect_decided, connect_undecided differ]
      · simp only [connect_undecided decides]

namespace Expr

theorem eval_connective {op : BinaryOp} {d : Value} (decider : op.decidedBy? = some d)
    (l r : Expr) : (binary l op r).eval = connect d l.eval r.eval := by
  rw [eval]
  cases l.eval with
  | error failure => rfl
  | ok v =>
      by_cases decides : v = d
      · subst decides
        simp only [decider, if_true, connect_decided]
      · have undecided : op.decidedBy? ≠ some v := by
          rw [decider]
          intro same
          exact decides (Option.some.inj same).symm
        simp only [if_neg undecided, connect_undecided decides]
        -- past its left operand a connective is its right operand
        cases op with
        | or | and => cases r.eval <;> rfl
        | _ => cases decider

theorem eval_assoc {op : BinaryOp} {d : Value} (decider : op.decidedBy? = some d)
    (a b c : Expr) : (binary (binary a op b) op c).eval = (binary a op (binary b op c)).eval := by
  simp only [eval_connective decider]
  exact connect_assoc d a.eval b.eval c.eval

theorem eval_distrib {op op' : BinaryOp} {d d' : Value} (decider : op.decidedBy? = some d)
    (decider' : op'.decidedBy? = some d') (differ : d ≠ d') (a b c : Expr) :
    (binary a op (binary b op' c)).eval =
      (binary (binary a op b) op' (binary a op c)).eval := by
  simp only [eval_connective decider, eval_connective decider']
  exact connect_distrib differ a.eval b.eval c.eval

/-! ## Chains -/

/-- Operands joined by one operator, each taken up on the right of those before. -/
def leftChain (op : BinaryOp) (first : Expr) (rest : List Expr) : Expr :=
  rest.foldl (fun chain operand => binary chain op operand) first

/-- Operands joined by one operator, each standing to the left of all those behind. -/
def rightChain (op : BinaryOp) : Expr → List Expr → Expr
  | first, [] => first
  | first, second :: rest => binary first op (rightChain op second rest)

theorem leftChain_cons (op : BinaryOp) (first second : Expr) (rest : List Expr) :
    leftChain op first (second :: rest) = leftChain op (binary first op second) rest := rfl

/-- A chain from the left can be taken as one operand of what stands before it. -/
theorem eval_leftChain_binary {op : BinaryOp} {d : Value} (decider : op.decidedBy? = some d)
    (a first : Expr) (rest : List Expr) :
    (leftChain op (binary a op first) rest).eval = (binary a op (leftChain op first rest)).eval := by
  induction rest generalizing a first with
  | nil => rfl
  | cons second rest ih =>
      rw [leftChain_cons, leftChain_cons, ih (binary a op first) second, eval_assoc decider,
        eval_connective decider a, eval_connective decider a, ih first second]

theorem eval_leftChain {op : BinaryOp} {d : Value} (decider : op.decidedBy? = some d)
    (first : Expr) (rest : List Expr) :
    (leftChain op first rest).eval = (rightChain op first rest).eval := by
  induction rest generalizing first with
  | nil => rfl
  | cons second rest ih =>
      rw [leftChain_cons, eval_leftChain_binary decider, rightChain, eval_connective decider,
        eval_connective decider, ih second]

end Expr

namespace Grammar

/-- `Chained op ts first rest`: the tokens spell operands that bind more tightly than
the operator, with a token for the operator between any two. -/
inductive Chained (op : BinaryOp) : List Token → Expr → List Expr → Prop
  | last {level : Level} {ts : List Token} {e : Expr} :
      op.level < level.rank → Derives level ts e → Chained op ts e []
  | link {level : Level} {ts more : List Token} {t : Token} {e second : Expr} {rest : List Expr} :
      op.level < level.rank → Derives level ts e → BinaryOp.ofKind? t.kind = some op →
      Chained op more second rest → Chained op (ts ++ t :: more) e (second :: rest)

/-- A chain goes on from what was derived before it. -/
theorem Chained.derives {level : Level} {op : BinaryOp} {t : Token}
    (joins : (t.kind, op) ∈ level.operators) {ts : List Token} {first : Expr} {rest : List Expr}
    (chain : Chained op ts first rest) :
    ∀ {before : List Token} {l : Expr}, Derives level before l →
      Derives level (before ++ t :: ts) (Expr.leftChain op (.binary l op first) rest) := by
  induction chain generalizing t with
  | last tighter operand =>
      intro before l left
      exact left.join joins operand tighter
  | @link inner ts more joint e second rest tighter operand spells _ ih =>
      intro before l left
      have rank := (mem_operators_iff.mp joins).2
      have next := ih (mem_operators_iff.mpr ⟨spells, rank⟩) (left.join joins operand tighter)
      rw [List.append_assoc, List.cons_append] at next
      exact next

/-- The reader builds a chain from the left. -/
theorem Chained.sentence {op : BinaryOp} {ts : List Token} {first : Expr} {rest : List Expr}
    (chain : Chained op ts first rest) : Sentence ts (Expr.leftChain op first rest) := by
  have loosest : ∀ level : Level, Level.or.rank ≤ level.rank := by
    intro level
    cases level <;> simp [Level.rank]
  cases chain with
  | last tighter operand => exact operand.loosen (loosest _)
  | link tighter operand spells more =>
      obtain ⟨level, joins, _⟩ := exists_level spells
      have rank := (mem_operators_iff.mp joins).2
      have left := operand.loosen (show level.rank ≤ _ by omega)
      exact (more.derives joins left).loosen (loosest level)

end Grammar

/-- **Connectives can be regrouped.** `or` and `and` are associative and distribute
over each other from the left, whatever their operands come to: values of any kind,
failed operations or faults. So a chain of any length means the same from the left,
which is how the reader builds it, and from the right. -/
theorem connectives_regroup :
    (∀ a b c : Expr,
      (Expr.binary (.binary a .or b) .or c).eval = (Expr.binary a .or (.binary b .or c)).eval ∧
      (Expr.binary (.binary a .and b) .and c).eval = (Expr.binary a .and (.binary b .and c)).eval ∧
      (Expr.binary a .and (.binary b .or c)).eval =
        (Expr.binary (.binary a .and b) .or (.binary a .and c)).eval ∧
      (Expr.binary a .or (.binary b .and c)).eval =
        (Expr.binary (.binary a .or b) .and (.binary a .or c)).eval) ∧
    ∀ op ∈ [BinaryOp.or, .and], ∀ (first : Expr) (rest : List Expr),
      (Expr.leftChain op first rest).eval = (Expr.rightChain op first rest).eval ∧
      ∀ ts stop : List Token, Grammar.Chained op ts first rest →
        (stop.headD Token.pastEnd).kind ∉ Grammar.joints →
        Parser.readExpr (ts ++ stop) = .ok (Expr.leftChain op first rest) stop := by
  have disjunction : BinaryOp.or.decidedBy? = some (.bool true) := rfl
  have conjunction : BinaryOp.and.decidedBy? = some (.bool false) := rfl
  refine ⟨?_, ?_⟩
  · intro a b c
    refine ⟨Expr.eval_assoc disjunction a b c, Expr.eval_assoc conjunction a b c, ?_, ?_⟩
    · exact Expr.eval_distrib conjunction disjunction (by simp) a b c
    · exact Expr.eval_distrib disjunction conjunction (by simp) a b c
  · intro op connective first rest
    refine ⟨?_, ?_⟩
    · simp only [List.mem_cons, List.not_mem_nil, or_false] at connective
      rcases connective with rfl | rfl
      · exact Expr.eval_leftChain disjunction first rest
      · exact Expr.eval_leftChain conjunction first rest
    · intro ts stop chain ends
      exact Grammar.readExpr_of_sentence chain.sentence ends

/-- A chain of three, the second of which fails: `nil or -nil or true`. -/
theorem connectives_regroup_sample :
    let word (kind : Kind) : Token := ⟨kind, kind.name, 1, .absent⟩
    let ts := [word .kwNil, word .kwOr, word .minus, word .kwNil, word .kwOr, word .kwTrue]
    let first : Expr := .literal .nil
    let rest : List Expr := [.unary .negative first, .literal (.bool true)]
    Grammar.Chained .or ts first rest ∧
      (Expr.leftChain .or first rest).eval = (Expr.rightChain .or first rest).eval ∧
      Parser.readExpr (ts ++ [Token.pastEnd]) =
        .ok (Expr.leftChain .or first rest) [Token.pastEnd] := by
  intro word ts first rest
  have nil : Grammar.Derives .primary [word .kwNil] first := .constant (by decide)
  have negation : Grammar.Derives .unary [word .minus, word .kwNil] (.unary .negative first) :=
    .unary (by decide) (.tighter rfl nil)
  have truth : Grammar.Derives .primary [word .kwTrue] (.literal (.bool true)) :=
    .constant (by decide)
  have chain : Grammar.Chained .or ts first rest :=
    .link (by decide) nil rfl (.link (by decide) negation rfl (.last (by decide) truth))
  obtain ⟨means, reads⟩ := connectives_regroup.2 .or (by simp) first rest
  exact ⟨chain, means, reads ts [Token.pastEnd] chain (by decide)⟩

/-! ## Skipped operands -/

namespace Expr

theorem eval_skipping {l : Expr} {op : BinaryOp} (skips : op.skips l.eval = true) (r : Expr) :
    (binary l op r).eval = l.eval := by
  rw [eval]
  cases outcome : l.eval with
  | error failure => rfl
  | ok v =>
      rw [outcome, BinaryOp.skips_iff] at skips
      exact if_pos skips

/-- The tree with new trees in some of its places. Of two places one below the other,
the upper one counts. -/
def graft : Expr → (List Turn → Option Expr) → Expr
  | .missing, new? => (new? []).getD .missing
  | .literal v, new? => (new? []).getD (.literal v)
  | .grouping e, new? => (new? []).getD (.grouping (e.graft fun path => new? (.inner :: path)))
  | .unary op e, new? => (new? []).getD (.unary op (e.graft fun path => new? (.inner :: path)))
  | .binary l op r, new? =>
    (new? []).getD (.binary (l.graft fun path => new? (.left :: path)) op
      (r.graft fun path => new? (.right :: path)))

/-- The place is that of the right operand of a connective whose left operand
decides. -/
def Superfluous (e : Expr) (place : List Turn) : Prop :=
  ∃ path l op r, place = path ++ [.right] ∧ e.node? path = some (.binary l op r) ∧
    op.skips l.eval = true

/-- Trees are put only in places of skipped operands. -/
def OnlySkipped (e : Expr) (new? : List Turn → Option Expr) : Prop :=
  ∀ place new, new? place = some new → e.Superfluous place

theorem OnlySkipped.kept {e : Expr} {new? : List Turn → Option Expr} (h : e.OnlySkipped new?)
    {place : List Turn} (needed : ¬ e.Superfluous place) : new? place = none := by
  cases put : new? place with
  | none => rfl
  | some new => exact absurd (h place new put) needed

theorem not_superfluous_nil (e : Expr) : ¬ e.Superfluous [] := by
  rintro ⟨path, _, _, _, empty, _⟩
  exact List.append_ne_nil_of_right_ne_nil path (List.cons_ne_nil _ _) empty.symm

/-- Just below the root, only the right operand of a connective can be superfluous. -/
theorem superfluous_singleton {e : Expr} {turn : Turn} (h : e.Superfluous [turn]) :
    turn = .right ∧ ∃ l op r, e = .binary l op r ∧ op.skips l.eval = true := by
  obtain ⟨path, l, op, r, place, found, skips⟩ := h
  cases path with
  | nil =>
      rw [node?] at found
      cases place
      exact ⟨rfl, l, op, r, Option.some.inj found, skips⟩
  | cons => simp at place

/-- Operands on the left, and those of groupings and unary operators, stay in their
places. -/
theorem OnlySkipped.kept_operand {e : Expr} {new? : List Turn → Option Expr}
    (h : e.OnlySkipped new?) {turn : Turn} (other : turn ≠ .right) : new? [turn] = none := by
  apply h.kept
  intro superfluous
  exact other (superfluous_singleton superfluous).1

theorem not_superfluous_right {l r : Expr} {op : BinaryOp} (evaluated : op.skips l.eval ≠ true) :
    ¬ (binary l op r).Superfluous [.right] := by
  intro h
  obtain ⟨_, _, _, _, same, skips⟩ := superfluous_singleton h
  cases same
  exact evaluated skips

section Operand

variable {e operand : Expr} {turn : Turn}
  (descends : ∀ path, e.node? (turn :: path) = operand.node? path)
include descends

theorem Superfluous.below {place : List Turn} (h : e.Superfluous (turn :: place))
    (inside : place ≠ []) : operand.Superfluous place := by
  obtain ⟨path, l, op, r, split, found, skips⟩ := h
  cases path with
  | nil =>
      simp only [List.nil_append, List.cons.injEq] at split
      exact absurd split.2 inside
  | cons first path =>
      simp only [List.cons_append, List.cons.injEq] at split
      obtain ⟨rfl, rfl⟩ := split
      exact ⟨path, l, op, r, rfl, by rw [← descends, found], skips⟩

theorem OnlySkipped.below {new? : List Turn → Option Expr} (h : e.OnlySkipped new?)
    (kept : new? [turn] = none) : operand.OnlySkipped fun path => new? (turn :: path) := by
  intro place new put
  have inside : place ≠ [] := by
    intro empty
    simp only [empty, kept, reduceCtorEq] at put
  exact (h (turn :: place) new put).below descends inside

end Operand

end Expr

/-- **Skipped operands do not matter.** Right operands of connectives that the left
operand decides can be replaced by any trees, in any set of places at once, also by
trees that fail or are broken. The outcome stays the same: the value, the failed
operation or the fault. -/
theorem eval_graft_skipped (e : Expr) (new? : List Turn → Option Expr)
    (skipped : e.OnlySkipped new?) : (e.graft new?).eval = e.eval := by
  -- the root stays, and an operand that stays is the root of what is grafted below it
  have root : new? [] = none := skipped.kept e.not_superfluous_nil
  induction e generalizing new? with
  | missing => rw [Expr.graft, root, Option.getD_none]
  | literal v => rw [Expr.graft, root, Option.getD_none]
  | grouping e ih =>
      have kept : new? [.inner] = none := skipped.kept_operand (by simp)
      have inner := ih _ (skipped.below (Expr.node?_grouping e) kept) kept
      rw [Expr.graft, root, Option.getD_none, Expr.eval, inner, Expr.eval]
  | unary op e ih =>
      have kept : new? [.inner] = none := skipped.kept_operand (by simp)
      have inner := ih _ (skipped.below (Expr.node?_unary op e) kept) kept
      rw [Expr.graft, root, Option.getD_none, Expr.eval, inner, Expr.eval]
  | binary l op r ihl ihr =>
      have kept : new? [.left] = none := skipped.kept_operand (by simp)
      have left := ihl _ (skipped.below (Expr.node?_left l r op) kept) kept
      rw [Expr.graft, root, Option.getD_none]
      by_cases skips : op.skips l.eval = true
      · -- whatever is on the right now, the left operand decides as before
        have skips' := skips
        rw [← left] at skips'
        rw [Expr.eval_skipping skips', Expr.eval_skipping skips, left]
      · have kept := skipped.kept (Expr.not_superfluous_right skips)
        have right := ihr _ (skipped.below (Expr.node?_right l r op) kept) kept
        rw [Expr.eval, left, right, Expr.eval]

/-- Three replacements at once, two of them in one chain of `or`: by nothing, by an
operator without a meaning, and by an operation that fails. -/
theorem eval_graft_skipped_sample :
    let nil : Expr := .literal .nil
    let broken : Expr := .binary nil (.unknown 12) nil
    let failing : Expr := .unary .negative nil
    let tree (a b c : Expr) : Expr :=
      .binary (.grouping (.binary (.binary (.literal (.bool true)) .or a) .or b)) .notEq
        (.unary .not (.binary (.literal (.bool false)) .and c))
    let new? (place : List Turn) : Option Expr :=
      if place = [.left, .inner, .left, .right] then some .missing
      else if place = [.left, .inner, .right] then some broken
      else if place = [.right, .inner, .right] then some failing
      else none
    (tree nil nil nil).OnlySkipped new? ∧
      (tree nil nil nil).graft new? = tree .missing broken failing ∧
      (tree .missing broken failing).eval = (tree nil nil nil).eval := by
  intro nil broken failing tree new?
  have skipped : (tree nil nil nil).OnlySkipped new? := by
    intro place new put
    simp only [new?] at put
    split at put
    · next here => exact ⟨[.left, .inner, .left], _, _, _, here, rfl, rfl⟩
    · split at put
      · next here => exact ⟨[.left, .inner], _, _, _, here, rfl, rfl⟩
      · split at put
        · next here => exact ⟨[.right, .inner], _, _, _, here, rfl, rfl⟩
        · cases put
  have grafted : (tree nil nil nil).graft new? = tree .missing broken failing := rfl
  exact ⟨skipped, grafted, grafted ▸ eval_graft_skipped (tree nil nil nil) new? skipped⟩

end Reckon
