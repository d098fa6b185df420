import Reckon.Proofs.Numerals
import Reckon.Proofs.Safety

/-!
# The first operation that fails

An operator refuses some operands, and says what it wants instead
(`UnaryOp.Refuses`, `BinaryOp.Refuses`). Evaluation comes to the places of a tree in
an order of its own (`Expr.order`): operands before their operator, left before
right, and no place of a right operand that the left value makes superfluous. An
evaluation fails exactly if an operator is refused on the way, and it reports the
first one:

* what an operator computes is what it does not refuse (`UnaryOp.apply_judged`,
  `BinaryOp.apply_judged`);
* the first failure of an operand is that of the whole, if nothing fails in the
  places before the operand (`FirstFailure.below`).

`eval_first_failure` follows by induction over the tree.
-/

namespace Reckon

/-! ## What operators refuse -/

namespace Value

inductive IsNumber : Value → Prop
  | int (n : Int32) : IsNumber (.int n)
  | double (d : Double) : IsNumber (.double d)

/-- The integer zero, or the double of either sign. -/
inductive IsNumericZero : Value → Prop
  | int : IsNumericZero (.int 0)
  | double (negative : Bool) : IsNumericZero (.double (.finite negative ⟨0, by decide⟩))

end Value

/-- `op.Refuses v message`: the operator has no result at `v`, and what it says. -/
inductive UnaryOp.Refuses : UnaryOp → Value → Bytes → Prop
  | negative {v : Value} : ¬ v.IsNumber →
      Refuses .negative v (Bytes.ofString "Operand must be a number.")

/-- `op.Refuses l r message`: the operator has no result at `l` and `r`, and what it
says. -/
inductive BinaryOp.Refuses : BinaryOp → Value → Value → Bytes → Prop
  | numbers {op : BinaryOp} {l r : Value} :
      op ∈ [.less, .greater, .lessEq, .greaterEq, .subtract, .multiply] →
      ¬ (l.IsNumber ∧ r.IsNumber) → Refuses op l r (Bytes.ofString "Operands must be numbers.")
  | add {l r : Value} : ¬ (l.IsNumber ∧ r.IsNumber) → (∀ t, l ≠ .text t) → (∀ t, r ≠ .text t) →
      Refuses .add l r (Bytes.ofString "Operands must be two numbers or a string.")
  | zero {l r : Value} : r.IsNumericZero →
      Refuses .divide l r (Bytes.ofString "Cannot divide by zero")
  | divide {l r : Value} : ¬ r.IsNumericZero → ¬ (l.IsNumber ∧ r.IsNumber) →
      Refuses .divide l r (Bytes.ofString "Operands must be numbers.")

/-! ## Zeros -/

theorem nearest_pos {num : Nat} (positive : 0 < num) : 0 < nearest num 1 := by
  simp only [nearest, Nat.div_one, Nat.one_mul]
  by_cases small : num.log2 - 52 = 0
  · have whole := roundQuotient_exact num 1 Nat.one_pos
    rw [Nat.mul_one] at whole
    rw [small, Nat.zero_mul, Nat.zero_add, show Nat.pow 2 0 = 1 from rfl, whole]
    exact positive
  · have scaled : 0 < (num.log2 - 52) * binade :=
      Nat.mul_pos (Nat.pos_of_ne_zero small) (by decide)
    exact Nat.add_pos_left scaled _

theorem Double.position?_eq_zero_iff {d : Double} : d.position? = some 0 ↔
    ∃ negative, d = .finite negative ⟨0, by decide⟩ := by
  constructor
  · intro h
    cases d with
    | nan => cases h
    | infinite negative =>
        have bound : (rankBound : Int) ≠ 0 := by decide
        simp only [Double.position?, Option.some.injEq] at h
        split at h
        · omega
        · exact absurd h bound
    | finite negative rank =>
        refine ⟨negative, ?_⟩
        have zero : rank.val = 0 := by
          simp only [Double.position?, Option.some.injEq] at h
          split at h <;> omega
        congr 1
        exact Fin.ext zero
  · rintro ⟨negative, rfl⟩
    cases negative <;> rfl

theorem Double.position?_ofInt_zero : (Double.ofInt 0).position? = some 0 := by
  decide +kernel

theorem Double.equal_zero_iff {d : Double} : d.equal (Double.ofInt 0) = true ↔
    ∃ negative, d = .finite negative ⟨0, by decide⟩ := by
  rw [Double.equal, Double.related, Double.position?_ofInt_zero, ← Double.position?_eq_zero_iff]
  cases d.position? with
  | none => simp
  | some x => simp

theorem Double.ofInt_ne_zero {n : Int} (nonzero : n ≠ 0) (negative : Bool) :
    Double.ofInt n ≠ .finite negative ⟨0, by decide⟩ := by
  have magnitude : 0 < n.natAbs * quantaPerOne :=
    Nat.mul_pos (Int.natAbs_pos.mpr nonzero) (by decide +kernel)
  have positive := nearest_pos magnitude
  intro zero
  unfold Double.ofInt Double.ofQuanta Double.ofRank at zero
  split at zero
  · have rank := congrArg Fin.val (Double.finite.inj zero).2
    simp only at rank
    omega
  · cases zero

/-- Widening an integer does not make it a zero. -/
theorem Value.isZero_iff {v : Value} : v.isZero = true ↔ v.IsNumericZero := by
  cases v with
  | nil | bool | text => exact ⟨nofun, nofun⟩
  | double d =>
      simp only [Value.isZero, Value.toDouble?, Double.equal_zero_iff]
      constructor
      · rintro ⟨negative, rfl⟩
        exact .double negative
      · rintro ⟨negative⟩
        exact ⟨_, rfl⟩
  | int n =>
      simp only [Value.isZero, Value.toDouble?, Double.equal_zero_iff]
      constructor
      · rintro ⟨negative, widened⟩
        by_cases zero : n = 0
        · rw [zero]
          exact .int
        · have nonzero : n.toInt ≠ 0 := fun same => zero (Int32.toInt_inj.mp same)
          exact absurd widened (Double.ofInt_ne_zero nonzero negative)
      · rintro ⟨⟩
        exact Double.equal_zero_iff.mp (by decide +kernel)

/-! ## What operators compute -/

namespace Value

theorem toDouble?_cases (v : Value) :
    (v.IsNumber ∧ ∃ d, v.toDouble? = some d) ∨ (¬ v.IsNumber ∧ v.toDouble? = none) := by
  cases v with
  | int n => exact .inl ⟨.int n, _, rfl⟩
  | double d => exact .inl ⟨.double d, _, rfl⟩
  | nil | bool | text => exact .inr ⟨nofun, rfl⟩

theorem toDoubles?_cases (l r : Value) :
    ((l.IsNumber ∧ r.IsNumber) ∧ ∃ a b, toDoubles? l r = some (a, b)) ∨
      (¬ (l.IsNumber ∧ r.IsNumber) ∧ toDoubles? l r = none) := by
  unfold toDoubles?
  rcases l.toDouble?_cases with ⟨left, a, widened⟩ | ⟨left, widened⟩
  · rcases r.toDouble?_cases with ⟨right, b, widened'⟩ | ⟨right, widened'⟩
    · exact .inl ⟨⟨left, right⟩, a, b, by rw [widened, widened']⟩
    · exact .inr ⟨fun both => right both.2, by rw [widened, widened']⟩
  · exact .inr ⟨fun both => left both.1, by rw [widened]⟩

theorem negated_cases (v : Value) :
    (v.IsNumber ∧ ∃ w, v.negated = .ok w) ∨ (¬ v.IsNumber ∧ v.negated = .error .notNumber) := by
  cases v with
  | int n => exact .inl ⟨.int n, _, rfl⟩
  | double d => exact .inl ⟨.double d, _, rfl⟩
  | nil | bool | text => exact .inr ⟨nofun, rfl⟩

theorem compare_cases (rel : Double → Double → Bool) (l r : Value) :
    ((l.IsNumber ∧ r.IsNumber) ∧ ∃ v, compare rel l r = .ok v) ∨
      (¬ (l.IsNumber ∧ r.IsNumber) ∧ compare rel l r = .error .notNumbers) := by
  unfold compare
  rcases toDoubles?_cases l r with ⟨numbers, a, b, widened⟩ | ⟨misfit, widened⟩
  · exact .inl ⟨numbers, _, by rw [widened]⟩
  · exact .inr ⟨misfit, by rw [widened]⟩

theorem arithmetic_cases (onInts : Int32 → Int32 → Int32)
    (onDoubles : Double → Double → Double) (l r : Value) :
    ((l.IsNumber ∧ r.IsNumber) ∧ ∃ v, arithmetic onInts onDoubles l r = .ok v) ∨
      (¬ (l.IsNumber ∧ r.IsNumber) ∧ arithmetic onInts onDoubles l r = .error .notNumbers) := by
  unfold arithmetic
  split
  · exact .inl ⟨⟨.int _, .int _⟩, _, rfl⟩
  · rcases toDoubles?_cases l r with ⟨numbers, a, b, widened⟩ | ⟨misfit, widened⟩
    · exact .inl ⟨numbers, _, by rw [widened]⟩
    · exact .inr ⟨misfit, by rw [widened]⟩

theorem isText_iff {v : Value} : v.isText = true ↔ ∃ t, v = .text t := by
  cases v with
  | text t => exact ⟨fun _ => ⟨t, rfl⟩, fun _ => rfl⟩
  | nil | bool | int | double => exact ⟨nofun, nofun⟩

theorem plus_cases (l r : Value) :
    (((l.IsNumber ∧ r.IsNumber) ∨ (∃ t, l = .text t) ∨ ∃ t, r = .text t) ∧
        ∃ v, plus l r = .ok v) ∨
      ((¬ (l.IsNumber ∧ r.IsNumber) ∧ (∀ t, l ≠ .text t) ∧ ∀ t, r ≠ .text t) ∧
        plus l r = .error .notAddable) := by
  unfold plus
  split
  · exact .inl ⟨.inl ⟨.int _, .int _⟩, _, rfl⟩
  · split
    · next texts =>
      rw [Bool.or_eq_true, isText_iff, isText_iff] at texts
      exact .inl ⟨.inr texts, _, rfl⟩
    · next texts =>
      rw [Bool.or_eq_true, isText_iff, isText_iff, not_or, not_exists, not_exists] at texts
      rcases toDoubles?_cases l r with ⟨numbers, a, b, widened⟩ | ⟨misfit, widened⟩
      · exact .inl ⟨.inl numbers, _, by rw [widened]⟩
      · exact .inr ⟨⟨misfit, texts⟩, by rw [widened]⟩

end Value

/-- An outcome is a value if nothing is refused, and otherwise the refusal, charged to
the token. -/
def Judged (token : Except Fault Token) (refuses : Bytes → Prop) (outcome : Outcome) : Prop :=
  (∃ v, outcome = .ok v ∧ ∀ message, ¬ refuses message) ∨
    ∃ t message, token = .ok t ∧ refuses message ∧ outcome = .error (.runtime ⟨t, message⟩)

theorem judged_value {token : Except Fault Token} {refuses : Bytes → Prop}
    {result : Except Misfit Value} (h : ∃ v, result = .ok v)
    (accepts : ∀ message, ¬ refuses message) : Judged token refuses (charge token result) := by
  obtain ⟨v, rfl⟩ := h
  exact .inl ⟨v, rfl, accepts⟩

theorem judged_misfit {token : Except Fault Token} {refuses : Bytes → Prop}
    {result : Except Misfit Value} {misfit : Misfit} (known : ∃ t, token = .ok t)
    (h : result = .error misfit) (refused : refuses misfit.message) :
    Judged token refuses (charge token result) := by
  obtain ⟨t, rfl⟩ := known
  subst h
  exact .inr ⟨t, misfit.message, rfl, refused, rfl⟩

theorem UnaryOp.apply_judged {op : UnaryOp} (known : op ∈ UnaryOp.table) (v : Value) :
    Judged op.token (op.Refuses v) (op.apply v) := by
  have token := UnaryOp.exists_token known
  cases op with
  | unknown code => exact absurd known (Grammar.unary_unknown_not_mem code)
  | not =>
      refine .inl ⟨_, rfl, ?_⟩
      intro message refused
      cases refused
  | negative =>
      rw [UnaryOp.apply]
      rcases v.negated_cases with ⟨number, value⟩ | ⟨misfit, error⟩
      · refine judged_value value ?_
        rintro message ⟨refused⟩
        exact refused number
      · exact judged_misfit token error (.negative misfit)

theorem BinaryOp.apply_judged {op : BinaryOp} (known : op ∈ BinaryOp.table) (l r : Value) :
    Judged op.token (op.Refuses l r) (op.apply l r) := by
  have token := BinaryOp.exists_token known
  cases op with
  | unknown code => exact absurd known (Grammar.binary_unknown_not_mem code)
  | eq | notEq | or | and =>
      refine .inl ⟨_, rfl, ?_⟩
      intro message refused
      cases refused with
      | numbers member => exact absurd member (by decide)
  | less | greater | lessEq | greaterEq =>
      rw [BinaryOp.apply]
      rcases Value.compare_cases _ l r with ⟨numbers, value⟩ | ⟨misfit, error⟩
      · refine judged_value value ?_
        rintro message ⟨_, refused⟩
        exact refused numbers
      · exact judged_misfit token error (.numbers (by decide) misfit)
  | subtract | multiply =>
      rw [BinaryOp.apply]
      rcases Value.arithmetic_cases _ _ l r with ⟨numbers, value⟩ | ⟨misfit, error⟩
      · refine judged_value value ?_
        rintro message ⟨_, refused⟩
        exact refused numbers
      · exact judged_misfit token error (.numbers (by decide) misfit)
  | add =>
      rw [BinaryOp.apply]
      rcases Value.plus_cases l r with ⟨fit, value⟩ | ⟨⟨misfit, left, right⟩, error⟩
      · refine judged_value value ?_
        intro message refused
        cases refused with
        | numbers member => exact absurd member (by decide)
        | add misfit left right =>
            rcases fit with numbers | ⟨t, same⟩ | ⟨t, same⟩
            · exact misfit numbers
            · exact left t same
            · exact right t same
      · exact judged_misfit token error (.add misfit left right)
  | divide =>
      rw [BinaryOp.apply, Value.quotient]
      by_cases zero : r.isZero = true
      · -- the divisor is looked at before the dividend
        rw [if_pos zero]
        exact judged_misfit token rfl (.zero (Value.isZero_iff.mp zero))
      · rw [if_neg zero]
        rw [Value.isZero_iff] at zero
        rcases Value.arithmetic_cases _ _ l r with ⟨numbers, value⟩ | ⟨misfit, error⟩
        · refine judged_value value ?_
          intro message refused
          cases refused with
          | numbers member => exact absurd member (by decide)
          | zero isZero => exact zero isZero
          | divide _ misfit => exact misfit numbers
        · exact judged_misfit token error (.divide zero misfit)

/-! ## The order of evaluation -/

/-- The way from a node to one of its operands. -/
inductive Turn
  /-- To the only operand, of a grouping or a unary operator. -/
  | inner
  | left
  | right
  deriving DecidableEq, Repr

/-- Whether an operator ignores its right operand when its left one comes to this. -/
def BinaryOp.skips : BinaryOp → Outcome → Bool
  | .or, .ok (.bool true) => true
  | .and, .ok (.bool false) => true
  | _, _ => false

namespace Expr

/-- The node at the end of a path. -/
def node? : Expr → List Turn → Option Expr
  | e, [] => some e
  | .grouping e, .inner :: path => e.node? path
  | .unary _ e, .inner :: path => e.node? path
  | .binary l _ _, .left :: path => l.node? path
  | .binary _ _ r, .right :: path => r.node? path
  | _, _ :: _ => none

/-- The paths to the nodes of a tree in the order of evaluation: left operand, right
operand, node. Right operands that are skipped are left out. -/
def order : Expr → List (List Turn)
  | .missing | .literal _ => [[]]
  | .grouping e | .unary _ e => e.order.map (.inner :: ·) ++ [[]]
  | .binary l op r =>
    l.order.map (.left :: ·) ++ (if op.skips l.eval then [] else r.order.map (.right :: ·)) ++ [[]]

theorem node?_grouping (e : Expr) (path : List Turn) :
    (grouping e).node? (.inner :: path) = e.node? path := by rw [node?]

theorem node?_unary (op : UnaryOp) (e : Expr) (path : List Turn) :
    (unary op e).node? (.inner :: path) = e.node? path := by rw [node?]

theorem node?_left (l r : Expr) (op : BinaryOp) (path : List Turn) :
    (binary l op r).node? (.left :: path) = l.node? path := by rw [node?]

theorem node?_right (l r : Expr) (op : BinaryOp) (path : List Turn) :
    (binary l op r).node? (.right :: path) = r.node? path := by rw [node?]

/-- The symbol of the operator at the root. -/
def symbol? : Expr → Option Bytes
  | .unary op _ => op.symbol.toOption
  | .binary _ op _ => op.symbol.toOption
  | _ => none

end Expr

/-- `Fails node error`: the operands of a node have values, which its operator
refuses; the error has the token of the operator and what it says. -/
inductive Fails : Expr → RuntimeError → Prop
  | unary {op : UnaryOp} {e : Expr} {v : Value} {token : Token} {message : Bytes} :
      e.eval = .ok v → op.Refuses v message → op.token = .ok token →
      Fails (.unary op e) ⟨token, message⟩
  | binary {l r : Expr} {op : BinaryOp} {v w : Value} {token : Token} {message : Bytes} :
      l.eval = .ok v → r.eval = .ok w → op.Refuses v w message → op.token = .ok token →
      Fails (.binary l op r) ⟨token, message⟩

/-- No node at the end of one of the paths fails. -/
def Clear (e : Expr) (paths : List (List Turn)) : Prop :=
  ∀ path ∈ paths, ∀ node, e.node? path = some node → ∀ error, ¬ Fails node error

/-- The first node that fails, in the order of evaluation. -/
structure FirstFailure (e : Expr) (path : List Turn) (node : Expr) (error : RuntimeError) :
    Prop where
  found : e.node? path = some node
  fails : Fails node error
  first : ∃ before after, e.order = before ++ path :: after ∧ Clear e before

theorem BinaryOp.skips_iff {op : BinaryOp} {v : Value} :
    op.skips (.ok v) = true ↔ op.decidedBy? = some v := by
  cases op with
  | or | and =>
      cases v with
      | bool b => cases b <;> simp [BinaryOp.skips, BinaryOp.decidedBy?]
      | nil | int | double | text => simp [BinaryOp.skips, BinaryOp.decidedBy?]
  | _ => simp [BinaryOp.skips, BinaryOp.decidedBy?]

/-- What refuses operands looks at both of them. -/
theorem BinaryOp.Refuses.undecided {op : BinaryOp} {l r : Value} {message : Bytes}
    (h : op.Refuses l r message) : op.decidedBy? = none := by
  have table : ∀ op ∈ [BinaryOp.less, .greater, .lessEq, .greaterEq, .subtract, .multiply],
      op.decidedBy? = none := by decide
  cases h with
  | numbers member => exact table op member
  | add | zero | divide => rfl

/-! ## Failures of operands -/

theorem clear_nil (e : Expr) : Clear e [] := by
  intro path member
  cases member

theorem Clear.append {e : Expr} {paths more : List (List Turn)} (first : Clear e paths)
    (second : Clear e more) : Clear e (paths ++ more) := by
  intro path member
  rcases List.mem_append.mp member with here | there
  · exact first path here
  · exact second path there

section Operand

variable {e operand : Expr} {turn : Turn}
  (descends : ∀ path, e.node? (turn :: path) = operand.node? path)
include descends

theorem Clear.below {paths : List (List Turn)} (clear : Clear operand paths) :
    Clear e (paths.map (turn :: ·)) := by
  intro path member node found
  obtain ⟨path, inside, rfl⟩ := List.mem_map.mp member
  rw [descends] at found
  exact clear path inside node found

theorem FirstFailure.below {path : List Turn} {node : Expr} {error : RuntimeError}
    (failure : FirstFailure operand path node error) (before after : List (List Turn))
    (order : e.order = before ++ operand.order.map (turn :: ·) ++ after) (clear : Clear e before) :
    FirstFailure e (turn :: path) node error := by
  obtain ⟨found, fails, front, back, split, clearFront⟩ := failure
  refine ⟨(descends path).trans found, fails, before ++ front.map (turn :: ·),
    back.map (turn :: ·) ++ after, ?_, clear.append (clearFront.below descends)⟩
  rw [order, split]
  simp

end Operand

theorem Clear.root {e : Expr} (paths : List (List Turn)) (order : e.order = paths ++ [[]])
    (clear : Clear e paths) (unfailing : ∀ error, ¬ Fails e error) : Clear e e.order := by
  have last : Clear e [[]] := by
    intro path member node found
    rw [List.mem_singleton.mp member, Expr.node?] at found
    cases found
    exact unfailing
  rw [order]
  exact clear.append last

theorem FirstFailure.root {e : Expr} {paths : List (List Turn)} {error : RuntimeError}
    (order : e.order = paths ++ [[]]) (clear : Clear e paths) (fails : Fails e error) :
    FirstFailure e [] e error :=
  ⟨by rw [Expr.node?], fails, paths, [], order, clear⟩

/-! ## Failures of trees -/

/-- An evaluation comes to a value and nothing fails on the way, or to the error of
the first failure. -/
def Settled (e : Expr) : Prop :=
  (∃ v, e.eval = .ok v ∧ Clear e e.order) ∨
    ∃ error path node, e.eval = .error (.runtime error) ∧ FirstFailure e path node error

theorem settled_grouping {e : Expr} (h : Settled e) : Settled (.grouping e) := by
  rcases h with ⟨v, value, clear⟩ | ⟨error, path, node, failed, failure⟩
  · refine .inl ⟨v, value, Clear.root _ rfl (clear.below (Expr.node?_grouping e)) ?_⟩
    intro error fails
    cases fails
  · exact .inr ⟨error, .inner :: path, node, failed,
      failure.below (Expr.node?_grouping e) [] [[]] rfl (clear_nil _)⟩

theorem settled_unary {op : UnaryOp} (known : op ∈ UnaryOp.table) {e : Expr} (h : Settled e) :
    Settled (.unary op e) := by
  rcases h with ⟨v, value, clear⟩ | ⟨error, path, node, failed, failure⟩
  · have clear := clear.below (Expr.node?_unary op e)
    have result : (Expr.unary op e).eval = op.apply v := by rw [Expr.eval, value]
    rcases op.apply_judged known v with ⟨w, applied, accepts⟩ |
      ⟨token, message, owner, refuses, applied⟩
    · refine .inl ⟨w, result.trans applied, Clear.root _ rfl clear ?_⟩
      intro error fails
      cases fails with
      | unary value' refused _ =>
          cases value.symm.trans value'
          exact accepts _ refused
    · exact .inr ⟨_, [], _, result.trans applied,
        FirstFailure.root rfl clear (.unary value refuses owner)⟩
  · refine .inr ⟨error, .inner :: path, node, by rw [Expr.eval, failed], ?_⟩
    exact failure.below (Expr.node?_unary op e) [] [[]] rfl (clear_nil _)

section Binary

variable {l r : Expr} {op : BinaryOp} {v : Value}

/-- A left value that decides: the order goes on with the node itself. -/
theorem settled_skipping (value : l.eval = .ok v) (clear : Clear l l.order)
    (decides : op.decidedBy? = some v) : Settled (.binary l op r) := by
  have skips : op.skips l.eval = true := by rw [value, BinaryOp.skips_iff, decides]
  have order : (Expr.binary l op r).order = l.order.map (.left :: ·) ++ [[]] := by
    rw [Expr.order, if_pos skips, List.append_nil]
  have result : (Expr.binary l op r).eval = .ok v := by
    rw [Expr.eval, value]
    exact if_pos decides
  refine .inl ⟨v, result, Clear.root _ order (clear.below (Expr.node?_left l r op)) ?_⟩
  intro error fails
  cases fails with
  | binary _ _ refused _ =>
      rw [refused.undecided] at decides
      cases decides

/-- A left value that does not decide: the right operand is next, and then the
operator. -/
theorem settled_applying (known : op ∈ BinaryOp.table) (value : l.eval = .ok v)
    (clear : Clear l l.order) (undecided : op.decidedBy? ≠ some v) (right : Settled r) :
    Settled (.binary l op r) := by
  have clear := clear.below (Expr.node?_left l r op)
  have order : (Expr.binary l op r).order =
      l.order.map (.left :: ·) ++ r.order.map (.right :: ·) ++ [[]] := by
    rw [Expr.order, if_neg]
    rw [value, BinaryOp.skips_iff]
    exact undecided
  rcases right with ⟨w, value', clear'⟩ | ⟨error, path, node, failed, failure⟩
  · have both := clear.append (clear'.below (Expr.node?_right l r op))
    have result : (Expr.binary l op r).eval = op.apply v w := by
      rw [Expr.eval, value, value']
      exact if_neg undecided
    rcases op.apply_judged known v w with ⟨x, applied, accepts⟩ |
      ⟨token, message, owner, refuses, applied⟩
    · refine .inl ⟨x, result.trans applied, Clear.root _ order both ?_⟩
      intro error fails
      cases fails with
      | binary first second refused _ =>
          cases value.symm.trans first
          cases value'.symm.trans second
          exact accepts _ refused
    · exact .inr ⟨_, [], _, result.trans applied,
        FirstFailure.root order both (.binary value value' refuses owner)⟩
  · refine .inr ⟨error, .right :: path, node, ?_,
      failure.below (Expr.node?_right l r op) _ _ order clear⟩
    rw [Expr.eval, value, failed]
    exact if_neg undecided

theorem settled_binary (known : op ∈ BinaryOp.table) (left : Settled l) (right : Settled r) :
    Settled (.binary l op r) := by
  rcases left with ⟨v, value, clear⟩ | ⟨error, path, node, failed, failure⟩
  · by_cases decides : op.decidedBy? = some v
    · exact settled_skipping value clear decides
    · exact settled_applying known value clear decides right
  · refine .inr ⟨error, .left :: path, node, by rw [Expr.eval, failed], ?_⟩
    have order : (Expr.binary l op r).order = [] ++ l.order.map (.left :: ·) ++
        ((if op.skips l.eval then [] else r.order.map (.right :: ·)) ++ [[]]) := by
      rw [Expr.order, List.append_assoc, List.nil_append]
    exact failure.below (Expr.node?_left l r op) _ _ order (clear_nil _)

end Binary

theorem Sound.settled {leaf : Value → Prop} {e : Expr} (h : Sound leaf e) : Settled e := by
  induction e with
  | missing => cases h
  | literal v =>
      refine .inl ⟨v, rfl, Clear.root [] rfl (clear_nil _) ?_⟩
      intro error fails
      cases fails
  | grouping e ih => exact settled_grouping (ih h)
  | unary op e ih => exact settled_unary h.1 (ih h.2)
  | binary l op r ihl ihr => exact settled_binary h.1 (ihl h.2.1) (ihr h.2.2)

theorem RuntimeError.text_synthetic (kind : Kind) (symbol message : Bytes) :
    RuntimeError.text ⟨Token.synthetic kind symbol, message⟩ =
      message ++ Bytes.ofString " at '" ++ symbol ++ Bytes.ofString "'" := by
  rw [RuntimeError.text]
  exact if_pos rfl

/-- An error names the operator by its symbol and has no line. -/
theorem Fails.text {node : Expr} {error : RuntimeError} (h : Fails node error) :
    ∃ symbol, node.symbol? = some symbol ∧
      error.text = error.message ++ Bytes.ofString " at '" ++ symbol ++ Bytes.ofString "'" := by
  cases h with
  | @unary op _ _ _ message _ _ owner =>
      rw [Expr.symbol?, UnaryOp.symbol]
      rw [UnaryOp.token] at owner
      cases spelling : op.spelling? with
      | none => simp [spelling] at owner
      | some spelled =>
          rw [spelling] at owner
          cases owner
          exact ⟨spelled.2, rfl, RuntimeError.text_synthetic _ _ message⟩
  | @binary _ _ op _ _ _ message _ _ _ owner =>
      rw [Expr.symbol?, BinaryOp.symbol]
      rw [BinaryOp.token] at owner
      cases spelling : op.spelling? with
      | none => simp [spelling] at owner
      | some spelled =>
          rw [spelling] at owner
          cases owner
          exact ⟨spelled.2, rfl, RuntimeError.text_synthetic _ _ message⟩

theorem Fails.operator {node : Expr} {error : RuntimeError} (h : Fails node error) :
    (∃ operand, node = .unary .negative operand) ∨
      ∃ l op r, node = .binary l op r ∧
        op ∈ [.less, .greater, .lessEq, .greaterEq, .subtract, .multiply, .add, .divide] := by
  cases h with
  | unary _ refuses _ =>
      cases refuses with
      | negative => exact .inl ⟨_, rfl⟩
  | binary _ _ refuses _ =>
      cases refuses with
      | numbers member =>
          exact .inr ⟨_, _, _, rfl, List.mem_append_left [BinaryOp.add, BinaryOp.divide] member⟩
      | add | zero | divide => exact .inr ⟨_, _, _, rfl, by decide⟩

/-- **Evaluation reports the first operation that fails.** A tree with all its parts
and known operators comes to a value, and then no operation fails on the way; or to
the error of the first node in the order of evaluation whose operator refuses its
operands, which have values themselves. The error has the token of that operator,
which is none of the equalities, connectives and `not`, and its text names the
operator by its symbol. -/
theorem eval_first_failure (e : Expr) (whole : Sound (fun _ => True) e) :
    (∃ v, e.eval = .ok v ∧ Clear e e.order) ∨
      ∃ error path node, e.eval = .error (.runtime error) ∧ FirstFailure e path node error ∧
        ((∃ operand, node = .unary .negative operand) ∨
          ∃ l op r, node = .binary l op r ∧
            op ∈ [.less, .greater, .lessEq, .greaterEq, .subtract, .multiply, .add, .divide]) ∧
        ∃ symbol, node.symbol? = some symbol ∧
          error.text = error.message ++ Bytes.ofString " at '" ++ symbol ++ Bytes.ofString "'" := by
  rcases whole.settled with value | ⟨error, path, node, failed, failure⟩
  · exact .inl value
  · exact .inr ⟨error, path, node, failed, failure, failure.fails.operator, failure.fails.text⟩

/-- Three operations would fail: a negation that is skipped, a division of `nil` by
zero, and a negation behind it. -/
theorem eval_first_failure_sample :
    let skipped : Expr := .binary (.literal (.bool true)) .or (.unary .negative (.literal .nil))
    let division : Expr := .binary (.literal .nil) .divide (.literal (.int 0))
    let last : Expr := .unary .negative (.literal (.text (Bytes.ofString "x")))
    let e : Expr := .binary skipped .eq (.grouping (.binary division .add last))
    Sound (fun _ => True) e ∧
      e.eval = .error (.runtime ⟨Token.synthetic .slash (Bytes.ofString "/"),
        Bytes.ofString "Cannot divide by zero"⟩) ∧
      ((∃ v, e.eval = .ok v ∧ Clear e e.order) ∨
        ∃ error path node, e.eval = .error (.runtime error) ∧ FirstFailure e path node error ∧
          ((∃ operand, node = .unary .negative operand) ∨
            ∃ l op r, node = .binary l op r ∧
              op ∈ [.less, .greater, .lessEq, .greaterEq, .subtract, .multiply, .add, .divide]) ∧
          ∃ symbol, node.symbol? = some symbol ∧
            error.text =
              error.message ++ Bytes.ofString " at '" ++ symbol ++ Bytes.ofString "'") := by
  intro skipped division last e
  have first : Sound (fun _ => True) skipped := ⟨by decide, trivial, by decide, trivial⟩
  have second : Sound (fun _ => True) division := ⟨by decide, trivial, trivial⟩
  have third : Sound (fun _ => True) last := ⟨by decide, trivial⟩
  have whole : Sound (fun _ => True) e := ⟨by decide, first, by decide, second, third⟩
  have divides : division.eval = .error (.runtime ⟨Token.synthetic .slash (Bytes.ofString "/"),
      Bytes.ofString "Cannot divide by zero"⟩) := by
    have zero : (Value.int 0).isZero = true := Value.isZero_iff.mpr .int
    simp only [division, Expr.eval, BinaryOp.decidedBy?, reduceCtorEq, if_false, BinaryOp.apply,
      Value.quotient, zero, if_true, charge]
    rfl
  have failed : e.eval = division.eval := by
    simp only [e, skipped, Expr.eval, BinaryOp.decidedBy?, reduceCtorEq, if_true, if_false, divides]
  exact ⟨whole, failed.trans divides, eval_first_failure e whole⟩

end Reckon
