import Reckon.Expr.Fault

/-!
# Expressions

Values, expression trees over them, and the fold that every printer is an
instance of. A fold works on the left operand, then the right one, then the
node, so of several faults in a tree it meets the first in that order.
-/

namespace Reckon

/-- A value: what a literal holds and what an expression evaluates to. -/
inductive Value
  | nil
  | bool (b : Bool)
  | int (n : Int32)
  | double (d : Double)
  | text (t : Bytes)
  deriving DecidableEq, Repr

/-- An expression tree. -/
inductive Expr
  /-- A place where an expression should be and is not. -/
  | missing
  | literal (value : Value)
  | grouping (inner : Expr)
  | unary (op : UnaryOp) (operand : Expr)
  | binary (left : Expr) (op : BinaryOp) (right : Expr)
  deriving DecidableEq, Repr

namespace Value

/-- The text of a value; a text is its own. -/
def display : Value → Bytes
  | nil => Bytes.ofString "nil"
  | bool b => truthWord b
  | int n => Bytes.ofInt n.toInt
  | double d => d.text .value
  | text t => t

/-- Only `nil` and `false` count as false. -/
def truthy : Value → Bool
  | nil => false
  | bool b => b
  | _ => true

end Value

/-- What to make of each form of expression. -/
structure Algebra (α : Type) where
  literal : Value → α
  grouping : α → α
  unary : UnaryOp → α → Except Fault α
  binary : α → BinaryOp → α → Except Fault α

namespace Expr

/-- Folds a tree from its leaves up. -/
def fold {α : Type} (alg : Algebra α) : Expr → Except Fault α
  | missing => .error .missingExpr
  | literal v => .ok (alg.literal v)
  | grouping e => do return alg.grouping (← e.fold alg)
  | unary op e => do alg.unary op (← e.fold alg)
  | binary l op r => do
    let left ← l.fold alg
    let right ← r.fold alg
    alg.binary left op right

/-- Makes of each expression itself. -/
def copying : Algebra Expr where
  literal := literal
  grouping := grouping
  unary op e := .ok (unary op e)
  binary l op r := .ok (binary l op r)

/-- Whether a tree has all its parts. -/
def isWhole : Expr → Bool
  | missing => false
  | literal _ => true
  | grouping e => e.isWhole
  | unary _ e => e.isWhole
  | binary l _ r => l.isWhole && r.isWhole

/-- Copying a whole tree gives the same tree. -/
theorem fold_copying (e : Expr) (whole : e.isWhole = true) : e.fold copying = .ok e := by
  induction e with
  | missing => cases whole
  | literal v => rfl
  | grouping e ih => simp only [fold, ih whole]; rfl
  | unary op e ih => simp only [fold, ih whole]; rfl
  | binary l op r ihl ihr =>
    simp only [isWhole, Bool.and_eq_true] at whole
    simp only [fold, ihl whole.1, ihr whole.2]
    rfl

end Expr

end Reckon
